import Mathlib.Data.Nat.Digits.Defs
import Mathlib.Data.String.Basic
import ZoneRelay.Json.Printer
import ZoneRelay.Proofs.Text.Blank
import ZoneRelay.Text.Decimal

/-!
# Numerals read back

* `ofDigits?_decimal`, `ofDigits?_padded`: the digits written for a number stand for that number,
  with zeros in front too.
* `padded_inj`, `padded_lt_iff`: numerals of one width are equal only for equal numbers, and they
  are in the order of numbers.
* `number_numeral`: the same for a numeral made of octets.
-/

namespace ZoneRelay

namespace Text

theorem digitValue?_eq {c : Char} (h : c.isDigit) : digitValue? c = some (c.toNat - 48) := by
  unfold digitValue?
  rw [if_pos h]
  rfl

/-- Reading digits is the value of digits, as long as there is nothing else. -/
theorem digitsFrom_eq {s : List Char} (h : ∀ c ∈ s, c.isDigit) (acc : Nat) :
    digitsFrom acc s = some (Nat.ofDigitChars 10 s acc) := by
  induction s generalizing acc with
  | nil => simp [digitsFrom]
  | cons c r ih =>
    have h1 := digitValue?_eq (h c List.mem_cons_self)
    simp only [digitsFrom, h1, Nat.ofDigitChars_cons]
    exact ih (fun d hd => h d (List.mem_cons_of_mem _ hd)) _

theorem ofDigits?_eq {s : List Char} (hne : s ≠ []) (h : ∀ c ∈ s, c.isDigit) :
    ofDigits? s = some (Nat.ofDigitChars 10 s 0) := by
  unfold ofDigits?
  rw [if_neg (by simpa using hne), digitsFrom_eq h]

theorem decimal_isDigit (n : Nat) : ∀ c ∈ decimal n, c.isDigit :=
  fun _ hc => Nat.isDigit_of_mem_toDigits (by decide) (by decide) hc

theorem decimal_ne_nil (n : Nat) : decimal n ≠ [] :=
  Nat.toDigits_ne_nil

/-- No digits but a single zero start with a zero. -/
theorem decimal_head {n : ℕ} (hn : 0 < n) : (decimal n).head? ≠ some '0' := by
  induction n using Nat.strong_induction_on with
  | _ n ih =>
    unfold decimal
    by_cases h : n < 10
    · have key : ∀ m < 10, 0 < m → ([Nat.digitChar m].head? ≠ some '0') := by decide
      rw [Nat.toDigits_of_lt_base h]
      exact key n h hn
    · rw [Nat.toDigits_of_base_le (by decide) (by omega), List.head?_append]
      have h1 := ih (n / 10) (by omega) (by omega)
      have h2 : (Nat.toDigits 10 (n / 10)).head?.isSome := by
        simp [Nat.toDigits_ne_nil]
      obtain ⟨c, hc⟩ := Option.isSome_iff_exists.1 h2
      rw [decimal, hc] at h1
      rw [hc, Option.some_or]
      exact h1

theorem length_decimal_le {n k : Nat} (hk : 0 < k) (h : n < 10 ^ k) : (decimal n).length ≤ k :=
  Nat.toDigits_length 10 n k hk h

theorem padded_isDigit (w n : Nat) : ∀ c ∈ padded w n, c.isDigit := by
  intro c hc
  rcases List.mem_append.1 hc with h | h
  · rw [List.eq_of_mem_replicate h]; decide
  · exact decimal_isDigit n c h

theorem padded_ne_nil (w n : Nat) : padded w n ≠ [] := by
  simp [padded, decimal_ne_nil]

theorem length_padded {w n : Nat} (hw : 0 < w) (h : n < 10 ^ w) : (padded w n).length = w := by
  have h1 := length_decimal_le hw h
  simp only [padded, List.length_append, List.length_replicate]
  omega

theorem ofDigitChars_padded (w n : Nat) : Nat.ofDigitChars 10 (padded w n) 0 = n := by
  unfold padded decimal
  rw [Nat.ofDigitChars_append, Nat.ofDigitChars_replicate_zero, Nat.mul_zero,
    Nat.ofDigitChars_ten_toDigits]

theorem ofDigits?_padded (w n : Nat) : ofDigits? (padded w n) = some n := by
  rw [ofDigits?_eq (padded_ne_nil w n) (padded_isDigit w n), ofDigitChars_padded]

theorem ofDigits?_decimal (n : Nat) : ofDigits? (decimal n) = some n := by
  rw [ofDigits?_eq (decimal_ne_nil n) (decimal_isDigit n)]
  exact congrArg some Nat.ofDigitChars_ten_toDigits

theorem padded_inj {w m n : Nat} (h : padded w m = padded w n) : m = n := by
  have h1 := ofDigits?_padded w m
  rw [h, ofDigits?_padded] at h1
  exact (Option.some.inj h1).symm

/-- Of two runs of digits of one length the one with more in front stands for the greater number. -/
theorem ofDigitChars_lt {s t : List Char} (hs : ∀ c ∈ s, c.isDigit) (ht : ∀ c ∈ t, c.isDigit)
    (hlen : s.length = t.length) {m n : Nat} (h : m < n) :
    Nat.ofDigitChars 10 s m < Nat.ofDigitChars 10 t n := by
  induction s generalizing t m n with
  | nil =>
    obtain rfl := List.length_eq_zero_iff.1 hlen.symm
    simpa using h
  | cons c s ih =>
    cases t with
    | nil => cases hlen
    | cons d t =>
      obtain ⟨-, hc⟩ := digit_bounds (hs c List.mem_cons_self)
      rw [Nat.ofDigitChars_cons, Nat.ofDigitChars_cons]
      refine ih (fun x hx => hs x (List.mem_cons_of_mem _ hx))
        (fun x hx => ht x (List.mem_cons_of_mem _ hx)) (Nat.succ.inj hlen) ?_
      have h0 : '0'.toNat = 48 := rfl
      omega

/-- **Runs of digits of one length** are in the order of the numbers they stand for. -/
theorem ofDigitChars_lt_of_lt {s t : List Char} (hs : ∀ c ∈ s, c.isDigit)
    (ht : ∀ c ∈ t, c.isDigit) (hlen : s.length = t.length) (h : s < t) (m : Nat) :
    Nat.ofDigitChars 10 s m < Nat.ofDigitChars 10 t m := by
  induction s generalizing t m with
  | nil =>
    obtain rfl := List.length_eq_zero_iff.1 hlen.symm
    exact absurd h (List.not_lt_nil _)
  | cons c s ih =>
    cases t with
    | nil => cases hlen
    | cons d t =>
      have hs' : ∀ x ∈ s, x.isDigit := fun x hx => hs x (List.mem_cons_of_mem _ hx)
      have ht' : ∀ x ∈ t, x.isDigit := fun x hx => ht x (List.mem_cons_of_mem _ hx)
      rw [Nat.ofDigitChars_cons, Nat.ofDigitChars_cons]
      rcases List.cons_lt_cons_iff.1 h with h1 | ⟨rfl, h1⟩
      · -- the first digit that differs decides
        obtain ⟨hc, -⟩ := digit_bounds (hs c List.mem_cons_self)
        have h2 : c.toNat < d.toNat := UInt32.lt_iff_toNat_lt.1 h1
        have h0 : '0'.toNat = 48 := rfl
        exact ofDigitChars_lt hs' ht' (Nat.succ.inj hlen) (by omega)
      · exact ih hs' ht' (Nat.succ.inj hlen) h1 _

/-- **Numerals of one width are in the order of numbers.** -/
theorem padded_lt_iff {w m n : Nat} (hw : 0 < w) (hm : m < 10 ^ w) (hn : n < 10 ^ w) :
    padded w m < padded w n ↔ m < n := by
  have forward : ∀ {m n : Nat}, m < 10 ^ w → n < 10 ^ w → padded w m < padded w n → m < n := by
    intro m n hm hn h
    have h1 := ofDigitChars_lt_of_lt (padded_isDigit w m) (padded_isDigit w n)
      (by rw [length_padded hw hm, length_padded hw hn]) h 0
    rwa [ofDigitChars_padded, ofDigitChars_padded] at h1
  refine ⟨forward hm hn, fun h => ?_⟩
  rcases lt_trichotomy (padded w m) (padded w n) with h1 | h1 | h1
  · exact h1
  · exact absurd (padded_inj h1) h.ne
  · exact absurd (forward hn hm h1) h.asymm

/-- A digit is no sign, so a numeral that starts with one is read as digits. -/
theorem unsigned?_eq {s : List Char} (h : ∀ c ∈ s, c.isDigit) : unsigned? s = ofDigits? s := by
  unfold unsigned?
  split
  · exact absurd (h '+' List.mem_cons_self) (by decide)
  · rfl

theorem below?_decimal {bound n : Nat} (h : n < bound) : below? bound (decimal n) = some n := by
  simp [below?, unsigned?_eq (decimal_isDigit n), ofDigits?_decimal, h]

theorem below?_padded {bound w n : Nat} (h : n < bound) : below? bound (padded w n) = some n := by
  simp [below?, unsigned?_eq (padded_isDigit w n), ofDigits?_padded, h]

end Text

namespace Ascii

theorem digit_code {c : Char} (h : c.isDigit) :
    isDigit (code c) = true ∧ digit (code c) = c.toNat - 48 := by
  obtain ⟨h1, h2⟩ := Text.digit_bounds h
  have h3 : (code c).toNat = c.toNat := by
    have h4 : (code c).toNat = c.toNat % 256 := UInt32.toNat_toUInt8 _
    omega
  have h5 : (code '0').toNat = 48 := rfl
  have h6 : (code '9').toNat = 57 := rfl
  constructor
  · simp only [isDigit, Bool.and_eq_true, decide_eq_true_eq, UInt8.le_iff_toNat_le]
    omega
  · unfold digit
    rw [UInt8.toNat_sub_of_le _ _ (UInt8.le_iff_toNat_le.2 (by omega))]
    omega

theorem number_map_code {s : List Char} (h : ∀ c ∈ s, c.isDigit) :
    number (s.map code) = Nat.ofDigitChars 10 s 0 := by
  have key : ∀ (s : List Char) (acc : Nat), (∀ c ∈ s, c.isDigit) →
      (s.map code).foldl (fun n b => 10 * n + digit b) acc = Nat.ofDigitChars 10 s acc := by
    intro s
    induction s with
    | nil => intro acc _; simp
    | cons c r ih =>
      intro acc h
      rw [List.map_cons, List.foldl_cons, (digit_code (h c List.mem_cons_self)).2,
        Nat.ofDigitChars_cons]
      exact ih _ fun d hd => h d (List.mem_cons_of_mem _ hd)
  exact key s 0 h

end Ascii

namespace Json

open Ascii

theorem isDigit_numeral (n : Nat) : ∀ b ∈ numeral n, isDigit b := by
  intro b hb
  obtain ⟨c, hc, rfl⟩ := List.mem_map.1 hb
  exact (digit_code (Text.decimal_isDigit n c hc)).1

theorem numeral_ne_nil (n : Nat) : numeral n ≠ [] := by
  simp [numeral, Text.decimal_ne_nil]

theorem number_numeral (n : Nat) : Ascii.number (numeral n) = n := by
  unfold numeral
  rw [number_map_code (Text.decimal_isDigit n)]
  exact Nat.ofDigitChars_ten_toDigits

end Json

end ZoneRelay
