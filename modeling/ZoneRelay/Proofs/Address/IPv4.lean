import Mathlib.Data.Nat.Digits.Defs
import ZoneRelay.Address.IPv4
import ZoneRelay.Proofs.Text.Blank
import ZoneRelay.Proofs.Text.Numeral

/-!
# IPv4 addresses read back

* `valueOf_toDigits`: the digits of a number have its value, to any base up to sixteen.
* `octet?_decimal`: a number of an address is read back, if no digit follows.
* `IPv4.read?_render`, `IPv4.parse?_render`: so is an address.
-/

namespace ZoneRelay

namespace Address

open Text

variable {b n : ℕ} {c : Char} {r : List Char}

/-! ## Digits -/

theorem mem_toDigits (hb : 1 < b) (h : c ∈ Nat.toDigits b n) : ∃ d < b, c = Nat.digitChar d := by
  induction n using Nat.strong_induction_on with
  | _ n ih =>
    by_cases hn : n < b
    · rw [Nat.toDigits_of_lt_base hn, List.mem_singleton] at h
      exact ⟨n, hn, h⟩
    · rw [Nat.toDigits_of_base_le hb (by omega), List.mem_append, List.mem_singleton] at h
      rcases h with h | h
      · exact ih (n / b) (Nat.div_lt_self (by omega) hb) h
      · exact ⟨n % b, Nat.mod_lt n (by omega), h⟩

theorem valueOf_concat (b : ℕ) (ds : List Char) (c : Char) :
    valueOf b (ds ++ [c]) = b * valueOf b ds + (hexValue? c).getD 0 := by
  unfold valueOf
  rw [List.foldl_append]
  rfl

/-- **The digits of a number have its value.** -/
theorem valueOf_toDigits (hb : 1 < b) (hb' : b ≤ 16) (n : ℕ) : valueOf b (Nat.toDigits b n) = n := by
  have digit : ∀ d < 16, (hexValue? (Nat.digitChar d)).getD 0 = d := by decide
  induction n using Nat.strong_induction_on with
  | _ n ih =>
    by_cases hn : n < b
    · rw [Nat.toDigits_of_lt_base hn, ← List.nil_append [_], valueOf_concat, digit n (by omega)]
      simp [valueOf]
    · have hmod : n % b < b := Nat.mod_lt n (by omega)
      rw [Nat.toDigits_of_base_le hb (by omega), valueOf_concat,
        ih (n / b) (Nat.div_lt_self (by omega) hb), digit (n % b) (by omega)]
      exact Nat.div_add_mod n b

/-- A run of characters of a class is taken whole, if none of the class follows. -/
theorem span_append {p : Char → Bool} {ds : List Char} (hd : ∀ c ∈ ds, p c = true)
    (hr : ∀ c ∈ r.head?, p c = false) :
    (ds ++ r).takeWhile p = ds ∧ (ds ++ r).dropWhile p = r := by
  rw [List.takeWhile_append_of_pos hd, List.dropWhile_append_of_pos hd]
  cases r with
  | nil => simp
  | cons c r => simp [hr c rfl]

/-! ## Numbers of an address -/

/-- **A number of an address is read back**, if no digit follows. -/
theorem octet?_decimal (n : UInt8) (hr : ∀ c ∈ r.head?, c.isDigit = false) :
    octet? (decimal n.toNat ++ r) = some (n, r) := by
  obtain ⟨h1, h2⟩ := span_append (p := isDecimalDigit) (decimal_isDigit n.toNat) hr
  have h3 : valueOf 10 (decimal n.toNat) = n.toNat := valueOf_toDigits (by decide) (by decide) _
  have hlt := n.toNat_lt
  have hlen : (decimal n.toNat).length ≤ 3 := length_decimal_le (by decide) (by omega)
  -- a number that starts with a zero is zero, and has one digit
  have hzero : (decimal n.toNat).head? = some '0' → (decimal n.toNat).length = 1 := by
    intro h
    rcases Nat.eq_zero_or_pos n.toNat with h4 | h4
    · rw [h4]
      rfl
    · exact absurd h (decimal_head h4)
  unfold octet?
  simp only [h1, h2, h3]
  rw [if_neg, UInt8.ofNat_toNat]
  simp only [Bool.or_eq_true, Bool.and_eq_true, decide_eq_true_eq, List.isEmpty_iff, beq_iff_eq,
    not_or, not_and]
  refine ⟨⟨⟨decimal_ne_nil _, by omega⟩, fun h => ?_⟩, by omega⟩
  rw [hzero h]
  decide

theorem octet?_of_head (h : ∀ c ∈ r.head?, c.isDigit = false) : octet? r = none := by
  have h1 : r.takeWhile isDecimalDigit = [] := by
    cases r with
    | nil => rfl
    | cons c r => exact List.takeWhile_cons_of_neg (by simp [isDecimalDigit, h c rfl])
  unfold octet?
  rw [h1]
  rfl

theorem char?_cons (c : Char) (r : List Char) : char? c (c :: r) = some r := by
  rw [char?, if_pos rfl]

end Address

namespace IPv4

open Address

variable {r : List Char}

/-- **An address is read back**, if no digit follows. -/
theorem read?_render (ip : IPv4) (hr : ∀ c ∈ r.head?, c.isDigit = false) :
    read? (ip.render ++ r) = some (ip, r) := by
  have hdot : ∀ s : List Char, ∀ c ∈ ('.' :: s).head?, c.isDigit = false := by
    intro s c hc
    obtain rfl : '.' = c := by simpa using hc
    decide
  unfold read? render
  simp only [List.append_assoc, List.cons_append]
  simp only [octet?_decimal _ (hdot _), octet?_decimal _ hr, char?_cons, Option.bind_eq_bind,
    Option.bind_some]

/-- **The text of an address is read as the address.** -/
theorem parse?_render (ip : IPv4) : parse? ip.render = some ip := by
  have h := read?_render (r := []) ip (by simp)
  rw [List.append_nil] at h
  unfold parse?
  rw [h]

/-- The text of an address is a word, of digits and dots. -/
theorem isWord_render (ip : IPv4) : Text.IsWord ip.render := by
  have digits : ∀ {n : ℕ} {c : Char}, c ∈ Text.decimal n → Text.isBlank c = false := fun h =>
    Text.isBlank_of_isDigit (Text.decimal_isDigit _ _ h)
  have dot : ∀ {c : Char}, c = '.' → Text.isBlank c = false := by
    rintro c rfl
    decide
  refine ⟨fun h => ?_, fun c hc => ?_⟩
  · have h1 := parse?_render ip
    rw [h] at h1
    cases h1
  · unfold render at hc
    simp only [List.append_assoc, List.cons_append, List.mem_append, List.mem_cons] at hc
    rcases hc with h | h | h | h | h | h | h
    · exact digits h
    · exact dot h
    · exact digits h
    · exact dot h
    · exact digits h
    · exact dot h
    · exact digits h

end IPv4

end ZoneRelay
