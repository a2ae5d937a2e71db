import ZoneRelay.Json.Parser
import ZoneRelay.Proofs.Text.Numeral

/-!
# JSON documents read back

* `text?_quoted`: a text between quotes is read back, whatever characters it holds.
* `number?_numeral`: a natural number is read back, if what follows ends it.
* `value?_render`: so is every plain value, and what follows it is left.
* `parse?_render`: reading a written document gives that document.

A value is plain if all its texts are legible and all its numbers natural. Only such values are
written here.
-/

namespace ZoneRelay.Json

open Ascii

/-! ## Texts -/

/-- A control is written with two digits to base sixteen, which name it again. -/
theorem hex4?_control : ∀ n < 32,
    hex4? (code '0') (code '0') (code (Nat.digitChar (n / 16))) (code (Nat.digitChar (n % 16))) =
      some n ∧ encodedBack n = [UInt8.ofNat n] := by
  decide +kernel

/-- A backslash and a letter stand for one octet. -/
theorem textFrom_letter {e x : UInt8} (h : e ≠ code 'u') (hx : escaped? e = some x)
    (acc r : Octets) : textFrom acc true (code '\\' :: e :: r) = textFrom (x :: acc) true r := by
  have h1 : (code '\\' = code '"') = False := eq_false (by decide)
  rw [textFrom.eq_def]
  simp only [h1, if_false, if_true, h, hx]

/-- An octet of a text, once escaped, is read as itself. -/
theorem textFrom_escape (b : UInt8) (acc r : Octets) :
    textFrom acc true (escape b ++ r) = textFrom (b :: acc) true r := by
  unfold escape
  split_ifs with h1 h2 h3 h4 h5 h6 h7 h8
  · subst h1; exact textFrom_letter (by decide) (by decide) acc r
  · subst h2; exact textFrom_letter (by decide) (by decide) acc r
  · have h4 : ¬ b < 0x20 := UInt8.not_lt.2 h3
    rw [List.cons_append, List.nil_append, textFrom.eq_def]
    simp only [h1, h2, h4, if_false]
  · subst h4; exact textFrom_letter (by decide) (by decide) acc r
  · subst h5; exact textFrom_letter (by decide) (by decide) acc r
  · subst h6; exact textFrom_letter (by decide) (by decide) acc r
  · subst h7; exact textFrom_letter (by decide) (by decide) acc r
  · subst h8; exact textFrom_letter (by decide) (by decide) acc r
  · have hb : b.toNat < 32 := UInt8.lt_iff_toNat_lt.1 (UInt8.not_le.1 h3)
    obtain ⟨h9, h10⟩ := hex4?_control b.toNat hb
    have h11 : (code '\\' = code '"') = False := eq_false (by decide)
    have h12 : (decide (0xD800 ≤ b.toNat) && decide (b.toNat < 0xDC00)) = false := by
      simp only [Bool.and_eq_false_iff, decide_eq_false_iff_not]; omega
    have h13 : (decide (0xDC00 ≤ b.toNat) && decide (b.toNat < 0xE000)) = false := by
      simp only [Bool.and_eq_false_iff, decide_eq_false_iff_not]; omega
    simp only [List.cons_append, List.nil_append]
    rw [textFrom.eq_def]
    simp only [h11, if_false, if_true, h9, h10, h12, h13, Bool.false_eq_true, UInt8.ofNat_toNat,
      List.cons_append, List.nil_append]

theorem textFrom_escaped (bs acc r : Octets) :
    textFrom acc true (bs.flatMap escape ++ code '"' :: r) =
      some (Octets.text? (acc.reverse ++ bs), r) := by
  induction bs generalizing acc with
  | nil => rw [List.flatMap_nil, List.nil_append, List.append_nil, textFrom.eq_def]; rfl
  | cons b bs ih =>
    rw [List.flatMap_cons, List.append_assoc, textFrom_escape, ih, List.reverse_cons,
      List.append_assoc, List.singleton_append]

/-- **A text is read back** from after its opening quote. -/
theorem text?_quoted (s : String) (r : Octets) :
    text? ((Octets.ofText s).flatMap escape ++ code '"' :: r) = some (some s, r) := by
  unfold text?
  rw [textFrom_escaped, List.reverse_nil, List.nil_append, Octets.text?_ofText]

theorem quoted_append (s : String) (r : Octets) :
    quoted s ++ r = code '"' :: ((Octets.ofText s).flatMap escape ++ code '"' :: r) := by
  simp [quoted]

/-! ## Numbers -/

/-- What follows a number and ends it. -/
def Ends (r : Octets) : Prop :=
  ∀ b ∈ r.head?, isDigit b = false ∧ b ≠ code '.' ∧ b ≠ code 'e' ∧ b ≠ code 'E'

theorem Ends.nil : Ends [] := by
  intro b hb; cases hb

theorem takeWhile_numeral (n : ℕ) {r : Octets} (hr : Ends r) :
    (numeral n ++ r).takeWhile isDigit = numeral n ∧ (numeral n ++ r).dropWhile isDigit = r := by
  rw [List.takeWhile_append_of_pos (isDigit_numeral n),
    List.dropWhile_append_of_pos (isDigit_numeral n)]
  cases r with
  | nil => simp
  | cons b r => simp [(hr b rfl).1]

theorem wholePart?_numeral (n : ℕ) {r : Octets} (hr : Ends r) :
    wholePart? (numeral n ++ r) = some (numeral n, r) := by
  obtain ⟨h1, h2⟩ := takeWhile_numeral n hr
  unfold wholePart?
  rw [h1, h2]
  cases hd : numeral n with
  | nil => exact absurd hd (numeral_ne_nil n)
  | cons d ds =>
    cases ds with
    | nil => rfl
    | cons e es =>
      -- a zero in front would have to be the whole numeral
      have h3 : d ≠ code '0' := by
        rintro rfl
        obtain ⟨c, t, hc, hc', -⟩ := List.map_eq_cons_iff.1 hd
        have h4 : c.isDigit := Text.decimal_isDigit n c (by rw [hc]; exact List.mem_cons_self)
        have h5 := (digit_code h4).2
        have h6 : c = '0' := by
          obtain ⟨h7, -⟩ := Text.digit_bounds h4
          rw [hc'] at h5
          have h8 : digit (code '0') = 0 := rfl
          exact Char.toNat_inj.1 (by rw [h8] at h5; have : '0'.toNat = 48 := rfl; omega)
        have h7 : 0 < n := by
          rcases Nat.eq_zero_or_pos n with h | h
          · subst h; simp [numeral, Text.decimal] at hd
          · exact h
        exact Text.decimal_head h7 (by rw [hc, h6]; rfl)
      simp [h3]

/-- **A natural number is read back**, if what follows ends it. -/
theorem number?_numeral (n : ℕ) {r : Octets} (hr : Ends r) :
    number? (numeral n ++ r) = some (.nat n, r) := by
  -- what follows starts neither a fraction nor an exponent
  have h1 : fraction? r = some (none, r) := by
    cases r with
    | nil => rfl
    | cons b r => simp [fraction?, (hr b rfl).2.1]
  have h2 : exponent? r = some (none, r) := by
    cases r with
    | nil => rfl
    | cons b r => simp [exponent?, (hr b rfl).2.2.1, (hr b rfl).2.2.2]
  have h3 : numberTail? false (numeral n ++ r) = some (.nat n, r) := by
    simp [numberTail?, wholePart?_numeral n hr, h1, h2, number_numeral]
  cases hd : numeral n with
  | nil => exact absurd hd (numeral_ne_nil n)
  | cons d ds =>
    have h4 : d ≠ code '-' := by
      rintro rfl
      exact absurd (isDigit_numeral n _ (by rw [hd]; exact List.mem_cons_self)) (by decide)
    rw [hd] at h3
    simp only [List.cons_append, number?, h4, if_false]
    exact h3

/-! ## Documents -/

mutual

/-- Whether all texts are legible and all numbers natural. -/
def plain : Json → Bool
  | .null | .bool _ | .string _ => true
  | .number (.nat _) => true
  | .number (.scaled ..) => false
  | .array items => plainItems items
  | .object members => plainMembers members
  | .garbled => false

/-- `plain` of every item. -/
def plainItems : List Json → Bool
  | [] => true
  | v :: r => plain v && plainItems r

/-- `plain` of every member's value. -/
def plainMembers : List (String × Json) → Bool
  | [] => true
  | (_, v) :: r => plain v && plainMembers r

end

theorem skip_cons {b : UInt8} {r : Octets} (h : isSpace b = false) : skip (b :: r) = b :: r := by
  simp [skip, h]

/-- A written value starts with an octet that is neither a blank nor a closing bracket. -/
theorem render_head (j : Json) : ∃ b t, render j = b :: t ∧ isSpace b = false ∧ b ≠ code ']' := by
  cases j with
  | null => exact ⟨_, _, rfl, by decide, by decide⟩
  | bool v => cases v <;> exact ⟨_, _, rfl, by decide, by decide⟩
  | number n =>
    have key : ∀ b : UInt8, isDigit b → isSpace b = false ∧ b ≠ code ']' := by
      intro b hb
      constructor
      · by_contra h
        simp only [isSpace, Bool.not_eq_false, Bool.or_eq_true, beq_iff_eq] at h
        rcases h with ((rfl | rfl) | rfl) | rfl <;> exact absurd hb (by decide)
      · rintro rfl; exact absurd hb (by decide)
    have num : ∀ n r, ∃ b t, numeral n ++ r = b :: t ∧ isSpace b = false ∧ b ≠ code ']' := by
      intro n r
      cases hd : numeral n with
      | nil => exact absurd hd (numeral_ne_nil n)
      | cons d ds =>
        exact ⟨d, ds ++ r, rfl, key d (isDigit_numeral n d (by rw [hd]; exact List.mem_cons_self))⟩
    cases n with
    | nat n => simpa [render, Number.render] using num n []
    | scaled neg m e =>
      cases neg with
      | true => exact ⟨_, _, rfl, by decide, by decide⟩
      | false => simpa [render, Number.render] using num m _
  | string s => exact ⟨_, _, rfl, by decide, by decide⟩
  | array items => exact ⟨_, _, rfl, by decide, by decide⟩
  | object members => exact ⟨_, _, rfl, by decide, by decide⟩
  | garbled => exact ⟨_, _, rfl, by decide, by decide⟩

theorem ends_cons {b : UInt8} {r : Octets} (h : b = code ',' ∨ b = code ']' ∨ b = code '\x7d') :
    Ends (b :: r) := by
  intro x hx
  simp only [List.head?_cons, Option.mem_def, Option.some.injEq] at hx
  subst hx
  rcases h with rfl | rfl | rfl <;> decide

/-- A digit starts a number and nothing else. -/
theorem value?_digit {b : UInt8} (hb : isDigit b) (fuel : ℕ) (r : Octets) :
    value? (fuel + 1) (b :: r) = (number? (b :: r)).map fun (n, r') => (.number n, r') := by
  have h : ∀ x : UInt8, isDigit x = false → b ≠ x := by
    rintro x hx rfl; rw [hx] at hb; cases hb
  have h1 : isSpace b = false := by
    simp only [isSpace, Bool.or_eq_false_iff, beq_eq_false_iff_ne]
    exact ⟨⟨⟨h _ (by decide), h _ (by decide)⟩, h _ (by decide)⟩, h _ (by decide)⟩
  rw [value?, skip_cons h1]
  simp only [h (code '{') (by decide), h (code '[') (by decide), h (code '"') (by decide),
    h (code 't') (by decide), h (code 'f') (by decide), h (code 'n') (by decide), if_false]

mutual

/-- **A value is read back**, and what follows it is left. -/
theorem value?_render : ∀ (j : Json) (fuel : ℕ) (r : Octets), plain j → (render j).length < fuel →
    Ends r → value? fuel (render j ++ r) = some (j, r)
  | j, 0, r, _, hf, _ => absurd hf (Nat.not_lt_zero _)
  | .null, fuel + 1, r, _, _, _ => by rw [value?]; rfl
  | .bool true, fuel + 1, r, _, _, _ => by rw [value?]; rfl
  | .bool false, fuel + 1, r, _, _, _ => by rw [value?]; rfl
  | .number (.nat n), fuel + 1, r, _, _, hr => by
    have h1 := number?_numeral n hr
    simp only [render, Number.render]
    cases hd : numeral n with
    | nil => exact absurd hd (numeral_ne_nil n)
    | cons d ds =>
      have h2 : isDigit d := isDigit_numeral n d (by rw [hd]; exact List.mem_cons_self)
      rw [hd] at h1
      rw [List.cons_append, value?_digit h2, ← List.cons_append, h1]
      rfl
  | .string s, fuel + 1, r, _, _, _ => by
    have h1 : skip (code '"' :: ((Octets.ofText s).flatMap escape ++ code '"' :: r)) =
        code '"' :: ((Octets.ofText s).flatMap escape ++ code '"' :: r) := skip_cons (by decide)
    rw [render, quoted_append, value?, h1]
    simp only [text?_quoted]
    rfl
  | .array [], fuel + 1, r, _, _, _ => by rw [value?]; rfl
  | .array (v :: items), fuel + 1, r, hp, hf, _ => by
    have h1 := items?_render v items fuel [] r hp (by
      simp only [render, List.length_cons, List.length_append, List.length_nil] at hf; omega)
    -- the reader looks ahead for a closing bracket, which starts no value
    obtain ⟨b, t, hb, hb1, hb2⟩ : ∃ b t, renderItems (v :: items) ++ code ']' :: r = b :: t ∧
        isSpace b = false ∧ b ≠ code ']' := by
      obtain ⟨b, t, h2, h3, h4⟩ := render_head v
      cases items with
      | nil => exact ⟨b, _, by rw [renderItems, h2]; rfl, h3, h4⟩
      | cons w ws => exact ⟨b, _, by rw [renderItems, h2]; rfl, h3, h4⟩
    have h2 : skip (code '[' :: (b :: t)) = code '[' :: (b :: t) := skip_cons (by decide)
    rw [render, List.cons_append, List.append_assoc, List.singleton_append, hb, value?, h2]
    have h3 : (code '[' = code '{') = False := eq_false (by decide)
    simp only [h3, if_false, if_true, skip_cons hb1, hb2]
    rw [← hb, h1]
    rfl
  | .object [], fuel + 1, r, _, _, _ => by rw [value?]; rfl
  | .object ((k, v) :: members), fuel + 1, r, hp, hf, _ => by
    have h1 := members?_render k v members fuel [] r hp (by
      simp only [render, List.length_cons, List.length_append] at hf; omega)
    obtain ⟨t, ht⟩ : ∃ t, renderMembers ((k, v) :: members) ++ code '\x7d' :: r =
        code '"' :: t := by
      cases members with
      | nil => exact ⟨_, by rw [renderMembers, quoted]; rfl⟩
      | cons m ms => exact ⟨_, by rw [renderMembers, quoted]; rfl⟩
    have h2 : skip (code '{' :: (code '"' :: t)) = code '{' :: (code '"' :: t) :=
      skip_cons (by decide)
    have h3 : skip (code '"' :: t) = code '"' :: t := skip_cons (by decide)
    rw [render, List.cons_append, List.append_assoc, List.singleton_append, ht, value?, h2]
    have h4 : (code '"' = code '}') = False := eq_false (by decide)
    simp only [if_true, h3, h4, if_false]
    rw [← ht, h1]
    rfl

/-- The items of an array are read back up to its closing bracket. -/
theorem items?_render : ∀ (v : Json) (items : List Json) (fuel : ℕ) (acc : List Json) (r : Octets),
    plainItems (v :: items) → (renderItems (v :: items)).length + 1 < fuel →
    items? fuel acc (renderItems (v :: items) ++ code ']' :: r) =
      some (.array (acc.reverse ++ v :: items), r)
  | v, items, 0, acc, r, _, hf => absurd hf (Nat.not_lt_zero _)
  | v, [], fuel + 1, acc, r, hp, hf => by
    simp only [plainItems, Bool.and_true] at hp
    have h1 := value?_render v fuel (code ']' :: r) hp (by
      simp only [renderItems] at hf; omega) (ends_cons (by simp))
    have h2 : skip (code ']' :: r) = code ']' :: r := skip_cons (by decide)
    have h3 : (code ']' = code ',') = False := eq_false (by decide)
    rw [renderItems, items?, h1]
    simp only [h2, h3, if_false, if_true, List.reverse_cons]
  | v, w :: items, fuel + 1, acc, r, hp, hf => by
    simp only [plainItems, Bool.and_eq_true] at hp
    simp only [renderItems, List.length_append, List.length_cons] at hf
    have h1 := value?_render v fuel (code ',' :: (renderItems (w :: items) ++ code ']' :: r)) hp.1
      (by omega) (ends_cons (by simp))
    have h2 := items?_render w items fuel (v :: acc) r
      (by simp only [plainItems, Bool.and_eq_true]; exact hp.2) (by omega)
    have h3 : ∀ t, skip (code ',' :: t) = code ',' :: t := fun t => skip_cons (by decide)
    rw [renderItems, List.append_assoc, List.cons_append, items?, h1]
    simp only [h3, if_true, h2, List.reverse_cons, List.append_assoc, List.singleton_append]

/-- The members of an object are read back up to its closing brace. -/
theorem members?_render : ∀ (k : String) (v : Json) (members : List (String × Json)) (fuel : ℕ)
    (acc : List (String × Json)) (r : Octets), plainMembers ((k, v) :: members) →
    (renderMembers ((k, v) :: members)).length < fuel →
    members? fuel acc true (renderMembers ((k, v) :: members) ++ code '\x7d' :: r) =
      some (.object (acc.reverse ++ (k, v) :: members), r)
  | k, v, members, 0, acc, r, _, hf => absurd hf (Nat.not_lt_zero _)
  | k, v, [], fuel + 1, acc, r, hp, hf => by
    simp only [plainMembers, Bool.and_true] at hp
    simp only [renderMembers, quoted, List.length_append, List.length_cons] at hf
    have h1 := value?_render v fuel (code '\x7d' :: r) hp (by omega) (ends_cons (by simp))
    have h2 : ∀ t, skip (code '"' :: t) = code '"' :: t := fun t => skip_cons (by decide)
    have h3 : ∀ t, skip (code ':' :: t) = code ':' :: t := fun t => skip_cons (by decide)
    have h4 : skip (code '\x7d' :: r) = code '\x7d' :: r := skip_cons (by decide)
    have h5 : (code '\x7d' = code ',') = False := eq_false (by decide)
    rw [renderMembers, List.append_assoc, List.cons_append, quoted_append, members?, h2]
    simp only [if_true, text?_quoted, h3, h1, h4, h5, if_false, Option.getD_some,
      Option.isSome_some, Bool.and_self, List.reverse_cons]
  | k, v, m :: members, fuel + 1, acc, r, hp, hf => by
    obtain ⟨k', v'⟩ := m
    simp only [plainMembers, Bool.and_eq_true] at hp
    simp only [renderMembers, quoted, List.length_append, List.length_cons] at hf
    have h1 := value?_render v fuel
      (code ',' :: (renderMembers ((k', v') :: members) ++ code '\x7d' :: r)) hp.1
      (by omega) (ends_cons (by simp))
    have h2 := members?_render k' v' members fuel ((k, v) :: acc) r
      (by simp only [plainMembers, Bool.and_eq_true]; exact hp.2) (by omega)
    have h3 : ∀ t, skip (code '"' :: t) = code '"' :: t := fun t => skip_cons (by decide)
    have h4 : ∀ t, skip (code ':' :: t) = code ':' :: t := fun t => skip_cons (by decide)
    have h5 : ∀ t, skip (code ',' :: t) = code ',' :: t := fun t => skip_cons (by decide)
    rw [renderMembers, List.append_assoc, List.cons_append, List.append_assoc, List.cons_append,
      quoted_append, members?, h3]
    simp only [if_true, text?_quoted, h4, h1, h5, Option.getD_some, Option.isSome_some,
      Bool.and_self, h2, List.reverse_cons, List.append_assoc, List.singleton_append]

end

/-- **Reading a written document gives that document.** -/
theorem parse?_render {j : Json} (h : plain j) : parse? (render j) = some j := by
  have h1 := value?_render j ((render j).length + 1) [] h (Nat.lt_succ_self _) Ends.nil
  rw [List.append_nil] at h1
  rw [parse?, h1]
  rfl

end ZoneRelay.Json
