import Mathlib.Data.List.Basic
import ZoneRelay.Text.Basic

/-!
# Trimmed texts and words

* `trim_eq_self`, `trim_trim`: a text without a blank at either end is left as it is.
* `IsWord`: a word is a text that is not empty and holds no blank.
* `isWord_of_mem_fields`, `fields_cons`: the fields of a text are words, and words with a blank
  between them are its fields.
-/

namespace ZoneRelay.Text

variable {p : Char → Bool} {c : Char} {l r s w : List Char}

/-! ## Cutting off ends -/

theorem dropEnd_isPrefix (p : Char → Bool) (l : List Char) : dropEnd p l <+: l := by
  have h : (l.reverse.dropWhile p).reverse <+: l.reverse.reverse :=
    List.reverse_prefix.2 (List.dropWhile_suffix p)
  rwa [List.reverse_reverse] at h

/-- What is cut off at the end leaves the start. -/
theorem head?_dropEnd (h : c ∈ (dropEnd p l).head?) : c ∈ l.head? := by
  obtain ⟨r, hr⟩ := dropEnd_isPrefix p l
  rw [← hr, List.head?_append, Option.mem_def.1 h, Option.some_or]
  rfl

theorem dropEnd_last : ∀ c ∈ (dropEnd p l).getLast?, p c = false := by
  intro c hc
  unfold dropEnd at hc
  rw [List.getLast?_reverse] at hc
  have h := List.head?_dropWhile_not p l.reverse
  rw [Option.mem_def.1 hc] at h
  exact h

theorem dropEnd_append (h : p c = false) : dropEnd p (l ++ [c]) = l ++ [c] := by
  unfold dropEnd
  rw [List.reverse_append, List.reverse_singleton, List.singleton_append,
    List.dropWhile_cons_of_neg (by simp [h]), List.reverse_cons, List.reverse_reverse]

theorem dropEnd_eq_self (h : ∀ c ∈ l.getLast?, p c = false) : dropEnd p l = l := by
  rcases List.eq_nil_or_concat l with rfl | ⟨r, c, rfl⟩
  · rfl
  · rw [List.concat_eq_append] at h ⊢
    exact dropEnd_append (h c (by simp))

theorem trimStart_cons (h : isBlank c = false) : trimStart (c :: r) = c :: r := by
  simp [trimStart, h]

/-- A text without a blank at either end is left as it is. -/
theorem trim_eq_self (h1 : ∀ c ∈ s.head?, isBlank c = false)
    (h2 : ∀ c ∈ s.getLast?, isBlank c = false) : trim s = s := by
  have h3 : trimStart s = s := by
    cases s with
    | nil => rfl
    | cons c r => exact trimStart_cons (h1 c rfl)
  unfold trim
  rw [h3, dropEnd_eq_self h2]

theorem trim_last : ∀ c ∈ (trim s).getLast?, isBlank c = false :=
  dropEnd_last

theorem trim_head : ∀ c ∈ (trim s).head?, isBlank c = false := by
  intro c hc
  have h1 := List.head?_dropWhile_not isBlank s
  have h2 : (s.dropWhile isBlank).head? = some c := head?_dropEnd hc
  rw [h2] at h1
  exact h1

@[simp] theorem trim_trim (s : List Char) : trim (trim s) = trim s :=
  trim_eq_self trim_head trim_last

/-! ## Letters and digits -/

theorem toLower_cases (c : Char) : c.toLower = c ∨ ('a' ≤ c.toLower ∧ c.toLower ≤ 'z') := by
  unfold Char.toLower
  split
  · next h =>
    right
    have h1 : 65 ≤ c.val.toNat ∧ c.val.toNat ≤ 90 :=
      ⟨UInt32.le_iff_toNat_le.1 h.1, UInt32.le_iff_toNat_le.1 h.2⟩
    have h2 : (c.val + ('a'.val - 'A'.val)).toNat = c.val.toNat + 32 := by
      have h3 : (c.val + ('a'.val - 'A'.val)).toNat =
        (c.val.toNat + 32) % 2 ^ 32 := UInt32.toNat_add ..
      omega
    constructor <;> rw [Char.le_def, UInt32.le_iff_toNat_le, h2]
    · have h4 : 'a'.val.toNat = 97 := rfl
      omega
    · have h4 : 'z'.val.toNat = 122 := rfl
      omega
  · exact Or.inl rfl

/-- No letter is a blank or a dot. -/
theorem isBlank_letter (h : 'a' ≤ c ∧ c ≤ 'z') : isBlank c = false ∧ c ≠ '.' := by
  have h1 : 97 ≤ c.toNat ∧ c.toNat ≤ 122 :=
    ⟨UInt32.le_iff_toNat_le.1 h.1, UInt32.le_iff_toNat_le.1 h.2⟩
  constructor
  · have h2 : ∀ n < 123, 97 ≤ n → isBlank (Char.ofNat n) = false := by decide
    have h3 := h2 c.toNat (by omega) h1.1
    rwa [Char.ofNat_toNat] at h3
  · rintro rfl
    exact absurd h1.1 (by decide)

theorem toLower_toLower (c : Char) : c.toLower.toLower = c.toLower := by
  rcases toLower_cases c with h | h
  · rw [h]; exact h
  · unfold Char.toLower
    rw [dif_neg]
    rintro ⟨-, h1⟩
    have h2 : 97 ≤ c.toLower.val.toNat := UInt32.le_iff_toNat_le.1 h.1
    have h3 : c.toLower.val.toNat ≤ 90 := UInt32.le_iff_toNat_le.1 h1
    omega

theorem isBlank_toLower (h : isBlank c = false) : isBlank c.toLower = false := by
  rcases toLower_cases c with h1 | h1
  · rwa [h1]
  · exact (isBlank_letter h1).1

theorem digit_bounds (h : c.isDigit) : 48 ≤ c.toNat ∧ c.toNat ≤ 57 := by
  simpa [Char.isDigit, UInt32.le_iff_toNat_le] using h

theorem isBlank_of_isDigit (h : c.isDigit) : isBlank c = false := by
  obtain ⟨h1, h2⟩ := digit_bounds h
  simp only [isBlank, Bool.or_eq_false_iff, Bool.and_eq_false_iff, decide_eq_false_iff_not,
    beq_eq_false_iff_ne]
  omega

/-! ## Words -/

/-- A word: a text that is not empty and holds no blank. -/
structure IsWord (w : List Char) : Prop where
  ne_nil : w ≠ []
  solid : ∀ c ∈ w, isBlank c = false

theorem IsWord.trim (h : IsWord w) : trim w = w :=
  trim_eq_self (fun c hc => h.solid c (List.mem_of_mem_head? hc))
    fun c hc => h.solid c (List.mem_of_getLast? hc)

theorem IsWord.toLower (h : IsWord w) : IsWord (w.map Char.toLower) := by
  refine ⟨by simpa using h.ne_nil, fun c hc => ?_⟩
  obtain ⟨d, hd, rfl⟩ := List.mem_map.1 hc
  exact isBlank_toLower (h.solid d hd)

/-- The letters up to the next blank belong to one field. -/
theorem fieldsFrom_append (hw : ∀ c ∈ w, isBlank c = false) (before r : List Char) :
    fieldsFrom before (w ++ r) = fieldsFrom (w.reverse ++ before) r := by
  induction w generalizing before with
  | nil => rfl
  | cons c w ih =>
    have hc : isBlank c = false := hw c List.mem_cons_self
    rw [List.cons_append, fieldsFrom, if_neg (by simp [hc]),
      ih (fun d hd => hw d (List.mem_cons_of_mem _ hd)), List.reverse_cons, List.append_assoc]
    rfl

theorem fields_word (h : IsWord w) : fields w = [w] := by
  have h1 := fieldsFrom_append h.solid [] []
  rw [List.append_nil, List.append_nil] at h1
  unfold fields
  rw [h1, fieldsFrom, if_neg (by simpa using h.ne_nil), List.reverse_reverse]

/-- **A word in front of a blank is the first field.** -/
theorem fields_cons (h : IsWord w) (hc : isBlank c = true) (r : List Char) :
    fields (w ++ c :: r) = w :: fields r := by
  unfold fields
  rw [fieldsFrom_append h.solid, List.append_nil, fieldsFrom, if_pos hc,
    if_neg (by simpa using h.ne_nil), List.reverse_reverse]

theorem isWord_reverse (hs : ∀ c ∈ s, isBlank c = false) (h : ¬ s.isEmpty) : IsWord s.reverse :=
  ⟨by simpa using h, fun c hc => hs c (List.mem_reverse.1 hc)⟩

theorem isWord_of_mem_fieldsFrom {before : List Char} (hb : ∀ c ∈ before, isBlank c = false)
    (h : w ∈ fieldsFrom before s) : IsWord w := by
  fun_induction fieldsFrom before s with
  | case1 before hempty => cases h
  | case2 before hempty =>
    rw [List.mem_singleton.1 h]
    exact isWord_reverse hb hempty
  | case3 before c r hc hempty ih => exact ih (by simp) h
  | case4 before c r hc hempty ih =>
    rcases List.mem_cons.1 h with rfl | h
    · exact isWord_reverse hb hempty
    · exact ih (by simp) h
  | case5 before c r hc ih => exact ih (List.forall_mem_cons.2 ⟨by simpa using hc, hb⟩) h

/-- **The fields of a text are words.** -/
theorem isWord_of_mem_fields (h : w ∈ fields s) : IsWord w :=
  isWord_of_mem_fieldsFrom (by simp) h

end ZoneRelay.Text
