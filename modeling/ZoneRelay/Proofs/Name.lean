import Mathlib.Data.String.Basic
import ZoneRelay.Name
import ZoneRelay.Proofs.Text.Blank

/-!
# Normal forms of names

* `stem_normalize`, `normalize_normalize`: a normal form is its own normal form.
* `path_normalize`: a name and its normal form have the same labels.
* `ofPath_path`: the labels of a name make its normal form, so `path_inj`.
* `isWithin_iff`: a name lies within another if its labels from the root down go on from those.
-/

namespace ZoneRelay.Name

open Text

variable {s x y : String}

/-! ## Stems -/

theorem dropEnd_append_dot {l : List Char} (h : ∀ c ∈ l.getLast?, (c == '.') = false) :
    dropEnd (· == '.') (l ++ ['.']) = l := by
  have h1 := dropEnd_eq_self h
  unfold dropEnd at h1 ⊢
  rw [List.reverse_append, List.reverse_singleton, List.singleton_append,
    List.dropWhile_cons_of_pos (by rfl), h1]

/-- A stem does not start with a blank, for the blanks at the start are cut off first. -/
theorem stem_head : ∀ c ∈ (stem s).head?, isBlank c = false := by
  intro c hc
  unfold stem at hc
  rw [List.head?_map, Option.mem_def, Option.map_eq_some_iff] at hc
  obtain ⟨d, hd, rfl⟩ := hc
  exact isBlank_toLower (trim_head d (head?_dropEnd hd))

theorem stem_last : ∀ c ∈ (stem s).getLast?, (c == '.') = false := by
  intro c hc
  unfold stem at hc
  rw [List.getLast?_map, Option.mem_def, Option.map_eq_some_iff] at hc
  obtain ⟨d, hd, rfl⟩ := hc
  have h1 := dropEnd_last d hd
  rcases toLower_cases d with h | h
  · rw [h]; exact h1
  · simpa using (isBlank_letter h).2

theorem stem_lower : (stem s).map Char.toLower = stem s := by
  unfold stem
  rw [List.map_map]
  exact List.map_congr_left fun c _ => toLower_toLower c

theorem toList_ofStem {l : List Char} (h : l ≠ []) : (ofStem l).toList = l ++ ['.'] := by
  unfold ofStem
  rw [if_neg (by simpa using h), String.toList_ofList]

/-- A text that starts with no blank, does not end with a dot and is in lower case is the stem of
the name it makes. -/
theorem stem_ofStem {l : List Char} (h1 : ∀ c ∈ l.head?, isBlank c = false)
    (h2 : ∀ c ∈ l.getLast?, (c == '.') = false) (h3 : l.map Char.toLower = l) :
    stem (ofStem l) = l := by
  by_cases h : l = []
  · rw [h]
    decide
  · have h4 : trim (l ++ ['.']) = l ++ ['.'] := by
      refine trim_eq_self (fun c hc => ?_) (by simp; decide)
      rw [List.head?_append_of_ne_nil _ h] at hc
      exact h1 c hc
    rw [stem, toList_ofStem h, h4, dropEnd_append_dot h2, h3]

/-- **A normal form has the stem of its name.** -/
theorem stem_normalize (s : String) : stem (normalize s) = stem s :=
  stem_ofStem stem_head stem_last stem_lower

@[simp] theorem normalize_normalize (s : String) : normalize (normalize s) = normalize s := by
  rw [normalize, stem_normalize, normalize]

@[simp] theorem path_normalize (s : String) : path (normalize s) = path s := by
  unfold path labels
  rw [stem_normalize]

theorem normalize_ne_empty (s : String) : normalize s ≠ "" := by
  intro h
  have h1 := congrArg String.toList h
  by_cases h2 : stem s = []
  · rw [normalize, h2] at h1
    exact absurd h1 (by decide)
  · rw [normalize, toList_ofStem h2] at h1
    simp at h1

theorem toList_normalize (s : String) : (normalize s).toList = stem s ++ ['.'] := by
  by_cases h : stem s = []
  · unfold normalize
    rw [h]
    rfl
  · exact toList_ofStem h

/-- No normal form starts with a blank. -/
theorem head_normalize : ∀ c ∈ (normalize s).toList.head?, isBlank c = false := by
  intro c hc
  rw [toList_normalize, List.head?_append] at hc
  cases hs : (stem s).head? with
  | none =>
    rw [hs] at hc
    obtain rfl : '.' = c := by simpa using hc
    decide
  | some d =>
    rw [hs] at hc
    obtain rfl : d = c := by simpa using hc
    exact stem_head d hs

/-- The letters of a stem are those of the name, in lower case. -/
theorem mem_stem {c : Char} (h : c ∈ stem s) : ∃ d ∈ s.toList, d.toLower = c := by
  obtain ⟨d, hd, hdc⟩ := List.mem_map.1 h
  have htrim : d ∈ trim s.toList := (dropEnd_isPrefix _ _).subset hd
  exact ⟨d, List.dropWhile_subset _ ((dropEnd_isPrefix _ _).subset htrim), hdc⟩

/-- The normal form of a word is a word, for it has the word's letters and a dot. -/
theorem isWord_normalize (h : IsWord s.toList) : IsWord (normalize s).toList := by
  rw [toList_normalize]
  refine ⟨by simp, fun c hc => ?_⟩
  rcases List.mem_append.1 hc with h1 | h1
  · obtain ⟨d, hd, rfl⟩ := mem_stem h1
    exact isBlank_toLower (h.solid d hd)
  · rw [List.mem_singleton.1 h1]
    decide

/-- A normal form has no slash that is not in the name. -/
theorem slash_normalize (h : '/' ∉ s.toList) : '/' ∉ (normalize s).toList := by
  rw [toList_normalize, List.mem_append, not_or]
  refine ⟨fun h1 => ?_, by decide⟩
  obtain ⟨d, hd, hslash⟩ := mem_stem h1
  -- a slash is no letter, so it was one before
  rcases toLower_cases d with h2 | h2
  · exact h (by rwa [← hslash, h2])
  · rw [hslash] at h2
    exact absurd h2.1 (by decide)

theorem lower_normalize : ∀ c ∈ (normalize s).toList, c.toLower = c := by
  intro c hc
  rw [toList_normalize] at hc
  rcases List.mem_append.1 hc with h | h
  · exact List.map_inj_left.1 (stem_lower.trans (List.map_id _).symm) c h
  · rw [List.mem_singleton.1 h]
    decide

/-- A text and a normal form with a slash between them are a normal form. -/
theorem normalize_join (hx : ∀ c ∈ x.toList.head?, isBlank c = false)
    (hl : ∀ c ∈ x.toList, c.toLower = c) (hy : normalize y = y) :
    normalize (x ++ "/" ++ y) = x ++ "/" ++ y := by
  have hne : x.toList ++ '/' :: stem y ≠ [] := by simp
  have h1 : x ++ "/" ++ y = ofStem (x.toList ++ '/' :: stem y) := by
    refine String.toList_inj.1 ?_
    rw [toList_ofStem hne, String.toList_append, String.toList_append]
    conv_lhs => rw [← hy, toList_normalize]
    simp
  have hhead : ∀ c ∈ (x.toList ++ '/' :: stem y).head?, isBlank c = false := by
    intro c hc
    cases hs : x.toList with
    | nil =>
      rw [hs] at hc
      obtain rfl : '/' = c := by simpa using hc
      decide
    | cons d r =>
      rw [hs] at hc hx
      exact hx c (by simpa using hc)
  have hlast : ∀ c ∈ (x.toList ++ '/' :: stem y).getLast?, (c == '.') = false := by
    intro c hc
    rw [List.getLast?_append, List.getLast?_cons] at hc
    cases hs : (stem y).getLast? with
    | none =>
      rw [hs] at hc
      obtain rfl : '/' = c := by simpa using hc
      decide
    | some d =>
      rw [hs] at hc
      obtain rfl : d = c := by simpa using hc
      exact stem_last d hs
  have hlow : (x.toList ++ '/' :: stem y).map Char.toLower = x.toList ++ '/' :: stem y := by
    have h2 : x.toList.map Char.toLower = x.toList := (List.map_congr_left hl).trans (List.map_id _)
    rw [List.map_append, List.map_cons, h2, stem_lower]
    rfl
  rw [h1, normalize, stem_ofStem hhead hlast hlow]

theorem validate?_eq_some {n : String} (h : validate? s = some n) : n = normalize s := by
  unfold validate? at h
  split at h
  · exact (Option.some.inj h).symm
  · cases h

theorem validate?_normal (h : validate? s = some x) : validate? x = some x := by
  obtain rfl := validate?_eq_some h
  have h1 : isLegal (normalize s) = isLegal s := by
    unfold isLegal labels
    rw [stem_normalize, normalize_normalize]
  unfold validate? at h ⊢
  rw [h1, normalize_normalize]
  exact h

/-! ## Labels -/

/-- The pieces of a text, with the separator after each, make the text with one at its end. -/
theorem splitOn_flatMap (sep : Char) (l : List Char) :
    (splitOn sep l).flatMap (· ++ [sep]) = l ++ [sep] := by
  induction l with
  | nil => rfl
  | cons c r ih =>
    unfold splitOn
    by_cases h : c = sep
    · rw [if_pos h, List.flatMap_cons, ih, h]
      rfl
    · rw [if_neg h]
      cases hs : splitOn sep r with
      | nil => exact absurd hs (splitOn_ne_nil sep r)
      | cons piece more =>
        rw [hs] at ih
        simp only [List.flatMap_cons, List.cons_append] at ih ⊢
        rw [ih]

/-- **The labels of a name make its normal form.** -/
theorem ofPath_path (s : String) : ofPath (path s) = normalize s := by
  unfold ofPath path labels
  by_cases h : stem s = []
  · rw [normalize, h]
    rfl
  · have h0 : (stem s).isEmpty = false := by simpa using h
    have h1 : ((splitOn '.' (stem s)).reverse.map String.ofList).isEmpty = false := by
      simp [splitOn_ne_nil]
    simp only [h0, Bool.false_eq_true, if_false, h1]
    rw [← List.map_reverse, List.reverse_reverse]
    refine String.toList_inj.1 ?_
    rw [String.toList_join, normalize, toList_ofStem h, ← splitOn_flatMap '.' (stem s),
      List.map_map, List.flatMap_map]
    refine List.flatMap_congr fun piece _ => ?_
    simp

/-- Names with the same labels have the same normal form. -/
theorem path_inj {a b : String} (h : path a = path b) : normalize a = normalize b := by
  rw [← ofPath_path, h, ofPath_path]

theorem path_eq_iff {a b : String} : path a = path b ↔ normalize a = normalize b := by
  refine ⟨path_inj, fun h => ?_⟩
  rw [← path_normalize a, h, path_normalize]

theorem isWithin_iff {a b : String} : isWithin a b = true ↔ path b <+: path a :=
  List.isPrefixOf_iff_prefix

end ZoneRelay.Name
