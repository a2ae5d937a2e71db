import ZoneRelay.Proofs.Name

/-!
# Names within names

A name lies within another if its labels end with those of the other. On normal forms that is to end
with a dot and the other normal form, whatever blanks, dots and empty labels there are.

* `splitOn_append`: a text is split at a separator into the pieces on either side.
* `labels_eq_split`: the labels of a name are the pieces of its normal form.
* `labels_suffix_iff`: labels end alike if the stems do, from a dot on.
* `isWithin_iff_normalize`: what lies within a name, by normal forms.
* `normal_forms_agree`: normal forms, labels and the order of names fit together.
-/

namespace ZoneRelay.Name

open Text

variable {a b c : String}

/-! ## Pieces and stems -/

/-- A text with a separator in it falls into the pieces before it and those after it. -/
theorem splitOn_append (sep : Char) (l r : List Char) :
    splitOn sep (l ++ sep :: r) = splitOn sep l ++ splitOn sep r := by
  induction l with
  | nil => simp [splitOn]
  | cons c l ih =>
    rw [List.cons_append, splitOn, ih, splitOn]
    by_cases h : c = sep
    · rw [if_pos h, if_pos h, List.cons_append]
    · rw [if_neg h, if_neg h]
      cases hl : splitOn sep l with
      | nil => exact absurd hl (splitOn_ne_nil sep l)
      | cons piece more => rfl

theorem splitOn_inj {sep : Char} {l r : List Char} (h : splitOn sep l = splitOn sep r) : l = r := by
  have h1 := splitOn_flatMap sep l
  rw [h, splitOn_flatMap] at h1
  exact (List.append_cancel_right h1).symm

theorem labels_of_ne_nil (h : stem a ≠ []) : labels a = splitOn '.' (stem a) := by
  unfold labels
  rw [if_neg (by simpa using h)]

theorem labels_eq_nil : labels a = [] ↔ stem a = [] := by
  unfold labels
  split
  · next h => simpa using h
  · next h => simpa [splitOn_ne_nil] using h

/-- The labels of a name are those of its normal form, without the dots at its end. -/
theorem labels_eq_split (s : String) : labels s =
    if (dropEnd (· == '.') (normalize s).toList).isEmpty then []
    else splitOn '.' (dropEnd (· == '.') (normalize s).toList) := by
  rw [toList_normalize, dropEnd_append_dot stem_last, labels]

theorem normalize_eq_root : normalize a = "." ↔ stem a = [] := by
  rw [← String.toList_inj, toList_normalize]
  simp

theorem normalize_inj : normalize a = normalize b ↔ stem a = stem b := by
  rw [← String.toList_inj, toList_normalize, toList_normalize, List.append_left_inj]

/-- A normal form ends with a dot and another one if the stems do. -/
theorem exists_append_normalize :
    (∃ u, normalize a = u ++ "." ++ normalize b) ↔ ∃ u, stem a = u ++ '.' :: stem b := by
  have key : ∀ u : String, normalize a = u ++ "." ++ normalize b ↔
      stem a = u.toList ++ '.' :: stem b := by
    intro u
    have hdot : ".".toList = ['.'] := rfl
    -- both normal forms are a stem and a dot, which is taken off at the end
    rw [← String.toList_inj, String.toList_append, String.toList_append, toList_normalize,
      toList_normalize, hdot, List.append_assoc, List.singleton_append, ← List.cons_append,
      ← List.append_assoc, List.append_left_inj]
  constructor
  · rintro ⟨u, h⟩
    exact ⟨u.toList, (key u).1 h⟩
  · rintro ⟨u, h⟩
    exact ⟨String.ofList u, (key _).2 (by rwa [String.toList_ofList])⟩

/-! ## Names that end alike -/

theorem isWithin_iff_suffix : isWithin a b = true ↔ labels b <:+ labels a := by
  have hinj : Function.Injective String.ofList := fun _ _ h => String.ofList_injective h
  rw [isWithin_iff, path, path, List.map_reverse, List.map_reverse, List.reverse_prefix]
  exact List.suffix_map_iff_of_injective hinj

/-- **Labels end alike** if the stems are equal, or one ends with a dot and the other. -/
theorem labels_suffix_iff (hb : stem b ≠ []) :
    labels b <:+ labels a ↔ stem a = stem b ∨ ∃ u, stem a = u ++ '.' :: stem b := by
  constructor
  · rintro ⟨front, h⟩
    have ha : stem a ≠ [] := by
      intro h1
      rw [labels_eq_nil.2 h1, List.append_eq_nil_iff] at h
      exact hb (labels_eq_nil.1 h.2)
    rw [labels_of_ne_nil ha, labels_of_ne_nil hb] at h
    rcases List.eq_nil_or_concat front with rfl | ⟨ls, l, rfl⟩
    · exact Or.inl (splitOn_inj h).symm
    · -- the labels in front, each with its dot, and then those of the other name
      have h1 := splitOn_flatMap '.' (stem a)
      rw [← h, List.flatMap_append, splitOn_flatMap, List.concat_eq_append, List.flatMap_append,
        List.flatMap_singleton, ← List.append_assoc, ← List.append_assoc] at h1
      have hcut := List.append_cancel_right h1
      rw [List.append_assoc, List.singleton_append] at hcut
      exact Or.inr ⟨_, hcut.symm⟩
  · rintro (h | ⟨u, h⟩)
    · have hlabels : labels b = labels a := by
        unfold labels
        rw [h]
      exact hlabels ▸ List.suffix_rfl
    · rw [labels_of_ne_nil hb, labels_of_ne_nil (by simp [h]), h, splitOn_append]
      exact List.suffix_append _ _

/-- **What lies within a name**: everything within the root; and else the name itself, and what ends
with a dot and the name. -/
theorem isWithin_iff_normalize : isWithin a b = true ↔
    normalize b = "." ∨ normalize a = normalize b ∨ ∃ u, normalize a = u ++ "." ++ normalize b := by
  rw [isWithin_iff_suffix, normalize_eq_root, normalize_inj, exists_append_normalize]
  by_cases hb : stem b = []
  · simp [hb, labels_eq_nil.2 hb]
  · rw [labels_suffix_iff hb]
    simp [hb]

theorem isWithin_refl (a : String) : isWithin a a = true :=
  isWithin_iff.2 List.prefix_rfl

theorem isWithin_trans (h : isWithin a b = true) (h' : isWithin b c = true) :
    isWithin a c = true :=
  isWithin_iff.2 ((isWithin_iff.1 h').trans (isWithin_iff.1 h))

theorem isWithin_antisymm (h : isWithin a b = true) (h' : isWithin b a = true) :
    normalize a = normalize b := by
  have h1 := isWithin_iff.1 h
  have h2 := isWithin_iff.1 h'
  exact path_inj (h2.eq_of_length (Nat.le_antisymm h2.length_le h1.length_le))

/-- **Normal forms, labels and the order of names fit together.** A normal form is its own normal
form, the labels of a name make its normal form and stand for it, and lying within a name is read
off normal forms and is an order on them. -/
theorem normal_forms_agree (a b c : String) :
    normalize (normalize a) = normalize a ∧
      ofPath (path a) = normalize a ∧
      (path a = path b ↔ normalize a = normalize b) ∧
      (isWithin a b ↔ normalize b = "." ∨ normalize a = normalize b ∨
        ∃ u, normalize a = u ++ "." ++ normalize b) ∧
      isWithin a a ∧
      (isWithin a b → isWithin b c → isWithin a c) ∧
      (isWithin a b → isWithin b a → normalize a = normalize b) :=
  ⟨normalize_normalize a, ofPath_path a, path_eq_iff, isWithin_iff_normalize, isWithin_refl a,
    isWithin_trans, isWithin_antisymm⟩

/-- Two spellings of a name with an empty label, and a name above them. -/
theorem normal_forms_agree_spellings :
    isWithin "\tWWW..Example.COM.. " "www..example.com" ∧
      isWithin "www..example.com" "\tWWW..Example.COM.. " ∧
      isWithin "www..example.com" ".Example.com." ∧
      isWithin "\tWWW..Example.COM.. " ".Example.com." ∧
      normalize "\tWWW..Example.COM.. " = normalize "www..example.com" := by
  have h1 : isWithin "\tWWW..Example.COM.. " "www..example.com" := by decide +kernel
  have h2 : isWithin "www..example.com" "\tWWW..Example.COM.. " := by decide +kernel
  have h3 : isWithin "www..example.com" ".Example.com." := by decide +kernel
  obtain ⟨-, -, -, -, -, trans, antisymm⟩ :=
    normal_forms_agree "\tWWW..Example.COM.. " "www..example.com" ".Example.com."
  exact ⟨h1, h2, h3, trans h1 h3, antisymm h1 h2⟩

end ZoneRelay.Name
