import Mathlib.Data.List.DropRight

/-!
# Texts cut at their last separator

* `upToLast`, `afterLast`: what a text has up to its last separator, and after it.
* `upToLast_append`, `afterLast_append`: a text is cut at a separator after which there is none.
* `upToLast_append_inj`: texts cut so are equal only if both parts are.
-/

namespace ZoneRelay.Text

variable {sep : Char} {l m x y : List Char}

/-- What a text has up to its last separator, with the separator; nothing if it has none. -/
def upToLast (sep : Char) (l : List Char) : List Char :=
  l.rdropWhile (· != sep)

/-- What a text has after its last separator; all of it if it has none. -/
def afterLast (sep : Char) (l : List Char) : List Char :=
  l.rtakeWhile (· != sep)

theorem upToLast_append_afterLast (sep : Char) (l : List Char) :
    upToLast sep l ++ afterLast sep l = l :=
  List.rdropWhile_append_rtakeWhile

/-- What a text has up to its last separator is as much as there is before the rest. -/
theorem take_sub_afterLast (sep : Char) (l : List Char) :
    l.take (l.length - (afterLast sep l).length) = upToLast sep l := by
  have hlen := congrArg List.length (upToLast_append_afterLast sep l)
  rw [List.length_append] at hlen
  have hprefix : upToLast sep l <+: l := List.rdropWhile_prefix _ l
  rw [← hlen, Nat.add_sub_cancel]
  exact (List.prefix_iff_eq_take.1 hprefix).symm

theorem not_mem_afterLast (sep : Char) (l : List Char) : sep ∉ afterLast sep l := fun h =>
  absurd (List.mem_rtakeWhile_imp h) (by simp)

theorem upToLast_of_not_mem (h : sep ∉ l) : upToLast sep l = [] :=
  List.rdropWhile_eq_nil_iff.2 fun _ hc => bne_iff_ne.2 fun h1 => h (h1 ▸ hc)

/-- A text with a separator is cut at the last one. -/
theorem upToLast_append (hy : sep ∉ y) : upToLast sep (x ++ sep :: y) = x ++ [sep] := by
  induction y using List.reverseRecOn with
  | nil => exact List.rdropWhile_concat_neg _ _ _ (by simp)
  | append_singleton y c ih =>
    rw [List.mem_append, List.mem_singleton, not_or] at hy
    have hcut : x ++ sep :: (y ++ [c]) = (x ++ sep :: y) ++ [c] := by simp
    rw [← ih hy.1, hcut]
    exact List.rdropWhile_concat_pos _ _ _ (bne_iff_ne.2 fun h => hy.2 h.symm)

theorem afterLast_append (hy : sep ∉ y) : afterLast sep (x ++ sep :: y) = y := by
  have h := upToLast_append_afterLast sep (x ++ sep :: y)
  rw [upToLast_append hy, List.append_assoc] at h
  exact (List.cons.inj (List.append_cancel_left h)).2

/-- What there is up to the last separator is nothing, or ends with it. -/
theorem upToLast_cases (sep : Char) (l : List Char) :
    upToLast sep l = [] ∨ ∃ x, upToLast sep l = x ++ [sep] := by
  by_cases h : upToLast sep l = []
  · exact Or.inl h
  · have h1 : ¬ ((upToLast sep l).getLast h != sep) = true := List.rdropWhile_last_not _ l h
    have h2 : (upToLast sep l).getLast h = sep := by simpa using h1
    refine Or.inr ⟨(upToLast sep l).dropLast, ?_⟩
    conv_lhs => rw [← List.dropLast_append_getLast h, h2]

/-- Nothing is cut off twice. -/
theorem upToLast_upToLast_append (hx : sep ∉ x) :
    upToLast sep (upToLast sep l ++ x) = upToLast sep l := by
  rcases upToLast_cases sep l with h | ⟨z, h⟩
  · rw [h, List.nil_append, upToLast_of_not_mem hx]
  · rw [h, List.append_assoc, List.singleton_append, upToLast_append hx]

/-- **Texts cut at the last separator** are equal only if both parts are. -/
theorem upToLast_append_inj (hx : sep ∉ x) (hy : sep ∉ y) :
    upToLast sep l ++ x = upToLast sep m ++ y ↔ upToLast sep l = upToLast sep m ∧ x = y := by
  constructor
  · intro h
    have h1 := congrArg (upToLast sep) h
    rw [upToLast_upToLast_append hx, upToLast_upToLast_append hy] at h1
    rw [h1] at h
    exact ⟨h1, List.append_cancel_left h⟩
  · rintro ⟨h1, h2⟩
    rw [h1, h2]

end ZoneRelay.Text
