import Mathlib.Data.List.Nodup
import ZoneRelay.Trie.Forest

/-!
# Forests as maps

A forest is tidy if its labels ascend and no node is there for nothing. Then it is a map from paths
to values.

* `valuesAt_alter`: an alteration changes the values at one path and no others.
* `tidy_alter`: it keeps a forest tidy.
* `mem_paths`, `nodup_paths`: the paths listed are those with values, each once.
-/

namespace ZoneRelay.Forest

variable {α : Type} {f : List α → List α} {t : Forest α} {p q : List String}

/-- The labels of the subtrees side by side. -/
def labels : Forest α → List String
  | empty => []
  | node l _ _ after => l :: after.labels

/-- Labels ascend at every level, and no subtree holds nothing. -/
inductive Tidy : Forest α → Prop
  | empty : Tidy empty
  | node {l : String} {vs : List α} {below after : Forest α} (ascends : ∀ x ∈ after.labels, l < x)
      (holds : vs ≠ [] ∨ below ≠ .empty) (below_tidy : Tidy below) (after_tidy : Tidy after) :
      Tidy (node l vs below after)

theorem isEmpty_iff : t.isEmpty ↔ t = empty := by
  cases t <;> simp [isEmpty]

/-! ## Values -/

@[simp] theorem valuesAt_empty (p : List String) : valuesAt p (empty : Forest α) = [] := by
  cases p <;> rfl

theorem valuesAt_node (x l : String) (r : List String) (vs : List α) (below after : Forest α) :
    valuesAt (x :: r) (node l vs below after) =
      if x = l then (if r.isEmpty then vs else valuesAt r below) else valuesAt (x :: r) after := by
  rw [valuesAt, valuesAt]
  by_cases h : x = l
  · simp only [root?, if_pos h]
  · simp only [root?, if_neg h]

theorem valuesAt_of_not_mem {x : String} (h : x ∉ t.labels) (r : List String) :
    valuesAt (x :: r) t = [] := by
  induction t with
  | empty => rfl
  | node l vs below after _ ih =>
    rw [labels, List.mem_cons, not_or] at h
    rw [valuesAt_node, if_neg h.1, ih h.2]

theorem valuesAt_attach {l : String} {after : Forest α} (h : l ∉ after.labels) (vs : List α)
    (below : Forest α) (q : List String) :
    valuesAt q (attach l vs below after) = valuesAt q (node l vs below after) := by
  unfold attach
  split
  · next h1 =>
    rw [Bool.and_eq_true, List.isEmpty_iff, isEmpty_iff] at h1
    cases q with
    | nil => rfl
    | cons x r =>
      rw [valuesAt_node, h1.1, h1.2]
      split_ifs with h2 h3
      · rw [h2, valuesAt_of_not_mem h]
      · rw [h2, valuesAt_of_not_mem h, valuesAt_empty]
      · rfl
  · rfl

theorem valuesAt_single (vs : List α) (hp : p ≠ []) (q : List String) :
    valuesAt q (single vs p) = if q = p then vs else [] := by
  induction p generalizing q with
  | nil => exact absurd rfl hp
  | cons l r ih =>
    cases q with
    | nil => rw [if_neg (by simp)]; rfl
    | cons x s =>
      cases r with
      | nil =>
        rw [single, valuesAt_attach (by simp [labels]), valuesAt_node]
        by_cases h1 : x = l <;> cases s <;> simp [h1]
      | cons m r =>
        rw [single, valuesAt_attach (by simp [labels]), valuesAt_node, ih (by simp)]
        by_cases h1 : x = l <;> cases s <;> simp [h1]

/-- A single path starts at one label, if it is there at all. -/
theorem single_cases (vs : List α) (l : String) (r : List String) :
    single vs (l :: r) = empty ∨ ∃ ws b, single vs (l :: r) = node l ws b empty := by
  cases r <;> unfold single attach <;> split
  · exact Or.inl rfl
  · exact Or.inr ⟨_, _, rfl⟩
  · exact Or.inl rfl
  · exact Or.inr ⟨_, _, rfl⟩

theorem tidy_attach {l : String} {vs : List α} {below after : Forest α}
    (h1 : ∀ x ∈ after.labels, l < x) (h2 : below.Tidy) (h3 : after.Tidy) :
    (attach l vs below after).Tidy := by
  unfold attach
  split
  · exact h3
  · next h =>
    refine .node h1 ?_ h2 h3
    rw [Bool.and_eq_true, not_and_or, List.isEmpty_iff, isEmpty_iff] at h
    exact h

theorem tidy_single (vs : List α) (p : List String) : (single vs p).Tidy := by
  induction p with
  | nil => exact .empty
  | cons l r ih =>
    cases r with
    | nil => exact tidy_attach (by simp [labels]) .empty .empty
    | cons m r => exact tidy_attach (by simp [labels]) ih .empty

/-- A single path in front of other trees. -/
def inFront (vs : List α) (p : List String) (t : Forest α) : Forest α :=
  match single vs p with
  | node x ws b _ => node x ws b t
  | empty => t

theorem inFront_cases (vs : List α) (l : String) (r : List String) (t : Forest α) :
    single vs (l :: r) = empty ∧ inFront vs (l :: r) t = t ∨
      ∃ ws b, single vs (l :: r) = node l ws b empty ∧ inFront vs (l :: r) t = node l ws b t := by
  unfold inFront
  rcases single_cases vs l r with h | ⟨ws, b, h⟩
  · rw [h]
    exact Or.inl ⟨rfl, rfl⟩
  · rw [h]
    exact Or.inr ⟨ws, b, rfl, rfl⟩

theorem valuesAt_inFront {l : String} {r : List String} (h : l ∉ t.labels) (vs : List α)
    (q : List String) :
    valuesAt q (inFront vs (l :: r) t) = if q = l :: r then vs else valuesAt q t := by
  have h1 := valuesAt_single vs (List.cons_ne_nil l r) q
  cases q with
  | nil => rw [if_neg (by simp)]; rfl
  | cons x s =>
    rcases inFront_cases vs l r t with ⟨h2, h3⟩ | ⟨ws, b, h2, h3⟩
    · rw [h2, valuesAt_empty] at h1
      rw [h3]
      by_cases h4 : x :: s = l :: r
      · rw [if_pos h4] at h1 ⊢
        rw [(List.cons.inj h4).1, valuesAt_of_not_mem h, ← h1]
      · rw [if_neg h4]
    · rw [h2, valuesAt_node, valuesAt_empty] at h1
      rw [h3, valuesAt_node]
      by_cases h4 : x = l
      · rw [if_pos h4] at h1 ⊢
        rw [h1, h4, valuesAt_of_not_mem h]
      · rw [if_neg h4, if_neg fun h5 => h4 (List.cons.inj h5).1]

theorem tidy_inFront {l : String} (h : ∀ x ∈ t.labels, l < x) (ht : t.Tidy) (vs : List α)
    (r : List String) : (inFront vs (l :: r) t).Tidy := by
  have h1 := tidy_single vs (l :: r)
  rcases inFront_cases vs l r t with ⟨-, h2⟩ | ⟨ws, b, h2, h3⟩
  · rw [h2]
    exact ht
  · rw [h2] at h1
    obtain - | ⟨-, h4, h5, -⟩ := h1
    rw [h3]
    exact .node h h4 h5 ht

theorem labels_inFront {x l : String} {r : List String} {vs : List α}
    (h : x ∈ (inFront vs (l :: r) t).labels) : x = l ∨ x ∈ t.labels := by
  rcases inFront_cases vs l r t with ⟨-, h1⟩ | ⟨ws, b, -, h1⟩
  · rw [h1] at h
    exact Or.inr h
  · rw [h1] at h
    exact List.mem_cons.1 h

theorem alter_node (l m : String) (r : List String) (vs : List α) (below after : Forest α) :
    alter f (l :: r) (node m vs below after) =
      if l = m then
        if r.isEmpty then attach m (f vs) below after else attach m vs (alter f r below) after
      else if l < m then inFront (f []) (l :: r) (node m vs below after)
      else node m vs below (alter f (l :: r) after) := by
  rw [alter]
  rfl

theorem labels_attach {x l : String} {vs : List α} {below after : Forest α}
    (h : x ∈ (attach l vs below after).labels) : x = l ∨ x ∈ after.labels := by
  unfold attach at h
  split at h
  · exact Or.inr h
  · exact List.mem_cons.1 h

/-- An alteration adds at most the label its path starts with. -/
theorem labels_alter {x l : String} {r : List String} (h : x ∈ (alter f (l :: r) t).labels) :
    x = l ∨ x ∈ t.labels := by
  induction t with
  | empty =>
    rw [alter] at h
    · rcases single_cases (f []) l r with h1 | ⟨ws, b, h1⟩ <;> rw [h1] at h
      · exact Or.inr h
      · exact Or.inl (by simpa [labels] using h)
    · simp
  | node m vs below after _ ih =>
    rw [alter_node] at h
    split_ifs at h with h1 h2 h3
    · exact Or.inr (List.mem_cons.2 (labels_attach h))
    · exact Or.inr (List.mem_cons.2 (labels_attach h))
    · exact labels_inFront h
    · rcases List.mem_cons.1 h with h4 | h4
      · exact Or.inr (h4 ▸ List.mem_cons_self)
      · exact (ih h4).imp_right (List.mem_cons_of_mem _)

/-- A label before the first one is none of the others. -/
theorem lt_labels {l m : String} {vs : List α} {below after : Forest α} (hl : l < m)
    (h : ∀ x ∈ after.labels, m < x) : ∀ x ∈ (node m vs below after).labels, l < x := by
  intro x hx
  rcases List.mem_cons.1 hx with rfl | hx
  · exact hl
  · exact String.lt_trans hl (h x hx)

/-- **An alteration keeps a forest tidy.** -/
theorem tidy_alter (ht : t.Tidy) : (alter f p t).Tidy := by
  induction t generalizing p with
  | empty =>
    cases p with
    | nil => exact .empty
    | cons l r => rw [alter]; exact tidy_single _ _; simp
  | node m vs below after ihb iha =>
    obtain - | ⟨h1, h2, h3, h4⟩ := ht
    cases p with
    | nil => exact .node h1 h2 h3 h4
    | cons l r =>
      rw [alter_node]
      split_ifs with h5 h6 h7
      · exact tidy_attach h1 h3 h4
      · exact tidy_attach h1 (ihb h3) h4
      · exact tidy_inFront (lt_labels h7 h1) (.node h1 h2 h3 h4) _ _
      · refine .node ?_ h2 h3 (iha h4)
        intro x hx
        rcases labels_alter hx with rfl | hx
        · exact String.not_le.1 fun h => h5 (String.le_antisymm h (String.not_lt.1 h7))
        · exact h1 x hx

/-- **An alteration changes the values at one path** and no others. -/
theorem valuesAt_alter (ht : t.Tidy) (hp : p ≠ []) (q : List String) :
    valuesAt q (alter f p t) = if q = p then f (valuesAt p t) else valuesAt q t := by
  induction t generalizing p q with
  | empty =>
    cases p with
    | nil => exact absurd rfl hp
    | cons l r => rw [alter, valuesAt_single _ hp, valuesAt_empty, valuesAt_empty]; simp
  | node m vs below after ihb iha =>
    obtain - | ⟨h1, -, h3, h4⟩ := ht
    have hm : m ∉ after.labels := fun h => String.lt_irrefl m (h1 m h)
    cases p with
    | nil => exact absurd rfl hp
    | cons l r =>
      cases q with
      | nil => rw [if_neg (by simp)]; rfl
      | cons x s =>
        rw [alter_node]
        by_cases h5 : l = m
        · -- the path goes through this tree, and ends here or below
          subst h5
          rw [if_pos rfl]
          simp only [List.cons.injEq]
          rw [valuesAt_node, valuesAt_node, if_pos rfl]
          by_cases h6 : r = []
          · subst h6
            rw [List.isEmpty_nil, if_pos rfl, if_pos rfl, valuesAt_attach hm, valuesAt_node]
            by_cases h7 : x = l <;> cases s <;> simp [h7]
          · have h8 : r.isEmpty = false := by simpa using h6
            simp only [h8, Bool.false_eq_true, if_false]
            rw [valuesAt_attach hm, valuesAt_node, ihb h3 h6]
            by_cases h7 : x = l
            · by_cases h9 : s = r
              · simp [h7, h9, h8]
              · simp [h7, h9]
            · simp [h7]
        · rw [if_neg h5]
          by_cases h6 : l < m
          · -- the labels ascend, so the path leads nowhere yet
            have h7 : l ∉ (node m vs below after).labels := fun h =>
              String.lt_irrefl l (lt_labels h6 h1 l h)
            rw [if_pos h6, valuesAt_inFront h7, valuesAt_of_not_mem h7]
          · -- the path goes through a later tree
            simp only [List.cons.injEq]
            rw [if_neg h6, valuesAt_node, valuesAt_node, valuesAt_node, iha h4 hp, if_neg h5]
            simp only [List.cons.injEq]
            by_cases h7 : x = m
            · have h8 : ¬ (x = l ∧ s = r) := fun h => h5 (h.1.symm.trans h7)
              rw [if_pos h7, if_neg h8, if_pos h7]
            · rw [if_neg h7, if_neg h7]

/-! ## Paths -/

/-- **The paths listed are those with values.** -/
theorem mem_paths (ht : t.Tidy) {above : List String} :
    p ∈ paths above t ↔ ∃ q, q ≠ [] ∧ p = above ++ q ∧ valuesAt q t ≠ [] := by
  induction t generalizing above p with
  | empty => simp [paths]
  | node l vs below after ihb iha =>
    obtain - | ⟨h1, -, h3, h4⟩ := ht
    have hl : l ∉ after.labels := fun h => String.lt_irrefl l (h1 l h)
    rw [paths, List.mem_append, List.mem_append, ihb h3, iha h4]
    constructor
    · rintro ((h | ⟨q, hq, rfl, hv⟩) | ⟨q, hq, rfl, hv⟩)
      · by_cases hv : vs = []
        · simp [hv] at h
        · have hp : p = above ++ [l] := by simpa [hv] using h
          exact ⟨[l], by simp, hp, by rw [valuesAt_node]; simpa using hv⟩
      · refine ⟨l :: q, by simp, by simp, ?_⟩
        rw [valuesAt_node, if_pos rfl, if_neg (by simpa using hq)]
        exact hv
      · cases q with
        | nil => exact absurd rfl hq
        | cons x r =>
          refine ⟨x :: r, by simp, rfl, ?_⟩
          have hx : x ≠ l := by
            rintro rfl
            exact hv (valuesAt_of_not_mem hl r)
          rw [valuesAt_node, if_neg hx]
          exact hv
    · rintro ⟨q, hq, rfl, hv⟩
      cases q with
      | nil => exact absurd rfl hq
      | cons x r =>
        rw [valuesAt_node] at hv
        by_cases hx : x = l
        · subst hx
          rw [if_pos rfl] at hv
          by_cases hr : r = []
          · subst hr
            have hv' : vs ≠ [] := by simpa using hv
            exact Or.inl (Or.inl (by simp [hv']))
          · rw [if_neg (by simpa using hr)] at hv
            exact Or.inl (Or.inr ⟨r, hr, by simp, hv⟩)
        · rw [if_neg hx] at hv
          exact Or.inr ⟨x :: r, by simp, rfl, hv⟩

/-- No path is listed twice. -/
theorem nodup_paths (ht : t.Tidy) (above : List String) : (paths above t).Nodup := by
  induction t generalizing above with
  | empty => exact List.nodup_nil
  | node l vs below after ihb iha =>
    obtain - | ⟨h1, -, h3, h4⟩ := ht
    have hl : l ∉ after.labels := fun h => String.lt_irrefl l (h1 l h)
    -- the own path ends at `l`, those below go on from there, and later ones start differently
    have own : ∀ p ∈ (if vs.isEmpty then [] else [above ++ [l]]), p = above ++ [l] := by
      intro p hp
      split at hp
      · cases hp
      · exact List.mem_singleton.1 hp
    have later : ∀ p ∈ paths above after, ∀ s, p ≠ above ++ l :: s := by
      rintro p hp s rfl
      obtain ⟨q, -, h5, h6⟩ := (mem_paths h4).1 hp
      rw [← List.append_cancel_left h5] at h6
      exact h6 (valuesAt_of_not_mem hl s)
    rw [paths, List.nodup_append, List.nodup_append]
    refine ⟨⟨by split <;> simp, ihb h3 _, ?_⟩, iha h4 _, ?_⟩
    · rintro p hp q hq rfl
      obtain ⟨s, h5, h6, -⟩ := (mem_paths h3).1 hq
      rw [own p hp] at h6
      exact h5 (List.append_right_eq_self.1 h6.symm)
    · rintro p hp q hq rfl
      rcases List.mem_append.1 hp with hp | hp
      · exact later p hq [] (own p hp)
      · obtain ⟨s, -, h6, -⟩ := (mem_paths h3).1 hp
        exact later p hq s (by rw [h6, List.append_assoc]; rfl)

end ZoneRelay.Forest
