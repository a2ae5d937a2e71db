import ZoneRelay.Proofs.Name
import ZoneRelay.Proofs.Trie.Forest
import ZoneRelay.Trie.Basic

/-!
# Tries as maps

A trie is tidy if its forest is and all its values stand under names. Then it is a map from names,
in normal form, to values.

* `get_insert`, `get_remove`, `get_removeValue`: a change touches the values under one name only.
* `mem_names`, `nodup_names`, `names_ordered`: the names with values, each once and in order.
-/

namespace ZoneRelay.Trie

variable {α : Type} {t : Trie α} {name other : String} {p q : List String}

/-- The forest below the root is tidy, and only names have values. -/
structure Tidy (t : Trie α) : Prop where
  below : t.below.Tidy
  named : ∀ p, t.valuesAt p ≠ [] → ∃ name, p = Name.path name

@[simp] theorem policy_alter (f : List α → List α) : (t.alter f p).policy = t.policy := by
  unfold alter
  split <;> rfl

@[simp] theorem valuesAt_empty (policy : Policy) : (empty policy : Trie α).valuesAt p = [] := by
  unfold valuesAt empty
  split
  · rfl
  · exact Forest.valuesAt_empty p

@[simp] theorem get_empty (policy : Policy) : (empty policy : Trie α).get name = [] :=
  valuesAt_empty policy

theorem tidy_empty (policy : Policy) : (empty policy : Trie α).Tidy :=
  ⟨.empty, fun _ h => absurd (valuesAt_empty policy) h⟩

theorem valuesAt_alter {f : List α → List α} (ht : t.Tidy) :
    (t.alter f p).valuesAt q = if q = p then f (t.valuesAt p) else t.valuesAt q := by
  unfold alter valuesAt
  cases p with
  | nil => cases q <;> rfl
  | cons l r =>
    cases q with
    | nil => rfl
    | cons x s => exact Forest.valuesAt_alter ht.below (by simp) _

theorem below_alter {f : List α → List α} (ht : t.Tidy) : (t.alter f p).below.Tidy := by
  unfold alter
  split
  · exact ht.below
  · exact Forest.tidy_alter ht.below

theorem tidy_alter {f : List α → List α} (ht : t.Tidy) : (t.alter f (Name.path name)).Tidy := by
  have h := below_alter (f := f) (p := Name.path name) ht
  refine ⟨h, fun q hq => ?_⟩
  rw [valuesAt_alter ht] at hq
  split_ifs at hq with h1
  · exact ⟨name, h1⟩
  · exact ht.named q hq

@[simp] theorem policy_insert [BEq α] (v : α) : (t.insert name v).policy = t.policy := by
  unfold insert
  exact policy_alter _

theorem remove_snd (t : Trie α) (name : String) :
    (t.remove name).2 = t.alter (fun _ => []) (Name.path name) := by
  simp only [remove]

theorem removeValue_snd [BEq α] (t : Trie α) (name : String) (v : α) :
    (t.removeValue name v).2 = t.alter (·.filter (· != v)) (Name.path name) := by
  simp only [removeValue]

theorem tidy_insert [BEq α] (ht : t.Tidy) (name : String) (v : α) : (t.insert name v).Tidy := by
  unfold insert
  exact tidy_alter ht

theorem tidy_remove (ht : t.Tidy) (name : String) : (t.remove name).2.Tidy := by
  rw [remove_snd]
  exact tidy_alter ht

theorem tidy_removeValue [BEq α] (ht : t.Tidy) (name : String) (v : α) :
    (t.removeValue name v).2.Tidy := by
  rw [removeValue_snd]
  exact tidy_alter ht

theorem get_insert [BEq α] (ht : t.Tidy) (v : α) :
    (t.insert name v).get other =
      if Name.path other = Name.path name then t.policy.store v (t.get name) else t.get other := by
  unfold insert get
  exact valuesAt_alter ht

theorem get_remove (ht : t.Tidy) :
    (t.remove name).2.get other =
      if Name.path other = Name.path name then [] else t.get other := by
  rw [remove_snd]
  unfold get
  exact valuesAt_alter ht

theorem get_removeValue [BEq α] (ht : t.Tidy) (v : α) :
    (t.removeValue name v).2.get other =
      if Name.path other = Name.path name then (t.get name).filter (· != v) else t.get other := by
  rw [removeValue_snd]
  unfold get
  exact valuesAt_alter ht

/-! ## Names -/

theorem mem_paths (ht : t.Tidy) : p ∈ t.paths ↔ t.valuesAt p ≠ [] := by
  unfold paths valuesAt
  rw [List.mem_append, Forest.mem_paths ht.below]
  cases p with
  | nil => by_cases h : t.values = [] <;> simp [h]
  | cons l r =>
    constructor
    · rintro (h | ⟨q, -, rfl, hv⟩)
      · split at h <;> simp at h
      · simpa using hv
    · intro hv
      exact Or.inr ⟨l :: r, by simp, rfl, by simpa using hv⟩

theorem nodup_paths (ht : t.Tidy) : t.paths.Nodup := by
  unfold paths
  rw [List.nodup_append]
  refine ⟨by split <;> simp, Forest.nodup_paths ht.below [], ?_⟩
  rintro p hp q hq rfl
  obtain ⟨s, h1, h2, -⟩ := (Forest.mem_paths ht.below).1 hq
  split at hp
  · cases hp
  · rw [List.mem_singleton.1 hp] at h2
    exact h1 h2.symm

/-- **The names listed are those with values**, in normal form. -/
theorem mem_names (ht : t.Tidy) :
    name ∈ t.names ↔ Name.normalize name = name ∧ t.get name ≠ [] := by
  unfold names
  rw [List.mem_mergeSort, List.mem_map]
  constructor
  · rintro ⟨p, hp, rfl⟩
    rw [mem_paths ht] at hp
    obtain ⟨n, hn⟩ := ht.named p hp
    rw [hn, Name.ofPath_path]
    refine ⟨Name.normalize_normalize n, ?_⟩
    unfold get
    rwa [Name.path_normalize, ← hn]
  · rintro ⟨h1, h2⟩
    exact ⟨Name.path name, (mem_paths ht).2 h2, by rw [Name.ofPath_path, h1]⟩

/-- No name is listed twice. -/
theorem nodup_names (ht : t.Tidy) : t.names.Nodup := by
  unfold names
  rw [(List.mergeSort_perm _ _).nodup_iff]
  refine (List.nodup_map_iff_inj_on (nodup_paths ht)).2 fun p hp q hq h => ?_
  obtain ⟨m, hm⟩ := ht.named p ((mem_paths ht).1 hp)
  obtain ⟨n, hn⟩ := ht.named q ((mem_paths ht).1 hq)
  rw [hm, hn, Name.ofPath_path, Name.ofPath_path] at h
  rw [hm, hn]
  exact Name.path_eq_iff.2 h

/-- The names are listed in order. -/
theorem names_ordered (t : Trie α) : t.names.Pairwise fun a b => ¬ b < a := by
  have h := @List.pairwise_mergeSort _ (fun a b : String => !decide (b < a))
    (fun a b c h1 h2 => by
      simp only [Bool.not_eq_true', decide_eq_false_iff_not, String.not_lt] at h1 h2 ⊢
      exact String.le_trans h1 h2)
    (fun a b => by
      simp only [Bool.or_eq_true, Bool.not_eq_true', decide_eq_false_iff_not, String.not_lt]
      exact String.le_total a b)
    (t.paths.map Name.ofPath)
  exact h.imp fun hab => by simpa using hab

/-- The names are the one list in order, without repeats, of all names with values. -/
theorem names_eq_of (ht : t.Tidy) {l : List String} (hn : l.Nodup)
    (ho : l.Pairwise fun a b => ¬ b < a) (h : ∀ name, name ∈ t.names ↔ name ∈ l) :
    t.names = l := by
  refine List.Perm.eq_of_pairwise ?_ t.names_ordered ho ?_
  · intro a b _ _ hab hba
    exact String.le_antisymm (String.not_lt.1 hab) (String.not_lt.1 hba)
  · rw [List.perm_ext_iff_of_nodup (nodup_names ht) hn]
    exact h

end ZoneRelay.Trie
