import ZoneRelay.Proofs.Trie.Edits

/-!
# Tries are canonical

What a trie keeps fixes all its nodes, since none is there for nothing and the labels below a node
ascend.

* `Forest.Pruned`: no node is there for nothing.
* `Forest.exists_valuesAt`: there are values on each label of a tidy forest, or somewhere below;
  `Forest.eq_of_valuesAt`: two tidy forests with the same values have the same nodes.
* `Trie.Agrees`: the queries of a trie tell what a map keeps.
* `Trie.build_canonical`: a trie after any edits, its queries and its nodes.
-/

namespace ZoneRelay

namespace Forest

variable {α : Type} {t u : Forest α} {x : String} {p : List String}

/-- Every node holds values or has nodes below it. -/
def Pruned : Forest α → Prop
  | empty => True
  | node _ vs below after => (vs ≠ [] ∨ below ≠ empty) ∧ below.Pruned ∧ after.Pruned

theorem Tidy.pruned (ht : t.Tidy) : t.Pruned := by
  induction ht with
  | empty => trivial
  | node _ holds _ _ ihb iha => exact ⟨holds, ihb, iha⟩

/-- Behind every label there are values. -/
theorem exists_valuesAt (ht : t.Tidy) (hx : x ∈ t.labels) : ∃ r, valuesAt (x :: r) t ≠ [] := by
  induction ht generalizing x with
  | empty => cases hx
  | @node l vs below after ascends holds _ _ ihb iha =>
    rcases List.mem_cons.1 hx with rfl | hx
    · -- the node holds values itself, or some are below its first label
      rcases holds with hvs | hbelow
      · refine ⟨[], ?_⟩
        rw [valuesAt_node]
        simpa using hvs
      · cases below with
        | empty => exact absurd rfl hbelow
        | node m ws b a =>
          obtain ⟨r, hr⟩ := ihb List.mem_cons_self
          refine ⟨m :: r, ?_⟩
          rw [valuesAt_node, if_pos rfl, if_neg (by simp)]
          exact hr
    · obtain ⟨r, hr⟩ := iha hx
      have hne : x ≠ l := (ascends x hx).ne'
      refine ⟨r, ?_⟩
      rw [valuesAt_node, if_neg hne]
      exact hr

/-- The labels are those that there are values behind. -/
theorem mem_labels_iff (ht : t.Tidy) : x ∈ t.labels ↔ ∃ r, valuesAt (x :: r) t ≠ [] := by
  refine ⟨exists_valuesAt ht, ?_⟩
  rintro ⟨r, hr⟩
  by_contra hx
  exact hr (valuesAt_of_not_mem hx r)

theorem labels_eq (ht : t.Tidy) (hu : u.Tidy) (h : ∀ p, valuesAt p t = valuesAt p u) :
    x ∈ t.labels ↔ x ∈ u.labels := by
  rw [mem_labels_iff ht, mem_labels_iff hu]
  simp only [h]

/-- Forests with the same values start with the same label. -/
theorem head_eq {l m : String} {vs ws : List α} {below after below' after' : Forest α}
    (ht : (node l vs below after).Tidy) (hu : (node m ws below' after').Tidy)
    (h : ∀ p, valuesAt p (node l vs below after) = valuesAt p (node m ws below' after')) :
    l = m := by
  have hl := (labels_eq ht hu h).1 (List.mem_cons_self : l ∈ (node l vs below after).labels)
  have hm := (labels_eq ht hu h).2 (List.mem_cons_self : m ∈ (node m ws below' after').labels)
  obtain - | ⟨ascends, -, -, -⟩ := ht
  obtain - | ⟨ascends', -, -, -⟩ := hu
  rcases List.mem_cons.1 hl with hl | hl
  · exact hl
  · rcases List.mem_cons.1 hm with hm | hm
    · exact hm.symm
    · -- each of the two labels would come before the other
      exact absurd (ascends m hm) (String.lt_asymm (ascends' l hl))

/-- **Tidy forests with the same values are equal.** -/
theorem eq_of_valuesAt (ht : t.Tidy) (hu : u.Tidy) (h : ∀ p, valuesAt p t = valuesAt p u) :
    t = u := by
  induction t generalizing u with
  | empty =>
    cases u with
    | empty => rfl
    | node m ws below' after' => cases (labels_eq ht hu h).2 List.mem_cons_self
  | node l vs below after ihb iha =>
    cases u with
    | empty => cases (labels_eq ht hu h).1 List.mem_cons_self
    | node m ws below' after' =>
      obtain rfl := head_eq ht hu h
      obtain - | ⟨ascends, -, below_tidy, after_tidy⟩ := ht
      obtain - | ⟨ascends', -, below_tidy', after_tidy'⟩ := hu
      have hvs : vs = ws := by
        have h1 := h [l]
        rw [valuesAt_node, valuesAt_node] at h1
        simpa using h1
      have hbelow : ∀ p, valuesAt p below = valuesAt p below' := by
        intro p
        cases p with
        | nil => rfl
        | cons x r =>
          have h1 := h (l :: x :: r)
          rw [valuesAt_node, valuesAt_node] at h1
          simpa using h1
      have hafter : ∀ p, valuesAt p after = valuesAt p after' := by
        intro p
        cases p with
        | nil => rfl
        | cons x r =>
          by_cases hx : x = l
          · -- the label of a node comes before those after it
            have h1 : x ∉ after.labels := fun hm => (ascends x hm).ne hx.symm
            have h2 : x ∉ after'.labels := fun hm => (ascends' x hm).ne hx.symm
            rw [valuesAt_of_not_mem h1, valuesAt_of_not_mem h2]
          · have h1 := h (x :: r)
            rwa [valuesAt_node, valuesAt_node, if_neg hx, if_neg hx] at h1
      rw [hvs, ihb below_tidy below_tidy' hbelow, iha after_tidy after_tidy' hafter]

end Forest

namespace Trie

variable {α : Type} {policy policy' : Policy} {t u : Trie α} {m : Payloads α} {name : String}

/-- The queries of a trie tell what a map keeps. -/
structure Agrees (t : Trie α) (m : Payloads α) : Prop where
  get : ∀ name, t.get name = m (Name.normalize name)
  contains : ∀ name, t.contains name = true ↔ m (Name.normalize name) ≠ []
  names : ∀ name, name ∈ t.names ↔ m name ≠ []
  /-- No name is told twice. -/
  names_nodup : t.names.Nodup
  /-- The names are told in normal form. -/
  names_normal : ∀ name ∈ t.names, Name.normalize name = name
  isEmpty : t.isEmpty = true ↔ ∀ name, m name = []

theorem contains_iff : t.contains name = true ↔ t.get name ≠ [] := by
  unfold contains
  simp

theorem remove_fst (t : Trie α) (name : String) : (t.remove name).1 = t.contains name := by
  simp only [remove]

theorem removeValue_fst [BEq α] (t : Trie α) (name : String) (v : α) :
    (t.removeValue name v).1 = (t.get name).contains v := by
  simp only [removeValue]

theorem contains_value_iff [DecidableEq α] {vs : List α} {v : α} :
    vs.contains v = true ↔ vs.filter (· != v) ≠ vs := by
  rw [List.contains_iff_mem, ne_eq, List.filter_eq_self]
  constructor
  · intro hv hall
    simpa using hall v hv
  · intro hall
    by_contra hv
    refine hall fun w hw => ?_
    simpa using ne_of_mem_of_not_mem hw hv

namespace Keeps

theorem valuesAt_eq (ht : t.Keeps policy m) (hu : u.Keeps policy' m) (p : List String) :
    t.valuesAt p = u.valuesAt p := by
  have hname : ∀ name, t.valuesAt (Name.path name) = u.valuesAt (Name.path name) := fun name =>
    (ht.get name).trans (hu.get name).symm
  by_cases h1 : t.valuesAt p = []
  · by_cases h2 : u.valuesAt p = []
    · rw [h1, h2]
    · obtain ⟨name, hp⟩ := hu.tidy.named p h2
      rw [hp, hname]
  · obtain ⟨name, hp⟩ := ht.tidy.named p h1
    rw [hp, hname]

/-- **Tries that keep the same have the same nodes.** -/
theorem same (ht : t.Keeps policy m) (hu : u.Keeps policy' m) :
    t.values = u.values ∧ t.below = u.below := by
  have h := valuesAt_eq ht hu
  unfold Trie.valuesAt at h
  have hbelow : ∀ p, Forest.valuesAt p t.below = Forest.valuesAt p u.below := by
    intro p
    cases p with
    | nil => rfl
    | cons x r => simpa using h (x :: r)
  refine ⟨?_, Forest.eq_of_valuesAt ht.tidy.below hu.tidy.below hbelow⟩
  simpa using h []

theorem isEmpty_iff (ht : t.Keeps policy m) : t.isEmpty = true ↔ ∀ name, m name = [] := by
  constructor
  · intro h name
    unfold Trie.isEmpty at h
    rw [Bool.and_eq_true, List.isEmpty_iff, Forest.isEmpty_iff] at h
    by_contra hne
    have hget := ht.get name
    rw [ht.normal name hne] at hget
    refine hne (hget.symm.trans ?_)
    unfold Trie.get Trie.valuesAt
    rw [h.1, h.2, Forest.valuesAt_empty]
    split <;> rfl
  · intro h
    have hm : m = fun _ => [] := funext h
    subst hm
    obtain ⟨h1, h2⟩ := ht.same (keeps_empty policy)
    unfold Trie.isEmpty
    rw [h1, h2]
    rfl

theorem agrees (ht : t.Keeps policy m) : t.Agrees m where
  get := ht.get
  contains name := by rw [contains_iff, ht.get]
  names name := by
    rw [mem_names ht.tidy, ht.get]
    constructor
    · rintro ⟨h1, h2⟩
      rwa [h1] at h2
    · intro h
      have h1 := ht.normal name h
      exact ⟨h1, by rwa [h1]⟩
  names_nodup := nodup_names ht.tidy
  names_normal name h := ((mem_names ht.tidy).1 h).1
  isEmpty := ht.isEmpty_iff

variable [DecidableEq α]

/-- A removal says whether it changes the map. -/
theorem remove_iff (ht : t.Keeps policy m) (name : String) :
    (t.remove name).1 = true ↔ Edit.update policy m (.remove name) ≠ m := by
  rw [remove_fst, contains_iff, ht.get]
  unfold Edit.update
  rw [ne_eq, ne_eq, Function.update_eq_self_iff]
  exact not_congr eq_comm

theorem removeValue_iff (ht : t.Keeps policy m) (name : String) (v : α) :
    (t.removeValue name v).1 = true ↔ Edit.update policy m (.removeValue name v) ≠ m := by
  rw [removeValue_fst, contains_value_iff, ht.get]
  unfold Edit.update
  rw [ne_eq, ne_eq, Function.update_eq_self_iff, ← filter_eq]
  rfl

end Keeps

variable [DecidableEq α]

/-- **A trie is a canonical map.** After any edits of a new trie no node below the root is there for
nothing; the queries tell what the same edits make of a map; a removal says whether it changes that
map; an edit leaves the payloads under other names alone; and all edits that make the same map make
the same nodes. -/
theorem build_canonical (policy : Policy) (edits : List (Edit α)) :
    (build policy edits).below.Pruned ∧
    (build policy edits).Agrees (kept policy edits) ∧
    (∀ name, ((build policy edits).remove name).1 = true ↔
      kept policy (edits ++ [.remove name]) ≠ kept policy edits) ∧
    (∀ name v, ((build policy edits).removeValue name v).1 = true ↔
      kept policy (edits ++ [.removeValue name v]) ≠ kept policy edits) ∧
    (∀ (e : Edit α) name, Name.normalize name ≠ Name.normalize e.name →
      ((build policy edits).act e).get name = (build policy edits).get name) ∧
    ∀ policy' edits', kept policy' edits' = kept policy edits →
      (build policy' edits').values = (build policy edits).values ∧
        (build policy' edits').below = (build policy edits).below := by
  have hk := keeps_build policy edits
  refine ⟨hk.tidy.below.pruned, hk.agrees, fun name => ?_, fun name v => ?_, fun e name hne => ?_,
    fun policy' edits' hsame => ?_⟩
  · rw [kept_concat]
    exact hk.remove_iff name
  · rw [kept_concat]
    exact hk.removeValue_iff name v
  · exact get_act_other hk.tidy hne
  · have hk' := keeps_build policy' edits'
    rw [hsame] at hk'
    exact hk'.same hk

/-- A name that comes and goes below another one leaves no nodes behind. -/
theorem build_canonical_passing :
    kept ⟨true, true⟩ [.insert "a.b.example.com" 7, .insert "Example.COM." 1,
        .removeValue "A.b.example.com." 7] = kept ⟨false, true⟩ [.insert "example.com" 1] ∧
      (build ⟨true, true⟩ [.insert "a.b.example.com" 7, .insert "Example.COM." 1,
        .removeValue "A.b.example.com." 7]).below =
        (build ⟨false, true⟩ [.insert "example.com" 1]).below := by
  have hsame : kept ⟨true, true⟩ [.insert "a.b.example.com" 7, .insert "Example.COM." 1,
      .removeValue "A.b.example.com." 7] = kept ⟨false, true⟩ [.insert "example.com" 1] := by
    have h1 : Name.normalize "a.b.example.com" = "a.b.example.com." := by decide +kernel
    have h2 : Name.normalize "Example.COM." = "example.com." := by decide +kernel
    have h3 : Name.normalize "A.b.example.com." = "a.b.example.com." := by decide +kernel
    have h4 : Name.normalize "example.com" = "example.com." := by decide +kernel
    funext name
    simp only [kept, List.foldl_cons, List.foldl_nil, Edit.update, Edit.name, Edit.payload, h1, h2,
      h3, h4, Function.update_apply]
    by_cases h5 : name = "a.b.example.com."
    · subst h5
      decide
    · simp [h5]
  exact ⟨hsame, ((build_canonical ⟨false, true⟩ [.insert "example.com" 1]).2.2.2.2.2 ⟨true, true⟩ _
    hsame).2⟩

end Trie

end ZoneRelay
