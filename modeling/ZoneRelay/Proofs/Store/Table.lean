import ZoneRelay.Proofs.Text.Start
import ZoneRelay.Store.Table

/-!
# Tables as maps

A table is the map of its entries: `Table.ext_get?`.

* `mem_scan`: a scan finds exactly the keys that start so.
* `get?_put`, `get?_erase`, `get?_eraseAll`: what a single write does to each key.
* `get?_run`: what several writes do to a key is what each of them does to it in turn.
* `Op.touches`: the keys that a write may change; `Op.after_of_untouched` says that it leaves the
  others.
* `ofList_entries`: a table is that of its entries.
-/

namespace ZoneRelay

namespace Table

variable {t u : Table} {k q s : String} {v : Octets}

theorem lookup_cons_if (r : List Entry) :
    List.lookup q ((k, v) :: r) = if q = k then some v else r.lookup q := by
  rw [List.lookup_cons]
  by_cases h : q = k
  · simp [h]
  · have h1 : (q == k) = false := by simpa using h
    rw [h1, if_neg h]

/-- The entries are those that the keys give. -/
theorem mem_entries_iff : (k, v) ∈ t.entries ↔ t.get? k = some v := by
  obtain ⟨l, hl⟩ := t
  unfold get?
  simp only
  induction l with
  | nil => simp
  | cons e r ih =>
    obtain ⟨k', v'⟩ := e
    rw [List.pairwise_cons] at hl
    rw [List.mem_cons, Prod.mk.injEq, lookup_cons_if, ih hl.2]
    by_cases h : k = k'
    · have h1 : (k, v) ∉ r := fun hm => String.lt_irrefl k (by simpa [h] using hl.1 _ hm)
      rw [← ih hl.2, if_pos h, Option.some.injEq]
      exact ⟨fun h2 => h2.elim (fun h3 => h3.2.symm) fun h3 => absurd h3 h1,
        fun h2 => Or.inl ⟨h, h2.symm⟩⟩
    · simp [h]

/-- **Tables with the same values are equal.** -/
theorem ext_get? (h : ∀ k, t.get? k = u.get? k) : t = u := by
  have h1 : t.entries = u.entries := by
    refine List.Perm.eq_of_pairwise ?_ t.ordered u.ordered ?_
    · intro a b _ _ hab hba
      exact absurd (String.lt_trans hab hba) (String.lt_irrefl _)
    · have nodup : ∀ t : Table, t.entries.Nodup := by
        intro t
        refine t.ordered.imp ?_
        rintro a b hab rfl
        exact String.lt_irrefl _ hab
      rw [List.perm_ext_iff_of_nodup (nodup t) (nodup u)]
      intro e
      exact (mem_entries_iff.trans (by rw [h])).trans mem_entries_iff.symm
  cases t; cases u
  simpa using h1

theorem contains_iff : t.contains k ↔ ∃ v, t.get? k = some v := by
  unfold contains
  exact Option.isSome_iff_exists

@[simp] theorem get?_empty : empty.get? q = none :=
  rfl

/-! ## Scans -/

/-- Keys that start so lie together: among keys that are not less than the text, the first that does
not start so comes after all that do. -/
theorem takeWhile_startsWith {l : List Entry} (h : l.Pairwise fun a b => a.1 < b.1)
    (hs : ∀ e ∈ l, ¬ e.1 < s) : l.takeWhile (fun e => Text.startsWith s e.1) =
      l.filter fun e => Text.startsWith s e.1 := by
  induction l with
  | nil => rfl
  | cons e r ih =>
    rw [List.pairwise_cons] at h
    by_cases he : Text.startsWith s e.1
    · rw [List.takeWhile_cons_of_pos (by exact he), List.filter_cons_of_pos (by exact he),
        ih h.2 fun x hx => hs x (List.mem_cons_of_mem _ hx)]
    · rw [List.takeWhile_cons_of_neg (by exact he), List.filter_cons_of_neg (by exact he), eq_comm,
        List.filter_eq_nil_iff]
      intro x hx hx'
      exact he (Text.startsWith_of_between (hs e List.mem_cons_self) (h.1 x hx) hx')

/-- A scan finds the entries whose keys start so. -/
theorem scan_eq_filter (t : Table) (s : String) :
    t.scan s = t.entries.filter fun e => Text.startsWith s e.1 := by
  obtain ⟨l, hl⟩ := t
  unfold scan
  simp only
  induction l with
  | nil => rfl
  | cons e r ih =>
    have h1 := List.pairwise_cons.1 hl
    by_cases h : e.1 < s
    · -- a key that starts so is not less than the text
      have h2 : ¬ Text.startsWith s e.1 = true := fun h3 => Text.startsWith_self_le h3 h
      rw [List.dropWhile_cons_of_pos (by simpa using h), List.filter_cons_of_neg (by exact h2)]
      exact ih h1.2
    · rw [List.dropWhile_cons_of_neg (by simpa using h)]
      refine takeWhile_startsWith hl fun x hx hlt => ?_
      rcases List.mem_cons.1 hx with rfl | hx
      · exact h hlt
      · exact h (String.lt_trans (h1.1 x hx) hlt)

/-- **A scan finds exactly the keys that start so**, with their values. -/
theorem mem_scan {k : String} {v : Octets} :
    (k, v) ∈ t.scan s ↔ t.get? k = some v ∧ Text.startsWith s k := by
  rw [scan_eq_filter, List.mem_filter, mem_entries_iff]

theorem scan_ordered (t : Table) (s : String) : (t.scan s).Pairwise fun a b => a.1 < b.1 := by
  rw [scan_eq_filter]
  exact t.ordered.sublist List.filter_sublist

/-! ## Single writes -/

theorem lookup_putEntry (l : List Entry) :
    (putEntry k v l).lookup q = if q = k then some v else l.lookup q := by
  induction l with
  | nil => rw [putEntry, lookup_cons_if]
  | cons e r ih =>
    obtain ⟨k', v'⟩ := e
    unfold putEntry
    by_cases h1 : k < k'
    · rw [if_pos h1, lookup_cons_if]
    · by_cases h2 : k = k'
      · rw [if_neg h1, if_pos h2, lookup_cons_if, lookup_cons_if]
        by_cases h : q = k
        · rw [if_pos h, if_pos h]
        · rw [if_neg h, if_neg h, if_neg fun h3 => h (h3.trans h2.symm)]
      · rw [if_neg h1, if_neg h2, lookup_cons_if, lookup_cons_if, ih]
        by_cases h : q = k
        · rw [if_pos h, if_pos h, if_neg fun h3 => h2 (h.symm.trans h3)]
        · rw [if_neg h, if_neg h]

theorem get?_put : (t.put k v).get? q = if q = k then some v else t.get? q :=
  lookup_putEntry t.entries

theorem get?_filter (p : Entry → Bool) (hp : ∀ v, p (q, v) = true) :
    (t.filter p).get? q = t.get? q := by
  refine Option.ext fun v => ?_
  rw [← mem_entries_iff, ← mem_entries_iff]
  simp [filter, hp]

theorem get?_filter_none (p : Entry → Bool) (hp : ∀ v, p (q, v) = false) :
    (t.filter p).get? q = none := by
  refine Option.eq_none_iff_forall_ne_some.2 fun v h => ?_
  rw [← mem_entries_iff] at h
  simp [filter, hp] at h

theorem get?_erase : (t.erase k).get? q = if q = k then none else t.get? q := by
  unfold erase
  split_ifs with h
  · exact get?_filter_none _ (by simp [h])
  · exact get?_filter _ (by simp [h])

theorem get?_foldl_erase (l : List Entry) :
    (l.foldl (fun t e => t.erase e.1) t).get? q = if q ∈ l.map (·.1) then none else t.get? q := by
  induction l generalizing t with
  | nil => rfl
  | cons e l ih =>
    simp only [List.foldl_cons, ih, get?_erase, List.map_cons, List.mem_cons]
    by_cases h : q = e.1
    · rw [if_pos h, ite_self, if_pos (Or.inl h)]
    · simp only [h, if_false, false_or]

/-- **What a scan finds is gone**, and nothing else. -/
theorem get?_eraseAll :
    (t.eraseAll s).get? q = if Text.startsWith s q then none else t.get? q := by
  have found : q ∈ (t.scan s).map (·.1) ↔ (∃ v, t.get? q = some v) ∧ Text.startsWith s q := by
    simp [mem_scan]
  unfold eraseAll
  rw [get?_foldl_erase]
  by_cases hs : Text.startsWith s q
  · rw [if_pos hs]
    split_ifs with hq
    · rfl
    · -- a key that starts so and is not found has no value
      rw [found] at hq
      exact Option.eq_none_iff_forall_ne_some.2 fun v hv => hq ⟨⟨v, hv⟩, hs⟩
  · rw [if_neg hs, if_neg fun hq => hs (found.1 hq).2]

end Table

/-! ## Several writes -/

namespace Op

/-- Whether a write may change the value of a key. -/
def touches (q : String) : Op → Bool
  | put k _ => q == k
  | delete k => q == k
  | deletePrefix s => Text.startsWith s q

/-- What a write does to the value of a key. -/
def act (q : String) (old : Option Octets) (op : Op) : Option Octets :=
  if op.touches q then
    match op with
    | put _ v => some v
    | delete _ | deletePrefix _ => none
  else old

/-- What writes in order do to the value of a key. -/
def after (q : String) (ops : List Op) (old : Option Octets) : Option Octets :=
  ops.foldl (act q) old

variable {q : String} {old : Option Octets}

@[simp] theorem after_nil : after q [] old = old :=
  rfl

theorem after_cons (op : Op) (ops : List Op) :
    after q (op :: ops) old = after q ops (op.act q old) :=
  rfl

theorem after_append (ops ops' : List Op) :
    after q (ops ++ ops') old = after q ops' (after q ops old) :=
  List.foldl_append

theorem act_of_untouched {op : Op} (h : op.touches q = false) : op.act q old = old := by
  unfold act
  rw [h]
  rfl

theorem after_of_untouched {ops : List Op} (h : ∀ op ∈ ops, op.touches q = false) :
    after q ops old = old := by
  induction ops generalizing old with
  | nil => rfl
  | cons op ops ih =>
    rw [after_cons, act_of_untouched (h op List.mem_cons_self)]
    exact ih fun op' h' => h op' (List.mem_cons_of_mem _ h')

theorem after_deletes (keys : List String) :
    after q (keys.map delete) old = if q ∈ keys then none else old := by
  induction keys generalizing old with
  | nil => rfl
  | cons k r ih =>
    rw [List.map_cons, after_cons, ih]
    by_cases h : q = k <;> by_cases h' : q ∈ r <;> simp [act, touches, h, h']

theorem after_puts (keys : List String) (v : Octets) :
    after q (keys.map (put · v)) old = if q ∈ keys then some v else old := by
  induction keys generalizing old with
  | nil => rfl
  | cons k r ih =>
    rw [List.map_cons, after_cons, ih]
    by_cases h : q = k <;> by_cases h' : q ∈ r <;> simp [act, touches, h, h']

/-- Writes after the last one to a key leave what that one left. -/
theorem after_eq_of_touched {op : Op} {ops : List Op} (h : op.touches q = true)
    (old' : Option Octets) : after q (op :: ops) old = after q (op :: ops) old' := by
  rw [after_cons, after_cons]
  unfold act
  rw [if_pos h, if_pos h]

/-- A value is the one from before or one that was written. -/
theorem mem_of_after {ops : List Op} {v : Octets} (h : after q ops old = some v) :
    old = some v ∨ put q v ∈ ops := by
  induction ops generalizing old with
  | nil => exact Or.inl h
  | cons op ops ih =>
    rw [after_cons] at h
    rcases ih h with h1 | h1
    · unfold act at h1
      split at h1
      · next ht =>
        split at h1
        · next k w =>
          rw [Option.some.inj h1, ← beq_iff_eq.1 ht]
          exact Or.inr List.mem_cons_self
        · cases h1
        · cases h1
      · exact Or.inl h1
    · exact Or.inr (List.mem_cons_of_mem _ h1)

end Op

namespace Table

variable {t : Table} {q s : String}

theorem get?_step (op : Op) : (t.step op).1.get? q = op.act q (t.get? q) := by
  cases op with
  | put k v => simp only [step, get?_put, Op.act, Op.touches, beq_iff_eq]
  | delete k => simp only [step, get?_erase, Op.act, Op.touches, beq_iff_eq]
  | deletePrefix s => rw [step, get?_eraseAll]; rfl

/-- **What several writes do to a key** is what each of them does to it in turn. -/
theorem get?_run (ops : List Op) : (t.run ops).1.get? q = Op.after q ops (t.get? q) := by
  induction ops generalizing t with
  | nil => rfl
  | cons op ops ih => simp only [run, ih, get?_step, Op.after_cons]

/-! ## Tables from lists -/

theorem putEntry_last {k : String} {v : Octets} {l : List Entry} (h : ∀ e ∈ l, e.1 < k) :
    putEntry k v l = l ++ [(k, v)] := by
  induction l with
  | nil => rfl
  | cons e r ih =>
    have h1 : e.1 < k := h e List.mem_cons_self
    have h2 : ¬ k < e.1 := fun h3 => String.lt_irrefl _ (String.lt_trans h1 h3)
    have h3 : k ≠ e.1 := fun h4 => String.lt_irrefl _ (h4 ▸ h1)
    rw [putEntry, if_neg h2, if_neg h3, ih fun x hx => h x (List.mem_cons_of_mem _ hx),
      List.cons_append]

/-- Entries in ascending order are put in as they are. -/
theorem entries_foldl_put {l : List Entry} {t : Table}
    (h : (t.entries ++ l).Pairwise fun a b => a.1 < b.1) :
    (l.foldl (fun t e => t.put e.1 e.2) t).entries = t.entries ++ l := by
  induction l generalizing t with
  | nil => simp
  | cons e r ih =>
    have hlt : ∀ x ∈ t.entries, x.1 < e.1 := fun x hx =>
      (List.pairwise_append.1 h).2.2 x hx e List.mem_cons_self
    have hput : (t.put e.1 e.2).entries = t.entries ++ [e] := putEntry_last hlt
    rw [List.foldl_cons, ih, hput, List.append_assoc, List.singleton_append]
    rw [hput, List.append_assoc]
    exact h

/-- **A table is that of its entries.** -/
theorem ofList_entries (t : Table) : ofList t.entries = t := by
  have h : (ofList t.entries).entries = t.entries := entries_foldl_put t.ordered
  cases hl : ofList t.entries
  rw [hl] at h
  subst h
  rfl

end Table

end ZoneRelay
