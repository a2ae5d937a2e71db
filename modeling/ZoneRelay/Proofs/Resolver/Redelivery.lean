import ZoneRelay.Proofs.Resolver.History

/-!
# Changes that come again

A resolver remembers the last change applied to each zone and each rule, also after it has deleted
them. What it remembers only moves forward, so a change that it has once answered for is stale ever
after.

* `Resolver.Happening`: what can happen to a resolver while it runs, its tries being built anew
  included.
* `Table.Onward`: no zone and no rule has fallen back. `Resolver.onward_undergoAll` says so of every
  run.
* `Resolver.stale_ever_after`: a change that comes again changes nothing.
-/

namespace ZoneRelay

namespace Table

variable {t u v : Table} {c : Change} {ops : List Op} {edit : IndexEdit}

/-- Whether each zone and each rule that had a last change applied has one still, and no older
one. -/
def Onward (t u : Table) : Prop :=
  ∀ s l, t.lastApplied s = .ok (some l) → ∃ l', u.lastApplied s = .ok (some l') ∧ l ≤ l'

theorem Onward.refl (t : Table) : t.Onward t :=
  fun _ l h => ⟨l, h, UInt64.le_refl l⟩

theorem Onward.trans (h : t.Onward u) (h' : u.Onward v) : t.Onward v := by
  intro s l hl
  obtain ⟨m, hm, hlm⟩ := h s l hl
  obtain ⟨n, hn, hmn⟩ := h' s m hm
  exact ⟨n, hn, UInt64.le_trans hlm hmn⟩

/-- **What is planned moves the last change applied forward**, that of the change's own zone or rule
to the change, all others not at all. -/
theorem onward_writes (ht : t.Sound) (hp : t.plan c = .ok (.write ops edit)) :
    t.Onward (t.run ops).1 := by
  obtain ⟨s, last, hs, hlast, hnewer, hw⟩ := plan_write hp
  intro v l hl
  have hkey := applied_writes ht hw hs v
  by_cases hv : v.appliedKey = s.appliedKey
  · rw [if_pos hv] at hkey
    refine ⟨c.id, lastApplied_of_get? hkey, ?_⟩
    -- both are read under one key, so it is the one that the plan has looked at
    have hsame : t.lastApplied v = t.lastApplied s := by
      rw [lastApplied_eq, lastApplied_eq, hv]
    rw [hsame, hlast] at hl
    have hlt : l < c.id := hnewer l (Except.ok.inj hl)
    exact UInt64.le_of_lt hlt
  · rw [if_neg hv] at hkey
    exact ⟨l, (lastApplied_congr hkey).trans hl, UInt64.le_refl l⟩

end Table

namespace Resolver

/-- What can happen to a resolver while it runs. -/
inductive Happening
  | event (e : Event)
  /-- The tries are built anew from the store. -/
  | reload

/-- The resolver after something has happened. If the store cannot be read, the tries stay. -/
def undergo (r : Resolver) : Happening → Resolver
  | .event e => r.act e
  | .reload =>
    match load r.store with
    | .ok r' => r'
    | .error _ => r

/-- The resolver after several things have happened in order. -/
def undergoAll (r : Resolver) (l : List Happening) : Resolver :=
  l.foldl undergo r

/-- Whether a resolver can have come to be so since its store was empty. -/
def Lived (r : Resolver) : Prop :=
  ∃ s l, r = (blank s).undergoAll l

variable {r : Resolver} {c : Change}

/-- The resolver with new tries has the same store and is consistent. -/
theorem undergo_reload (h : r.Consistent) :
    (r.undergo .reload).store = r.store ∧ (r.undergo .reload).Consistent := by
  obtain ⟨i, hi, hm⟩ := Index.mirrors_ofTable h.sound
  have hload : load r.store = .ok ⟨r.store, i⟩ := by
    unfold load
    rw [hi]
    rfl
  unfold undergo
  simp only [hload]
  exact ⟨trivial, h.sound, hm⟩

theorem consistent_undergo (h : r.Consistent) (x : Happening) : (r.undergo x).Consistent := by
  cases x with
  | event e => exact consistent_act h e
  | reload => exact (undergo_reload h).2

theorem onward_apply (h : r.Consistent) (c : Change) :
    r.store.table.Onward (r.apply c).2.store.table := by
  rcases r.apply_cases c with ⟨ops, edit, hp, -, htable, -⟩ | ⟨-, htable, -⟩
  · rw [htable]
    exact Table.onward_writes h.sound hp
  · rw [htable]
    exact Table.Onward.refl _

theorem onward_undergo (h : r.Consistent) (x : Happening) :
    r.store.table.Onward (r.undergo x).store.table := by
  match x with
  | .event (.apply c) => exact onward_apply h c
  | .event (.failCommits n) => exact Table.Onward.refl _
  | .event (.mount disk) =>
    have htable : (r.undergo (.event (.mount disk))).store.table = r.store.table :=
      r.store.table_mount disk
    rw [htable]
    exact Table.Onward.refl _
  | .reload =>
    rw [(undergo_reload h).1]
    exact Table.Onward.refl _

/-- **No zone and no rule ever falls back**, whatever happens. -/
theorem onward_undergoAll (h : r.Consistent) (l : List Happening) :
    r.store.table.Onward (r.undergoAll l).store.table := by
  induction l generalizing r with
  | nil => exact Table.Onward.refl _
  | cons x l ih => exact (onward_undergo h x).trans (ih (consistent_undergo h x))

theorem Lived.consistent (h : r.Lived) : r.Consistent := by
  obtain ⟨s, l, rfl⟩ := h
  have run : ∀ {r : Resolver}, r.Consistent → (r.undergoAll l).Consistent := by
    induction l with
    | nil => exact fun h => h
    | cons x l ih => exact fun h => ih (consistent_undergo h x)
  exact run (consistent_blank s)

/-- **A change that was answered for has been reached** by what its zone or rule remembers. -/
theorem reached_of_answered {o : ApplyOutcome} (h : (r.apply c).1 = .ok o) :
    (∃ p, r.store.table.plan c = .ok p) ∧
      ∃ s l, c.scope? = some s ∧ c.id ≤ l ∧
        (r.apply c).2.store.table.lastApplied s = .ok (some l) := by
  rcases r.apply_cases c with ⟨ops, edit, hp, -, htable, -⟩ | ⟨⟨e, herr⟩ | ⟨l, hp, -⟩, htable, -⟩
  · obtain ⟨s, -, hs, -, -, hw⟩ := Table.plan_write hp
    refine ⟨⟨_, hp⟩, s, c.id, hs, UInt64.le_refl _, ?_⟩
    rw [htable]
    exact Table.lastApplied_of_get? (Table.writes_applied hw hs)
  · cases h.symm.trans herr
  · obtain ⟨s, hs, hlast, hle⟩ := Table.plan_stale hp
    exact ⟨⟨_, hp⟩, s, l, hs, hle, htable ▸ hlast⟩

/-- **A change that has once been answered for is stale ever after.** Whatever happens after it was
applied or found stale, when it comes again it is stale, and store and tries stay as they are. All
the while, no zone and no rule falls back behind the last change applied to it, nor forgets it. -/
theorem stale_ever_after (hr : r.Lived) (c : Change) (after : List Happening) :
    (∀ o, (r.apply c).1 = .ok o → ∃ l, c.id ≤ l ∧
        ((r.apply c).2.undergoAll after).apply c =
          (.ok (.stale l), (r.apply c).2.undergoAll after)) ∧
      r.store.table.Onward (r.undergoAll after).store.table := by
  refine ⟨fun o ho => ?_, onward_undergoAll hr.consistent after⟩
  obtain ⟨⟨p, hp⟩, v, l, hv, hle, hl⟩ := reached_of_answered ho
  have hconsistent := consistent_apply hr.consistent c
  obtain ⟨l', hl', hll⟩ := onward_undergoAll hconsistent after v l hl
  have hle' : c.id ≤ l' := UInt64.le_trans hle hll
  exact ⟨l', hle', apply_of_stale (Table.plan_of_older hp hv hl' hle')⟩

/-- A change that creates a zone, and the one that deletes it again. -/
def passing (id : ChangeId) (action : ZoneAction) : Change :=
  { id, type := .zone, zone := some ⟨"Example.com", action, []⟩, firewall := none
    submittedAt := ⟨⟨2024, 1, 3, 0, 0, 0, 0⟩, Eq.refl true⟩, status := .pending }

/-- What happens to the zone later: it is deleted at the third attempt. -/
def departing : List Happening :=
  [.event (.failCommits 2), .event (.apply (passing 9 .delete)), .reload,
    .event (.apply (passing 9 .delete)), .event (.apply (passing 9 .delete))]

/-- The change that created the zone does not bring it back. -/
theorem stale_departed :
    (inMemory.apply (passing 5 .create)).1 = .ok .applied ∧
      ∃ l, 5 ≤ l ∧
        ((inMemory.apply (passing 5 .create)).2.undergoAll departing).apply (passing 5 .create) =
          (.ok (.stale l), (inMemory.apply (passing 5 .create)).2.undergoAll departing) := by
  have hlived : inMemory.Lived := ⟨.inMemory, [], rfl⟩
  have happlied : (inMemory.apply (passing 5 .create)).1 = .ok .applied := by decide +kernel
  exact ⟨happlied, (stale_ever_after hlived (passing 5 .create) departing).1 _ happlied⟩

end Resolver

end ZoneRelay
