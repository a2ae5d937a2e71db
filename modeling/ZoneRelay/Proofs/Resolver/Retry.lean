import ZoneRelay.Proofs.Resolver.Atomicity
import ZoneRelay.Proofs.Resolver.Isolation

/-!
# Which changes to try again

A change that fails has a fault of its own, or the store let it down. What can be read from a
resolver is always readable, so there is no third way; and whether a change has a fault does not
depend on the resolver that looks for it.

* `Table.Final`: a computation that fails with errors only that no later try can mend; `final_plan`
  is that planning a change is one.
* `Table.plan_error_iff`: a fault of a change is found from every sound table that it is not stale
  for.
* `Store.Recovers`: the same store, but commits succeed again.
* `Resolver.retry_exact`: an error that is no reason to try again comes from every resolver, and one
  that is a reason goes away with the store's failure.
-/

namespace ZoneRelay

namespace Table

variable {t : Table} {c : Change} {α β : Type} {e : ApplyError}

/-! ## Faults are final -/

/-- A computation fails with errors only that are no reason to try again. -/
def Final (x : Except ApplyError α) : Prop :=
  ∀ e, x = .error e → e.isRetryable = false

theorem final_ok (a : α) : Final (.ok a) := by
  intro e h
  cases h

theorem final_error (he : e.isRetryable = false) : Final (.error e : Except ApplyError α) := by
  intro e' h
  rw [← Except.error.inj h]
  exact he

theorem final_bind {x : Except ApplyError α} {f : α → Except ApplyError β} (hx : Final x)
    (hf : ∀ a, Final (f a)) : Final (x >>= f) := by
  cases x with
  | error e => exact final_error (hx e rfl)
  | ok a => exact hf a

theorem final_map {x : Except ApplyError α} (hx : Final x) (f : α → β) : Final (x.map f) := by
  cases x with
  | error e => exact final_error (hx e rfl)
  | ok a => exact final_ok (f a)

theorem final_mapM {f : α → Except ApplyError β} (hf : ∀ a, Final (f a)) (l : List α) :
    Final (l.mapM f) := by
  induction l with
  | nil => exact final_ok []
  | cons a l ih =>
    rw [List.mapM_cons]
    exact final_bind (hf a) fun b => final_bind ih fun bs => final_ok (b :: bs)

theorem final_liftRecord (r : Except RecordError α) : Final (liftRecord r) := by
  cases r with
  | error cause => exact final_error rfl
  | ok a => exact final_ok a

theorem final_op (zone : String) (rc : RecordSetChange) : Final (RecordSetChange.op zone rc) := by
  unfold RecordSetChange.op
  refine final_bind (final_liftRecord _) fun name => ?_
  have hput : Final (do
      let records ← liftRecord rc.recordSet.encode
      .ok (Op.put (Key.recordSet zone name rc.recordSet.type) (encodeRecords records))) :=
    final_bind (final_liftRecord _) fun records => final_ok _
  split
  · exact final_error rfl
  · split
    · exact hput
    · exact hput
    · split
      · exact final_error rfl
      · exact final_ok _
    · exact final_error rfl

theorem final_zoneOps (id : ChangeId) (zone : String) (creates : Bool)
    (changes : List RecordSetChange) : Final (zoneOps id zone creates changes) := by
  unfold zoneOps
  exact final_bind (final_mapM (final_op zone) changes) fun steps => final_ok _

theorem final_unlessStale {id : ChangeId} {last : Option ChangeId} {p : Except ApplyError Plan}
    (hp : Final p) : Final (unlessStale id last p) := by
  unfold unlessStale
  split
  · split
    · exact final_ok _
    · exact hp
  · exact hp

/-- Reading from a sound table does not fail. -/
theorem Sound.exists_lastApplied (ht : t.Sound) (s : Scope) :
    ∃ last, t.lastApplied s = .ok last := by
  rcases ht.lastApplied_ok s with ⟨h, -⟩ | ⟨id, h, -⟩
  · exact ⟨none, h⟩
  · exact ⟨some id, h⟩

theorem Sound.exists_lastAppliedToZone (ht : t.Sound) (zone : String) :
    ∃ last, t.lastAppliedToZone zone = .ok last :=
  ht.exists_lastApplied (.zone zone)

theorem Sound.exists_lastAppliedToRule (ht : t.Sound) (id : RuleId) :
    ∃ last, t.lastAppliedToRule id = .ok last :=
  ht.exists_lastApplied (.rule id)

theorem Sound.exists_rule (ht : t.Sound) (id : RuleId) : ∃ previous, t.rule id = .ok previous := by
  rcases ht.rule_ok id with ⟨h, -⟩ | ⟨r, h, -⟩
  · exact ⟨none, h⟩
  · exact ⟨some r, h⟩

theorem final_planZone (ht : t.Sound) (id : ChangeId) (z : ZoneChange) :
    Final (t.planZone id z) := by
  unfold planZone
  refine final_bind (final_liftRecord _) fun zone => ?_
  obtain ⟨last, hl⟩ := ht.exists_lastAppliedToZone zone
  rw [hl]
  refine final_unlessStale ?_
  split
  · exact final_map (final_zoneOps _ _ _ _) _
  · exact final_map (final_zoneOps _ _ _ _) _
  · exact final_ok _
  · exact final_error rfl

theorem final_planPut (ht : t.Sound) (id : ChangeId) (r : Rule) : Final (t.planPut id r) := by
  obtain ⟨previous, hp⟩ := ht.exists_rule r.id
  unfold planPut
  rw [hp]
  split
  · exact final_error rfl
  · refine final_bind (final_mapM (fun d => final_liftRecord _) r.domains) fun _ => ?_
    exact final_bind (final_liftRecord _) fun stored => final_ok _

theorem final_planFirewall (ht : t.Sound) (id : ChangeId) (f : FirewallChange) :
    Final (t.planFirewall id f) := by
  obtain ⟨last, hl⟩ := ht.exists_lastAppliedToRule f.rule.id
  obtain ⟨previous, hp⟩ := ht.exists_rule f.rule.id
  unfold planFirewall
  rw [hl, hp]
  refine final_unlessStale ?_
  split
  · exact final_planPut ht id f.rule
  · exact final_ok _
  · exact final_error rfl

/-- **A change that cannot be planned never can be**, as far as its error says. -/
theorem final_plan (ht : t.Sound) (c : Change) : Final (t.plan c) := by
  unfold plan
  split
  · exact final_planZone ht _ _
  · exact final_planFirewall ht _ _
  · exact final_error rfl
  · exact final_error rfl
  · exact final_error rfl

/-! ## Faults are found everywhere -/

theorem unlessStale_of_not_stale {id : ChangeId} {last : Option ChangeId}
    {p : Except ApplyError Plan} (h : ∀ l, unlessStale id last p ≠ .ok (.stale l)) :
    ∀ l ∈ last, l < id := by
  intro l hl
  by_contra hle
  obtain rfl : last = some l := hl
  exact h l (if_pos (by simpa using hle))

theorem planZone_error_iff (ht : t.Sound) {i : ChangeId} {z : ZoneChange}
    (hns : ∀ l, t.planZone i z ≠ .ok (.stale l)) :
    t.planZone i z = .error e ↔ empty.planZone i z = .error e := by
  cases hv : Name.validate z.zoneName with
  | error cause =>
    -- the name of the zone is refused before anything is read
    unfold planZone
    rw [hv]
    rfl
  | ok zone =>
    obtain ⟨last, hl⟩ := ht.exists_lastAppliedToZone zone
    have hn : ∀ l ∈ last, l < i := by
      unfold planZone at hns
      rw [hv] at hns
      change ∀ l, (liftStore (t.lastAppliedToZone zone) >>= _) ≠ _ at hns
      rw [hl] at hns
      exact unlessStale_of_not_stale hns
    rw [Name.validate_ok hv] at hl
    rw [planZone_of_newer hl hn]

theorem planPut_error_iff (ht : t.Sound) {i : ChangeId} {r : Rule} :
    t.planPut i r = .error e ↔ empty.planPut i r = .error e := by
  obtain ⟨previous, hp⟩ := ht.exists_rule r.id
  have h0 : empty.rule r.id = .ok none := rfl
  unfold planPut
  rw [hp, h0]
  split
  · rfl
  · -- what comes before the previous rule is read is the same, what comes after cannot fail
    cases r.domains.mapM fun d => liftRecord (Name.validate d) with
    | error cause => rfl
    | ok _ =>
      cases liftRecord r.compile with
      | error cause => rfl
      | ok stored =>
        constructor
        · intro h
          cases h
        · intro h
          cases h

theorem planFirewall_error_iff (ht : t.Sound) {i : ChangeId} {f : FirewallChange}
    (hns : ∀ l, t.planFirewall i f ≠ .ok (.stale l)) :
    t.planFirewall i f = .error e ↔ empty.planFirewall i f = .error e := by
  obtain ⟨last, hl⟩ := ht.exists_lastAppliedToRule f.rule.id
  obtain ⟨previous, hp⟩ := ht.exists_rule f.rule.id
  have h0 : empty.lastAppliedToRule f.rule.id = .ok none := rfl
  have h1 : empty.rule f.rule.id = .ok none := rfl
  unfold planFirewall at hns ⊢
  rw [hl, hp] at hns ⊢
  rw [h0, h1]
  have hn : ∀ l ∈ last, l < i := unlessStale_of_not_stale hns
  show unlessStale i last _ = .error e ↔ unlessStale i none _ = .error e
  rw [unlessStale_of_newer hn, unlessStale_of_newer (by simp)]
  cases f.action with
  | upsert => exact planPut_error_iff ht
  | delete =>
    constructor
    · intro h
      cases h
    · intro h
      cases h
  | unspecified => rfl

/-- **A fault is found from every table** that a change is not stale for. -/
theorem plan_error_iff (ht : t.Sound) (hns : ∀ l, t.plan c ≠ .ok (.stale l)) :
    t.plan c = .error e ↔ empty.plan c = .error e := by
  unfold plan at hns ⊢
  split
  · next z h1 h2 =>
    simp only [h1, h2] at hns
    exact planZone_error_iff ht hns
  · next f h1 h2 =>
    simp only [h1, h2] at hns
    exact planFirewall_error_iff ht hns
  · rfl
  · rfl
  · rfl

end Table

/-! ## Trying again -/

namespace Store

/-- A store with the same table, whose commits succeed. -/
structure Recovers (s s' : Store) : Prop where
  table : s'.table = s.table
  commits : ∀ ops, (s'.commit ops).1 = .ok ()

/-- A store recovers when its commits are not made to fail any more, and its file, if it has one,
can be written. -/
theorem recovers_of_saved {s : Store}
    (h : ∀ path disk, s.backing = .file path disk → ∀ t, (disk.save path t).1 = true) :
    s.Recovers { s with failing := 0 } where
  table := rfl
  commits ops := by
    unfold commit
    cases hb : s.backing with
    | memory => rfl
    | file path disk =>
      simp only [h path disk hb]
      rfl

end Store

namespace Resolver

variable {r : Resolver} {c : Change} {e : ApplyError}

/-- An error that is no reason to try again is a fault of the change. -/
theorem fault_of_apply (h : r.Consistent) (he : (r.apply c).1 = .error e)
    (hr : e.isRetryable = false) : Table.empty.plan c = .error e := by
  rcases r.apply_outcomes c with ⟨e', hp, ha⟩ | ⟨l, -, ha⟩ |
    ⟨ops, edit, -, ⟨store, -, ha⟩ | ⟨cause, store, hc, ha⟩⟩
  · have hsame : e' = e := Except.error.inj ((congrArg Prod.fst ha).symm.trans he)
    rw [hsame] at hp
    refine (Table.plan_error_iff h.sound fun l hl => ?_).1 hp
    rw [hp] at hl
    cases hl
  · rw [ha] at he
    cases he
  · rw [ha] at he
    cases he
  · -- a commit that failed may succeed later
    rw [ha] at he
    rw [← Except.error.inj he] at hr
    have htransient := (Store.commit_error hc).2.2
    exact absurd (htransient.symm.trans hr) (by decide)

/-- A change with a fault is refused for it, unless it is stale. -/
theorem apply_of_fault (h : r.Consistent) (hf : Table.empty.plan c = .error e) :
    (r.apply c).1 = .error e ∨ ∃ l, (r.apply c).1 = .ok (.stale l) := by
  by_cases hstale : ∃ l, r.store.table.plan c = .ok (.stale l)
  · obtain ⟨l, hl⟩ := hstale
    exact Or.inr ⟨l, by rw [apply_of_stale hl]⟩
  · have hp : r.store.table.plan c = .error e :=
      (Table.plan_error_iff h.sound (not_exists.1 hstale)).2 hf
    refine Or.inl ?_
    unfold apply
    rw [hp]

/-- An error that is a reason to try again is a failure of the store to write what was planned. -/
theorem plan_of_retryable (h : r.Consistent) (he : (r.apply c).1 = .error e)
    (hr : e.isRetryable = true) : ∃ ops edit, r.store.table.plan c = .ok (.write ops edit) := by
  rcases r.apply_outcomes c with ⟨e', hp, ha⟩ | ⟨l, -, ha⟩ | ⟨ops, edit, hp, -⟩
  · rw [ha] at he
    rw [← Except.error.inj he, Table.final_plan h.sound c e' hp] at hr
    cases hr
  · rw [ha] at he
    cases he
  · exact ⟨ops, edit, hp⟩

/-- What is planned is applied when commits succeed. -/
theorem apply_of_recovers {ops : List Op} {edit : IndexEdit} {s : Store}
    (hp : r.store.table.plan c = .ok (.write ops edit)) (hs : r.store.Recovers s) :
    (({ r with store := s } : Resolver).apply c).1 = .ok .applied := by
  rw [← hs.table] at hp
  have hok := hs.commits ops
  rcases hc : s.commit ops with ⟨result, s'⟩
  rw [hc] at hok
  obtain rfl : result = .ok () := hok
  unfold apply
  simp only [hp, hc]

/-- **Which errors are a reason to try again is exact.** A change that fails, in some resolver, with
an error that is none fails with it in every resolver, or is stale there, whatever commits fail. A
change that fails with an error that is one is applied in the same resolver once commits succeed. -/
theorem retry_exact (c : Change) :
    (∀ r e, Reached r → (r.apply c).1 = .error e → e.isRetryable = false →
        ∀ r', Reached r' →
          (r'.apply c).1 = .error e ∨ ∃ l, (r'.apply c).1 = .ok (.stale l)) ∧
      ∀ r e, Reached r → (r.apply c).1 = .error e → e.isRetryable = true →
        ∀ s, r.store.Recovers s →
          (({ r with store := s } : Resolver).apply c).1 = .ok .applied := by
  refine ⟨fun r e hreached he hr r' hreached' => ?_, fun r e hreached he hr s hs => ?_⟩
  · have hfault := fault_of_apply hreached.consistent he hr
    exact apply_of_fault hreached'.consistent hfault
  · obtain ⟨ops, edit, hp⟩ := plan_of_retryable hreached.consistent he hr
    exact apply_of_recovers hp hs

/-- The change that strays is refused by a resolver whose next commit would fail, for the same
reason as by an empty one. The change that does not is applied after the failure. -/
theorem retry_exact_straying :
    let failing := inMemory.run [.failCommits 1]
    ((inMemory.apply straying).1 = .error (.outOfZone "www.example.org." "example.com.") ∧
      ((failing.apply straying).1 = .error (.outOfZone "www.example.org." "example.com.") ∨
        ∃ l, (failing.apply straying).1 = .ok (.stale l))) ∧
    (failing.apply staying).1 = .error (.store .injected) ∧
    (({ failing with store := { failing.store with failing := 0 } } : Resolver).apply staying).1 =
      .ok .applied := by
  intro failing
  have hempty : inMemory.Reached := reached_replay []
  have hfailing : failing.Reached := ⟨.inMemory, [.failCommits 1], rfl⟩
  have hfault : (inMemory.apply straying).1 =
      .error (.outOfZone "www.example.org." "example.com.") := by decide +kernel
  have hstore : (failing.apply staying).1 = .error (.store .injected) := by decide +kernel
  have hrecovers : failing.store.Recovers { failing.store with failing := 0 } :=
    Store.recovers_of_saved fun path disk h => by cases h
  exact ⟨⟨hfault, (retry_exact straying).1 _ _ hempty hfault rfl _ hfailing⟩, hstore,
    (retry_exact staying).2 _ _ hfailing hstore rfl _ hrecovers⟩

end Resolver

end ZoneRelay
