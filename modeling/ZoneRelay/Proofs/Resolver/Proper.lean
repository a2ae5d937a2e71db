import ZoneRelay.Proofs.Resolver.Mirror

/-!
# Where the contents of a table come from

All record sets of a table were encoded from what a change gave, and all rules are such as a change
may put in place. So they can be read, and a rule that is read has a known action.

* `Table.Proper`, `Table.proper_writes`: the invariant, and that a planned change preserves it.
* `Resolver.table_run`: what planned changes preserve of a table holds after every run.
* `Resolver.proper_run`: so a table is proper after every run.
* `Table.Proper.recordSet_ok`: every record set can be read.
-/

namespace ZoneRelay

/-- Whether a rule is one that a change can have put in place. -/
structure StoredRule.Proper (r : StoredRule) : Prop where
  known : r.rule.action ≠ .unspecified
  compiled : r.rule.compile = .ok r

namespace Table

variable {t : Table} {c : Change} {s : Scope} {ops : List Op} {edit : IndexEdit} {k : String}
  {v : Octets} {r : StoredRule}

/-- Every record set was encoded from one given for its key, and every rule is proper. -/
structure Proper (t : Table) : Prop where
  records : ∀ k v, t.get? k = some v → Key.Family.records.has k →
    ∃ zone set records, k = Key.recordSet zone set.name set.type ∧
      RecordSet.encode set = .ok records ∧ v = encodeRecords records
  rules : ∀ r, t.Stores r → r.Proper

theorem proper_empty : empty.Proper :=
  ⟨fun k v h => (by cases h), fun r h => (by cases h)⟩

/-- A record set that is written was encoded from the one given. -/
theorem op_put {zone : String} {rc : RecordSetChange}
    (h : RecordSetChange.op zone rc = .ok (.put k v)) :
    ∃ records, k = Key.recordSet zone rc.recordSet.name rc.recordSet.type ∧
      rc.recordSet.encode = .ok records ∧ v = encodeRecords records := by
  obtain ⟨-, records, h1, h2⟩ | ⟨-, h2⟩ := op_cases h
  · obtain ⟨rfl, rfl⟩ := Op.put.inj h2
    exact ⟨records, rfl, h1, rfl⟩
  · cases h2

/-- A value that a zone change writes among the record sets is one that it gives. -/
theorem records_of_edit {zone : String} {creates : Bool} {changes : List RecordSetChange}
    {steps : List Op} {id : ChangeId} (hc : changes.mapM (RecordSetChange.op zone) = .ok steps)
    (hk : Key.Family.records.has k)
    (h : .put k v ∈ Op.put (Key.appliedZone zone) (encodeChangeId id) ::
      ((if creates then [Op.put (Key.zoneMarker zone) []] else []) ++ steps)) :
    ∃ set records, k = Key.recordSet zone set.name set.type ∧
      RecordSet.encode set = .ok records ∧ v = encodeRecords records := by
  rcases List.mem_cons.1 h with h1 | h1
  · refine absurd (Op.put.inj h1).1 ?_
    exact Key.ne_of_family hk (Key.has_appliedZone zone) (by decide)
  · rcases List.mem_append.1 h1 with h2 | h2
    · cases creates with
      | false => cases h2
      | true =>
        refine absurd (Op.put.inj (List.mem_singleton.1 h2)).1 ?_
        exact Key.ne_of_family hk (Key.has_zoneMarker zone) (by decide)
    · obtain ⟨rc, -, h3⟩ := mem_of_mapM_ok hc _ h2
      obtain ⟨records, h4, h5, h6⟩ := op_put h3
      exact ⟨rc.recordSet, records, h4, h5, h6⟩

/-- **A record set was there before, or the change gives it for its own zone.** -/
theorem records_writes (ht : t.Sound) (hp : t.plan c = .ok (.write ops edit))
    (hv : (t.run ops).1.get? k = some v) (hk : Key.Family.records.has k) :
    t.get? k = some v ∨ ∃ zone set records, c.scope? = some (.zone zone) ∧
      k = Key.recordSet zone set.name set.type ∧ RecordSet.encode set = .ok records ∧
      v = encodeRecords records := by
  obtain ⟨s, -, hs, -, -, hw⟩ := plan_write hp
  cases s with
  | zone zone =>
    rw [get?_run] at hv
    rcases Op.mem_of_after hv with h1 | h1
    · exact Or.inl h1
    · cases hw with
      | @edit z creates edited steps hs' hn hc =>
        obtain ⟨set, records, h2⟩ := records_of_edit hc hk h1
        exact Or.inr ⟨z, set, records, hs', h2⟩
      | @deleteZone z deleted hs' hn =>
        have h2 : k = Key.appliedZone z := by simp [Op.deleteZone] at h1; exact h1.1
        exact absurd h2 (Key.ne_of_family hk (Key.has_appliedZone z) (by decide))
      | putRule hs' => cases hs.symm.trans hs'
      | deleteRule hs' => cases hs.symm.trans hs'
  | rule id =>
    rw [writes_owned ht hw hs (Scope.rule_not_owns hk (by decide) (by decide) (by decide))] at hv
    exact Or.inl hv

/-- A rule that a planned change puts in place is proper. -/
theorem proper_of_plan {id : RuleId} (hp : t.plan c = .ok (.write ops edit))
    (hs : c.scope? = some (.rule id)) (hr : c.newRule? = some r) : r.Proper := by
  obtain ⟨f, htype, hf, -⟩ := Change.rule_of_scope? hs
  obtain ⟨ha, hst⟩ := Change.newRule?_eq_some hf hr
  obtain ⟨hne, -⟩ := plan_upsert hp htype hf ha
  rw [← compile_ok hst] at hne hst
  exact ⟨hne, hst⟩

/-- **Whatever a planned change writes, a proper table stays proper.** -/
theorem proper_writes (ht : t.Sound) (h : t.Proper) (hp : t.plan c = .ok (.write ops edit)) :
    (t.run ops).1.Proper := by
  refine ⟨fun k v hv hk => ?_, fun r hr => ?_⟩
  · rcases records_writes ht hp hv hk with h1 | ⟨zone, set, records, -, h1⟩
    · exact h.records k v h1 hk
    · exact ⟨zone, set, records, h1⟩
  obtain ⟨s, -, hs, -, -, hw⟩ := plan_write hp
  cases s with
  | zone zone => exact h.rules r ((stores_of_zone ht hw hs r).1 hr)
  | rule id =>
    cases hw with
    | edit creates hs' => cases hs.symm.trans hs'
    | deleteZone hs' => cases hs.symm.trans hs'
    | putRule hs' hn hprev =>
      rcases (moves_putRule ht hs' hn hprev).stores_new.1 hr with h1 | ⟨-, h1⟩
      · rw [← Option.some.inj h1]
        exact proper_of_plan hp hs hn
      · exact h.rules r h1
    | deleteRule hs' hf ha hprev =>
      rcases (moves_deleteRule ht hs' hf ha hprev).stores_new.1 hr with h1 | ⟨-, h1⟩
      · cases h1
      · exact h.rules r h1

/-- Every record set can be read. -/
theorem Proper.recordSet_ok (h : t.Proper) (zone name : String) (type : RecordType) :
    ∃ records, t.recordSet zone name type = .ok records := by
  unfold recordSet read
  cases hg : t.get? (Key.recordSet zone name type) with
  | none => exact ⟨none, rfl⟩
  | some v =>
    have hk : Key.Family.records.has (Key.recordSet zone name type) :=
      Key.has_of_zoneRecordSets (Key.startsWith_recordSet zone name type)
    obtain ⟨-, -, records, -, -, rfl⟩ := h.records _ v hg hk
    simp only [decodeRecords?_encodeRecords]
    exact ⟨some records, rfl⟩

end Table

namespace Resolver

variable {P : Table → Prop} {r : Resolver} {events : List Event}

/-- An event leaves the table as it is, or it is what a change was planned to make of it. -/
theorem table_act (h : P r.store.table) {e : Event}
    (hstep : ∀ c ops edit, e = .apply c → r.store.table.plan c = .ok (.write ops edit) →
      P (r.store.table.run ops).1) : P (r.act e).store.table := by
  cases e with
  | apply c =>
    have ht : (r.act (.apply c)).store.table = (r.apply c).2.store.table := rfl
    rw [ht]
    rcases r.apply_cases c with ⟨ops, edit, hp, -, h1, -⟩ | ⟨-, h1, -⟩
    · rw [h1]
      exact hstep c ops edit rfl hp
    · rwa [h1]
  | failCommits n => exact h
  | mount disk =>
    have h1 : (r.act (.mount disk)).store.table = r.store.table :=
      r.store.table_mount disk
    rwa [h1]

/-- **What planned changes preserve of a table holds after every run.** -/
theorem table_run (hr : r.Consistent) (h : P r.store.table)
    (hstep : ∀ c, .apply c ∈ events → ∀ t ops edit, Table.Sound t → P t →
      t.plan c = .ok (.write ops edit) → P (t.run ops).1) : P (r.run events).store.table := by
  induction events generalizing r with
  | nil => exact h
  | cons e events ih =>
    refine ih (consistent_act hr e) (table_act h fun c ops edit he hp => ?_) fun c hc => ?_
    · exact hstep c (he ▸ List.mem_cons_self) _ ops edit hr.sound h hp
    · exact hstep c (List.mem_cons_of_mem _ hc)

theorem proper_act (hr : r.Consistent) (h : r.store.table.Proper) (e : Event) :
    (r.act e).store.table.Proper :=
  table_act h fun _ _ _ _ hp => Table.proper_writes hr.sound h hp

/-- **The contents of a table are proper after every run.** -/
theorem proper_run (hr : r.Consistent) (h : r.store.table.Proper) (events : List Event) :
    (r.run events).store.table.Proper :=
  table_run hr h fun _ _ _ _ _ ht hproper hp => Table.proper_writes ht hproper hp

end Resolver

end ZoneRelay
