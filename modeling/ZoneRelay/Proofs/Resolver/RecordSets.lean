import ZoneRelay.Proofs.Resolver.Mirror

/-!
# Record sets after a zone change

A change that creates or updates a zone goes through its steps in order, and several of them may be
about one record set, each with a spelling of the name of its own. The last of them decides what is
found afterwards.

* `RecordSetChange.deciding?`: the last step about a name and a type.
* `Table.after_steps`: what all steps leave under the key of a record set is what that step leaves.
* `Table.Edited`: a table next to the one from before a zone was created or updated.
* `Resolver.last_step_decides`: tables are such whenever the change is applied.
-/

namespace ZoneRelay

namespace RecordSetChange

variable {rc : RecordSetChange} {changes : List RecordSetChange} {name : String} {type : RecordType}

/-- Whether a step is about the record set of a type at a name, however either is spelled. -/
def About (rc : RecordSetChange) (name : String) (type : RecordType) : Prop :=
  Name.normalize rc.recordSet.name = Name.normalize name ∧ rc.recordSet.type = type

instance (rc : RecordSetChange) (name : String) (type : RecordType) :
    Decidable (rc.About name type) :=
  inferInstanceAs (Decidable (_ ∧ _))

/-- The last step about a record set, if there is any. -/
def deciding? (changes : List RecordSetChange) (name : String) (type : RecordType) :
    Option RecordSetChange :=
  (changes.filter fun rc => rc.About name type).getLast?

/-- Whether a step leaves these records: those that it gives, as they are encoded, or none if it
deletes. -/
def Leaves (rc : RecordSetChange) (found : Option (List WireRecord)) : Prop :=
  match rc.action with
  | .create | .upsert => ∃ records ∈ found, rc.recordSet.encode = .ok records
  | .delete => found = none
  | .unspecified => False

theorem about_iff (zone : String) :
    rc.About name type ↔
      Key.recordSet zone name type = Key.recordSet zone rc.recordSet.name rc.recordSet.type := by
  rw [Key.recordSet_inj, eq_comm, @eq_comm _ type]
  rfl

@[simp] theorem deciding?_nil : deciding? [] name type = none :=
  rfl

/-- A step decides if no later one does and it is about the record set. -/
theorem deciding?_cons : deciding? (rc :: changes) name type =
    (deciding? changes name type).or (if rc.About name type then some rc else none) := by
  unfold deciding?
  by_cases h : rc.About name type
  · rw [List.filter_cons_of_pos (by simpa using h), List.getLast?_cons, if_pos h]
    cases (changes.filter fun rc => rc.About name type).getLast? <;> rfl
  · rw [List.filter_cons_of_neg (by simpa using h), if_neg h, Option.or_none]

end RecordSetChange

namespace Table

open RecordSetChange (deciding?)

variable {t : Table} {zone name k : String} {type : RecordType} {rc : RecordSetChange}
  {changes : List RecordSetChange} {steps : List Op}

/-- What a step leaves under the key of its record set. -/
theorem after_op {op : Op} (h : RecordSetChange.op zone rc = .ok op) (old : Option Octets) :
    ∃ found, rc.Leaves found ∧
      op.act (Key.recordSet zone rc.recordSet.name rc.recordSet.type) old =
        found.map encodeRecords := by
  obtain ⟨ha, records, he, rfl⟩ | ⟨ha, rfl⟩ := op_cases h
  · refine ⟨some records, ?_, by simp [Op.act, Op.touches]⟩
    unfold RecordSetChange.Leaves
    rcases ha with ha | ha
    · rw [ha]; exact ⟨records, rfl, he⟩
    · rw [ha]; exact ⟨records, rfl, he⟩
  · refine ⟨none, ?_, by simp [Op.act, Op.touches]⟩
    unfold RecordSetChange.Leaves
    rw [ha]

/-- **Of all steps, the last one about a record set decides** what is under its key. -/
theorem after_steps (h : changes.mapM (RecordSetChange.op zone) = .ok steps)
    (old : Option Octets) :
    (∀ rc ∈ deciding? changes name type, ∃ found, rc.Leaves found ∧
        Op.after (Key.recordSet zone name type) steps old = found.map encodeRecords) ∧
      (deciding? changes name type = none →
        Op.after (Key.recordSet zone name type) steps old = old) := by
  induction changes generalizing steps old with
  | nil =>
    rw [List.mapM_nil] at h
    cases h
    exact ⟨by simp, fun _ => rfl⟩
  | cons first changes ih =>
    rw [List.mapM_cons] at h
    obtain ⟨op, h1, h2⟩ := bind_ok h
    obtain ⟨more, h3, h4⟩ := bind_ok h2
    cases h4
    rw [Op.after_cons, RecordSetChange.deciding?_cons]
    obtain ⟨decided, kept⟩ := ih h3 (op.act (Key.recordSet zone name type) old)
    cases hd : deciding? changes name type with
    | some later =>
      -- a later step decides, whatever this one does
      exact ⟨by simpa using decided later hd, by simp⟩
    | none =>
      rw [kept hd, Option.none_or]
      split_ifs with ha
      · rw [(RecordSetChange.about_iff zone).1 ha]
        obtain ⟨found, h5, h6⟩ := after_op h1 old
        refine ⟨fun rc hrc => ?_, by simp⟩
        cases hrc
        exact ⟨found, h5, h6⟩
      · have hk : op.touches (Key.recordSet zone name type) = false := by
          rw [Bool.eq_false_iff, ne_eq, op_touches_iff h1, ← RecordSetChange.about_iff]
          exact ha
        exact ⟨by simp, fun _ => Op.act_of_untouched hk⟩

theorem recordSet_of_value {found : Option (List WireRecord)}
    (h : t.get? (Key.recordSet zone name type) = found.map encodeRecords) :
    t.recordSet zone name type = .ok found := by
  cases found with
  | none => exact recordSet_of_none h
  | some records => exact recordSet_of_some h

/-- What a table `u` is like after change `id` has created or updated zone `zone` as `z` says, next
to the table `t` from before. -/
structure Edited (t u : Table) (id : ChangeId) (zone : String) (z : ZoneChange) : Prop where
  /-- The last step about a record set decides what is found there. -/
  decided : ∀ name type, ∀ rc ∈ deciding? z.changes name type,
    ∃ found, rc.Leaves found ∧ u.recordSet zone name type = .ok found
  kept : ∀ name type, deciding? z.changes name type = none →
    u.recordSet zone name type = t.recordSet zone name type
  applied : u.lastAppliedToZone zone = .ok (some id)
  created : z.action = .create → u.zoneExists zone = true
  updated : z.action = .update → u.zoneExists zone = t.zoneExists zone
  /-- No other key of the table is touched. -/
  others : ∀ k, k ≠ Key.appliedZone zone → (z.action = .create → k ≠ Key.zoneMarker zone) →
    (∀ rc ∈ z.changes, k ≠ Key.recordSet zone rc.recordSet.name rc.recordSet.type) →
    u.get? k = t.get? k

/-- The start of a zone change leaves the record sets alone. -/
theorem get?_recordSet_edit (creates : Bool) (id : ChangeId) :
    (t.run (.put (Key.appliedZone zone) (encodeChangeId id) ::
        ((if creates then [.put (Key.zoneMarker zone) []] else []) ++ steps))).1.get?
      (Key.recordSet zone name type) =
    Op.after (Key.recordSet zone name type) steps (t.get? (Key.recordSet zone name type)) := by
  have hk : Key.Family.records.has (Key.recordSet zone name type) :=
    Key.has_of_zoneRecordSets (Key.startsWith_recordSet zone name type)
  have hm : Key.recordSet zone name type ≠ Key.zoneMarker zone :=
    Key.ne_of_family hk (Key.has_zoneMarker zone) (by decide)
  have ha : Key.recordSet zone name type ≠ Key.appliedZone zone :=
    Key.ne_of_family hk (Key.has_appliedZone zone) (by decide)
  rw [get?_run, after_zoneOps_steps, if_neg fun h => hm h.1, if_neg ha]

/-- **What the writes of a zone change make of a table.** -/
theorem edited_run {z : ZoneChange} {creates : Bool} (hn : Name.normalize zone = zone)
    (hc : creates = true ↔ z.action = .create)
    (h : z.changes.mapM (RecordSetChange.op zone) = .ok steps) (id : ChangeId) :
    t.Edited (t.run (.put (Key.appliedZone zone) (encodeChangeId id) ::
      ((if creates then [.put (Key.zoneMarker zone) []] else []) ++ steps))).1 id zone z := by
  have exists_iff := Index.zoneExists_of_edit (t := t) creates hn h id zone
  rw [hn] at exists_iff
  constructor
  case decided =>
    intro name type rc hrc
    obtain ⟨found, h1, h2⟩ := (after_steps h _).1 rc hrc
    exact ⟨found, h1, recordSet_of_value ((get?_recordSet_edit creates id).trans h2)⟩
  case kept =>
    intro name type hnone
    unfold recordSet read
    rw [get?_recordSet_edit, (after_steps h _).2 hnone]
  case applied => exact lastApplied_run (s := .zone zone) (after_zoneOps_applied h id)
  case created =>
    intro hcreate
    exact exists_iff.2 (Or.inl ⟨rfl, hc.2 hcreate⟩)
  case updated =>
    intro hupdate
    have hfalse : ¬ creates = true := by rw [hc, hupdate]; decide
    rw [Bool.eq_iff_iff, exists_iff]
    exact ⟨fun h1 => h1.resolve_left fun h2 => hfalse h2.2, Or.inr⟩
  case others =>
    intro k hka hkm hks
    have hsteps : ∀ op ∈ steps, op.touches k = false := by
      intro op hop
      obtain ⟨rc, hrc, h1⟩ := mem_of_mapM_ok h op hop
      rw [Bool.eq_false_iff, ne_eq, op_touches_iff h1]
      exact hks rc hrc
    rw [get?_run, after_zoneOps_steps, Op.after_of_untouched hsteps,
      if_neg fun h1 => hkm (hc.1 h1.2) h1.1, if_neg hka]

end Table

namespace Resolver

/-- **Ordered replay**: after a zone has been created or updated, the last step about each record
set decides what is found there, the other record sets are as before, the zone exists if it was
created, the change is the last one applied to it, and no other key of the table is touched. -/
theorem last_step_decides {r : Resolver} {c : Change} {z : ZoneChange} (hc : c.type = .zone)
    (hz : c.zone = some z) (ha : z.action = .create ∨ z.action = .update)
    (h : (r.apply c).1 = .ok .applied) :
    r.store.table.Edited (r.apply c).2.store.table c.id (Name.normalize z.zoneName) z := by
  rcases r.apply_cases c with ⟨ops, edit, hp, -, h1, -⟩ | ⟨⟨e, h1⟩ | ⟨l, -, h1⟩, -, -⟩
  · obtain ⟨steps, creates, h2, h3, rfl⟩ := Table.plan_edit hp hc hz ha
    rw [h1]
    exact Table.edited_run (Name.normalize_normalize _) h2 h3 c.id
  · cases h.symm.trans h1
  · cases h.symm.trans h1

/-- A change that goes back and forth over one name, spelled in three ways. -/
def respelled : ZoneChange :=
  { zoneName := "Example.COM", action := .update
    changes := [
      ⟨.create, ⟨"www.example.com.", .a, 300, ["192.0.2.1"]⟩⟩,
      ⟨.delete, ⟨"old.example.com", .txt, 0, []⟩⟩,
      ⟨.delete, ⟨"WWW.example.com", .a, 0, []⟩⟩,
      ⟨.upsert, ⟨"Www.Example.Com.", .a, 60, ["192.0.2.2", "192.0.2.3"]⟩⟩] }

/-- The last of the three spellings decides, and the deletion stays one. -/
theorem last_step_decides_respelled :
    let c : Change := { id := 7, type := .zone, zone := some respelled, firewall := none
                        submittedAt := ⟨⟨2024, 1, 3, 0, 0, 0, 0⟩, by decide⟩, status := .pending }
    (inMemory.apply c).1 = .ok .applied ∧
      inMemory.store.table.Edited (inMemory.apply c).2.store.table 7 "example.com." respelled := by
  intro c
  have happ : (inMemory.apply c).1 = .ok .applied := by decide +kernel
  have hn : Name.normalize respelled.zoneName = "example.com." := by decide +kernel
  exact ⟨happ, hn ▸ last_step_decides (c := c) rfl rfl (Or.inr rfl) happ⟩

end Resolver

end ZoneRelay
