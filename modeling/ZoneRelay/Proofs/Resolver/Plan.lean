import ZoneRelay.Proofs.Record.Encoding
import ZoneRelay.Proofs.Store.Commit
import ZoneRelay.Proofs.Store.Contents
import ZoneRelay.Proofs.Store.Key
import ZoneRelay.Proofs.Store.Table
import ZoneRelay.Proofs.Success
import ZoneRelay.Resolver.Apply

/-!
# What a change can write

* `Scope`: the zone or rule that a change is about; `Scope.owns` says which keys keep its state.
* `Table.Writes`: the writes a change can lead to, one case for each kind of change.
* `Table.plan_write`, `Table.plan_stale`: what a plan says about the change and the table.
* `Resolver.apply_outcomes`: a change is refused, is stale, or is one commit.
* `Resolver.apply_cases`: a change is applied as planned, or table and tries stay as they are.
-/

namespace ZoneRelay

/-- What a change is about. -/
inductive Scope
  /-- A zone, by its normal form. -/
  | zone (name : String)
  | rule (id : RuleId)
  deriving DecidableEq, Repr

/-- The zone or rule that a change is about, if it has the payload for its type. -/
def Change.scope? (c : Change) : Option Scope :=
  match c.type, c.zone, c.firewall with
  | .zone, some z, _ => some (.zone (Name.normalize z.zoneName))
  | .firewall, _, some f => some (.rule f.rule.id)
  | _, _, _ => none

/-- The rule that a change puts in place, if its records can be encoded. -/
def Change.newRule? (c : Change) : Option StoredRule :=
  match c.firewall with
  | some f => if f.action = .upsert then f.rule.compile.toOption else none
  | none => none

namespace Change

variable {c : Change}

theorem zone_of_scope? {zone : String} (h : c.scope? = some (.zone zone)) :
    ∃ z, c.type = .zone ∧ c.zone = some z ∧ zone = Name.normalize z.zoneName := by
  unfold scope? at h
  split at h
  · next z h1 h2 => exact ⟨z, h1, h2, (Scope.zone.inj (Option.some.inj h)).symm⟩
  · cases h
  · cases h

theorem rule_of_scope? {id : RuleId} (h : c.scope? = some (.rule id)) :
    ∃ f, c.type = .firewall ∧ c.firewall = some f ∧ id = f.rule.id := by
  unfold scope? at h
  split at h
  · cases h
  · next f h1 h2 => exact ⟨f, h1, h2, (Scope.rule.inj (Option.some.inj h)).symm⟩
  · cases h

theorem newRule?_eq_some {f : FirewallChange} {stored : StoredRule} (hf : c.firewall = some f)
    (h : c.newRule? = some stored) : f.action = .upsert ∧ f.rule.compile = .ok stored := by
  unfold newRule? at h
  simp only [hf] at h
  split at h
  · next ha =>
    cases hr : f.rule.compile with
    | error e =>
      rw [hr] at h
      cases h
    | ok new =>
      rw [hr] at h
      exact ⟨ha, congrArg Except.ok (Option.some.inj h)⟩
  · cases h

/-- A change that deletes a rule puts none in place. -/
theorem newRule?_of_delete {f : FirewallChange} (hf : c.firewall = some f)
    (ha : f.action = .delete) : c.newRule? = none := by
  unfold newRule?
  simp [hf, ha]

end Change

namespace Scope

/-- The key of the last change applied. -/
def appliedKey : Scope → String
  | zone z => Key.appliedZone z
  | rule id => Key.appliedRule id

/-- Whether a key keeps part of the state of a zone or rule. -/
def owns : Scope → String → Prop
  | zone z, k =>
    k = Key.zoneMarker z ∨ Text.startsWith (Key.zoneRecordSets z) k ∨ k = Key.appliedZone z
  | rule id, k => k = Key.rule id ∨ (∃ d, k = Key.domain d id) ∨ k = Key.appliedRule id

end Scope

namespace Table

variable {t u : Table} {c : Change} {s : Scope} {ops : List Op} {edit : IndexEdit}

/-- The last change applied to a zone or rule. -/
def lastApplied (t : Table) : Scope → Except StoreError (Option ChangeId)
  | .zone z => t.lastAppliedToZone z
  | .rule id => t.lastAppliedToRule id

theorem lastApplied_eq (t : Table) (s : Scope) :
    t.lastApplied s = t.read .notChangeId decodeChangeId? s.appliedKey := by
  cases s <;> rfl

theorem lastApplied_of_get? {i : ChangeId} (h : t.get? s.appliedKey = some (encodeChangeId i)) :
    t.lastApplied s = .ok (some i) := by
  rw [lastApplied_eq]
  unfold read
  rw [h]
  simp only [decodeChangeId?_encodeChangeId]

theorem lastApplied_run {i : ChangeId}
    (h : Op.after s.appliedKey ops (t.get? s.appliedKey) = some (encodeChangeId i)) :
    (t.run ops).1.lastApplied s = .ok (some i) :=
  lastApplied_of_get? ((get?_run ops).trans h)

/-- The writes that a change can lead to, with the parts of the change that decide on them. -/
inductive Writes (t : Table) (c : Change) : List Op → IndexEdit → Prop
  /-- A zone is created or updated, one record set after the other. -/
  | edit {zone : String} (creates : Bool) {z : ZoneChange} {steps : List Op}
      (hs : c.scope? = some (.zone zone)) (hn : Name.normalize zone = zone)
      (hc : z.changes.mapM (RecordSetChange.op zone) = .ok steps) (hz : c.zone = some z)
      (ha : z.action = if creates then .create else .update) :
      Writes t c
        (.put (Key.appliedZone zone) (encodeChangeId c.id) ::
          ((if creates then [.put (Key.zoneMarker zone) []] else []) ++ steps))
        (if creates then .addZone zone else .keep)
  | deleteZone {zone : String} {z : ZoneChange} (hs : c.scope? = some (.zone zone))
      (hn : Name.normalize zone = zone) (hz : c.zone = some z) (ha : z.action = .delete) :
      Writes t c (Op.deleteZone zone c.id) (.dropZone zone)
  | putRule {stored : StoredRule} {previous : Option StoredRule}
      (hs : c.scope? = some (.rule stored.rule.id)) (hr : c.newRule? = some stored)
      (hp : t.rule stored.rule.id = .ok previous) :
      Writes t c (Op.putRule previous stored c.id)
        (.moveRule stored.rule.id (domainsOf previous) stored.rule.normalizedDomains)
  | deleteRule {id : RuleId} {f : FirewallChange} {previous : Option StoredRule}
      (hs : c.scope? = some (.rule id)) (hf : c.firewall = some f) (ha : f.action = .delete)
      (hp : t.rule id = .ok previous) :
      Writes t c (Op.deleteRule previous id c.id) (.moveRule id (domainsOf previous) [])

/-- Only the creation of a zone puts its marker. -/
theorem creates_iff {creates : Bool} {action : ZoneAction}
    (ha : action = if creates then .create else .update) :
    creates = true ↔ action = .create := by
  rw [ha]
  cases creates <;> simp

theorem liftStore_ok {α : Type} {r : Except StoreError α} {a : α} (h : liftStore r = .ok a) :
    r = .ok a := by
  cases r with
  | error e => cases h
  | ok b => exact congrArg Except.ok (Except.ok.inj h)

theorem liftRecord_ok {α : Type} {r : Except RecordError α} {a : α} (h : liftRecord r = .ok a) :
    r = .ok a := by
  cases r with
  | error e => cases h
  | ok b => exact congrArg Except.ok (Except.ok.inj h)

theorem compile_ok {r : Rule} {stored : StoredRule} (h : r.compile = .ok stored) :
    stored.rule = r := by
  obtain ⟨answer, -, h1⟩ := bind_ok h
  rw [← Except.ok.inj h1]

/-- A plan is made only if the last change applied is older. -/
theorem unlessStale_ok {id : ChangeId} {last : Option ChangeId} {p : Except ApplyError Plan}
    {q : Plan} (h : unlessStale id last p = .ok q) :
    (∃ l, last = some l ∧ id ≤ l ∧ q = .stale l) ∨ (∀ l ∈ last, l < id) ∧ p = .ok q := by
  unfold unlessStale at h
  cases last with
  | none => exact Or.inr ⟨by simp, h⟩
  | some l =>
    simp only at h
    split at h
    · next h1 => exact Or.inl ⟨l, rfl, h1, (Except.ok.inj h).symm⟩
    · next h1 => exact Or.inr ⟨by simpa using h1, h⟩

theorem zoneOps_ok {id : ChangeId} {zone : String} {creates : Bool}
    {changes : List RecordSetChange} (h : zoneOps id zone creates changes = .ok ops) :
    ∃ steps, changes.mapM (RecordSetChange.op zone) = .ok steps ∧
      ops = .put (Key.appliedZone zone) (encodeChangeId id) ::
        ((if creates then [.put (Key.zoneMarker zone) []] else []) ++ steps) := by
  obtain ⟨steps, h1, h2⟩ := bind_ok h
  exact ⟨steps, h1, (Except.ok.inj h2).symm⟩

/-- **What a plan says**: the change has a scope, and either a change to that scope that is no older
has been applied, or the plan is one of the writes. -/
theorem plan_ok {p : Plan} (h : t.plan c = .ok p) :
    ∃ s last, c.scope? = some s ∧ t.lastApplied s = .ok last ∧
      ((∃ l, last = some l ∧ c.id ≤ l ∧ p = .stale l) ∨
        (∀ l ∈ last, l < c.id) ∧ ∃ ops edit, p = .write ops edit ∧ t.Writes c ops edit) := by
  unfold plan at h
  split at h
  · next z ht hz =>
    obtain ⟨zone, h1, h2⟩ := bind_ok h
    obtain ⟨last, h3, h4⟩ := bind_ok h2
    have h5 := Name.validate_ok (liftRecord_ok h1)
    have hs : c.scope? = some (.zone zone) := by
      unfold Change.scope?
      simp only [ht, hz, h5]
    have hn : Name.normalize zone = zone := by rw [h5, Name.normalize_normalize]
    refine ⟨.zone zone, last, hs, liftStore_ok h3, ?_⟩
    rcases unlessStale_ok h4 with h6 | ⟨h6, h7⟩
    · exact Or.inl h6
    · refine Or.inr ⟨h6, ?_⟩
      split at h7
      · next ha =>
        obtain ⟨ops, h8, h9⟩ := map_ok h7
        obtain ⟨steps, h10, rfl⟩ := zoneOps_ok h8
        exact ⟨_, _, h9.symm, .edit true hs hn h10 hz ha⟩
      · next ha =>
        obtain ⟨ops, h8, h9⟩ := map_ok h7
        obtain ⟨steps, h10, rfl⟩ := zoneOps_ok h8
        exact ⟨_, _, h9.symm, .edit false hs hn h10 hz ha⟩
      · next ha => exact ⟨_, _, (Except.ok.inj h7).symm, .deleteZone hs hn hz ha⟩
      · cases h7
  · next f ht hf =>
    obtain ⟨last, h3, h4⟩ := bind_ok h
    have hs : c.scope? = some (.rule f.rule.id) := by
      unfold Change.scope?
      simp only [ht, hf]
    -- the rule that is compiled has the identity of the one in the change
    refine ⟨.rule f.rule.id, last, hs, liftStore_ok h3, ?_⟩
    rcases unlessStale_ok h4 with h6 | ⟨h6, h7⟩
    · exact Or.inl h6
    · refine Or.inr ⟨h6, ?_⟩
      split at h7
      · next ha =>
        unfold planPut at h7
        split at h7
        · cases h7
        · obtain ⟨-, -, h8⟩ := bind_ok h7
          obtain ⟨stored, h9, h10⟩ := bind_ok h8
          obtain ⟨previous, h11, h12⟩ := bind_ok h10
          have h13 := liftRecord_ok h9
          have hr : c.newRule? = some stored := by
            unfold Change.newRule?
            simp only [hf, ha, if_true, h13]
            rfl
          rw [← compile_ok h13] at hs h11 h12
          exact ⟨_, _, (Except.ok.inj h12).symm, .putRule hs hr (liftStore_ok h11)⟩
      · next ha =>
        obtain ⟨previous, h8, h9⟩ := bind_ok h7
        exact ⟨_, _, (Except.ok.inj h9).symm, .deleteRule hs hf ha (liftStore_ok h8)⟩
      · cases h7
  · cases h
  · cases h
  · cases h

theorem plan_stale {l : ChangeId} (h : t.plan c = .ok (.stale l)) :
    ∃ s, c.scope? = some s ∧ t.lastApplied s = .ok (some l) ∧ c.id ≤ l := by
  obtain ⟨s, last, h1, h2, ⟨l', rfl, h3, h4⟩ | ⟨-, ops, edit, h4, -⟩⟩ := plan_ok h
  · cases h4
    exact ⟨s, h1, h2, h3⟩
  · cases h4

theorem plan_write (h : t.plan c = .ok (.write ops edit)) :
    ∃ s last, c.scope? = some s ∧ t.lastApplied s = .ok last ∧ (∀ l ∈ last, l < c.id) ∧
      t.Writes c ops edit := by
  obtain ⟨s, last, h1, h2, ⟨l, -, -, h3⟩ | ⟨h3, ops', edit', h4, h5⟩⟩ := plan_ok h
  · cases h3
  · cases h4
    exact ⟨s, last, h1, h2, h3, h5⟩

/-- A rule is put in place only if its action is known and its records can be encoded. -/
theorem plan_upsert {f : FirewallChange} (h : t.plan c = .ok (.write ops edit))
    (hc : c.type = .firewall) (hf : c.firewall = some f) (ha : f.action = .upsert) :
    f.rule.action ≠ .unspecified ∧ ∃ stored, f.rule.compile = .ok stored := by
  unfold plan at h
  simp only [hc, hf] at h
  obtain ⟨last, -, h1⟩ := bind_ok h
  rcases unlessStale_ok h1 with ⟨l, -, -, h2⟩ | ⟨-, h2⟩
  · cases h2
  · rw [ha] at h2
    simp only [planPut] at h2
    split at h2
    · cases h2
    · next hne =>
      obtain ⟨-, -, h3⟩ := bind_ok h2
      obtain ⟨stored, h4, -⟩ := bind_ok h3
      exact ⟨hne, stored, liftRecord_ok h4⟩

/-- What is planned for a change that creates or updates a zone. -/
theorem plan_edit {z : ZoneChange} (h : t.plan c = .ok (.write ops edit)) (hc : c.type = .zone)
    (hz : c.zone = some z) (ha : z.action = .create ∨ z.action = .update) :
    ∃ steps, ∃ creates : Bool, (creates = true ↔ z.action = .create) ∧
      z.changes.mapM (RecordSetChange.op (Name.normalize z.zoneName)) = .ok steps ∧
      ops = .put (Key.appliedZone (Name.normalize z.zoneName)) (encodeChangeId c.id) ::
        ((if creates then [.put (Key.zoneMarker (Name.normalize z.zoneName)) []] else []) ++
          steps) := by
  obtain ⟨s, last, hs, -, -, hw⟩ := plan_write h
  have hscope : c.scope? = some (.zone (Name.normalize z.zoneName)) := by
    unfold Change.scope?
    simp only [hc, hz]
  cases hw with
  | edit creates hs' hn hsteps hz' ha' =>
    cases hz.symm.trans hz'
    cases hscope.symm.trans hs'
    exact ⟨_, creates, creates_iff ha', hsteps, rfl⟩
  | deleteZone hs' hn hz' ha' =>
    -- the zone is not deleted, as it is created or updated
    cases hz.symm.trans hz'
    rw [ha'] at ha
    simp at ha
  | putRule hs' => cases hscope.symm.trans hs'
  | deleteRule hs' => cases hscope.symm.trans hs'

/-! ## The keys that are written -/

/-- **A step of a zone change** puts the encoded records under the key of its record set, or it
deletes that key. -/
theorem op_cases {zone : String} {rc : RecordSetChange} {op : Op}
    (h : RecordSetChange.op zone rc = .ok op) :
    ((rc.action = .create ∨ rc.action = .upsert) ∧ ∃ records, rc.recordSet.encode = .ok records ∧
        op = .put (Key.recordSet zone rc.recordSet.name rc.recordSet.type)
          (encodeRecords records)) ∨
      rc.action = .delete ∧
        op = .delete (Key.recordSet zone rc.recordSet.name rc.recordSet.type) := by
  obtain ⟨name, h1, h2⟩ := bind_ok h
  have hkey : Key.recordSet zone name rc.recordSet.type =
      Key.recordSet zone rc.recordSet.name rc.recordSet.type := by
    rw [Name.validate_ok (liftRecord_ok h1), Key.recordSet_normalize]
  rw [hkey] at h2
  split at h2
  · cases h2
  · split at h2
    · next ha =>
      obtain ⟨records, h3, h4⟩ := bind_ok h2
      exact Or.inl ⟨Or.inl ha, records, liftRecord_ok h3, (Except.ok.inj h4).symm⟩
    · next ha =>
      obtain ⟨records, h3, h4⟩ := bind_ok h2
      exact Or.inl ⟨Or.inr ha, records, liftRecord_ok h3, (Except.ok.inj h4).symm⟩
    · next ha =>
      split at h2
      · cases h2
      · exact Or.inr ⟨ha, (Except.ok.inj h2).symm⟩
    · cases h2

/-- A step of a zone change touches the key of its record set and no other. -/
theorem op_touches_iff {zone k : String} {rc : RecordSetChange} {op : Op}
    (h : RecordSetChange.op zone rc = .ok op) :
    op.touches k = true ↔ k = Key.recordSet zone rc.recordSet.name rc.recordSet.type := by
  obtain ⟨-, records, -, rfl⟩ | ⟨-, rfl⟩ := op_cases h
  · exact beq_iff_eq
  · exact beq_iff_eq

/-- A step of a zone change writes one record set of that zone. -/
theorem op_touches {zone k : String} {rc : RecordSetChange} {op : Op}
    (h : RecordSetChange.op zone rc = .ok op) (hk : op.touches k = true) :
    Text.startsWith (Key.zoneRecordSets zone) k := by
  rw [(op_touches_iff h).1 hk]
  exact Key.startsWith_recordSet _ _ _

theorem steps_untouched {zone k : String} {changes : List RecordSetChange} {steps : List Op}
    (h : changes.mapM (RecordSetChange.op zone) = .ok steps)
    (hk : ¬ Text.startsWith (Key.zoneRecordSets zone) k) : ∀ op ∈ steps, op.touches k = false := by
  intro op hop
  obtain ⟨rc, -, h1⟩ := mem_of_mapM_ok h op hop
  by_contra h2
  exact hk (op_touches h1 (by simpa using h2))

variable {k : String} {old : Option Octets}

/-- Creating or updating a zone is a fixed start, and then the steps. -/
theorem after_zoneOps_steps (zone : String) (creates : Bool) (steps : List Op) (id : ChangeId) :
    Op.after k (.put (Key.appliedZone zone) (encodeChangeId id) ::
        ((if creates then [.put (Key.zoneMarker zone) []] else []) ++ steps)) old =
      Op.after k steps (if k = Key.zoneMarker zone ∧ creates then some []
        else if k = Key.appliedZone zone then some (encodeChangeId id) else old) := by
  rw [Op.after_cons, Op.after_append]
  cases creates with
  | false => simp [Op.act, Op.touches]
  | true =>
    rw [if_pos rfl, Op.after_cons, Op.after_nil]
    simp only [Op.act, Op.touches, beq_iff_eq, and_true]

/-- What creating or updating a zone leaves at a key that is no record set of the zone. -/
theorem after_zoneOps {zone : String} {creates : Bool} {changes : List RecordSetChange}
    {steps : List Op} (h : changes.mapM (RecordSetChange.op zone) = .ok steps) (id : ChangeId)
    (hk : ¬ Text.startsWith (Key.zoneRecordSets zone) k) :
    Op.after k (.put (Key.appliedZone zone) (encodeChangeId id) ::
        ((if creates then [.put (Key.zoneMarker zone) []] else []) ++ steps)) old =
      if k = Key.zoneMarker zone ∧ creates then some []
      else if k = Key.appliedZone zone then some (encodeChangeId id) else old := by
  rw [after_zoneOps_steps, Op.after_of_untouched (steps_untouched h hk)]

theorem after_deleteZone (zone : String) (id : ChangeId) :
    Op.after k (Op.deleteZone zone id) old =
      if k = Key.appliedZone zone then some (encodeChangeId id)
      else if Text.startsWith (Key.zoneRecordSets zone) k then none
      else if k = Key.zoneMarker zone then none else old := by
  unfold Op.deleteZone
  rw [Op.after_cons, Op.after_cons, Op.after_cons, Op.after_nil]
  simp only [Op.act, Op.touches, beq_iff_eq]

/-- The keys of the domains of a rule. -/
def domainKeys (s : StoredRule) : List String :=
  s.rule.normalizedDomains.map fun d => Key.domain d s.rule.id

theorem after_putRule (previous : Option StoredRule) (s : StoredRule) (id : ChangeId) :
    Op.after k (Op.putRule previous s id) old =
      if k = Key.appliedRule s.rule.id then some (encodeChangeId id)
      else if k ∈ domainKeys s then some []
      else if k = Key.rule s.rule.id then some (encodeRule s)
      else if k ∈ previous.toList.flatMap domainKeys then none else old := by
  have h1 : previous.toList.flatMap Op.deleteDomains =
      (previous.toList.flatMap domainKeys).map Op.delete := by
    cases previous with
    | none => rfl
    | some p => simp [Op.deleteDomains, domainKeys]
  have h2 : (s.rule.normalizedDomains.map fun d => Op.put (Key.domain d s.rule.id) []) =
      (domainKeys s).map (Op.put · []) := by
    simp [domainKeys]
  unfold Op.putRule
  rw [h1, h2, Op.after_append, Op.after_deletes, Op.after_cons, Op.after_append, Op.after_puts,
    Op.after_cons, Op.after_nil]
  simp only [Op.act, Op.touches, beq_iff_eq]

theorem after_deleteRule (previous : Option StoredRule) (rid : RuleId) (id : ChangeId) :
    Op.after k (Op.deleteRule previous rid id) old =
      if k = Key.appliedRule rid then some (encodeChangeId id)
      else if k ∈ (domainsOf previous).map fun d => Key.domain d rid then none
      else if k = Key.rule rid ∧ previous.isSome then none else old := by
  unfold Op.deleteRule
  rw [Op.after_append, Op.after_cons, Op.after_nil]
  cases previous with
  | none => simp [Op.act, Op.touches, domainsOf]
  | some p =>
    have h1 : (p.rule.normalizedDomains.map fun d => Op.delete (Key.domain d rid)) =
        ((domainsOf (some p)).map fun d => Key.domain d rid).map Op.delete := by
      simp [domainsOf]
    simp only [h1]
    rw [Op.after_cons, Op.after_deletes]
    simp only [Op.act, Op.touches, beq_iff_eq, Option.isSome_some, and_true]

/-- The domains of a rule that is kept under its own identity. -/
theorem map_domainsOf {previous : Option StoredRule} {rid : RuleId}
    (hp : ∀ p ∈ previous, p.rule.id = rid) :
    ((domainsOf previous).map fun d => Key.domain d rid) =
      previous.toList.flatMap domainKeys := by
  cases previous with
  | none => rfl
  | some p => simp [domainsOf, domainKeys, hp p rfl]

/-- Creating or updating a zone leaves the change as the last one applied. -/
theorem after_zoneOps_applied {zone : String} {creates : Bool} {changes : List RecordSetChange}
    {steps : List Op} (h : changes.mapM (RecordSetChange.op zone) = .ok steps) (id : ChangeId) :
    Op.after (Key.appliedZone zone) (.put (Key.appliedZone zone) (encodeChangeId id) ::
        ((if creates then [.put (Key.zoneMarker zone) []] else []) ++ steps)) old =
      some (encodeChangeId id) := by
  have hk := Key.has_appliedZone zone
  have hne : Key.appliedZone zone ≠ Key.zoneMarker zone :=
    Key.ne_of_family hk (Key.has_zoneMarker zone) (by decide)
  rw [after_zoneOps h id (Key.not_recordSets_of_family hk (by decide)), if_neg fun h => hne h.1,
    if_pos rfl]

/-- Among its writes, a change has one of its own identity. -/
theorem applied_mem_of_writes (hw : t.Writes c ops edit) (hs : c.scope? = some s) :
    .put s.appliedKey (encodeChangeId c.id) ∈ ops := by
  cases hw with
  | edit creates hs' =>
    cases hs.symm.trans hs'
    exact List.mem_cons_self
  | deleteZone hs' =>
    cases hs.symm.trans hs'
    simp [Op.deleteZone, Scope.appliedKey]
  | putRule hs' =>
    cases hs.symm.trans hs'
    simp [Op.putRule, Scope.appliedKey]
  | deleteRule hs' =>
    cases hs.symm.trans hs'
    simp [Op.deleteRule, Scope.appliedKey]

/-- **A change leaves its own identity** as that of the last one applied. -/
theorem writes_applied (hw : t.Writes c ops edit) (hs : c.scope? = some s) :
    (t.run ops).1.get? s.appliedKey = some (encodeChangeId c.id) := by
  rw [get?_run]
  cases hw with
  | @edit zone creates z steps hs' hn hc =>
    cases hs.symm.trans hs'
    exact after_zoneOps_applied hc c.id
  | deleteZone hs' hn =>
    cases hs.symm.trans hs'
    exact (after_deleteZone _ _).trans (if_pos rfl)
  | putRule hs' hr hp =>
    cases hs.symm.trans hs'
    exact (after_putRule _ _ _).trans (if_pos rfl)
  | deleteRule hs' =>
    cases hs.symm.trans hs'
    exact (after_deleteRule _ _ _).trans (if_pos rfl)

end Table

/-! ## Applying a change -/

namespace Resolver

/-- Applying a change is refusing it, finding it stale, or one commit. -/
theorem apply_outcomes (r : Resolver) (c : Change) :
    (∃ e, r.store.table.plan c = .error e ∧ r.apply c = (.error e, r)) ∨
      (∃ l, r.store.table.plan c = .ok (.stale l) ∧ r.apply c = (.ok (.stale l), r)) ∨
      ∃ ops edit, r.store.table.plan c = .ok (.write ops edit) ∧
        ((∃ store, r.store.commit ops = (.ok (), store) ∧
            r.apply c = (.ok .applied, ⟨store, r.index.edit edit⟩)) ∨
          ∃ e store, r.store.commit ops = (.error e, store) ∧
            r.apply c = (.error (.store e), ⟨store, r.index⟩)) := by
  unfold apply
  split
  · next e h => exact Or.inl ⟨e, h, rfl⟩
  · next l h => exact Or.inr (Or.inl ⟨l, h, rfl⟩)
  · next ops edit h =>
    refine Or.inr (Or.inr ⟨ops, edit, h, ?_⟩)
    rcases hcommit : r.store.commit ops with ⟨e | _, store⟩
    · exact Or.inr ⟨e, store, rfl, rfl⟩
    · exact Or.inl ⟨store, rfl, rfl⟩

/-- **A change is applied as planned**, or table and tries stay as they are. -/
theorem apply_cases (r : Resolver) (c : Change) :
    (∃ ops edit, r.store.table.plan c = .ok (.write ops edit) ∧ (r.apply c).1 = .ok .applied ∧
        (r.apply c).2.store.table = (r.store.table.run ops).1 ∧
        (r.apply c).2.index = r.index.edit edit) ∨
      ((∃ e, (r.apply c).1 = .error e) ∨
          ∃ l, r.store.table.plan c = .ok (.stale l) ∧ (r.apply c).1 = .ok (.stale l)) ∧
        (r.apply c).2.store.table = r.store.table ∧ (r.apply c).2.index = r.index := by
  rcases r.apply_outcomes c with ⟨e, -, h⟩ | ⟨l, hp, h⟩ |
    ⟨ops, edit, hp, ⟨store, hc, h⟩ | ⟨e, store, hc, h⟩⟩
  · rw [h]
    exact Or.inr ⟨Or.inl ⟨e, rfl⟩, rfl, rfl⟩
  · rw [h]
    exact Or.inr ⟨Or.inr ⟨l, hp, rfl⟩, rfl, rfl⟩
  · rw [h]
    exact Or.inl ⟨ops, edit, hp, rfl, (Store.commit_ok hc).1, rfl⟩
  · rw [h]
    exact Or.inr ⟨Or.inl ⟨_, rfl⟩, (Store.commit_error hc).1, rfl⟩

/-- A change that is stale changes nothing at all. -/
theorem apply_of_stale {r : Resolver} {c : Change} {l : ChangeId}
    (h : r.store.table.plan c = .ok (.stale l)) : r.apply c = (.ok (.stale l), r) := by
  unfold apply
  rw [h]

/-- What is planned is applied, unless the store fails for the moment. -/
theorem apply_of_plan {r : Resolver} {c : Change} {ops : List Op} {edit : IndexEdit}
    (hp : r.store.table.plan c = .ok (.write ops edit)) :
    (r.apply c).1 = .ok .applied ∨
      ∃ e, (r.apply c).1 = .error (.store e) ∧ e.isTransient = true := by
  rcases r.apply_outcomes c with ⟨e, h, -⟩ | ⟨l, h, -⟩ |
    ⟨ops, edit, -, ⟨store, -, h⟩ | ⟨e, store, hc, h⟩⟩
  · cases hp.symm.trans h
  · cases hp.symm.trans h
  · exact Or.inl (by rw [h])
  · exact Or.inr ⟨e, by rw [h], (Store.commit_error hc).2.2⟩

end Resolver

end ZoneRelay
