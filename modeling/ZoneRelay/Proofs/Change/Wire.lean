import ZoneRelay.Change.Wire
import ZoneRelay.Proofs.Json.RoundTrip
import ZoneRelay.Proofs.Text.Instant

/-!
# Changes and acknowledgments read back

* `Change.decode?_encode`, `Ack.decode?_encode`: a payload gives what it was written for.
* `Ack.decode?_change`, `Change.decode?_ack`: neither kind of payload is taken for the other.
* `Rule.ofJson?_toJson`, `WireRecord.ofJson?_toJson`: the parts that a store keeps too.
-/

namespace ZoneRelay

namespace Json

/-! ## Parts of documents -/

theorem plainItems_map {α : Type} {f : α → Json} (h : ∀ a, plain (f a)) (l : List α) :
    plainItems (l.map f) := by
  induction l with
  | nil => rfl
  | cons a r ih => simp only [List.map_cons, plainItems, h a, ih, Bool.and_self]

theorem readableItems_map {α : Type} {room : ℕ} {f : α → Json} (h : ∀ a, readable room (f a))
    (l : List α) : readableItems room (l.map f) := by
  induction l with
  | nil => rfl
  | cons a r ih => simp only [List.map_cons, readableItems, h a, ih, Bool.and_self]

theorem list?_map {α : Type} {read : Json → Option α} {f : α → Json}
    (h : ∀ a, read (f a) = some a) (l : List α) : list? read (.array (l.map f)) = some l := by
  have key : (l.map f).mapM read = some l := by
    induction l with
    | nil => rfl
    | cons a r ih => rw [List.map_cons, List.mapM_cons, h, ih]; rfl
  exact key

theorem uint64?_nat (n : UInt64) : uint64? (.nat n.toNat) = some n := by
  have h := n.toNat_lt
  simp [uint64?, nat, natBelow?, h]

theorem uint32?_nat (n : UInt32) : uint32? (.nat n.toNat) = some n := by
  have h := n.toNat_lt
  simp [uint32?, nat, natBelow?, h]

/-- A number of few digits is finite. -/
theorem finite_of_lt {n : ℕ} (h : n < 2 ^ 64) : finite n 0 := by
  unfold finite
  split
  · rfl
  · have h1 : digitCount n ≤ 20 := Nat.toDigits_length 10 n 20 (by decide) (by omega)
    simp only
    rw [if_pos (by omega)]

theorem readable_uint32 (room : ℕ) (n : UInt32) : readable room (.nat n.toNat) := by
  have h := n.toNat_lt
  exact finite_of_lt (by omega)

end Json

open Json

/-! ## Names of actions -/

theorem RecordSetAction.ofWireName_wireName (a : RecordSetAction) : ofWireName a.wireName = a := by
  cases a <;> decide

theorem ZoneAction.ofWireName_wireName (a : ZoneAction) : ofWireName a.wireName = a := by
  cases a <;> decide

theorem FirewallAction.ofWireName_wireName (a : FirewallAction) : ofWireName a.wireName = a := by
  cases a <;> decide

theorem ChangeType.ofWireName_wireName (t : ChangeType) : ofWireName t.wireName = t := by
  cases t <;> decide

theorem ChangeStatus.ofWireName?_wireName (s : ChangeStatus) :
    ofWireName? s.wireName = some s := by
  cases s <;> decide

theorem RecordType.ofJson?_toJson (held : Bool) (t : RecordType) :
    ofJson? held t.toJson = some t :=
  congrArg some t.ofMnemonic_mnemonic

/-! ## Records -/

namespace RecordSet

theorem valueOfJson?_valueToJson (v : String) : valueOfJson? (valueToJson v) = some v := by
  simp [valueOfJson?, valueToJson, fields?, List.lookup_cons, string?]

theorem ofJson?_toJson (held : Bool) (s : RecordSet) : ofJson? held s.toJson = some s := by
  have h1 : fields? ["name", "type", "ttl", "records"] s.toJson =
      some [some (.string s.name), some s.type.toJson, some (.nat s.ttl.toNat),
        some (.array (s.values.map valueToJson))] := by
    simp [toJson, fields?, List.lookup_cons]
  unfold ofJson?
  simp only [h1, string?, RecordType.ofJson?_toJson, uint32?_nat,
    list?_map valueOfJson?_valueToJson]
  rfl

theorem plain_toJson (s : RecordSet) : plain s.toJson := by
  have h : plainItems (s.values.map valueToJson) := plainItems_map (fun _ => rfl) _
  simp [toJson, plain, plainMembers, RecordType.toJson, Json.nat, h]

theorem readable_toJson {room : ℕ} (hr : 3 ≤ room) (s : RecordSet) : readable room s.toJson := by
  have h1 : readableItems (room - 2) (s.values.map valueToJson) :=
    readableItems_map (fun _ => by
      simp only [valueToJson, readable, readableMembers, Bool.and_true, decide_eq_true_eq]
      omega) _
  have h2 := readable_uint32 (room - 1) s.ttl
  simp only [toJson, readable, readableMembers, RecordType.toJson, h2, Bool.and_true, Bool.true_and,
    Bool.and_eq_true, decide_eq_true_eq, Nat.sub_sub, Nat.reduceAdd, h1]
  omega

end RecordSet

namespace WireRecord

theorem ofJson?_toJson (r : WireRecord) : ofJson? r.toJson = some r := by
  have h1 : fields? ["name", "type", "ttl", "rdata"] r.toJson =
      some [some (.string r.name), some r.type.toJson, some (.nat r.ttl.toNat),
        some (.string r.rdata)] := by
    simp [toJson, fields?, List.lookup_cons]
  unfold ofJson?
  simp only [h1, string?, RecordType.ofJson?_toJson, uint32?_nat]
  rfl

theorem plain_toJson (r : WireRecord) : plain r.toJson :=
  rfl

end WireRecord

/-! ## Rules -/

namespace RuleAction

/-- An action is kept aside before its kind is known, so its records have to be readable. -/
theorem ofJson?_toJson {room : ℕ} (hr : 4 ≤ room) (a : RuleAction) :
    ofJson? room a.toJson = some a := by
  cases a with
  | override records =>
    have h1 : readableItems (room - 1) (records.map RecordSet.toJson) :=
      readableItems_map (fun s => s.readable_toJson (by omega)) _
    have h2 : fields? ["records"] (.object [("records", .array (records.map RecordSet.toJson))]) =
        some [some (.array (records.map RecordSet.toJson))] := by
      simp [fields?, List.lookup_cons]
    have h3 : 0 < room := by omega
    simp [ofJson?, toJson, readableMembers, readable, h1, h2, h3,
      list?_map (RecordSet.ofJson?_toJson true)]
  | noData => simp [ofJson?, toJson, readableMembers, plain]
  | nxDomain => simp [ofJson?, toJson, readableMembers, plain]
  | unspecified => simp [ofJson?, toJson, readableMembers, plain]

theorem plain_toJson (a : RuleAction) : Json.plain a.toJson := by
  cases a with
  | override records =>
    have h : plainItems (records.map RecordSet.toJson) := plainItems_map RecordSet.plain_toJson _
    simp [toJson, Json.plain, plainMembers, h]
  | noData => rfl
  | nxDomain => rfl
  | unspecified => rfl

end RuleAction

namespace Rule

theorem ofJson?_toJson {outer : ℕ} (h : outer ≤ 2) (r : Rule) :
    ofJson? outer r.toJson = some r := by
  have h1 : fields? ["id", "priority", "domains", "action"] r.toJson =
      some [some (.nat r.id.toNat), some (.nat r.priority.toNat),
        some (.array (r.domains.map .string)), some r.action.toJson] := by
    simp [toJson, fields?, List.lookup_cons]
  have h2 : 4 ≤ maxDepth - (outer + 2) := by unfold maxDepth; omega
  have h3 : list? string? (.array (r.domains.map .string)) = some r.domains :=
    list?_map (f := Json.string) (fun _ => rfl) _
  unfold ofJson?
  simp only [h1, uint64?_nat, uint32?_nat, h3, RuleAction.ofJson?_toJson h2]
  rfl

theorem plain_toJson (r : Rule) : plain r.toJson := by
  have h : plainItems (r.domains.map .string) := plainItems_map (fun _ => rfl) _
  simp [toJson, plain, plainMembers, Json.nat, h, RuleAction.plain_toJson]

end Rule

namespace StoredRule

theorem ofJson?_toJson (s : StoredRule) : ofJson? s.toJson = some s := by
  have h1 : fields? ["rule", "answer"] s.toJson =
      some [some s.rule.toJson, some (.array (s.answer.map WireRecord.toJson))] := by
    simp [toJson, fields?, List.lookup_cons]
  unfold ofJson?
  simp only [h1, Rule.ofJson?_toJson (show 1 ≤ 2 by decide), list?_map WireRecord.ofJson?_toJson]
  rfl

theorem plain_toJson (s : StoredRule) : plain s.toJson := by
  have h : plainItems (s.answer.map WireRecord.toJson) := plainItems_map WireRecord.plain_toJson _
  simp [toJson, plain, plainMembers, h, Rule.plain_toJson]

end StoredRule

/-! ## Changes -/

namespace RecordSetChange

theorem ofJson?_toJson (c : RecordSetChange) : ofJson? c.toJson = some c := by
  have h1 : fields? ["action", "record_set"] c.toJson =
      some [some (.string c.action.wireName), some c.recordSet.toJson] := by
    simp [toJson, fields?, List.lookup_cons]
  unfold ofJson?
  simp only [h1, symbol?, Option.map_some, RecordSetAction.ofWireName_wireName,
    RecordSet.ofJson?_toJson]
  rfl

theorem plain_toJson (c : RecordSetChange) : plain c.toJson := by
  simp [toJson, plain, plainMembers, RecordSet.plain_toJson]

end RecordSetChange

namespace ZoneChange

theorem ofJson?_toJson (z : ZoneChange) : ofJson? z.toJson = some z := by
  have h1 : fields? ["zone_name", "action", "changes"] z.toJson =
      some [some (.string z.zoneName), some (.string z.action.wireName),
        some (.array (z.changes.map RecordSetChange.toJson))] := by
    simp [toJson, fields?, List.lookup_cons]
  unfold ofJson?
  simp only [h1, string?, symbol?, Option.map_some, ZoneAction.ofWireName_wireName,
    list?_map RecordSetChange.ofJson?_toJson]
  rfl

theorem plain_toJson (z : ZoneChange) : plain z.toJson := by
  have h : plainItems (z.changes.map RecordSetChange.toJson) :=
    plainItems_map RecordSetChange.plain_toJson _
  simp [toJson, plain, plainMembers, h]

end ZoneChange

namespace FirewallChange

theorem ofJson?_toJson (f : FirewallChange) : ofJson? f.toJson = some f := by
  have h1 : fields? ["action", "rule"] f.toJson =
      some [some (.string f.action.wireName), some f.rule.toJson] := by
    simp [toJson, fields?, List.lookup_cons]
  unfold ofJson?
  simp only [h1, symbol?, Option.map_some, FirewallAction.ofWireName_wireName,
    Rule.ofJson?_toJson (show 2 ≤ 2 by decide)]
  rfl

theorem plain_toJson (f : FirewallChange) : plain f.toJson := by
  simp [toJson, plain, plainMembers, Rule.plain_toJson]

end FirewallChange

namespace Change

theorem ofJson?_toJson (c : Change) : ofJson? c.toJson = some c := by
  obtain ⟨id, type, zone, firewall, submittedAt, status⟩ := c
  have h1 : ∀ z : ZoneChange, optional? ZoneChange.ofJson? (some z.toJson) = some (some z) :=
    fun z => congrArg (Option.map some) z.ofJson?_toJson
  have h2 : ∀ f : FirewallChange,
      optional? FirewallChange.ofJson? (some f.toJson) = some (some f) :=
    fun f => congrArg (Option.map some) f.ofJson?_toJson
  have h3 : fields? ["id", "type", "zone", "firewall", "submitted_at", "status"]
      (toJson ⟨id, type, zone, firewall, submittedAt, status⟩) =
      some [some (.nat id.toNat), some (.string type.wireName), zone.map ZoneChange.toJson,
        firewall.map FirewallChange.toJson, some (.string submittedAt.render),
        some (.string status.wireName)] := by
    cases zone <;> cases firewall <;> simp [toJson, fields?, memberIf, List.lookup_cons]
  have h4 : optional? ZoneChange.ofJson? (zone.map ZoneChange.toJson) = some zone := by
    cases zone with
    | none => rfl
    | some z => exact h1 z
  have h5 : optional? FirewallChange.ofJson? (firewall.map FirewallChange.toJson) =
      some firewall := by
    cases firewall with
    | none => rfl
    | some f => exact h2 f
  unfold ofJson?
  simp only [h3, uint64?_nat, symbol?, Option.map_some, ChangeType.ofWireName_wireName, h4, h5,
    string?, Option.bind_some, Instant.parse?_render, ChangeStatus.ofWireName?_wireName]
  rfl

theorem plain_toJson (c : Change) : plain c.toJson := by
  obtain ⟨id, type, zone, firewall, submittedAt, status⟩ := c
  cases zone <;> cases firewall <;>
    simp [toJson, plain, plainMembers, memberIf, Json.nat, ZoneChange.plain_toJson,
      FirewallChange.plain_toJson]

/-- **A change is read back from its payload.** -/
theorem decode?_encode (c : Change) : decode? c.encode = some c := by
  unfold decode? encode
  rw [parse?_render c.plain_toJson, Option.bind_some, ofJson?_toJson]

end Change

namespace Ack

theorem ofJson?_toJson (a : Ack) : ofJson? a.toJson = some a := by
  have h1 : fields? ["change_id", "server_id"] a.toJson =
      some [some (.nat a.changeId.toNat), some (.string a.serverId)] := by
    simp [toJson, fields?, List.lookup_cons]
  unfold ofJson?
  simp only [h1, uint64?_nat, string?]
  rfl

theorem plain_toJson (a : Ack) : plain a.toJson :=
  rfl

/-- **An acknowledgment is read back from its payload.** -/
theorem decode?_encode (a : Ack) : decode? a.encode = some a := by
  unfold decode? encode
  rw [parse?_render a.plain_toJson, Option.bind_some, ofJson?_toJson]

/-- A change is never taken for an acknowledgment: it names no server. -/
theorem decode?_change (c : Change) : decode? c.encode = none := by
  have h : fields? ["change_id", "server_id"] c.toJson = some [none, none] := by
    obtain ⟨id, type, zone, firewall, submittedAt, status⟩ := c
    cases zone <;> cases firewall <;>
      simp [Change.toJson, fields?, memberIf, List.lookup_cons]
  unfold decode? Change.encode
  rw [parse?_render c.plain_toJson, Option.bind_some, ofJson?, h]

end Ack

/-- An acknowledgment is never taken for a change. -/
theorem Change.decode?_ack (a : Ack) : decode? a.encode = none := by
  have h : fields? ["id", "type", "zone", "firewall", "submitted_at", "status"] a.toJson =
      some [none, none, none, none, none, none] := by
    simp [Ack.toJson, fields?, List.lookup_cons]
  unfold decode? Ack.encode
  rw [parse?_render a.plain_toJson, Option.bind_some, ofJson?, h]

end ZoneRelay
