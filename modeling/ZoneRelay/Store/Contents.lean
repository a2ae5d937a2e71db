import ZoneRelay.Change.Wire
import ZoneRelay.Store.Key
import ZoneRelay.Store.Table

/-!
# What a resolver's table says

* `Table.zones`, `Table.zoneExists`: the zones.
* `Table.recordSet`: the records at a name.
* `Table.rule`, `Table.rules`: the firewall rules.
* `Table.lastApplied`: how far the changes to a zone or rule have been applied.

The values are written by `encodeRecords`, `encodeRule` and `encodeChangeId`.
-/

namespace ZoneRelay

/-- The value that keeps a record set. -/
def encodeRecords (records : List WireRecord) : Octets :=
  (Json.array (records.map WireRecord.toJson)).render

/-- Reads the value of a record set. -/
def decodeRecords? (value : Octets) : Option (List WireRecord) :=
  (Json.parse? value).bind (Json.list? WireRecord.ofJson?)

/-- The value that keeps a rule. -/
def encodeRule (s : StoredRule) : Octets :=
  s.toJson.render

/-- Reads the value of a rule. -/
def decodeRule? (value : Octets) : Option StoredRule :=
  (Json.parse? value).bind StoredRule.ofJson?

/-- The value that keeps the identity of a change. -/
def encodeChangeId (id : ChangeId) : Octets :=
  Octets.ofText (String.ofList (Text.decimal id.toNat))

/-- Reads the value of a change's identity. -/
def decodeChangeId? (value : Octets) : Option ChangeId := do
  let s ← value.text?
  let n ← Text.below? UInt64.size s.toList
  some (UInt64.ofNat n)

namespace Table

/-- Reads the value of a key, if it has one. -/
def read (t : Table) (fault : ValueFault) (decode? : Octets → Option α) (key : String) :
    Except StoreError (Option α) :=
  match t.get? key with
  | none => .ok none
  | some value =>
    match decode? value with
    | some a => .ok (some a)
    | none => .error (.corruptValue key fault)

/-- Whether a zone exists. -/
def zoneExists (t : Table) (zone : String) : Bool :=
  t.contains (Key.zoneMarker zone)

/-- The zones that exist, in the order of their keys. -/
def zones (t : Table) : List String :=
  (t.scan Key.zonePrefix).filterMap fun e => Key.markedZone? e.1

/-- The record set of a type at a name inside a zone. -/
def recordSet (t : Table) (zone name : String) (type : RecordType) :
    Except StoreError (Option (List WireRecord)) :=
  t.read .undecodable decodeRecords? (Key.recordSet zone name type)

/-- The rule with an identity. -/
def rule (t : Table) (id : RuleId) : Except StoreError (Option StoredRule) :=
  t.read .undecodable decodeRule? (Key.rule id)

/-- Reads one entry of a rule. -/
def ruleOfEntry (e : Entry) : Except StoreError StoredRule :=
  match decodeRule? e.2 with
  | some s => .ok s
  | none => .error (.corruptValue e.1 .undecodable)

/-- All rules, by ascending identity. -/
def rules (t : Table) : Except StoreError (List StoredRule) :=
  (t.scan Key.rulePrefix).mapM ruleOfEntry

/-- The last change applied to a zone. -/
def lastAppliedToZone (t : Table) (zone : String) : Except StoreError (Option ChangeId) :=
  t.read .notChangeId decodeChangeId? (Key.appliedZone zone)

/-- The last change applied to a rule. -/
def lastAppliedToRule (t : Table) (id : RuleId) : Except StoreError (Option ChangeId) :=
  t.read .notChangeId decodeChangeId? (Key.appliedRule id)

end Table

namespace Op

/-- Deletes a zone with all its record sets. The change is remembered, so that an older one that
comes late does not bring the zone back. -/
def deleteZone (zone : String) (change : ChangeId) : List Op :=
  [.delete (Key.zoneMarker zone), .deletePrefix (Key.zoneRecordSets zone),
    .put (Key.appliedZone zone) (encodeChangeId change)]

/-- Deletes the domains of a rule. -/
def deleteDomains (s : StoredRule) : List Op :=
  s.rule.normalizedDomains.map fun d => .delete (Key.domain d s.rule.id)

/-- Writes a rule and its domains in place of its previous version. -/
def putRule (previous : Option StoredRule) (s : StoredRule) (change : ChangeId) : List Op :=
  (previous.toList.flatMap deleteDomains) ++ .put (Key.rule s.rule.id) (encodeRule s) ::
    ((s.rule.normalizedDomains.map fun d => .put (Key.domain d s.rule.id) []) ++
      [.put (Key.appliedRule s.rule.id) (encodeChangeId change)])

/-- Deletes a rule and its domains. The change is remembered even if there is no rule. -/
def deleteRule (previous : Option StoredRule) (id : RuleId) (change : ChangeId) : List Op :=
  (match previous with
    | some s =>
      .delete (Key.rule id) :: s.rule.normalizedDomains.map fun d => .delete (Key.domain d id)
    | none => []) ++
    [.put (Key.appliedRule id) (encodeChangeId change)]

end Op

end ZoneRelay
