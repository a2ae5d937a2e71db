import ZoneRelay.Store.Basic
import ZoneRelay.Store.Contents

/-!
# Writes to zones and rules

Each of these is one commit. They are what a resolver does for a change, without the checks.
-/

namespace ZoneRelay

/-- A step of a transaction on one zone. -/
inductive ZoneStep
  | marker
  | put (name : String) (type : RecordType) (records : List WireRecord)
  | delete (name : String) (type : RecordType)
  | applied (id : ChangeId)
  deriving DecidableEq, Repr

/-- The write for a step. -/
def ZoneStep.op (zone : String) : ZoneStep → Op
  | marker => .put (Key.zoneMarker zone) []
  | put name type records => .put (Key.recordSet zone name type) (encodeRecords records)
  | delete name type => .delete (Key.recordSet zone name type)
  | applied id => .put (Key.appliedZone zone) (encodeChangeId id)

namespace Store

/-- Does the steps of a transaction on one zone. -/
def editZone (s : Store) (zone : String) (steps : List ZoneStep) : Except StoreError Unit × Store :=
  s.commit (steps.map (·.op zone))

/-- Deletes a zone with all its record sets. -/
def deleteZone (s : Store) (zone : String) (change : ChangeId) : Except StoreError Unit × Store :=
  s.commit (Op.deleteZone zone change)

/-- Writes a rule in place of its previous version. -/
def putRule (s : Store) (rule : StoredRule) (change : ChangeId) : Except StoreError Unit × Store :=
  match s.table.rule rule.rule.id with
  | .error e => (.error e, s)
  | .ok previous => s.commit (Op.putRule previous rule change)

/-- Deletes a rule, and gives what was deleted. -/
def deleteRule (s : Store) (id : RuleId) (change : ChangeId) :
    Except StoreError (Option StoredRule) × Store :=
  match s.table.rule id with
  | .error e => (.error e, s)
  | .ok previous =>
    let (r, s) := s.commit (Op.deleteRule previous id change)
    (r.map fun _ => previous, s)

end Store

end ZoneRelay
