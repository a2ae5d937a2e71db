import ZoneRelay.Firewall.Rule
import ZoneRelay.Instant.Basic

/-!
# Changes

A change is what a submitter wants every resolver to apply: to one zone or to one firewall rule. An
acknowledgment says that one resolver has applied one change.
-/

namespace ZoneRelay

/-- The identity of a change; later changes have greater ones. -/
abbrev ChangeId := UInt64

/-- What becomes of one record set. -/
inductive RecordSetAction
  | create
  | upsert
  /-- The set is removed by name and type. -/
  | delete
  | unspecified
  deriving DecidableEq, Repr

/-- A step of a zone change. -/
structure RecordSetChange where
  action : RecordSetAction
  recordSet : RecordSet
  deriving DecidableEq, Repr

/-- What becomes of a zone. -/
inductive ZoneAction
  | create
  | update
  | delete
  | unspecified
  deriving DecidableEq, Repr

/-- A change to one zone; its steps apply in order. -/
structure ZoneChange where
  zoneName : String
  action : ZoneAction
  changes : List RecordSetChange
  deriving DecidableEq, Repr

/-- What becomes of a firewall rule. -/
inductive FirewallAction
  | upsert
  | delete
  | unspecified
  deriving DecidableEq, Repr

/-- A change to one firewall rule. -/
structure FirewallChange where
  action : FirewallAction
  rule : Rule
  deriving DecidableEq, Repr

/-- What a change is about. -/
inductive ChangeType
  | zone
  | firewall
  | unspecified
  deriving DecidableEq, Repr

/-- How far a change has come. -/
inductive ChangeStatus
  /-- Some target has not acknowledged yet. -/
  | pending
  /-- Every target has acknowledged. -/
  | inSync
  deriving DecidableEq, Repr

/-- A change, with a payload for its type if it is well formed. -/
structure Change where
  id : ChangeId
  type : ChangeType
  zone : Option ZoneChange
  firewall : Option FirewallChange
  submittedAt : Instant
  status : ChangeStatus
  deriving DecidableEq, Repr

/-- What a change is about, in words. -/
def Change.subject (c : Change) : String :=
  match c.zone, c.firewall with
  | some z, _ => z.zoneName
  | none, some f => "firewall rule " ++ String.ofList (Text.decimal f.rule.id.toNat)
  | none, none => "<empty>"

/-- A resolver's word that it has applied a change. -/
structure Ack where
  changeId : ChangeId
  serverId : String
  deriving DecidableEq, Repr

end ZoneRelay
