import ZoneRelay.Change.Basic
import ZoneRelay.Firewall.RuleJson
import ZoneRelay.Instant.Text
import ZoneRelay.Json.Parser
import ZoneRelay.Json.Printer

/-!
# The wire form of changes and acknowledgments

Both travel as JSON. An action that the reader does not know is read as `unspecified`, so that a
newer sender cannot break an older resolver.

* `Change.encode`, `Change.decode?`: changes.
* `Ack.encode`, `Ack.decode?`: acknowledgments.
-/

namespace ZoneRelay

namespace RecordSetAction

/-- The name of an action on a record set. -/
def wireName : RecordSetAction → String
  | create => "CREATE"
  | upsert => "UPSERT"
  | delete => "DELETE"
  | unspecified => "UNSPECIFIED"

/-- The action on a record set with a name. -/
def ofWireName (s : String) : RecordSetAction :=
  if s = "CREATE" then create
  else if s = "UPSERT" then upsert
  else if s = "DELETE" then delete
  else unspecified

end RecordSetAction

namespace ZoneAction

/-- The name of an action on a zone. -/
def wireName : ZoneAction → String
  | create => "CREATE"
  | update => "UPDATE"
  | delete => "DELETE"
  | unspecified => "UNSPECIFIED"

/-- The action on a zone with a name. -/
def ofWireName (s : String) : ZoneAction :=
  if s = "CREATE" then create
  else if s = "UPDATE" then update
  else if s = "DELETE" then delete
  else unspecified

end ZoneAction

namespace FirewallAction

/-- The name of an action on a rule. -/
def wireName : FirewallAction → String
  | upsert => "UPSERT"
  | delete => "DELETE"
  | unspecified => "UNSPECIFIED"

/-- The action on a rule with a name. -/
def ofWireName (s : String) : FirewallAction :=
  if s = "UPSERT" then upsert
  else if s = "DELETE" then delete
  else unspecified

end FirewallAction

namespace ChangeType

/-- The name of a change type. -/
def wireName : ChangeType → String
  | zone => "ZONE"
  | firewall => "FIREWALL"
  | unspecified => "UNSPECIFIED"

/-- The change type with a name. -/
def ofWireName (s : String) : ChangeType :=
  if s = "ZONE" then zone
  else if s = "FIREWALL" then firewall
  else unspecified

end ChangeType

namespace ChangeStatus

/-- The name of a status. -/
def wireName : ChangeStatus → String
  | pending => "PENDING"
  | inSync => "INSYNC"

/-- The status with a name. -/
def ofWireName? (s : String) : Option ChangeStatus :=
  if s = "PENDING" then some pending
  else if s = "INSYNC" then some inSync
  else none

end ChangeStatus

namespace RecordSetChange

/-- A step of a zone change as JSON. -/
def toJson (c : RecordSetChange) : Json :=
  .object [("action", .string c.action.wireName), ("record_set", c.recordSet.toJson)]

/-- Reads a step of a zone change. -/
def ofJson? (j : Json) : Option RecordSetChange :=
  match j.fields? ["action", "record_set"] with
  | some [some action, some recordSet] => do
    let action ← (action.symbol? false).map RecordSetAction.ofWireName
    let recordSet ← RecordSet.ofJson? false recordSet
    some { action, recordSet }
  | _ => none

end RecordSetChange

namespace ZoneChange

/-- A zone change as JSON. -/
def toJson (z : ZoneChange) : Json :=
  .object [("zone_name", .string z.zoneName), ("action", .string z.action.wireName),
    ("changes", .array (z.changes.map RecordSetChange.toJson))]

/-- Reads a zone change; without steps it has none. -/
def ofJson? (j : Json) : Option ZoneChange :=
  match j.fields? ["zone_name", "action", "changes"] with
  | some [some zoneName, some action, changes] => do
    let zoneName ← zoneName.string?
    let action ← (action.symbol? false).map ZoneAction.ofWireName
    let changes ← match changes with
      | some steps => steps.list? RecordSetChange.ofJson?
      | none => some []
    some { zoneName, action, changes }
  | _ => none

end ZoneChange

namespace FirewallChange

/-- A firewall change as JSON. -/
def toJson (f : FirewallChange) : Json :=
  .object [("action", .string f.action.wireName), ("rule", f.rule.toJson)]

/-- Reads a firewall change that stands inside one container. -/
def ofJson? (j : Json) : Option FirewallChange :=
  match j.fields? ["action", "rule"] with
  | some [some action, some rule] => do
    let action ← (action.symbol? false).map FirewallAction.ofWireName
    let rule ← Rule.ofJson? 2 rule
    some { action, rule }
  | _ => none

end FirewallChange

/-- A member that is left out when there is nothing to say. -/
def Json.memberIf (name : String) (toJson : α → Json) : Option α → List (String × Json)
  | some v => [(name, toJson v)]
  | none => []

namespace Change

/-- A change as JSON. -/
def toJson (c : Change) : Json :=
  .object ([("id", .nat c.id.toNat), ("type", .string c.type.wireName)] ++
    Json.memberIf "zone" ZoneChange.toJson c.zone ++
    Json.memberIf "firewall" FirewallChange.toJson c.firewall ++
    [("submitted_at", .string c.submittedAt.render), ("status", .string c.status.wireName)])

/-- Reads a change. -/
def ofJson? (j : Json) : Option Change :=
  match j.fields? ["id", "type", "zone", "firewall", "submitted_at", "status"] with
  | some [some id, some type, zone, firewall, some submittedAt, some status] => do
    let id ← id.uint64?
    let type ← (type.symbol? false).map ChangeType.ofWireName
    let zone ← Json.optional? ZoneChange.ofJson? zone
    let firewall ← Json.optional? FirewallChange.ofJson? firewall
    let submittedAt ← submittedAt.string?.bind Instant.parse?
    let status ← (status.symbol? false).bind ChangeStatus.ofWireName?
    some { id, type, zone, firewall, submittedAt, status }
  | _ => none

/-- The wire form of a change. -/
def encode (c : Change) : Octets :=
  c.toJson.render

/-- The change whose wire form a payload is. -/
def decode? (payload : Octets) : Option Change :=
  (Json.parse? payload).bind ofJson?

end Change

namespace Ack

/-- An acknowledgment as JSON. -/
def toJson (a : Ack) : Json :=
  .object [("change_id", .nat a.changeId.toNat), ("server_id", .string a.serverId)]

/-- Reads an acknowledgment. -/
def ofJson? (j : Json) : Option Ack :=
  match j.fields? ["change_id", "server_id"] with
  | some [some changeId, some serverId] => do
    let changeId ← changeId.uint64?
    let serverId ← serverId.string?
    some { changeId, serverId }
  | _ => none

/-- The wire form of an acknowledgment. -/
def encode (a : Ack) : Octets :=
  a.toJson.render

/-- The acknowledgment whose wire form a payload is. -/
def decode? (payload : Octets) : Option Ack :=
  (Json.parse? payload).bind ofJson?

end Ack

end ZoneRelay
