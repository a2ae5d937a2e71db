import ZoneRelay.Firewall.Rule
import ZoneRelay.Name
import ZoneRelay.Record.Kind
import ZoneRelay.Text.Basic

/-!
# Keys of the resolver store

| key | value |
|---|---|
| `zone/<zone>` | the zone exists |
| `rrset/<zone>/<name>/<TYPE>` | a record set |
| `fw/rule/<id>` | a firewall rule |
| `fw/domain/<domain>/<id>` | the rule names the domain |
| `applied/zone/<zone>` | the last change applied to the zone |
| `applied/rule/<id>` | the last change applied to the rule |

Names are in normal form. Identities have twenty digits, so that the order of keys is that of
numbers.
-/

namespace ZoneRelay.Key

/-- What all zone markers start with. -/
def zonePrefix : String := "zone/"

/-- What all rules start with. -/
def rulePrefix : String := "fw/rule/"

/-- The number of digits of an identity. -/
def idWidth : Nat := 20

/-- An identity inside a key. -/
def idDigits (id : UInt64) : String :=
  String.ofList (Text.padded idWidth id.toNat)

/-- The key that says that a zone exists. -/
def zoneMarker (zone : String) : String :=
  zonePrefix ++ Name.normalize zone

/-- What the keys of all record sets of a zone start with. -/
def zoneRecordSets (zone : String) : String :=
  "rrset/" ++ Name.normalize zone ++ "/"

/-- The key of a record set. -/
def recordSet (zone name : String) (type : RecordType) : String :=
  zoneRecordSets zone ++ Name.normalize name ++ "/" ++ type.mnemonic

/-- The key of a rule. -/
def rule (id : RuleId) : String :=
  rulePrefix ++ idDigits id

/-- The key that says that a rule names a domain. -/
def domain (name : String) (id : RuleId) : String :=
  "fw/domain/" ++ Name.normalize name ++ "/" ++ idDigits id

/-- The key of the last change applied to a zone. -/
def appliedZone (zone : String) : String :=
  "applied/zone/" ++ Name.normalize zone

/-- The key of the last change applied to a rule. -/
def appliedRule (id : RuleId) : String :=
  "applied/rule/" ++ idDigits id

/-- The zone that a key marks. -/
def markedZone? (key : String) : Option String :=
  match Text.strip? zonePrefix key with
  | some zone => if zone.isEmpty then none else some zone
  | none => none

/-- The rule whose key this is. -/
def rule? (key : String) : Option RuleId := do
  let digits ← Text.strip? rulePrefix key
  let n ← Text.below? UInt64.size digits.toList
  some (UInt64.ofNat n)

end ZoneRelay.Key
