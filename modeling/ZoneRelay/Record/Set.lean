import ZoneRelay.Json.Shape
import ZoneRelay.Record.Kind

/-!
# Record sets and wire records

* `RecordSet`: all values of one type at one name, as a submitter gives them.
* `WireRecord`: one checked record, its data in canonical form.

Both are written to and read from JSON.
-/

namespace ZoneRelay

/-- All values of one type at one name. -/
structure RecordSet where
  name : String
  type : RecordType
  ttl : UInt32
  values : List String
  deriving DecidableEq, Repr, Inhabited

/-- One checked record, its data in canonical form. -/
structure WireRecord where
  name : String
  type : RecordType
  ttl : UInt32
  rdata : String
  deriving DecidableEq, Repr

/-- Reads a record type. `held` is as in `Json.symbol?`. -/
def RecordType.ofJson? (held : Bool) (j : Json) : Option RecordType :=
  (j.symbol? held).map ofMnemonic

/-- A record type as JSON. -/
def RecordType.toJson (t : RecordType) : Json :=
  .string t.mnemonic

namespace RecordSet

/-- One value as JSON. -/
def valueToJson (v : String) : Json :=
  .object [("value", .string v)]

/-- Reads one value. -/
def valueOfJson? (j : Json) : Option String :=
  match j.fields? ["value"] with
  | some [some v] => v.string?
  | _ => none

/-- A record set as JSON. -/
def toJson (s : RecordSet) : Json :=
  .object [("name", .string s.name), ("type", s.type.toJson), ("ttl", .nat s.ttl.toNat),
    ("records", .array (s.values.map valueToJson))]

/-- Reads a record set. -/
def ofJson? (held : Bool) (j : Json) : Option RecordSet :=
  match j.fields? ["name", "type", "ttl", "records"] with
  | some [some name, some type, some ttl, some records] => do
    let name ← name.string?
    let type ← RecordType.ofJson? held type
    let ttl ← ttl.uint32?
    let values ← records.list? valueOfJson?
    some { name, type, ttl, values }
  | _ => none

end RecordSet

namespace WireRecord

/-- A wire record as JSON. -/
def toJson (r : WireRecord) : Json :=
  .object [("name", .string r.name), ("type", r.type.toJson), ("ttl", .nat r.ttl.toNat),
    ("rdata", .string r.rdata)]

/-- Reads a wire record. -/
def ofJson? (j : Json) : Option WireRecord :=
  match j.fields? ["name", "type", "ttl", "rdata"] with
  | some [some name, some type, some ttl, some rdata] => do
    let name ← name.string?
    let type ← RecordType.ofJson? false type
    let ttl ← ttl.uint32?
    let rdata ← rdata.string?
    some { name, type, ttl, rdata }
  | _ => none

end WireRecord

end ZoneRelay
