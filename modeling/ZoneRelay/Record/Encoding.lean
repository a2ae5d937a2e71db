import ZoneRelay.Record.Data
import ZoneRelay.Record.Set

/-!
# Encoding record sets

* `RecordSet.encode`: the wire records of a record set, or the first thing that is wrong with it.
* `RecordSet.ofWire`: the record set that wire records make.
-/

namespace ZoneRelay

/-- Why a record set has no wire form, or wire records are no record set. -/
inductive RecordError
  | empty (name : String) (type : RecordType)
  /-- The text given for a name. -/
  | invalidName (text : String)
  | unsupportedType (name : String)
  /-- A record's data as given, and what is wrong with it. -/
  | invalidData (name : String) (type : RecordType) (value : String) (fault : DataFault)
  | mixed
  deriving DecidableEq, Repr

/-- The wording of an error. -/
def RecordError.message : RecordError → String
  | empty name type => "record set " ++ name ++ " " ++ type.mnemonic ++ " contains no records"
  | invalidName text => "invalid domain name '" ++ text ++ "'"
  | unsupportedType name => "unsupported record type for " ++ name
  | invalidData name type value fault =>
    "invalid " ++ type.mnemonic ++ " rdata '" ++ value ++ "' for " ++ name ++ ": " ++ fault.message
  | mixed => "wire records for one set disagree on name or type"

/-- The normal form of a legal name. -/
def Name.validate (name : String) : Except RecordError String :=
  match Name.validate? name with
  | some n => .ok n
  | none => .error (.invalidName name)

namespace RecordSet

/-- The wire record for one value. -/
def encodeValue (name : String) (type : RecordType) (ttl : UInt32) (value : String) :
    Except RecordError WireRecord :=
  match RecordData.canonical type value with
  | .ok rdata => .ok { name, type, ttl, rdata }
  | .error fault => .error (.invalidData name type value fault)

/-- The wire records of a record set whose name is `name` in normal form. An alias has one value. -/
def encodeNamed (name : String) (s : RecordSet) : Except RecordError (List WireRecord) :=
  if s.type = .unspecified then .error (.unsupportedType name)
  else if s.values.isEmpty then .error (.empty name s.type)
  else if s.type = .cname ∧ 1 < s.values.length then
    .error (.invalidData name .cname (toString s.values.length) .severalAliases)
  else s.values.mapM (encodeValue name s.type s.ttl)

/-- The wire records of a record set, one for each value. -/
def encode (s : RecordSet) : Except RecordError (List WireRecord) := do
  let name ← Name.validate s.name
  encodeNamed name s

/-- The record set that wire records make. They have to agree on name and type; the first one gives
the time to live. -/
def ofWire : List WireRecord → Except RecordError RecordSet
  | [] => .error (.empty "" .unspecified)
  | r :: rest =>
    if rest.all fun x => x.name == r.name && x.type == r.type then
      .ok { name := r.name, type := r.type, ttl := r.ttl, values := (r :: rest).map (·.rdata) }
    else .error .mixed

end RecordSet

end ZoneRelay
