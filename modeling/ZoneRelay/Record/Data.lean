import ZoneRelay.Address.IPv6
import ZoneRelay.Name
import ZoneRelay.Record.Kind

/-!
# Record data

`RecordData.canonical` checks the data of one record against the grammar of its type and gives its
canonical form: one space between fields, numbers without zeros in front, names in normal form,
addresses in their shortest form.
-/

namespace ZoneRelay

/-- What is wrong with the data of a record. -/
inductive DataFault
  | notIPv4
  | notIPv6
  | notName
  | emptyText
  /-- A field that does not hold what the type wants in its place. -/
  | badField (field : String)
  /-- Too few or too many fields. -/
  | badShape (expected : String)
  | severalAliases
  /-- The type has no grammar. -/
  | unsupported
  deriving DecidableEq, Repr

/-- The wording of a fault. -/
def DataFault.message : DataFault → String
  | notIPv4 => "not an IPv4 address"
  | notIPv6 => "not an IPv6 address"
  | notName => "not a domain name"
  | emptyText => "empty text"
  | badField field => "bad " ++ field
  | badShape expected => "expected '" ++ expected ++ "'"
  | severalAliases => "a CNAME set holds exactly one record"
  | unsupported => "unsupported"

namespace RecordData

open Text

/-- Fields with one space between them. -/
def joined : List (List Char) → List Char
  | [] => []
  | [w] => w
  | w :: v :: r => w ++ ' ' :: joined (v :: r)

/-- The canonical form of a numeral for a number below `bound`. -/
def numeral (field : String) (bound : Nat) (s : List Char) : Except DataFault (List Char) :=
  match below? bound s with
  | some n => .ok (decimal n)
  | none => .error (.badField field)

/-- The normal form of a field that is a name. -/
def nameField (field : String) (s : List Char) : Except DataFault (List Char) :=
  match Name.validate? (String.ofList s) with
  | some n => .ok n.toList
  | none => .error (.badField field)

/-- An IPv4 address. -/
def ipv4 (s : List Char) : Except DataFault (List Char) :=
  match IPv4.parse? s with
  | some ip => .ok ip.render
  | none => .error .notIPv4

/-- An IPv6 address. -/
def ipv6 (s : List Char) : Except DataFault (List Char) :=
  match IPv6.parse? s with
  | some ip => .ok ip.render
  | none => .error .notIPv6

/-- A single name. -/
def name (s : List Char) : Except DataFault (List Char) :=
  match Name.validate? (String.ofList s) with
  | some n => .ok n.toList
  | none => .error .notName

/-- A mail exchange: a preference and a name. -/
def mailExchange : List (List Char) → Except DataFault (List Char)
  | [preference, exchange] => do
    let preference ← numeral "preference" UInt16.size preference
    let exchange ← nameField "exchange" exchange
    .ok (joined [preference, exchange])
  | _ => .error (.badShape "<preference> <exchange>")

/-- A service: its priority, weight and number, and the name of its host. -/
def service : List (List Char) → Except DataFault (List Char)
  | [priority, weight, service, target] => do
    let priority ← numeral "priority" UInt16.size priority
    let weight ← numeral "weight" UInt16.size weight
    let service ← numeral "port" UInt16.size service
    let target ← nameField "target" target
    .ok (joined [priority, weight, service, target])
  | _ => .error (.badShape "<priority> <weight> <port> <target>")

/-- The start of a zone: two names and five timers. -/
def authority : List (List Char) → Except DataFault (List Char)
  | [mname, rname, serial, refresh, retry, expire, minimum] => do
    let mname ← nameField "mname" mname
    let rname ← nameField "rname" rname
    let timers ← [serial, refresh, retry, expire, minimum].mapM (numeral "timer value" UInt32.size)
    .ok (joined (mname :: rname :: timers))
  | _ => .error (.badShape "<mname> <rname> <serial> <refresh> <retry> <expire> <minimum>")

/-- Who may issue certificates: flags, a tag in lower case and a value. -/
def issuance : List (List Char) → Except DataFault (List Char)
  | flags :: tag :: value :: more => do
    let flags ← numeral "flags" UInt8.size flags
    .ok (joined (flags :: tag.map Char.toLower :: value :: more))
  | _ => .error (.badShape "<flags> <tag> <value>")

/-- Free text. -/
def text (s : List Char) : Except DataFault (List Char) :=
  if s.isEmpty then .error .emptyText else .ok s

/-- The canonical form of the data of a record of type `type`, blanks at its ends being cut off. -/
def canonicalChars (type : RecordType) (value : List Char) : Except DataFault (List Char) :=
  let s := trim value
  match type with
  | .a => ipv4 s
  | .aaaa => ipv6 s
  | .cname | .ns | .ptr => name s
  | .mx => mailExchange (fields s)
  | .srv => service (fields s)
  | .soa => authority (fields s)
  | .caa => issuance (fields s)
  | .txt => text s
  | .unspecified => .error .unsupported

/-- The canonical form of the data of a record of type `type`. -/
def canonical (type : RecordType) (value : String) : Except DataFault String :=
  (canonicalChars type value.toList).map String.ofList

end RecordData

end ZoneRelay
