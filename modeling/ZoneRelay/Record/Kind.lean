/-!
# Record types

`RecordType.mnemonic` is how a type is written, `RecordType.ofMnemonic` how it is read.
-/

namespace ZoneRelay

/-- The type of a record. A type that this resolver does not know is `unspecified`. -/
inductive RecordType
  | a
  | aaaa
  | caa
  | cname
  | mx
  | ns
  | ptr
  | soa
  | srv
  | txt
  | unspecified
  deriving DecidableEq, Repr, Inhabited

namespace RecordType

/-- The mnemonic of a type. -/
def mnemonic : RecordType → String
  | a => "A"
  | aaaa => "AAAA"
  | caa => "CAA"
  | cname => "CNAME"
  | mx => "MX"
  | ns => "NS"
  | ptr => "PTR"
  | soa => "SOA"
  | srv => "SRV"
  | txt => "TXT"
  | unspecified => "UNSPECIFIED"

/-- The type with a mnemonic, which has to be in upper case. -/
def ofMnemonic (s : String) : RecordType :=
  if s = "A" then a
  else if s = "AAAA" then aaaa
  else if s = "CAA" then caa
  else if s = "CNAME" then cname
  else if s = "MX" then mx
  else if s = "NS" then ns
  else if s = "PTR" then ptr
  else if s = "SOA" then soa
  else if s = "SRV" then srv
  else if s = "TXT" then txt
  else unspecified

/-- The type with a mnemonic in any case. -/
def parse (s : String) : RecordType :=
  ofMnemonic (String.ofList (s.toList.map Char.toUpper))

theorem ofMnemonic_mnemonic (t : RecordType) : ofMnemonic t.mnemonic = t := by
  cases t <;> decide

end RecordType

end ZoneRelay
