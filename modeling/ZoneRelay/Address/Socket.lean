import ZoneRelay.Address.IPv6

/-!
# Socket addresses

An address and the number of a service at it: `192.0.2.1:53`, `[2001:db8::1]:53`, or
`[fe80::1%3]:53` with a scope.
-/

namespace ZoneRelay

/-- Reads a number below `bound`, zeros in front being allowed. -/
def Address.numberBelow? (bound : Nat) (s : List Char) : Option (Nat × List Char) :=
  let ds := s.takeWhile isDecimalDigit
  let n := valueOf 10 ds
  if ds.isEmpty || bound ≤ n then none else some (n, s.dropWhile isDecimalDigit)

/-- An address and the number of a service at it. -/
inductive SocketAddress
  | v4 (ip : IPv4) (service : UInt16)
  | v6 (ip : IPv6) (scope : UInt32) (service : UInt16)
  deriving DecidableEq, Repr

namespace SocketAddress

open Address

/-- Reads a colon and the number of a service. -/
def service? (s : List Char) : Option (UInt16 × List Char) := do
  let s ← char? ':' s
  let (n, s) ← numberBelow? UInt16.size s
  some (UInt16.ofNat n, s)

/-- Reads a percent sign and a scope, if there is one. -/
def scope (s : List Char) : UInt32 × List Char :=
  match (char? '%' s).bind (numberBelow? UInt32.size) with
  | some (n, r) => (UInt32.ofNat n, r)
  | none => (0, s)

/-- Reads the form with an IPv4 address. -/
def readV4? (s : List Char) : Option (SocketAddress × List Char) := do
  let (ip, s) ← IPv4.read? s
  let (p, s) ← service? s
  some (.v4 ip p, s)

/-- Reads the form with an IPv6 address. -/
def readV6? (s : List Char) : Option (SocketAddress × List Char) := do
  let s ← char? '[' s
  let (ip, s) ← IPv6.read? s
  let (z, s) := scope s
  let s ← char? ']' s
  let (p, s) ← service? s
  some (.v6 ip z p, s)

/-- The socket address that a text is. -/
def parse? (s : String) : Option SocketAddress :=
  match (readV4? s.toList).orElse fun _ => readV6? s.toList with
  | some (a, []) => some a
  | _ => none

/-- The text of a socket address; a scope of zero is left out. -/
def render : SocketAddress → String
  | v4 ip service => String.ofList (ip.render ++ ':' :: Text.decimal service.toNat)
  | v6 ip scope service =>
    String.ofList ('[' :: (ip.render ++
      (if scope = 0 then [] else '%' :: Text.decimal scope.toNat) ++
      ']' :: ':' :: Text.decimal service.toNat))

end SocketAddress

end ZoneRelay
