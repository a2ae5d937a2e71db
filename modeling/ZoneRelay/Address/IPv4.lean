import ZoneRelay.Text.Decimal

/-!
# IPv4 addresses

Four numbers below 256 with dots between them, without zeros in front. A reader of numbers takes the
longest run of digits and refuses it whole if it is too long.
-/

namespace ZoneRelay

namespace Address

/-- Whether a character is a digit to base ten. -/
def isDecimalDigit (c : Char) : Bool :=
  c.isDigit

/-- The value of a run of digits. -/
def valueOf (base : Nat) (ds : List Char) : Nat :=
  ds.foldl (fun n c => base * n + (Text.hexValue? c).getD 0) 0

/-- Reads one number of an IPv4 address: up to three digits, no zero in front, below 256. -/
def octet? (s : List Char) : Option (UInt8 × List Char) :=
  let ds := s.takeWhile isDecimalDigit
  let n := valueOf 10 ds
  if ds.isEmpty || 3 < ds.length || (ds.head? == some '0' && 1 < ds.length) || 255 < n then none
  else some (UInt8.ofNat n, s.dropWhile isDecimalDigit)

/-- Reads the character `c`. -/
def char? (c : Char) : List Char → Option (List Char)
  | [] => none
  | x :: r => if x = c then some r else none

end Address

/-- An IPv4 address. -/
structure IPv4 where
  first : UInt8
  second : UInt8
  third : UInt8
  fourth : UInt8
  deriving DecidableEq, Repr

namespace IPv4

open Address

/-- Reads an address at the start of a text. -/
def read? (s : List Char) : Option (IPv4 × List Char) := do
  let (a, s) ← octet? s
  let s ← char? '.' s
  let (b, s) ← octet? s
  let s ← char? '.' s
  let (c, s) ← octet? s
  let s ← char? '.' s
  let (d, s) ← octet? s
  some (⟨a, b, c, d⟩, s)

/-- The address that a text is. -/
def parse? (s : List Char) : Option IPv4 :=
  match read? s with
  | some (ip, []) => some ip
  | _ => none

/-- The text of an address. -/
def render (ip : IPv4) : List Char :=
  Text.decimal ip.first.toNat ++ '.' :: Text.decimal ip.second.toNat ++
    '.' :: Text.decimal ip.third.toNat ++ '.' :: Text.decimal ip.fourth.toNat

end IPv4

end ZoneRelay
