import ZoneRelay.Text.Decimal

/-!
# Octets

A stored value and a message payload are plain octets.

* `ofText`, `text?`: the UTF-8 form of a text, and the text of octets that are one.
* `toHex`, `ofHex?`: octets as pairs of digits to base sixteen.
* `Ascii`: the octets that a text format gives a meaning to, and the classes it tests for.
-/

namespace ZoneRelay

/-- A stored value or a payload. -/
abbrev Octets := List UInt8

namespace Octets

/-- The UTF-8 form of a text. -/
def ofText (s : String) : Octets :=
  s.toUTF8.data.toList

/-- The text whose UTF-8 form the octets are, if there is one. -/
def text? (b : Octets) : Option String :=
  String.fromUTF8? ⟨b.toArray⟩

/-- Two lower-case digits for each octet. -/
def toHex (b : Octets) : String :=
  String.ofList (b.flatMap fun x => [Nat.digitChar (x.toNat / 16), Nat.digitChar (x.toNat % 16)])

/-- The octets that pairs of digits stand for. -/
def ofHex? : List Char → Option Octets
  | [] => some []
  | [_] => none
  | a :: b :: r => do
    let x ← Text.hexValue? a
    let y ← Text.hexValue? b
    let rest ← ofHex? r
    some (UInt8.ofNat (16 * x + y) :: rest)

theorem text?_ofText (s : String) : text? (ofText s) = some s := by
  have h : (⟨(ofText s).toArray⟩ : ByteArray) = s.toByteArray := by
    simp [ofText]
  simp only [text?, h, String.fromUTF8?, dif_pos s.isValidUTF8]
  rfl

end Octets

/-! ## Octets with a name -/

namespace Ascii

/-- The octet of an ASCII character. -/
abbrev code (c : Char) : UInt8 :=
  c.toUInt8

/-- A decimal digit. -/
def isDigit (b : UInt8) : Bool :=
  code '0' ≤ b && b ≤ code '9'

/-- The value of a decimal digit. -/
def digit (b : UInt8) : Nat :=
  (b - code '0').toNat

/-- The value of a digit to base sixteen, in either case. -/
def hex? (b : UInt8) : Option Nat :=
  if isDigit b then some (digit b)
  else if code 'a' ≤ b && b ≤ code 'f' then some ((b - code 'a').toNat + 10)
  else if code 'A' ≤ b && b ≤ code 'F' then some ((b - code 'A').toNat + 10)
  else none

/-- The number that four digits to base sixteen stand for. -/
def hex4? (a b c d : UInt8) : Option Nat := do
  let a ← hex? a
  let b ← hex? b
  let c ← hex? c
  let d ← hex? d
  some (((a * 16 + b) * 16 + c) * 16 + d)

/-- A space, a tab or one of the two line ends. -/
def isSpace (b : UInt8) : Bool :=
  b == code ' ' || b == code '\t' || b == code '\n' || b == code '\r'

/-- The value of a run of decimal digits. -/
def number (ds : List UInt8) : Nat :=
  ds.foldl (fun n b => 10 * n + digit b) 0

end Ascii

end ZoneRelay
