/-!
# Decimal numerals

* `decimal`: the digits of a number, without leading zeros.
* `padded`: the same with zeros in front up to a width.
* `ofDigits?`: the number that a non-empty run of digits stands for.
* `unsigned?`: the same for a numeral that may carry a plus sign.
* `hexValue?`, `hexLower`: digits to base sixteen.
-/

namespace ZoneRelay.Text

/-- The decimal digits of a number. -/
def decimal (n : Nat) : List Char :=
  Nat.toDigits 10 n

/-- The decimal digits of a number, with zeros in front up to `width` of them. -/
def padded (width n : Nat) : List Char :=
  List.replicate (width - (decimal n).length) '0' ++ decimal n

/-- The value of a decimal digit. -/
def digitValue? (c : Char) : Option Nat :=
  if c.isDigit then some (c.toNat - '0'.toNat) else none

/-- Reads digits on from the value `acc`. -/
def digitsFrom (acc : Nat) : List Char → Option Nat
  | [] => some acc
  | c :: r => do
    let d ← digitValue? c
    digitsFrom (10 * acc + d) r

/-- The number that a non-empty run of digits stands for; leading zeros are allowed. -/
def ofDigits? (s : List Char) : Option Nat :=
  if s.isEmpty then none else digitsFrom 0 s

/-- The number that a numeral stands for, a single plus sign in front being allowed. -/
def unsigned? : List Char → Option Nat
  | '+' :: r => ofDigits? r
  | s => ofDigits? s

/-- A numeral for a number below `bound`. -/
def below? (bound : Nat) (s : List Char) : Option Nat := do
  let n ← unsigned? s
  if n < bound then some n else none

/-- The value of a digit to base sixteen, in either case. -/
def hexValue? (c : Char) : Option Nat :=
  if c.isDigit then some (c.toNat - '0'.toNat)
  else if 'a' ≤ c ∧ c ≤ 'f' then some (c.toNat - 'a'.toNat + 10)
  else if 'A' ≤ c ∧ c ≤ 'F' then some (c.toNat - 'A'.toNat + 10)
  else none

/-- The lower-case digits to base sixteen. -/
def hexLower (n : Nat) : List Char :=
  Nat.toDigits 16 n

end ZoneRelay.Text
