import ZoneRelay.Instant.Basic
import ZoneRelay.Text.Basic
import ZoneRelay.Text.Decimal

/-!
# Instants as texts

* `Instant.parse?`: reads a date and a time with an offset, such as `2024-01-31T12:00:00.5+02:00`.
* `Instant.render`: writes an instant in UTC with a `Z`, and with as many digits of the second's
  fraction as hold it: none, three, six or nine. A year outside 0 to 9999 carries its sign.

The form that is read is RFC 3339's with some freedom: blanks may stand before a number, before a
separator and at the end, numbers may be short, a year with a sign may be long, a space may stand
for the `T`, and the offset may be `UTC`. Digits of the second's fraction beyond the ninth are
dropped.
-/

namespace ZoneRelay.Instant

open Text

/-! ## Reading -/

/-- Reads a number of at most `width` digits. -/
def digits? (width : Nat) (s : List Char) : Option (Nat × List Char) := do
  let ds := (s.take width).takeWhile Char.isDigit
  let n ← ofDigits? ds
  some (n, s.drop ds.length)

/-- Reads a number of any length. -/
def allDigits? (s : List Char) : Option (Nat × List Char) :=
  digits? s.length s

/-- Reads a year: up to four digits, or a sign and any number of them. -/
def year? (s : List Char) : Option (Int × List Char) :=
  match trimStart s with
  | '-' :: r => (allDigits? r).map fun (n, r) => (-(n : Int), r)
  | '+' :: r => (allDigits? r).map fun (n, r) => ((n : Int), r)
  | r => (digits? 4 r).map fun (n, r) => ((n : Int), r)

/-- Reads a number of at most two digits, after blanks. -/
def pair? (s : List Char) : Option (Nat × List Char) :=
  digits? 2 (trimStart s)

/-- Reads a separator, after blanks. -/
def separator? (c : Char) (s : List Char) : Option (List Char) :=
  match trimStart s with
  | x :: r => if x = c then some r else none
  | [] => none

/-- Reads what stands between date and time. -/
def between? : List Char → Option (List Char)
  | c :: r => if c = 't' ∨ c = 'T' ∨ c = ' ' then some r else none
  | [] => none

/-- Reads the fraction of a second, if there is one, in nanoseconds. -/
def fraction? : List Char → Option (Nat × List Char)
  | '.' :: s => do
    let ds := (s.take 9).takeWhile Char.isDigit
    let n ← ofDigits? ds
    some (n * Nat.pow 10 (9 - ds.length), s.dropWhile Char.isDigit)
  | s => some (0, s)

/-- Reads two digits. -/
def twoDigits? : List Char → Option (Nat × List Char)
  | a :: b :: r => do
    let x ← digitValue? a
    let y ← digitValue? b
    some (10 * x + y, r)
  | _ => none

/-- Reads the hours and minutes of an offset, as minutes. -/
def offsetMinutes? (s : List Char) : Option (Nat × List Char) := do
  let (h, s) ← twoDigits? s
  let (m, s) ← twoDigits? (s.dropWhile fun c => c == ':' || isBlank c)
  if m < 60 then some (60 * h + m, s) else none

/-- Reads an offset from UTC, in minutes. -/
def offset? (s : List Char) : Option (Int × List Char) :=
  if (s.take 3).map Char.toUpper = ['U', 'T', 'C'] then some (0, s.drop 3)
  else
    match s with
    | [] => none
    | c :: r =>
      if c = 'Z' ∨ c = 'z' then some (0, r)
      else if c = '+' then (offsetMinutes? r).map fun (m, r) => ((m : Int), r)
      else if c = '-' ∨ c = '\u2212' then (offsetMinutes? r).map fun (m, r) => (-(m : Int), r)
      else none

/-- Reads date, time and offset in minutes. The second 60 is the leap second after second 59. -/
def fields? (s : List Char) : Option (Civil × Int) := do
  let (year, s) ← year? s
  let s ← separator? '-' s
  let (month, s) ← pair? s
  let s ← separator? '-' s
  let (day, s) ← pair? s
  let s ← between? s
  let (hour, s) ← pair? s
  let s ← separator? ':' s
  let (minute, s) ← pair? s
  let s ← separator? ':' s
  let (second, s) ← pair? s
  let (nano, s) ← fraction? s
  let (offset, s) ← offset? (trimStart s)
  if !(trimStart s).isEmpty then none
  else if second = 60 then
    some ({ year, month, day, hour, minute, second := 59, nano := nano + 1_000_000_000 }, offset)
  else some ({ year, month, day, hour, minute, second, nano }, offset)

/-- The moment that a text names. An offset is less than a day. -/
def parse? (s : String) : Option Instant := do
  let (c, offset) ← fields? s.toList
  if c.isValid && offset.natAbs < 1440 then ofCivil? (c.earlier offset) else none

/-! ## Writing -/

/-- A year. -/
def renderYear (y : Int) : List Char :=
  if 0 ≤ y ∧ y ≤ 9999 then padded 4 y.toNat
  else (if y < 0 then '-' else '+') :: padded 4 y.natAbs

/-- A fraction of a second, in nanoseconds. -/
def renderFraction (nano : Nat) : List Char :=
  if nano = 0 then []
  else if nano % 1_000_000 = 0 then '.' :: padded 3 (nano / 1_000_000)
  else if nano % 1_000 = 0 then '.' :: padded 6 (nano / 1_000)
  else '.' :: padded 9 nano

/-- The text of an instant. -/
def render (t : Instant) : String :=
  let c := t.civil
  let leap := 1_000_000_000 ≤ c.nano
  let second := if leap then c.second + 1 else c.second
  let nano := if leap then c.nano - 1_000_000_000 else c.nano
  String.ofList (renderYear c.year ++ '-' :: padded 2 c.month ++ '-' :: padded 2 c.day ++
    'T' :: padded 2 c.hour ++ ':' :: padded 2 c.minute ++ ':' :: padded 2 second ++
    renderFraction nano ++ ['Z'])

end ZoneRelay.Instant
