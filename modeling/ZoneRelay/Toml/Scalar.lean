import ZoneRelay.Instant.Basic
import ZoneRelay.Json.Value
import ZoneRelay.Settings.Tree
import ZoneRelay.Text.Basic
import ZoneRelay.Text.Decimal

/-!
# Numbers, dates and truth values in TOML

Such a value is a run of letters, digits and a few signs, and is read as a whole: `scalar?`. A date
or a time counts as a table without members, since no setting is one.
-/

namespace ZoneRelay.Toml

open Text

/-- Whether a character may stand in a value without quotes. -/
def isTokenChar (c : Char) : Bool :=
  c.isAlphanum || c == '+' || c == '-' || c == '_' || c == '.' || c == ':'

/-- Whether underscores stand only between digits, given whether the last character was a digit. -/
def wellSpaced (isDigit : Char → Bool) (afterDigit : Bool) : List Char → Bool
  | [] => afterDigit
  | c :: r =>
    if isDigit c then wellSpaced isDigit true r
    else c == '_' && afterDigit && wellSpaced isDigit false r

/-- The digits of a number without the underscores between them. -/
def digits? (isDigit : Char → Bool) (s : List Char) : Option (List Char) :=
  if wellSpaced isDigit false s then some (s.filter (· != '_')) else none

/-- The digits of a number without zeros in front. -/
def decimalDigits? (s : List Char) : Option (List Char) := do
  let ds ← digits? Char.isDigit s
  if 1 < ds.length && ds.head? == some '0' then none else some ds

/-- The value of digits to a base. -/
def valueIn (base : Nat) (ds : List Char) : Nat :=
  ds.foldl (fun n c => base * n + (hexValue? c).getD 0) 0

/-- Whether a number has 64 bits, one of them for the sign. -/
def fits (n : Int) : Bool :=
  Int64.minValue.toInt ≤ n && n ≤ Int64.maxValue.toInt

/-- A number of 64 bits. -/
def bounded? (n : Int) : Option Tree :=
  if fits n then some (.integer n) else none

/-- The sign of a number, and the rest. -/
def sign : List Char → Bool × List Char
  | '+' :: r => (false, r)
  | '-' :: r => (true, r)
  | s => (false, s)

/-- A whole number, to base ten, sixteen, eight or two. -/
def integer? (s : List Char) : Option Tree :=
  match s with
  | '0' :: 'x' :: r =>
    (digits? (fun c => (hexValue? c).isSome) r).bind fun ds => bounded? (valueIn 16 ds)
  | '0' :: 'o' :: r =>
    (digits? (fun c => '0' ≤ c && c ≤ '7') r).bind fun ds => bounded? (valueIn 8 ds)
  | '0' :: 'b' :: r =>
    (digits? (fun c => c == '0' || c == '1') r).bind fun ds => bounded? (valueIn 2 ds)
  | _ =>
    let (negative, r) := sign s
    (decimalDigits? r).bind fun ds =>
      let n : Int := valueIn 10 ds
      bounded? (if negative then -n else n)

/-- The exponent of a number. -/
def exponent? (s : List Char) : Option Int := do
  let (negative, r) := sign s
  let ds ← digits? Char.isDigit r
  let n : Int := valueIn 10 ds
  some (if negative then -n else n)

/-- A number with a fraction or an exponent; it may not be too large. -/
def fraction? (s : List Char) : Option Tree :=
  let (negative, r) := sign s
  if r = "inf".toList ∨ r = "nan".toList then some .fraction
  else
    let isMark (c : Char) : Bool := c == 'e' || c == 'E'
    let significand := r.takeWhile fun c => !isMark c
    let whole := significand.takeWhile (· != '.')
    let afterWhole := significand.drop whole.length
    let tail := r.drop significand.length
    if afterWhole.isEmpty && tail.isEmpty then none
    else do
      let wholeDigits ← decimalDigits? whole
      let fractionDigits ← match afterWhole with
        | [] => some []
        | _ :: f => digits? Char.isDigit f
      let e ← match tail with
        | [] => some 0
        | _ :: t => exponent? t
      let mantissa := valueIn 10 (wholeDigits ++ fractionDigits)
      if negative || Json.finite mantissa (e - fractionDigits.length) then some .fraction else none

/-- The number that a run of exactly `width` digits stands for. -/
def fixed? (width : Nat) (s : List Char) : Option Nat :=
  if s.length = width then ofDigits? s else none

/-- Whether a text is a date. -/
def isDate (s : List Char) : Bool :=
  match splitOn '-' s with
  | [y, m, d] =>
    match fixed? 4 y, fixed? 2 m, fixed? 2 d with
    | some y, some m, some d => 1 ≤ d && d ≤ Civil.daysIn y m
    | _, _, _ => false
  | _ => false

/-- Whether a text is a time of day. -/
def isTime (s : List Char) : Bool :=
  match splitOn ':' s with
  | [h, m, sec] =>
    let whole := sec.takeWhile (· != '.')
    let rest := sec.drop whole.length
    match fixed? 2 h, fixed? 2 m, fixed? 2 whole with
    | some h, some m, some sec =>
      h < 24 && m < 60 && sec ≤ 60 && match rest with
        | [] => true
        | _ :: f => (ofDigits? f).isSome
    | _, _, _ => false
  | _ => false

/-- Whether a text is an offset in hours and minutes, without its sign. -/
def isOffset (s : List Char) : Bool :=
  match splitOn ':' s with
  | [h, m] =>
    match fixed? 2 h, fixed? 2 m with
    | some h, some m => h < 24 && m < 60
    | _, _ => false
  | _ => false

/-- Whether a text is a time of day with an offset or without. -/
def isZonedTime (s : List Char) : Bool :=
  let time := s.takeWhile fun c => c.isDigit || c == ':' || c == '.'
  isTime time && match s.drop time.length with
    | [] => true
    | c :: r =>
      if c = 'Z' ∨ c = 'z' then r.isEmpty
      else (c == '+' || c == '-') && isOffset r

/-- Whether a text is a date, a time, or both. -/
def isMoment (s : List Char) : Bool :=
  isDate s || isTime s ||
    (isDate (s.take 10) && match s.drop 10 with
      | c :: r => (c == 'T' || c == 't') && isZonedTime r
      | [] => false)

/-- A value given by a run of characters. -/
def token? (s : List Char) : Option Tree :=
  if s = "true".toList then some (.bool true)
  else if s = "false".toList then some (.bool false)
  else if isMoment s then some .empty
  else (fraction? s).orElse fun _ => integer? s

/-- The rest after a time that follows a date and a space. -/
def timeAfterDate? (s : List Char) : Option (List Char) :=
  match s with
  | ' ' :: r =>
    let time := r.takeWhile isTokenChar
    if isZonedTime time then some (r.drop time.length) else none
  | _ => none

/-- Reads a value without quotes. -/
def scalar? (s : List Char) : Option (Tree × List Char) :=
  let word := s.takeWhile isTokenChar
  let rest := s.drop word.length
  if isDate word then some (.empty, (timeAfterDate? rest).getD rest)
  else (token? word).map fun v => (v, rest)

end ZoneRelay.Toml
