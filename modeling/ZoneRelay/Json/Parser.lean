import ZoneRelay.Json.Value
import ZoneRelay.Text.Octets

/-!
# Reading JSON

`Json.parse?` reads a document from its octets. The grammar is RFC 8259's; no blank but the four of
the grammar is skipped, and nothing but blanks may follow the document.

A text whose octets are not UTF-8, or that has half of a surrogate pair, is well delimited all the
same: it is read as `Json.garbled`, so that whoever skips the value need not care.
-/

namespace ZoneRelay.Json

open Ascii

/-- The input after its blanks. -/
def skip (s : Octets) : Octets :=
  s.dropWhile isSpace

/-- The character that stands for itself or for a control after a backslash. -/
def escaped? (b : UInt8) : Option UInt8 :=
  if b = code '"' || b = code '\\' || b = code '/' then some b
  else if b = code 'b' then some 0x08
  else if b = code 'f' then some 0x0C
  else if b = code 'n' then some 0x0A
  else if b = code 'r' then some 0x0D
  else if b = code 't' then some 0x09
  else none

/-- The octets of a character, last one first. -/
def encodedBack (n : Nat) : Octets :=
  (String.utf8EncodeChar (Char.ofNat n)).reverse

/-- Reads a text after its opening quote. `acc` holds the octets so far, last one first, and
`legible` says whether all escapes so far named a character. -/
def textFrom (acc : Octets) (legible : Bool) : Octets → Option (Option String × Octets)
  | [] => none
  | b :: r =>
    if b = code '"' then some (if legible then Octets.text? acc.reverse else none, r)
    else if b = code '\\' then
      match r with
      | [] => none
      | e :: r =>
        if e = code 'u' then
          match r with
          | h₁ :: h₂ :: h₃ :: h₄ :: r =>
            match hex4? h₁ h₂ h₃ h₄ with
            | none => none
            | some n =>
              if 0xD800 ≤ n && n < 0xDC00 then
                -- the other half of the pair has to follow
                match r with
                | x :: y :: l₁ :: l₂ :: l₃ :: l₄ :: r' =>
                  match hex4? l₁ l₂ l₃ l₄ with
                  | some m =>
                    if x = code '\\' && y = code 'u' && 0xDC00 ≤ m && m < 0xE000 then
                      textFrom (encodedBack (0x10000 + (n - 0xD800) * 0x400 + (m - 0xDC00)) ++ acc)
                        legible r'
                    else textFrom acc false (x :: y :: l₁ :: l₂ :: l₃ :: l₄ :: r')
                  | none => textFrom acc false (x :: y :: l₁ :: l₂ :: l₃ :: l₄ :: r')
                | r => textFrom acc false r
              else if 0xDC00 ≤ n && n < 0xE000 then textFrom acc false r
              else textFrom (encodedBack n ++ acc) legible r
          | _ => none
        else
          match escaped? e with
          | some x => textFrom (x :: acc) legible r
          | none => none
    else if b < 0x20 then none
    else textFrom (b :: acc) legible r

/-- Reads a text after its opening quote: the text, or `none` in its place if it is no valid one. -/
def text? (s : Octets) : Option (Option String × Octets) :=
  textFrom [] true s

/-- Reads the fraction of a number, if one starts here: its digits. -/
def fraction? : Octets → Option (Option Octets × Octets)
  | [] => some (none, [])
  | b :: r =>
    if b = code '.' then
      match r.takeWhile isDigit with
      | [] => none
      | ds => some (some ds, r.dropWhile isDigit)
    else some (none, b :: r)

/-- Reads the sign and digits of an exponent. -/
def exponentTail? (s : Octets) : Option (Int × Octets) :=
  let (negative, r) := match s with
    | b :: r => if b = code '-' then (true, r) else if b = code '+' then (false, r) else (false, s)
    | [] => (false, [])
  match r.takeWhile isDigit with
  | [] => none
  | ds =>
    let n : Int := Ascii.number ds
    some (if negative then -n else n, r.dropWhile isDigit)

/-- Reads the exponent of a number, if one starts here. -/
def exponent? : Octets → Option (Option Int × Octets)
  | [] => some (none, [])
  | b :: r =>
    if b = code 'e' || b = code 'E' then (exponentTail? r).map fun (n, r) => (some n, r)
    else some (none, b :: r)

/-- Reads the digits in front of a number's point: a single zero, or digits that start otherwise. -/
def wholePart? (s : Octets) : Option (Octets × Octets) :=
  match s.takeWhile isDigit with
  | [] => none
  | [d] => some ([d], s.dropWhile isDigit)
  | d :: ds => if d = code '0' then none else some (d :: ds, s.dropWhile isDigit)

/-- Reads a number whose sign has been read. -/
def numberTail? (negative : Bool) (s : Octets) : Option (Number × Octets) := do
  let (whole, r) ← wholePart? s
  let (fraction, r) ← fraction? r
  let (exponent, r) ← exponent? r
  match negative, fraction, exponent with
  | false, none, none => some (.nat (Ascii.number whole), r)
  | _, _, _ =>
    let ds := fraction.getD []
    some (.scaled negative (Ascii.number (whole ++ ds)) (exponent.getD 0 - ds.length), r)

/-- Reads a number. -/
def number? : Octets → Option (Number × Octets)
  | [] => none
  | b :: r => if b = code '-' then numberTail? true r else numberTail? false (b :: r)

/-- The rest of the input after `word`. -/
def word? (word : String) (s : Octets) : Option Octets :=
  let w := Octets.ofText word
  if s.take w.length = w then some (s.drop w.length) else none

mutual

/-- Reads a value, given at least as much fuel as there are octets. -/
def value? : Nat → Octets → Option (Json × Octets)
  | 0, _ => none
  | fuel + 1, s =>
    match skip s with
    | [] => none
    | b :: r =>
      if b = code '{' then
        match skip r with
        | c :: r' => if c = code '}' then some (.object [], r') else members? fuel [] true (c :: r')
        | [] => none
      else if b = code '[' then
        match skip r with
        | c :: r' => if c = code ']' then some (.array [], r') else items? fuel [] (c :: r')
        | [] => none
      else if b = code '"' then
        match text? r with
        | some (some t, r') => some (.string t, r')
        | some (none, r') => some (.garbled, r')
        | none => none
      else if b = code 't' then (word? "true" (b :: r)).map fun r' => (.bool true, r')
      else if b = code 'f' then (word? "false" (b :: r)).map fun r' => (.bool false, r')
      else if b = code 'n' then (word? "null" (b :: r)).map fun r' => (.null, r')
      else (number? (b :: r)).map fun (n, r') => (.number n, r')

/-- Reads the items of an array up to its closing bracket; `acc` holds those read, last one first.
-/
def items? : Nat → List Json → Octets → Option (Json × Octets)
  | 0, _, _ => none
  | fuel + 1, acc, s =>
    match value? fuel s with
    | none => none
    | some (v, r) =>
      match skip r with
      | [] => none
      | b :: r' =>
        if b = code ',' then items? fuel (v :: acc) r'
        else if b = code ']' then some (.array (v :: acc).reverse, r')
        else none

/-- Reads the members of an object up to its closing brace; `legible` says whether all names so far
were valid texts. -/
def members? : Nat → List (String × Json) → Bool → Octets → Option (Json × Octets)
  | 0, _, _, _ => none
  | fuel + 1, acc, legible, s =>
    match skip s with
    | [] => none
    | q :: r =>
      if q = code '"' then
        match text? r with
        | none => none
        | some (name, r) =>
          match skip r with
          | [] => none
          | c :: r =>
            if c = code ':' then
              match value? fuel r with
              | none => none
              | some (v, r) =>
                let acc' := (name.getD "", v) :: acc
                let legible' := legible && name.isSome
                match skip r with
                | [] => none
                | b :: r' =>
                  if b = code ',' then members? fuel acc' legible' r'
                  else if b = code '}' then
                    some (if legible' then .object acc'.reverse else .garbled, r')
                  else none
            else none
      else none

end

/-- Reads a document. -/
def parse? (s : Octets) : Option Json :=
  match value? (s.length + 1) s with
  | some (v, r) => if (skip r).isEmpty then some v else none
  | none => none

end ZoneRelay.Json
