import ZoneRelay.Text.Decimal

/-!
# Quoted texts in TOML

* `basic?`: a text in double quotes, with escapes.
* `literal?`: a text in single quotes, without.
* `longBasic?`, `longLiteral?`: the same over several lines, in three quotes.

All of them read after the opening quotes.
-/

namespace ZoneRelay.Toml

open Text

/-- A reader: what it has read, and the rest. -/
abbrev Reader (α : Type) := List Char → Option (α × List Char)

/-- Whether a character may stand in a line. -/
def isPlain (c : Char) : Bool :=
  c == '\t' || (' ' ≤ c && c != '\x7f')

/-- The character that stands for another one after a backslash. -/
def escaped? (c : Char) : Option Char :=
  if c = '"' ∨ c = '\\' then some c
  else if c = 'b' then some '\x08'
  else if c = 't' then some '\t'
  else if c = 'n' then some '\n'
  else if c = 'f' then some '\x0c'
  else if c = 'r' then some '\r'
  else none

/-- The number that digits to base sixteen stand for. -/
def hex? (ds : List Char) : Option Nat :=
  (ds.mapM hexValue?).map (·.foldl (fun n d => 16 * n + d) 0)

/-- The character with a number. -/
def charOf? (ds : List Char) : Option Char := do
  let n ← hex? ds
  if n.isValidChar then some (Char.ofNat n) else none

/-- A text in double quotes. `acc` holds what has been read, last character first. -/
def basicFrom (acc : List Char) : Reader String
  | [] => none
  | '"' :: r => some (String.ofList acc.reverse, r)
  | '\\' :: 'u' :: a :: b :: c :: d :: r =>
    match charOf? [a, b, c, d] with
    | some x => basicFrom (x :: acc) r
    | none => none
  | '\\' :: 'U' :: a :: b :: c :: d :: e :: f :: g :: h :: r =>
    match charOf? [a, b, c, d, e, f, g, h] with
    | some x => basicFrom (x :: acc) r
    | none => none
  | '\\' :: c :: r =>
    match escaped? c with
    | some x => basicFrom (x :: acc) r
    | none => none
  | c :: r => if isPlain c && c != '\\' then basicFrom (c :: acc) r else none

/-- A text in double quotes. -/
def basic? : Reader String :=
  basicFrom []

/-- A text in single quotes. -/
def literal? (s : List Char) : Option (String × List Char) :=
  let inside := s.takeWhile fun c => isPlain c && c != '\''
  match s.drop inside.length with
  | '\'' :: r => some (String.ofList inside, r)
  | _ => none

/-- The rest after a line end at the start. -/
def afterBreak : List Char → List Char
  | '\n' :: r => r
  | '\r' :: '\n' :: r => r
  | s => s

/-- What follows three closing quotes, up to two quotes before them belonging to the text. -/
def closing (quote : Char) (acc : List Char) (s : List Char) : String × List Char :=
  match s with
  | a :: b :: r =>
    if a = quote then
      if b = quote then (String.ofList (quote :: quote :: acc).reverse, r)
      else (String.ofList (quote :: acc).reverse, b :: r)
    else (String.ofList acc.reverse, s)
  | [a] =>
    if a = quote then (String.ofList (quote :: acc).reverse, [])
    else (String.ofList acc.reverse, s)
  | [] => (String.ofList acc.reverse, s)

/-- How a text over several lines goes on. -/
inductive LineMode
  | plain
  /-- After a backslash at the end of a line: only blanks may follow in it. -/
  | folding
  /-- Blanks and line ends are left out. -/
  | skipping
  deriving DecidableEq

/-- A text over several lines in double quotes. -/
def longBasicFrom (mode : LineMode) (acc : List Char) : Reader String
  | [] => none
  | '\n' :: r =>
    if mode = .plain then longBasicFrom .plain ('\n' :: acc) r else longBasicFrom .skipping acc r
  | '\r' :: '\n' :: r =>
    if mode = .plain then longBasicFrom .plain ('\n' :: acc) r else longBasicFrom .skipping acc r
  | ' ' :: r =>
    if mode = .plain then longBasicFrom .plain (' ' :: acc) r else longBasicFrom mode acc r
  | '\t' :: r =>
    if mode = .plain then longBasicFrom .plain ('\t' :: acc) r else longBasicFrom mode acc r
  | '"' :: '"' :: '"' :: r => if mode = .folding then none else some (closing '"' acc r)
  | '\\' :: 'u' :: a :: b :: c :: d :: r =>
    match mode, charOf? [a, b, c, d] with
    | .folding, _ | _, none => none
    | _, some x => longBasicFrom .plain (x :: acc) r
  | '\\' :: 'U' :: a :: b :: c :: d :: e :: f :: g :: h :: r =>
    match mode, charOf? [a, b, c, d, e, f, g, h] with
    | .folding, _ | _, none => none
    | _, some x => longBasicFrom .plain (x :: acc) r
  | '\\' :: c :: r =>
    if mode = .folding then none
    else
      match escaped? c with
      | some x => longBasicFrom .plain (x :: acc) r
      | none =>
        if c = ' ' ∨ c = '\t' ∨ c = '\r' then longBasicFrom .folding acc r
        else if c = '\n' then longBasicFrom .skipping acc r
        else none
  | c :: r =>
    if mode != .folding && isPlain c && c != '\\' then longBasicFrom .plain (c :: acc) r else none

/-- A text over several lines in double quotes. -/
def longBasic? (s : List Char) : Option (String × List Char) :=
  longBasicFrom .plain [] (afterBreak s)

/-- A text over several lines in single quotes. -/
def longLiteralFrom (acc : List Char) : Reader String
  | [] => none
  | '\n' :: r => longLiteralFrom ('\n' :: acc) r
  | '\r' :: '\n' :: r => longLiteralFrom ('\n' :: acc) r
  | '\'' :: '\'' :: '\'' :: r => some (closing '\'' acc r)
  | c :: r => if isPlain c then longLiteralFrom (c :: acc) r else none

/-- A text over several lines in single quotes. -/
def longLiteral? (s : List Char) : Option (String × List Char) :=
  longLiteralFrom [] (afterBreak s)

end ZoneRelay.Toml
