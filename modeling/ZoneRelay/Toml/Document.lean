import ZoneRelay.Toml.Scalar
import ZoneRelay.Toml.Table
import ZoneRelay.Toml.Text

/-!
# TOML documents

`Toml.parse?` reads a document of TOML 1.0.

* `value?`: a value.
* `statements?`: the headers and pairs of a document.
-/

namespace ZoneRelay.Toml

/-- The rest after spaces and tabs. -/
def skip (s : List Char) : List Char :=
  s.dropWhile fun c => c == ' ' || c == '\t'

/-- The rest after a comment, which goes on to the end of its line. -/
def comment? (s : List Char) : Option (List Char) :=
  let rest := s.dropWhile isPlain
  match rest with
  | [] | '\n' :: _ | '\r' :: '\n' :: _ => some rest
  | _ => none

/-- The rest after the end of a line, blanks and a comment before it being left out. -/
def lineEnd? (s : List Char) : Option (List Char) :=
  let after? := match skip s with
    | '#' :: r => comment? r
    | r => some r
  match after? with
  | some [] => some []
  | some ('\n' :: r) => some r
  | some ('\r' :: '\n' :: r) => some r
  | _ => none

/-- The rest after blanks, line ends and comments. `fuel` is the number of lines at most. -/
def skipLines? : Nat → List Char → Option (List Char)
  | 0, s => some s
  | fuel + 1, s =>
    match skip s with
    | '\n' :: r => skipLines? fuel r
    | '\r' :: '\n' :: r => skipLines? fuel r
    | '#' :: r => (comment? r).bind (skipLines? fuel)
    | r => some r

/-- Whether a character may stand in a name without quotes. -/
def isBare (c : Char) : Bool :=
  c.isAlphanum || c == '-' || c == '_'

/-- Reads one name. -/
def name? (s : List Char) : Option (String × List Char) :=
  match s with
  | '"' :: r => basic? r
  | '\'' :: r => literal? r
  | _ =>
    match s.takeWhile isBare with
    | [] => none
    | word => some (String.ofList word, s.drop word.length)

/-- Reads names with dots between them. `fuel` is their number at most. -/
def path? : Nat → List Char → Option (List String × List Char)
  | 0, _ => none
  | fuel + 1, s => do
    let (name, r) ← name? (skip s)
    match skip r with
    | '.' :: r => do
      let (rest, r) ← path? fuel r
      some (name :: rest, r)
    | r => some ([name], r)

mutual

/-- Reads a value. `fuel` is the number of characters at least. -/
def value? : Nat → List Char → Option (Tree × List Char)
  | 0, _ => none
  | fuel + 1, s =>
    match s with
    | '"' :: '"' :: '"' :: r => (longBasic? r).map fun (t, r) => (.text t, r)
    | '"' :: r => (basic? r).map fun (t, r) => (.text t, r)
    | '\'' :: '\'' :: '\'' :: r => (longLiteral? r).map fun (t, r) => (.text t, r)
    | '\'' :: r => (literal? r).map fun (t, r) => (.text t, r)
    | '[' :: r => items? fuel [] r
    | '\x7b' :: r =>
      match skip r with
      | '\x7d' :: r => some (.table [], r)
      | r => pairs? fuel Node.fresh r
    | _ => scalar? s

/-- Reads the items of an array up to its closing bracket; `acc` holds those read, last one first.
-/
def items? : Nat → List Tree → List Char → Option (Tree × List Char)
  | 0, _, _ => none
  | fuel + 1, acc, s => do
    match ← skipLines? s.length s with
    | ']' :: r => some (.list acc.reverse, r)
    | r => do
      let (v, r) ← value? fuel r
      match ← skipLines? r.length r with
      | ']' :: r => some (.list (v :: acc).reverse, r)
      | ',' :: r => items? fuel (v :: acc) r
      | _ => none

/-- Reads the pairs of a table up to its closing brace; `n` holds those read. -/
def pairs? : Nat → Node → List Char → Option (Tree × List Char)
  | 0, _, _ => none
  | fuel + 1, n, s => do
    let (path, r) ← path? s.length s
    let name ← path.getLast?
    match r with
    | '=' :: r => do
      let (v, r) ← value? fuel (skip r)
      let n ← n.addPair path.dropLast name v
      match skip r with
      | '\x7d' :: r => some (n.toTree, r)
      | ',' :: r => pairs? fuel n r
      | _ => none
    | _ => none

end

/-- A line of a document. -/
inductive Statement
  | header (path : List String)
  | arrayHeader (path : List String)
  | pair (path : List String) (name : String) (v : Tree)

/-- Reads a header up to its closing brackets. -/
def header? (close : List Char) (s : List Char) : Option (List String × List Char) := do
  let (path, r) ← path? s.length s
  if r.take close.length = close then some (path, r.drop close.length) else none

/-- Reads a line that is not empty. -/
def statement? (s : List Char) : Option (Statement × List Char) :=
  match s with
  | '[' :: '[' :: r => (header? [']', ']'] r).map fun (p, r) => (.arrayHeader p, r)
  | '[' :: r => (header? [']'] r).map fun (p, r) => (.header p, r)
  | _ => do
    let (path, r) ← path? s.length s
    let name ← path.getLast?
    match r with
    | '=' :: r => do
      let (v, r) ← value? (r.length + 1) (skip r)
      some (.pair path.dropLast name v, r)
    | _ => none

/-- Reads all lines. `fuel` is their number at least. -/
def statements? : Nat → List Char → Option (List Statement)
  | 0, _ => none
  | fuel + 1, s => do
    match ← skipLines? s.length s with
    | [] => some []
    | r => do
      let (statement, r) ← statement? r
      let r ← lineEnd? r
      let rest ← statements? fuel r
      some (statement :: rest)

/-- The document that lines make, and the header that the next pair belongs to. -/
def addStatement : List String × Node → Statement → Option (List String × Node)
  | (_, n), .header path => (n.addHeader path).map fun n => (path, n)
  | (_, n), .arrayHeader path => (n.addArrayHeader path).map fun n => (path, n)
  | (header, n), .pair path name v => (n.addPairAt header path name v).map fun n => (header, n)

/-- The values of a document. -/
def parse? (text : String) : Option Tree := do
  let s := text.toList
  let s := if s.head? = some '\ufeff' then s.drop 1 else s
  let statements ← statements? (s.length + 1) s
  let (_, n) ← statements.foldlM addStatement ([], Node.fresh)
  some n.toTree

end ZoneRelay.Toml
