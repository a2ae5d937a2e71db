import ZoneRelay.Settings.Tree
import ZoneRelay.Text.Basic
import ZoneRelay.Toml.Text

/-!
# Settings in environment variables

The variable `ZONESYNC_NODE__ROLE` gives a value to `role` in `node`. Its text may be a truth value,
a number, a quoted text, a list in brackets or a table in braces, and is taken as it is otherwise.

* `Environment.value`: the value of a text.
* `Environment.path?`: the names that a variable stands for.
* `Environment.tree`: the layer that the variables give.
-/

namespace ZoneRelay.Environment

open Text

/-- A space, a tab, or an end of a line or page. -/
def isGap (c : Char) : Bool :=
  c == ' ' || c == '\t' || c == '\n' || c == '\x0c' || c == '\r'

/-- The rest after gaps. -/
def skip (s : List Char) : List Char :=
  s.dropWhile isGap

/-- Whether a character ends a text without quotes. -/
def isSeparator (c : Char) : Bool :=
  c == ',' || c == '\x7b' || c == '\x7d' || c == '[' || c == ']'

/-- Whether a character may stand in a name without quotes. -/
def isBare (c : Char) : Bool :=
  c.isAlphanum || c == '-' || c == '_'

/-- The text after a plus or minus sign, if there is one. -/
def unsigned : List Char → List Char
  | '+' :: r | '-' :: r => r
  | s => s

/-- Whether a text is a number with a point, which needs a digit on one side of it. -/
def isFraction (s : List Char) : Bool :=
  let s := unsigned s
  let whole := s.takeWhile Char.isDigit
  match s.drop whole.length with
  | '.' :: r =>
    let part := r.takeWhile Char.isDigit
    !(whole ++ part).isEmpty && match r.drop part.length with
      | [] => true
      | c :: e => (c == 'e' || c == 'E') && (ofDigits? (unsigned e)).isSome
  | _ => false

/-- The number of 64 bits that a text is. -/
def integer? (s : List Char) : Option Int :=
  match s with
  | '-' :: r =>
    match ofDigits? r with
    | some n => if n ≤ 1 <<< 63 then some (-n) else none
    | none => none
  | _ => (below? UInt64.size s).map fun n => n

/-- The value of a text without quotes. -/
def word (s : List Char) : Tree :=
  if isFraction s then .fraction
  else
    match integer? s with
    | some n => .integer n
    | none => .text (String.ofList s)

/-- Reads the name of a member. -/
def name? (s : List Char) : Option (String × List Char) :=
  match s with
  | '"' :: r => Toml.basic? r
  | _ =>
    match s.takeWhile isBare with
    | [] => none
    | name => some (String.ofList name, s.drop name.length)

/-- Reads a name and the equals sign after it. -/
def nameOf? (s : List Char) : Option (String × List Char) := do
  let (name, r) ← name? (skip s)
  match skip r with
  | '=' :: r => some (name, r)
  | _ => none

mutual

/-- Reads a value and the gaps around it. `fuel` is the number of characters at least. -/
def value? : Nat → List Char → Option (Tree × List Char)
  | 0, _ => none
  | fuel + 1, s => do
    let (v, r) ← match skip s with
      | 't' :: 'r' :: 'u' :: 'e' :: r => some (.bool true, r)
      | 'f' :: 'a' :: 'l' :: 's' :: 'e' :: r => some (.bool false, r)
      | '\x7b' :: r => members? fuel [] r
      | '[' :: r => items? fuel [] r
      | '"' :: r => (Toml.basic? r).map fun (t, r) => (.text t, r)
      | '\'' :: c :: '\'' :: r => some (.letter c, r)
      | '\'' :: _ => none
      | s =>
        let plain := s.takeWhile fun c => !isSeparator c
        some (word (trim plain), s.drop plain.length)
    some (v, skip r)

/-- Reads the items of a list up to its closing bracket; `acc` holds those read, last one first. -/
def items? : Nat → List Tree → List Char → Option (Tree × List Char)
  | 0, _, _ => none
  | _ + 1, acc, ']' :: r => some (.list acc.reverse, r)
  | fuel + 1, acc, s => do
    let (v, r) ← value? fuel s
    match r with
    | ',' :: r => items? fuel (v :: acc) r
    | ']' :: r => some (.list (v :: acc).reverse, r)
    | _ => none

/-- Reads the members of a table up to its closing brace; `acc` holds those read. -/
def members? : Nat → List (String × Tree) → List Char → Option (Tree × List Char)
  | 0, _, _ => none
  | _ + 1, acc, '\x7d' :: r => some (.table acc, r)
  | fuel + 1, acc, s => do
    let (name, r) ← nameOf? s
    let (v, r) ← value? fuel r
    let acc := Tree.set name v acc
    match r with
    | ',' :: r => members? fuel acc r
    | '\x7d' :: r => some (.table acc, r)
    | _ => none

end

/-- The value of a text. A text of no known form is taken as it is. -/
def value (s : String) : Tree :=
  match value? (2 * s.length + 2) s.toList with
  | some (v, []) => v
  | _ => .text s

/-- What the names of the variables start with. -/
def variablePrefix : String := "zonesync_"

/-- A name in which two underscores in a row are read as a dot. -/
def splitLevels : List Char → List Char
  | '_' :: '_' :: r => '.' :: splitLevels r
  | c :: r => c :: splitLevels r
  | [] => []

/-- The names that a variable stands for. Case makes no difference. -/
def path? (key : String) : Option (List String) := do
  let name ← strip? variablePrefix (String.ofList ((trim key.toList).map Char.toLower))
  let parts := splitOn '.' (splitLevels name.toList)
  if parts.any List.isEmpty then none else some (parts.map String.ofList)

/-- The layer that variables give, in the order of their names. -/
def tree (given : List (String × String)) : Tree :=
  Tree.layer <| (given.mergeSort fun a b => a.1 ≤ b.1).filterMap fun v =>
    (path? v.1).map fun path => Tree.nest path (value v.2)

end ZoneRelay.Environment
