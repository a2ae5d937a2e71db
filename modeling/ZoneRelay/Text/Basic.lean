/-!
# Texts

What is cut off from a text, and what it is cut into. Inside a function a text is a list of
characters.

* `isBlank`: Unicode's white space.
* `trim`, `trimStart`, `dropEnd`: what is cut off at the ends of a text.
* `fields`: the words of a text, that is its longest blank-free pieces.
* `splitOn`: the pieces between separators, empty ones kept.
* `startsWith`, `strip?`: how the start of a text compares with another one.
-/

namespace ZoneRelay.Text

/-- Unicode's property `White_Space`. -/
def isBlank (c : Char) : Bool :=
  let n := c.toNat
  (9 ≤ n && n ≤ 13) || n == 0x20 || n == 0x85 || n == 0xA0 || n == 0x1680 ||
    (0x2000 ≤ n && n ≤ 0x200A) || n == 0x2028 || n == 0x2029 || n == 0x202F || n == 0x205F ||
    n == 0x3000

/-- The text without the longest end on which `p` holds throughout. -/
def dropEnd (p : Char → Bool) (s : List Char) : List Char :=
  (s.reverse.dropWhile p).reverse

/-- The text without the blanks at its start. -/
def trimStart (s : List Char) : List Char :=
  s.dropWhile isBlank

/-- The text without the blanks at either end. -/
def trim (s : List Char) : List Char :=
  dropEnd isBlank (trimStart s)

/-- The words of a text, the letters of `word` (last one first) being the start of the first. -/
def fieldsFrom (word : List Char) : List Char → List (List Char)
  | [] => if word.isEmpty then [] else [word.reverse]
  | c :: r =>
    if isBlank c then
      if word.isEmpty then fieldsFrom [] r else word.reverse :: fieldsFrom [] r
    else fieldsFrom (c :: word) r

/-- The words of a text: its longest pieces without a blank. -/
def fields (s : List Char) : List (List Char) :=
  fieldsFrom [] s

/-- The pieces between the separators; a text without any is one piece. -/
def splitOn (sep : Char) : List Char → List (List Char)
  | [] => [[]]
  | c :: r =>
    if c = sep then [] :: splitOn sep r
    else match splitOn sep r with
      | [] => [[c]]
      | piece :: more => (c :: piece) :: more

/-- Whether `s` starts with `start`. -/
def startsWith (start s : String) : Bool :=
  start.toList.isPrefixOf s.toList

/-- The rest of `s` after `start`, if it starts so. -/
def strip? (start s : String) : Option String :=
  if startsWith start s then some (String.ofList (s.toList.drop start.toList.length)) else none

theorem splitOn_ne_nil (sep : Char) (s : List Char) : splitOn sep s ≠ [] := by
  cases s with
  | nil => simp [splitOn]
  | cons c r =>
    unfold splitOn
    split
    · simp
    · split <;> simp

end ZoneRelay.Text
