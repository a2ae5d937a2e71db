import ZoneRelay.Text.Basic

/-!
# Domain names

A name may be given in any case, with blanks around it and with or without its final dot.

* `stem`: the name's labels with dots between them, in lower case; empty for the root.
* `normalize`: the normal form, which ends with a dot.
* `path`, `ofPath`: the labels from the root down, and the name they make.
* `isWithin`: a name is equal to another or lies below it.
* `validate?`: the normal form of a name within the length limits.
-/

namespace ZoneRelay.Name

open Text

/-- The labels of a name with dots between them, in lower case. Case is folded for ASCII letters
only. -/
def stem (name : String) : List Char :=
  (dropEnd (· == '.') (trim name.toList)).map Char.toLower

/-- A name given by its stem. -/
def ofStem (s : List Char) : String :=
  if s.isEmpty then "." else String.ofList (s ++ ['.'])

/-- The normal form of a name: lower case, without blanks around it, with one dot at its end. -/
def normalize (name : String) : String :=
  ofStem (stem name)

/-- The labels of a name, in the order of the name. -/
def labels (name : String) : List (List Char) :=
  if (stem name).isEmpty then [] else splitOn '.' (stem name)

/-- The labels of a name, the one next to the root first. -/
def path (name : String) : List String :=
  (labels name).reverse.map String.ofList

/-- The name whose labels these are, the one next to the root first. -/
def ofPath (labels : List String) : String :=
  if labels.isEmpty then "." else String.join (labels.reverse.map (· ++ "."))

/-- Whether `name` is `ancestor` or lies below it. -/
def isWithin (name ancestor : String) : Bool :=
  (path ancestor).isPrefixOf (path name)

/-- The greatest length of a label, in octets. -/
def maxLabelSize : Nat := 63

/-- The greatest length of a normal form, in octets. -/
def maxSize : Nat := 255

/-- Whether a label is neither empty nor too long and holds no space. -/
def isLegalLabel (label : List Char) : Bool :=
  !label.isEmpty && (String.ofList label).utf8ByteSize ≤ maxLabelSize && !label.contains ' '

/-- Whether a name keeps the length limits. -/
def isLegal (name : String) : Bool :=
  (stem name).isEmpty ||
    ((normalize name).utf8ByteSize ≤ maxSize && (labels name).all isLegalLabel)

/-- The normal form of a legal name. -/
def validate? (name : String) : Option String :=
  if isLegal name then some (normalize name) else none

end ZoneRelay.Name
