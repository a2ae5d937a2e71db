import ZoneRelay.Json.Value

/-!
# Typed values in JSON

* `fields?`: the parts of a structure, written as an object or as an array.
* `symbol?`: a value of an enumeration, written as its name.
* `list?`, `string?`, `natBelow?`: lists, texts and bounded numbers.
-/

namespace ZoneRelay.Json

/-- The values given for the parts `names` of a structure, in that order, `none` for one that is not
given. In an object, other members are skipped, and a part given twice is an error. In an array the
parts stand in order, and the last ones may be left out. -/
def fields? (names : List String) : Json → Option (List (Option Json))
  | .object members =>
    if names.any fun n => 1 < members.countP (·.1 == n) then none
    else some (names.map (members.lookup ·))
  | .array items =>
    if names.length < items.length then none
    else some (items.map some ++ List.replicate (names.length - items.length) none)
  | _ => none

/-- The name of a value of an enumeration: a text, or an object whose only member has that name and
holds nothing. When `held`, the value was kept aside before its type was known, and an empty object
counts as nothing too. -/
def symbol? (held : Bool) : Json → Option String
  | .string s => some s
  | .object [(s, .null)] => some s
  | .object [(s, .object [])] => if held then some s else none
  | _ => none

/-- A text. -/
def string? : Json → Option String
  | .string s => some s
  | _ => none

/-- A number below `bound`, written with digits only. -/
def natBelow? (bound : Nat) : Json → Option Nat
  | .number (.nat n) => if n < bound then some n else none
  | _ => none

/-- A number of 64 bits. -/
def uint64? (j : Json) : Option UInt64 :=
  (j.natBelow? UInt64.size).map UInt64.ofNat

/-- A number of 32 bits. -/
def uint32? (j : Json) : Option UInt32 :=
  (j.natBelow? UInt32.size).map UInt32.ofNat

/-- A list whose items `item` reads. -/
def list? (item : Json → Option α) : Json → Option (List α)
  | .array items => items.mapM item
  | _ => none

/-- What may be left out, or be `null`. -/
def optional? (read : Json → Option α) : Option Json → Option (Option α)
  | none | some .null => some none
  | some j => (read j).map some

end ZoneRelay.Json
