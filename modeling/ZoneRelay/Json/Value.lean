/-!
# JSON values

* `Json.Number`: what a number literal says, without rounding.
* `Json`: a document; members keep their order and may repeat.
* `Json.Readable`: nothing in the value is beyond what a reader can hold.
* `Json.overlay`: a value over another one, member by member.
-/

namespace ZoneRelay

namespace Json

/-- A number literal. -/
inductive Number
  /-- Digits only. -/
  | nat (n : Nat)
  /-- With a sign, a fraction or an exponent: `± mantissa · 10 ^ exponent`. -/
  | scaled (negative : Bool) (mantissa : Nat) (exponent : Int)
  deriving DecidableEq, Repr

/-- The number of decimal digits. -/
def digitCount (n : Nat) : Nat :=
  (Nat.toDigits 10 n).length

/-- The least number that the binary64 format has no finite value for: `2 ^ 1024 - 2 ^ 970`. -/
def overflow : Nat :=
  (1 <<< 1024) - (1 <<< 970)

/-- Whether `mantissa · 10 ^ exponent` stays below the point where the binary64 format overflows. -/
def finite (mantissa : Nat) (exponent : Int) : Bool :=
  if mantissa = 0 then true
  else
    let magnitude : Int := (digitCount mantissa : Int) + exponent
    if magnitude ≤ 308 then true
    else if 310 ≤ magnitude then false
    else if 0 ≤ exponent then mantissa * Nat.pow 10 exponent.toNat < overflow
    else mantissa < overflow * Nat.pow 10 exponent.natAbs

/-- Whether the literal names a finite number. -/
def Number.isFinite : Number → Bool
  | .nat n => finite n 0
  | .scaled _ m e => finite m e

end Json

/-- A JSON document. -/
inductive Json
  | null
  | bool (value : Bool)
  | number (value : Json.Number)
  | string (value : String)
  | array (items : List Json)
  | object (members : List (String × Json))
  /-- A text, or an object with a member name, that is well delimited but holds no valid text. -/
  | garbled
  deriving Repr

namespace Json

/-- A natural number. -/
def nat (n : Nat) : Json :=
  .number (.nat n)

/-- A value that may be missing, as JSON. -/
def ofOption (f : α → Json) : Option α → Json
  | some a => f a
  | none => .null

mutual

/-- Whether every text is valid, every number finite, and containers nest at most `room` deep. -/
def readable (room : Nat) : Json → Bool
  | .null | .bool _ | .string _ => true
  | .number n => n.isFinite
  | .array items => 0 < room && readableItems (room - 1) items
  | .object members => 0 < room && readableMembers (room - 1) members
  | .garbled => false

/-- `readable` of every item. -/
def readableItems (room : Nat) : List Json → Bool
  | [] => true
  | v :: r => readable room v && readableItems room r

/-- `readable` of every member's value. -/
def readableMembers (room : Nat) : List (String × Json) → Bool
  | [] => true
  | (_, v) :: r => readable room v && readableMembers room r

end

/-! ## Values over one another -/

/-- Gives a name a value. -/
def setMember (name : String) (v : Json) : List (String × Json) → List (String × Json)
  | [] => [(name, v)]
  | (k, w) :: r => if k = name then (name, v) :: r else (k, w) :: setMember name v r

mutual

/-- One value over another: objects are merged name by name, all else is replaced. -/
def overlay (base : Json) : Json → Json
  | .object members =>
    match base with
    | .object b => .object (overlayMembers b members)
    | _ => .object members
  | .null => .null
  | .bool b => .bool b
  | .number n => .number n
  | .string s => .string s
  | .array items => .array items
  | .garbled => .garbled

/-- Members over those of another object. -/
def overlayMembers (base : List (String × Json)) : List (String × Json) → List (String × Json)
  | [] => base
  | (k, v) :: r =>
    let merged := match base.lookup k with
      | some w => overlay w v
      | none => v
    overlayMembers (setMember k merged base) r

end

end Json

end ZoneRelay
