import ZoneRelay.Json.Value
import ZoneRelay.Text.Octets

/-!
# Writing JSON

`Json.render` writes a document without blanks and with members in their order. In a text only the
quote, the backslash and the controls below the space are escaped.
-/

namespace ZoneRelay.Json

open Ascii

/-- What stands for an octet of a text between the quotes. -/
def escape (b : UInt8) : Octets :=
  if b = code '"' then [code '\\', code '"']
  else if b = code '\\' then [code '\\', code '\\']
  else if 0x20 ≤ b then [b]
  else if b = 0x08 then [code '\\', code 'b']
  else if b = 0x0C then [code '\\', code 'f']
  else if b = 0x0A then [code '\\', code 'n']
  else if b = 0x0D then [code '\\', code 'r']
  else if b = 0x09 then [code '\\', code 't']
  else
    [code '\\', code 'u', code '0', code '0', code (Nat.digitChar (b.toNat / 16)),
      code (Nat.digitChar (b.toNat % 16))]

/-- A text between quotes. -/
def quoted (s : String) : Octets :=
  code '"' :: ((Octets.ofText s).flatMap escape ++ [code '"'])

/-- The digits of a number. -/
def numeral (n : Nat) : Octets :=
  (Text.decimal n).map code

/-- A number literal. -/
def Number.render : Number → Octets
  | .nat n => numeral n
  | .scaled negative m e =>
    (if negative then [code '-'] else []) ++ numeral m ++ [code 'e'] ++
      (if e < 0 then [code '-'] else []) ++ numeral e.natAbs

mutual

/-- A document as octets. -/
def render : Json → Octets
  | .null => Octets.ofText "null"
  | .bool true => Octets.ofText "true"
  | .bool false => Octets.ofText "false"
  | .number n => n.render
  | .string s => quoted s
  | .array items => code '[' :: (renderItems items ++ [code ']'])
  | .object members => code '\x7b' :: (renderMembers members ++ [code '\x7d'])
  | .garbled => quoted ""

/-- Items with commas between them. -/
def renderItems : List Json → Octets
  | [] => []
  | [v] => render v
  | v :: w :: r => render v ++ code ',' :: renderItems (w :: r)

/-- Members with commas between them. -/
def renderMembers : List (String × Json) → Octets
  | [] => []
  | [(k, v)] => quoted k ++ code ':' :: render v
  | (k, v) :: m :: r => quoted k ++ code ':' :: (render v ++ code ',' :: renderMembers (m :: r))

end

end ZoneRelay.Json
