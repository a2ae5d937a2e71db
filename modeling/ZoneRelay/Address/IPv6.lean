import ZoneRelay.Address.IPv4

/-!
# IPv6 addresses

Eight groups of sixteen bits. A text may leave out one run of zero groups, written as two colons,
and may give the last two groups as an IPv4 address.

* `IPv6.parse?`: reads a text.
* `IPv6.render`: writes the longest run of at least two zero groups as two colons, the first one of
  several; an address that stands for an IPv4 address is written with it.
-/

namespace ZoneRelay

namespace Address

/-- Whether a character is a digit to base sixteen. -/
def isHexDigit (c : Char) : Bool :=
  (Text.hexValue? c).isSome

/-- Reads one group of an IPv6 address: up to four digits to base sixteen. -/
def group? (s : List Char) : Option (UInt16 × List Char) :=
  let ds := s.takeWhile isHexDigit
  if ds.isEmpty || 4 < ds.length then none
  else some (UInt16.ofNat (valueOf 16 ds), s.dropWhile isHexDigit)

end Address

/-- An IPv6 address. -/
structure IPv6 where
  groups : List UInt16
  eight : groups.length = 8
  deriving DecidableEq, Repr

namespace IPv6

open Address

/-- The two groups that an IPv4 address fills. -/
def embedded (ip : IPv4) : List UInt16 :=
  [ip.first.toUInt16 * 256 + ip.second.toUInt16, ip.third.toUInt16 * 256 + ip.fourth.toUInt16]

/-- Reads what `item` reads, after a colon unless it is the first. -/
def separated? (isFirst : Bool) (item : List Char → Option (α × List Char)) (s : List Char) :
    Option (α × List Char) :=
  if isFirst then item s else (char? ':' s).bind item

/-- Reads up to `room` groups, as many as there are: the groups, whether the last two came from an
IPv4 address, and the rest. An IPv4 address needs room for two. -/
def readGroups (isFirst : Bool) : Nat → List Char → List UInt16 × Bool × List Char
  | 0, s => ([], false, s)
  | room + 1, s =>
    match (if room = 0 then none else separated? isFirst IPv4.read? s) with
    | some (ip, r) => (embedded ip, true, r)
    | none =>
      match separated? isFirst group? s with
      | none => ([], false, s)
      | some (g, r) =>
        let (gs, v4, r) := readGroups false room r
        (g :: gs, v4, r)

/-- The address with these groups, if there are eight. -/
def ofGroups? (gs : List UInt16) : Option IPv6 :=
  if h : gs.length = 8 then some ⟨gs, h⟩ else none

/-- Reads an address at the start of a text. -/
def read? (s : List Char) : Option (IPv6 × List Char) :=
  match readGroups true 8 s with
  | (front, v4, s) =>
    if front.length = 8 then (ofGroups? front).map (·, s)
    else if v4 then none
    else do
      let s ← char? ':' s
      let s ← char? ':' s
      let (back, _, s) := readGroups true (7 - front.length) s
      let ip ← ofGroups? (front ++ List.replicate (8 - front.length - back.length) 0 ++ back)
      some (ip, s)

/-- The address that a text is. -/
def parse? (s : List Char) : Option IPv6 :=
  match read? s with
  | some (ip, []) => some ip
  | _ => none

/-- The IPv4 address that an address stands for: five zero groups, one of ones, then its two. -/
def mapped? (ip : IPv6) : Option IPv4 :=
  match ip.groups with
  | [0, 0, 0, 0, 0, 0xFFFF, x, y] =>
    some ⟨(x / 256).toUInt8, x.toUInt8, (y / 256).toUInt8, y.toUInt8⟩
  | _ => none

/-- How many zero groups a list starts with. -/
def zerosAhead (gs : List UInt16) : Nat :=
  (gs.takeWhile (· == 0)).length

/-- Where the longest run of zeros starts, and its length; the first one of several. -/
def longestZeros : List UInt16 → Nat × Nat
  | [] => (0, 0)
  | g :: gs =>
    let here := zerosAhead (g :: gs)
    let (start, length) := longestZeros gs
    if length ≤ here then (0, here) else (start + 1, length)

/-- Groups with colons between them. -/
def renderGroups : List UInt16 → List Char
  | [] => []
  | [g] => Text.hexLower g.toNat
  | g :: h :: gs => Text.hexLower g.toNat ++ ':' :: renderGroups (h :: gs)

/-- The text of an address. -/
def render (ip : IPv6) : List Char :=
  match ip.mapped? with
  | some v4 => "::ffff:".toList ++ v4.render
  | none =>
    let (start, length) := longestZeros ip.groups
    if 1 < length then
      renderGroups (ip.groups.take start) ++ ':' :: ':' ::
        renderGroups (ip.groups.drop (start + length))
    else renderGroups ip.groups

end IPv6

end ZoneRelay
