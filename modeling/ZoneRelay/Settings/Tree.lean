/-!
# Layered values

Settings come from several layers, each of which gives values under names, in tables inside tables.

* `Tree`: the values of one layer.
* `Tree.merge`: one layer over another.
* `Tree.nest`: a single value under a path of names.
* `Tree.layer`: several layers as one.
-/

namespace ZoneRelay

/-- A value of a layer. What no setting can be is told apart no further. -/
inductive Tree
  | text (s : String)
  | letter (c : Char)
  | integer (n : Int)
  | bool (b : Bool)
  /-- A number with a fraction. -/
  | fraction
  | list (items : List Tree)
  | table (members : List (String × Tree))
  deriving Repr

namespace Tree

/-- Gives a name a value. -/
def set (name : String) (v : Tree) : List (String × Tree) → List (String × Tree)
  | [] => [(name, v)]
  | (k, w) :: r => if k = name then (name, v) :: r else (k, w) :: set name v r

mutual

/-- One layer over another: tables are merged name by name, all else is replaced. -/
def merge (base : Tree) : Tree → Tree
  | .table members =>
    match base with
    | .table b => .table (mergeMembers b members)
    | _ => .table members
  | .text s => .text s
  | .letter c => .letter c
  | .integer n => .integer n
  | .bool b => .bool b
  | .fraction => .fraction
  | .list items => .list items

/-- Members over those of another table. -/
def mergeMembers (base : List (String × Tree)) : List (String × Tree) → List (String × Tree)
  | [] => base
  | (k, v) :: r =>
    let merged := match base.lookup k with
      | some w => merge w v
      | none => v
    mergeMembers (set k merged base) r

end

/-- A value under a path of names. -/
def nest : List String → Tree → Tree
  | [], v => v
  | name :: r, v => .table [(name, nest r v)]

/-- No value at all. -/
def empty : Tree :=
  .table []

/-- Several layers, each over those before it. -/
def layer (layers : List Tree) : Tree :=
  layers.foldl merge empty

end Tree

end ZoneRelay
