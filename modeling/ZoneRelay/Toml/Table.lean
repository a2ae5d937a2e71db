import ZoneRelay.Settings.Tree

/-!
# Tables under construction

A document fills tables step by step and may not define anything twice. A table remembers how it
came to be: by a header, as a part of some header's path, or by dotted keys.

* `Table.descend`: a change at the end of a path.
* `Table.addPair`: a key with dots and its value.
* `Table.addHeader`, `Table.addArrayHeader`: headers.
* `Table.toTree`: the finished values.
-/

namespace ZoneRelay.Toml

/-- A value, or a table that may still grow. -/
inductive Node
  /-- A finished value. -/
  | leaf (v : Tree)
  /-- A table, whether it was only passed on a path, and whether dotted keys made it. -/
  | table (isPassed isDotted : Bool) (members : List (String × Node))
  /-- The tables of an array, in order. -/
  | tables (items : List Node)

namespace Node

/-- A table without members, made by a header. -/
def fresh : Node :=
  .table false false []

/-- Gives a name a node. -/
def set (name : String) (n : Node) : List (String × Node) → List (String × Node)
  | [] => [(name, n)]
  | (k, m) :: r => if k = name then (name, n) :: r else (k, m) :: set name n r

/-- Changes the table at the end of a path. Tables on the way that are not there are made. Through
an array of tables the way leads to its last one. -/
def descend (isDotted : Bool) (change : Node → Option Node) : List String → Node → Option Node
  | [], n => change n
  | name :: rest, .table p d members =>
    match members.lookup name with
    | none => do
      let child ← descend isDotted change rest (.table true isDotted [])
      some (.table p d (set name child members))
    | some (.leaf _) => none
    | some (.tables items) => do
      let last ← items.getLast?
      let child ← descend isDotted change rest last
      some (.table p d (set name (.tables (items.dropLast ++ [child])) members))
    | some (.table childPassed childDotted childMembers) =>
      if isDotted && !childPassed then none
      else do
        let child ← descend isDotted change rest (.table childPassed childDotted childMembers)
        some (.table p d (set name child members))
  | _ :: _, .leaf _ | _ :: _, .tables _ => none

/-- Adds a finished value to a table. A table made by a header takes no dotted keys from outside,
and a table made by dotted keys nothing else. -/
def addLeaf (isDotted : Bool) (name : String) (v : Tree) : Node → Option Node
  | .table p d members =>
    if d != isDotted then none
    else if (members.lookup name).isSome then none
    else some (.table p d (set name (.leaf v) members))
  | .leaf _ | .tables _ => none

/-- Adds the value of a key, of which `path` stands before the last dot. -/
def addPair (path : List String) (name : String) (v : Tree) (n : Node) : Option Node :=
  descend (!path.isEmpty) (addLeaf (!path.isEmpty) name v) path n

/-- The table that a header starts: a new one, or one that was only passed so far. -/
def startTable (name : String) : Node → Option Node
  | .table p d members =>
    match members.lookup name with
    | none => some (.table p d (set name fresh members))
    | some (.table true false inner) =>
      some (.table p d (set name (.table false false inner) members))
    | some _ => none
  | .leaf _ | .tables _ => none

/-- The next table of an array. -/
def startItem (name : String) : Node → Option Node
  | .table p d members =>
    match members.lookup name with
    | none => some (.table p d (set name (.tables [fresh]) members))
    | some (.tables items) => some (.table p d (set name (.tables (items ++ [fresh])) members))
    | some _ => none
  | .leaf _ | .tables _ => none

/-- Adds the header of a table. -/
def addHeader (path : List String) (n : Node) : Option Node := do
  let name ← path.getLast?
  descend false (startTable name) path.dropLast n

/-- Adds the header of an item in an array of tables. -/
def addArrayHeader (path : List String) (n : Node) : Option Node := do
  let name ← path.getLast?
  descend false (startItem name) path.dropLast n

/-- Adds a pair to the table that the last header started. -/
def addPairAt (header path : List String) (name : String) (v : Tree) (n : Node) : Option Node :=
  descend false (addPair path name v) header n

mutual

/-- The values of a finished node. -/
def toTree : Node → Tree
  | .leaf v => v
  | .table _ _ members => .table (membersToTree members)
  | .tables items => .list (itemsToTree items)

/-- The values of members. -/
def membersToTree : List (String × Node) → List (String × Tree)
  | [] => []
  | (k, n) :: r => (k, toTree n) :: membersToTree r

/-- The values of items. -/
def itemsToTree : List Node → List Tree
  | [] => []
  | n :: r => toTree n :: itemsToTree r

end

end Node

end ZoneRelay.Toml
