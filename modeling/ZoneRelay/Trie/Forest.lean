/-!
# Labelled forests

A forest holds the subtrees below a node, one for each label, in the order of their labels. Every
node may hold values.

* `Forest.valuesAt`: the values at the end of a path.
* `Forest.alter`: changes the values at the end of a path; nodes that hold nothing are cut off.
* `Forest.longest`: the values of the deepest node on the way along a path.
* `Forest.paths`: the paths to all nodes with values.
-/

namespace ZoneRelay

/-- Subtrees side by side. -/
inductive Forest (α : Type)
  | empty
  /-- A subtree whose root hangs on `label`, then the subtrees after it. -/
  | node (label : String) (values : List α) (below : Forest α) (after : Forest α)
  deriving DecidableEq, Repr

namespace Forest

variable {α : Type}

/-- Whether there is no subtree. -/
def isEmpty : Forest α → Bool
  | empty => true
  | node .. => false

/-- The values and the forest of the root on a label. -/
def root? (label : String) : Forest α → Option (List α × Forest α)
  | empty => none
  | node l vs below after => if label = l then some (vs, below) else root? label after

/-- The values at the end of a path, none if it leads nowhere. -/
def valuesAt : List String → Forest α → List α
  | [], _ => []
  | label :: rest, f =>
    match f.root? label with
    | none => []
    | some (vs, below) => if rest.isEmpty then vs else valuesAt rest below

/-- Puts a subtree in front, unless it holds nothing. -/
def attach (label : String) (values : List α) (below after : Forest α) : Forest α :=
  if values.isEmpty && below.isEmpty then after else node label values below after

/-- The forest with `values` at the end of a path and nothing else. -/
def single (values : List α) : List String → Forest α
  | [] => empty
  | [label] => attach label values empty empty
  | label :: l :: rest => attach label [] (single values (l :: rest)) empty

/-- Changes the values at the end of a path by `f`, which has to keep no values for none if the path
leads nowhere. -/
def alter (f : List α → List α) : List String → Forest α → Forest α
  | [], t => t
  | path, empty => single (f []) path
  | label :: rest, node l vs below after =>
    if label = l then
      if rest.isEmpty then attach l (f vs) below after
      else attach l vs (alter f rest below) after
    else if label < l then
      match single (f []) (label :: rest) with
      | node x ws b _ => node x ws b (node l vs below after)
      | empty => node l vs below after
    else node l vs below (alter f (label :: rest) after)

/-- The label that stands for any label. -/
def wildcardLabel : String := "*"

/-- `values`, or `best` if there are none. -/
def orElse (values best : List α) : List α :=
  if values.isEmpty then best else values

/-- The values of the deepest node with values on the way along a path, `best` if there is none.
With `wildcard`, a node on the label `*` matches the last label of any longer way; a deeper node,
and at equal depth the node on the label itself, goes before it. -/
def longest (wildcard : Bool) (best : List α) : List String → Forest α → List α
  | [], _ => best
  | label :: rest, f =>
    let best := if wildcard then orElse (f.valuesAt [wildcardLabel]) best else best
    match f.root? label with
    | none => best
    | some (vs, below) => longest wildcard (orElse vs best) rest below

/-- The paths to all nodes with values, `above` being the path to the forest. -/
def paths (above : List String) : Forest α → List (List String)
  | empty => []
  | node l vs below after =>
    (if vs.isEmpty then [] else [above ++ [l]]) ++ paths (above ++ [l]) below ++ paths above after

end Forest

end ZoneRelay
