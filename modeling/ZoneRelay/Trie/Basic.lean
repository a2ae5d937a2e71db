import ZoneRelay.Name
import ZoneRelay.Trie.Forest

/-!
# Tries of domain names

A trie keeps values under domain names and finds those of the most specific name that encloses a
given one.

* `Trie.insert`, `Trie.remove`, `Trie.removeValue`: changes.
* `Trie.get`, `Trie.contains`, `Trie.names`: what is kept under which name.
* `Trie.find`: the values of the most specific name that matches.
-/

namespace ZoneRelay

/-- How a trie keeps and matches. -/
structure Trie.Policy where
  /-- Whether a name starting with the label `*` matches every name below the rest of it. -/
  wildcard : Bool
  /-- Whether a name keeps several different values, or the last one only. -/
  several : Bool
  deriving DecidableEq, Repr

/-- Values under domain names. -/
structure Trie (α : Type) where
  policy : Trie.Policy
  /-- The values under the root name. -/
  values : List α
  below : Forest α
  deriving DecidableEq, Repr

namespace Trie

variable {α : Type}

/-- The trie that keeps nothing. -/
def empty (policy : Policy) : Trie α :=
  { policy, values := [], below := .empty }

/-- Whether nothing is kept. -/
def isEmpty (t : Trie α) : Bool :=
  t.values.isEmpty && t.below.isEmpty

/-- Changes the values at the end of a path. -/
def alter (f : List α → List α) (path : List String) (t : Trie α) : Trie α :=
  if path.isEmpty then { t with values := f t.values } else { t with below := t.below.alter f path }

/-- The values at the end of a path. -/
def valuesAt (path : List String) (t : Trie α) : List α :=
  if path.isEmpty then t.values else t.below.valuesAt path

/-- The values kept under exactly this name. -/
def get (t : Trie α) (name : String) : List α :=
  t.valuesAt (Name.path name)

/-- Whether a value is kept under exactly this name. -/
def contains (t : Trie α) (name : String) : Bool :=
  !(t.get name).isEmpty

/-- Adds a value to those under one name. -/
def Policy.store [BEq α] (p : Policy) (v : α) (vs : List α) : List α :=
  if p.several then if vs.contains v then vs else vs ++ [v] else [v]

/-- Keeps a value under a name. -/
def insert [BEq α] (t : Trie α) (name : String) (v : α) : Trie α :=
  t.alter (t.policy.store v) (Name.path name)

/-- Forgets all values under a name, and says whether there were any. -/
def remove (t : Trie α) (name : String) : Bool × Trie α :=
  (t.contains name, t.alter (fun _ => []) (Name.path name))

/-- Forgets one value under a name, and says whether it was there. -/
def removeValue [BEq α] (t : Trie α) (name : String) (v : α) : Bool × Trie α :=
  ((t.get name).contains v, t.alter (·.filter (· != v)) (Name.path name))

/-- The values of the most specific name that matches, none if no name matches. -/
def find (t : Trie α) (qname : String) : List α :=
  t.below.longest t.policy.wildcard t.values (Name.path qname)

/-- The paths of all names under which something is kept. -/
def paths (t : Trie α) : List (List String) :=
  (if t.values.isEmpty then [] else [[]]) ++ t.below.paths []

/-- All names under which something is kept, in order. -/
def names (t : Trie α) : List String :=
  (t.paths.map Name.ofPath).mergeSort fun a b => !decide (b < a)

end Trie

end ZoneRelay
