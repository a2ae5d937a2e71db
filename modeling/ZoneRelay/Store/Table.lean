import ZoneRelay.Text.Basic
import ZoneRelay.Text.Octets

/-!
# Ordered tables

A table maps texts to octets and lists its entries in the order of their keys.

* `Table.put`, `Table.erase`: a value for a key, and none.
* `Table.get?`, `Table.scan`: an entry, and all entries whose keys start alike.
* `Table.eraseAll`: forgets what a scan finds.
* `Table.run`: several writes in order, and the events that tell of them.
* `StoreError`: what can go wrong when a table is kept in a store, and the wording of it.
-/

namespace ZoneRelay

/-- A key and its value. -/
abbrev Entry := String × Octets

/-- Entries in strictly ascending order of keys. -/
structure Table where
  entries : List Entry
  ordered : entries.Pairwise fun a b => a.1 < b.1
  deriving DecidableEq

/-- A write to a table. -/
inductive Op
  | put (key : String) (value : Octets)
  | delete (key : String)
  /-- Deletes all keys that start so. -/
  | deletePrefix (start : String)
  deriving DecidableEq, Repr

/-- What a write did to one key. -/
inductive Event
  | put (key : String) (value : Octets)
  | delete (key : String)
  deriving DecidableEq, Repr

/-- The key that an event tells of. -/
def Event.key : Event → String
  | put k _ => k
  | delete k => k

namespace Table

/-- The table without entries. -/
def empty : Table :=
  ⟨[], List.Pairwise.nil⟩

instance : Inhabited Table :=
  ⟨empty⟩

/-- The entries with a key added, or its value replaced. -/
def putEntry (key : String) (value : Octets) : List Entry → List Entry
  | [] => [(key, value)]
  | (k, v) :: r =>
    if key < k then (key, value) :: (k, v) :: r
    else if key = k then (key, value) :: r
    else (k, v) :: putEntry key value r

theorem mem_putEntry {key : String} {value : Octets} {l : List Entry} {e : Entry}
    (h : e ∈ putEntry key value l) : e = (key, value) ∨ e ∈ l := by
  induction l with
  | nil => simpa [putEntry] using h
  | cons x r ih =>
    obtain ⟨k, v⟩ := x
    unfold putEntry at h
    split at h
    · simpa using h
    · split at h
      · rcases List.mem_cons.1 h with h | h
        · exact Or.inl h
        · exact Or.inr (List.mem_cons_of_mem _ h)
      · rcases List.mem_cons.1 h with h | h
        · exact Or.inr (h ▸ List.mem_cons_self)
        · exact (ih h).imp_right (List.mem_cons_of_mem _)

theorem putEntry_ordered (key : String) (value : Octets) {l : List Entry}
    (h : l.Pairwise fun a b => a.1 < b.1) :
    (putEntry key value l).Pairwise fun a b => a.1 < b.1 := by
  induction l with
  | nil => simp [putEntry]
  | cons x r ih =>
    obtain ⟨k, v⟩ := x
    rw [List.pairwise_cons] at h
    unfold putEntry
    split
    · next hlt =>
      refine List.pairwise_cons.2 ⟨fun e he => ?_, List.pairwise_cons.2 h⟩
      rcases List.mem_cons.1 he with rfl | he
      · exact hlt
      · exact String.lt_trans hlt (h.1 e he)
    · next hge =>
      split
      · next heq => subst heq; exact List.pairwise_cons.2 h
      · next hne =>
        refine List.pairwise_cons.2 ⟨fun e he => ?_, ih h.2⟩
        rcases mem_putEntry he with rfl | he
        · exact String.not_le.1 fun h' => hne (String.le_antisymm h' (String.not_lt.1 hge))
        · exact h.1 e he

/-- Gives a key a value. -/
def put (t : Table) (key : String) (value : Octets) : Table :=
  ⟨putEntry key value t.entries, putEntry_ordered key value t.ordered⟩

/-- The table of the entries that pass a test. -/
def filter (p : Entry → Bool) (t : Table) : Table :=
  ⟨t.entries.filter p, t.ordered.sublist List.filter_sublist⟩

/-- Forgets a key. -/
def erase (t : Table) (key : String) : Table :=
  t.filter (·.1 != key)

/-- The table of entries given in any order, a later one replacing an earlier one of its key. -/
def ofList (l : List Entry) : Table :=
  l.foldl (fun t e => t.put e.1 e.2) empty

/-- The value of a key. -/
def get? (t : Table) (key : String) : Option Octets :=
  t.entries.lookup key

/-- Whether a key has a value. -/
def contains (t : Table) (key : String) : Bool :=
  (t.get? key).isSome

/-- The number of keys. -/
def size (t : Table) : Nat :=
  t.entries.length

/-- The entries whose keys start so. They lie together, and begin where `start` itself would be. -/
def scan (t : Table) (start : String) : List Entry :=
  (t.entries.dropWhile (·.1 < start)).takeWhile fun e => Text.startsWith start e.1

/-- Forgets all keys that start so, one after the other. -/
def eraseAll (t : Table) (start : String) : Table :=
  (t.scan start).foldl (fun t e => t.erase e.1) t

/-- Does one write. Deleting a key that is not there is no event. -/
def step (t : Table) : Op → Table × List Event
  | .put key value => (t.put key value, [.put key value])
  | .delete key => (t.erase key, if t.contains key then [.delete key] else [])
  | .deletePrefix start => (t.eraseAll start, (t.scan start).map fun e => .delete e.1)

/-- Does several writes in order. -/
def run (t : Table) : List Op → Table × List Event
  | [] => (t, [])
  | op :: ops =>
    let (t, events) := t.step op
    let (t, more) := t.run ops
    (t, events ++ more)

end Table

/-! ## Errors -/

/-- What is wrong with a stored value. -/
inductive ValueFault
  | notChangeId
  | undecodable
  deriving DecidableEq, Repr

/-- Why a store operation failed. -/
inductive StoreError
  /-- The snapshot file could not be read or written. -/
  | io
  /-- The snapshot file holds no snapshot. -/
  | corruptSnapshot
  /-- The value of a key is not what belongs there. -/
  | corruptValue (key : String) (fault : ValueFault)
  /-- The commit was made to fail. -/
  | injected
  deriving DecidableEq, Repr

namespace StoreError

/-- The wording of an error, where it is this library's own. -/
def message? : StoreError → Option String
  | io | corruptSnapshot | corruptValue _ .undecodable => none
  | corruptValue key .notChangeId => some ("corrupt value at key '" ++ key ++ "': not a change ID")
  | injected => some "commit failed (injected)"

/-- Whether the same operation may succeed later. -/
def isTransient : StoreError → Bool
  | io | injected => true
  | corruptSnapshot | corruptValue .. => false

end StoreError

end ZoneRelay
