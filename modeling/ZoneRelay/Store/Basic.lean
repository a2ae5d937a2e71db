import ZoneRelay.Store.Disk

/-!
# The resolver store

A store holds a table and keeps a snapshot of it in a file, if it has one. Its writes are atomic: a
commit does all of its operations or, if it fails, none.

* `Store.inMemory`, `Store.open`: a new store.
* `Store.commit`: writes.
* `Store.disk?`, `Store.mount`: the directory that a store shares with others.
-/

namespace ZoneRelay

/-- Where a store keeps its snapshot. -/
inductive Backing
  | memory
  | file (path : String) (disk : Disk)
  deriving DecidableEq

/-- A store. -/
structure Store where
  table : Table
  backing : Backing
  /-- How many of the next commits are made to fail. -/
  failing : Nat
  /-- All events so far. -/
  log : Array Event

namespace Store

/-- An empty store without a file. -/
def inMemory : Store :=
  { table := .empty, backing := .memory, failing := 0, log := #[] }

/-- A store over the snapshot in a file. -/
def «open» (disk : Disk) (path : String) : Except StoreError Store := do
  let table ← disk.load path
  .ok { table, backing := .file path disk, failing := 0, log := #[] }

/-- Puts a table and the events that led to it in place. -/
def install (s : Store) (table : Table) (events : List Event) : Store :=
  { s with table, log := s.log ++ events.toArray }

/-- Does all operations, or none if that fails. With a file, the new table is kept there first. -/
def commit (s : Store) (ops : List Op) : Except StoreError Unit × Store :=
  match s.failing with
  | n + 1 => (.error .injected, { s with failing := n })
  | 0 =>
    let (table, events) := s.table.run ops
    match s.backing with
    | .memory => (.ok (), s.install table events)
    | .file path disk =>
      let (saved, disk) := disk.save path table
      let s := { s with backing := .file path disk }
      if saved then (.ok (), s.install table events) else (.error .io, s)

/-- The directory with the store's file. -/
def disk? (s : Store) : Option Disk :=
  match s.backing with
  | .memory => none
  | .file _ disk => some disk

/-- The store after others have changed the directory with its file. -/
def mount (s : Store) (disk : Disk) : Store :=
  match s.backing with
  | .memory => s
  | .file path _ => { s with backing := .file path disk }

end Store

end ZoneRelay
