import ZoneRelay.Json.Parser
import ZoneRelay.Json.Printer
import ZoneRelay.Json.Shape
import ZoneRelay.Store.FilePath
import ZoneRelay.Store.Table

/-!
# Snapshot files

A snapshot file keeps a whole table. It is written under another name first and then renamed, so
that a write that fails half way leaves the file as it was.

* `Disk`: the directory with the files.
* `Table.toSnapshot`, `Table.ofSnapshot?`: a table as a file and back.
* `Disk.load`, `Disk.save`: reading and writing a snapshot file.
-/

namespace ZoneRelay

/-- A directory, and whether files in it can be written and renamed. -/
structure Disk where
  files : Table
  /-- The paths that name a directory. -/
  directories : List String
  canWrite : Bool
  canRename : Bool
  deriving DecidableEq

/-- An empty directory. -/
def Disk.empty : Disk :=
  { files := .empty, directories := [], canWrite := true, canRename := true }

namespace Table

/-- An entry of a snapshot: the octets as numbers. -/
def entryToJson (e : Entry) : String × Json :=
  (e.1, .array (e.2.map fun b => .nat b.toNat))

/-- Reads an octet. -/
def octetOfJson? (j : Json) : Option UInt8 :=
  (j.natBelow? 256).map UInt8.ofNat

/-- Reads an entry of a snapshot. -/
def entryOfJson? (m : String × Json) : Option Entry :=
  (m.2.list? octetOfJson?).map fun v => (m.1, v)

/-- A table as a snapshot. -/
def toSnapshot (t : Table) : Octets :=
  (Json.object (t.entries.map entryToJson)).render

/-- The table that a snapshot keeps. -/
def ofSnapshot? (file : Octets) : Option Table :=
  match Json.parse? file with
  | some (.object members) => (members.mapM entryOfJson?).map ofList
  | _ => none

end Table

namespace Disk

/-- The extension of the file that a snapshot is written to first. -/
def temporaryExtension : String := "tmp"

/-- The table kept in a file, empty if there is no such file. -/
def load (d : Disk) (path : String) : Except StoreError Table :=
  if d.directories.contains path then .error .io
  else
    match d.files.get? path with
    | none => .ok .empty
    | some file =>
      match Table.ofSnapshot? file with
      | some t => .ok t
      | none => .error .corruptSnapshot

/-- Keeps a table in a file, and says whether that succeeded. A path that names no file cannot be
written. -/
def save (d : Disk) (path : String) (t : Table) : Bool × Disk :=
  let temporary := FilePath.withExtension path temporaryExtension
  if !d.canWrite || (FilePath.fileName? path).isNone || d.directories.contains temporary then
    (false, d)
  else
    let written := d.files.put temporary t.toSnapshot
    if !d.canRename || d.directories.contains path then (false, { d with files := written })
    else (true, { d with files := (written.erase temporary).put path t.toSnapshot })

end Disk

end ZoneRelay
