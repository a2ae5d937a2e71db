import ZoneRelay.Proofs.Change.Wire
import ZoneRelay.Proofs.Store.Table
import ZoneRelay.Store.Basic

/-!
# Snapshots read back

The file of a store always holds the table of the store.

* `Table.ofSnapshot?_toSnapshot`: a snapshot gives the table it was made of.
* `Disk.load_of_saved`, `Disk.save_failed`: a file that was saved is read back, and one that could
  not be saved is as it was.
* `Store.Kept`: the file of a store holds its table.
* `Store.kept_open`, `Store.kept_commit`: it does so from the start, and after every commit.
-/

namespace ZoneRelay

/-! ## Tables as files -/

namespace Table

open Json

theorem octetOfJson?_nat (b : UInt8) : octetOfJson? (.nat b.toNat) = some b := by
  have h : b.toNat < 256 := b.toNat_lt
  simp [octetOfJson?, nat, natBelow?, h]

theorem entryOfJson?_entryToJson (e : Entry) : entryOfJson? (entryToJson e) = some e := by
  unfold entryOfJson? entryToJson
  rw [list?_map octetOfJson?_nat]
  rfl

theorem plain_entries (l : List Entry) : plainMembers (l.map entryToJson) := by
  induction l with
  | nil => rfl
  | cons e l ih =>
    have h : plainItems (e.2.map fun b => .nat b.toNat) := plainItems_map (fun _ => rfl) e.2
    simp only [List.map_cons, entryToJson, plainMembers, plain, h, Bool.true_and]
    exact ih

/-- **A snapshot gives the table it was made of.** -/
theorem ofSnapshot?_toSnapshot (t : Table) : ofSnapshot? t.toSnapshot = some t := by
  have hread : (t.entries.map entryToJson).mapM entryOfJson? = some t.entries := by
    have h1 : entryOfJson? ∘ entryToJson = fun e => some e := funext entryOfJson?_entryToJson
    rw [List.mapM_map, h1]
    exact List.mapM_pure.trans (congrArg some (List.map_id' t.entries))
  unfold ofSnapshot? toSnapshot
  rw [parse?_render (j := .object _) (plain_entries t.entries)]
  simp only [hread, Option.map_some, ofList_entries]

end Table

/-! ## Files -/

namespace Disk

variable {d d' : Disk} {path : String} {t : Table}

/-- The file that is written first is not the file itself, unless its name says otherwise. -/
theorem temporary_ne (hf : (FilePath.fileName? path).isNone = false)
    (hp : ¬ ".tmp".toList <:+ path.toList) :
    FilePath.withExtension path temporaryExtension ≠ path := by
  have hfile : FilePath.isFile (FilePath.split path.toList).2 = true := by
    by_contra h1
    rw [FilePath.fileName?, if_neg h1] at hf
    cases hf
  intro h
  refine hp ⟨(FilePath.split path.toList).1 ++ FilePath.stem (FilePath.split path.toList).2, ?_⟩
  unfold FilePath.withExtension at h
  simp only [if_pos hfile] at h
  have h2 := congrArg String.toList h
  rwa [String.toList_ofList] at h2

theorem load_congr (hfile : d'.files.get? path = d.files.get? path)
    (hdir : d'.directories.contains path = d.directories.contains path) :
    d'.load path = d.load path := by
  unfold load
  rw [hfile, hdir]

/-- **A table that was saved is read back.** -/
theorem load_of_saved (h : (d.save path t).1 = true) : (d.save path t).2.load path = .ok t := by
  unfold save at h ⊢
  simp only at h ⊢
  split at h
  · cases h
  · next hwrite =>
    split at h
    · cases h
    · next hrename =>
      have hdir : d.directories.contains path = false := by
        simp only [Bool.or_eq_true, not_or, Bool.not_eq_true] at hrename
        exact hrename.2
      rw [if_neg hwrite, if_neg hrename, load]
      simp only [hdir, Bool.false_eq_true, if_false, Table.get?_put, if_true,
        Table.ofSnapshot?_toSnapshot]

/-- **A file that could not be saved is as it was**: only the one that is written first may
differ. -/
theorem save_failed (hp : ¬ ".tmp".toList <:+ path.toList) (h : (d.save path t).1 = false) :
    (d.save path t).2.files.get? path = d.files.get? path ∧
      (d.save path t).2.directories = d.directories := by
  unfold save at h ⊢
  simp only at h ⊢
  split at h
  · next hwrite =>
    rw [if_pos hwrite]
    exact ⟨rfl, rfl⟩
  · next hwrite =>
    split at h
    · next hrename =>
      have hfile : (FilePath.fileName? path).isNone = false := by
        simp only [Bool.or_eq_true, not_or, Bool.not_eq_true] at hwrite
        exact hwrite.1.2
      rw [if_neg hwrite, if_pos hrename]
      exact ⟨Table.get?_put.trans (if_neg (temporary_ne hfile hp).symm), rfl⟩
    · cases h

/-- Another directory, with what `d` has at a path. -/
def besides (d : Disk) (path : String) (other : Disk) : Disk :=
  { other with
    files :=
      match d.files.get? path with
      | some file => other.files.put path file
      | none => other.files.erase path
    directories := d.directories.filter (· == path) ++ other.directories.filter (· != path) }

theorem get?_besides (other : Disk) :
    (d.besides path other).files.get? path = d.files.get? path := by
  unfold besides
  cases h : d.files.get? path with
  | none => exact Table.get?_erase.trans (if_pos rfl)
  | some file => exact Table.get?_put.trans (if_pos rfl)

theorem load_besides (other : Disk) : (d.besides path other).load path = d.load path := by
  refine load_congr (get?_besides other) ?_
  rw [Bool.eq_iff_iff]
  simp [besides]

end Disk

/-! ## Stores with a file -/

namespace Store

variable {s : Store} {path : String} {disk : Disk} {ops : List Op} {e : StoreError}

/-- The file of a store. -/
def file? (s : Store) : Option Octets :=
  match s.backing with
  | .memory => none
  | .file path disk => disk.files.get? path

/-- The store after others have changed the directory with its file, but not the file. -/
def besides (s : Store) (other : Disk) : Store :=
  match s.backing with
  | .memory => s
  | .file path disk => { s with backing := .file path (disk.besides path other) }

/-- The file at a path, or its absence, gives the table of the store. -/
def Kept (s : Store) (path : String) : Prop :=
  ∃ disk, s.backing = .file path disk ∧ disk.load path = .ok s.table

theorem kept_open (h : Store.open disk path = .ok s) : s.Kept path := by
  unfold Store.open at h
  cases hl : disk.load path with
  | error e =>
    rw [hl] at h
    cases h
  | ok table =>
    rw [hl] at h
    cases h
    exact ⟨disk, rfl, hl⟩

/-- **A commit that fails changes neither the table nor the file.** -/
theorem commit_failed (hp : ¬ ".tmp".toList <:+ path.toList) (hs : s.Kept path)
    (h : (s.commit ops).1 = .error e) :
    (s.commit ops).2.table = s.table ∧ (s.commit ops).2.file? = s.file? ∧
      (s.commit ops).2.Kept path := by
  obtain ⟨table, backing, failing, log⟩ := s
  obtain ⟨disk, rfl, hload⟩ := hs
  cases failing with
  | succ n => exact ⟨rfl, rfl, disk, rfl, hload⟩
  | zero =>
    unfold commit at h ⊢
    simp only at h ⊢
    split at h
    · cases h
    · next hsaved =>
      have hsaved : (disk.save path (table.run ops).1).1 = false := by simpa using hsaved
      obtain ⟨h1, h2⟩ := Disk.save_failed hp hsaved
      rw [hsaved]
      exact ⟨rfl, h1, _, rfl, (Disk.load_congr h1 (by rw [h2])).trans hload⟩

/-- **The file holds the table after every commit**, whether or not it fails. -/
theorem kept_commit (hp : ¬ ".tmp".toList <:+ path.toList) (hs : s.Kept path) (ops : List Op) :
    (s.commit ops).2.Kept path := by
  cases h : (s.commit ops).1 with
  | error e => exact (commit_failed hp hs h).2.2
  | ok u =>
    obtain ⟨table, backing, failing, log⟩ := s
    obtain ⟨disk, rfl, hload⟩ := hs
    cases failing with
    | succ n => cases h
    | zero =>
      unfold commit at h ⊢
      simp only at h ⊢
      split at h
      · next hsaved =>
        rw [if_pos hsaved]
        exact ⟨_, rfl, Disk.load_of_saved hsaved⟩
      · cases h

theorem kept_besides (hs : s.Kept path) (other : Disk) : (s.besides other).Kept path := by
  obtain ⟨disk, hb, hload⟩ := hs
  unfold besides
  rw [hb]
  exact ⟨_, rfl, (Disk.load_besides other).trans hload⟩

theorem table_besides (s : Store) (other : Disk) : (s.besides other).table = s.table := by
  unfold besides
  split <;> rfl

end Store

end ZoneRelay
