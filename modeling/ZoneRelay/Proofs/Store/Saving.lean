import ZoneRelay.Proofs.Store.Table
import ZoneRelay.Store.Disk

/-!
# Saving side by side

A snapshot is saved in two parts: it is written under another name, and then renamed. Where several
stores keep their files in one directory, the parts of one may come between those of another.

* `Disk.perform`: one part; `Disk.save_parts` says that saving does both in order, as far as it
  gets.
* `Disk.get?_perform`, `Disk.perform_congr`: a part changes only the files of its own path, by what
  these hold.
* `Disk.Apart`, `Disk.Apart.undisturbed`: if paths have no files in common, the files of each are
  what its own parts make of them.
-/

namespace ZoneRelay.Disk

variable {d d' : Disk} {p q f : String}

/-- The name under which a snapshot is written first. -/
def temporary (path : String) : String :=
  FilePath.withExtension path temporaryExtension

/-- The files that saving a snapshot has to do with. -/
def filesOf (path : String) : List String :=
  [path, temporary path]

/-- A part of saving a snapshot at a path. -/
inductive Part
  /-- Writes the temporary file. -/
  | write (path : String) (file : Octets)
  /-- Gives the temporary file its name. -/
  | rename (path : String)
  deriving DecidableEq

/-- Where the snapshot is saved. -/
def Part.path : Part → String
  | write path _ => path
  | rename path => path

/-- The directory after a part of saving. There may be no temporary file to rename. -/
def perform (d : Disk) : Part → Disk
  | .write path file => { d with files := d.files.put (temporary path) file }
  | .rename path =>
    match d.files.get? (temporary path) with
    | some file => { d with files := (d.files.erase (temporary path)).put path file }
    | none => d

/-- **Saving does both parts in order**, or stops before one of them. -/
theorem save_parts (d : Disk) (path : String) (t : Table) :
    ∃ parts, parts <+: [.write path t.toSnapshot, .rename path] ∧
      (d.save path t).2 = parts.foldl perform d ∧
      ((d.save path t).1 = true ↔ parts.length = 2) := by
  unfold save
  simp only
  split
  · exact ⟨[], List.nil_prefix, rfl, by simp⟩
  · split
    · exact ⟨[.write path t.toSnapshot], ⟨[.rename path], rfl⟩, rfl, by simp⟩
    · refine ⟨[.write path t.toSnapshot, .rename path], List.prefix_rfl, ?_, by simp⟩
      have hwritten : (d.files.put (temporary path) t.toSnapshot).get? (temporary path) =
          some t.toSnapshot := Table.get?_put.trans (if_pos rfl)
      simp only [List.foldl_cons, List.foldl_nil, perform, hwritten]
      rfl

theorem perform_rename (d : Disk) (path : String) : d.perform (.rename path) =
    match d.files.get? (temporary path) with
    | some file => { d with files := (d.files.erase (temporary path)).put path file }
    | none => d :=
  rfl

/-- Other files are left alone. -/
theorem get?_perform {x : Part} (h : f ∉ filesOf x.path) :
    (d.perform x).files.get? f = d.files.get? f := by
  unfold filesOf at h
  rw [List.mem_cons, List.mem_singleton, not_or] at h
  cases x with
  | write path file => exact Table.get?_put.trans (if_neg h.2)
  | rename path =>
    rw [perform_rename]
    cases d.files.get? (temporary path) with
    | none => rfl
    | some file =>
      simp only [Table.get?_put, Table.get?_erase]
      exact (if_neg h.1).trans (if_neg h.2)

/-- What a part makes of its own files is settled by what they hold. -/
theorem perform_congr {x : Part} (h : ∀ f ∈ filesOf x.path, d.files.get? f = d'.files.get? f) :
    ∀ f ∈ filesOf x.path, (d.perform x).files.get? f = (d'.perform x).files.get? f := by
  intro f hf
  cases x with
  | write path file =>
    have hput : ∀ d : Disk, (d.perform (.write path file)).files.get? f =
        if f = temporary path then some file else d.files.get? f := fun _ => Table.get?_put
    rw [hput, hput, h f hf]
  | rename path =>
    have htemp := h (temporary path) (List.mem_cons_of_mem _ List.mem_cons_self)
    rw [perform_rename, perform_rename, ← htemp]
    cases d.files.get? (temporary path) with
    | none => exact h f hf
    | some file => simp only [Table.get?_put, Table.get?_erase, h f hf]

/-- Whether the files of two paths are four different ones. -/
def Apart (p q : String) : Prop :=
  (filesOf p ++ filesOf q).Nodup

instance (p q : String) : Decidable (Apart p q) :=
  inferInstanceAs (Decidable (filesOf p ++ filesOf q).Nodup)

/-- Whether what comes of the files of a path is what the parts for this path make of them, among
parts for two paths in any order. -/
def Undisturbed (p q : String) : Prop :=
  ∀ (d : Disk) (parts : List Part), (∀ x ∈ parts, x.path = p ∨ x.path = q) → ∀ f ∈ filesOf p,
    (parts.foldl perform d).files.get? f =
      ((parts.filter (·.path = p)).foldl perform d).files.get? f

theorem Apart.symm (h : Apart p q) : Apart q p :=
  List.perm_append_comm.nodup_iff.1 h

/-- One part after the other: those for the other path can be left out. -/
theorem get?_performs (h : Apart p q) {parts : List Part}
    (hparts : ∀ x ∈ parts, x.path = p ∨ x.path = q)
    (hd : ∀ f ∈ filesOf p, d.files.get? f = d'.files.get? f) :
    ∀ f ∈ filesOf p, (parts.foldl perform d).files.get? f =
      ((parts.filter (·.path = p)).foldl perform d').files.get? f := by
  induction parts generalizing d d' with
  | nil => exact hd
  | cons x parts ih =>
    obtain ⟨hx, hparts⟩ := List.forall_mem_cons.1 hparts
    by_cases hp : x.path = p
    · rw [List.filter_cons_of_pos (by simpa using hp), List.foldl_cons, List.foldl_cons]
      subst hp
      exact ih hparts (perform_congr hd)
    · -- a part for the other path has to do with none of these files
      rw [List.filter_cons_of_neg (by simpa using hp), List.foldl_cons]
      refine ih hparts fun f hf => ?_
      have hother : f ∉ filesOf x.path := by
        rw [hx.resolve_left hp]
        exact fun hq => (List.nodup_append.1 h).2.2 f hf f hq rfl
      rw [get?_perform hother, hd f hf]

/-- **Paths without files in common** do not disturb each other. -/
theorem Apart.undisturbed (h : Apart p q) : Undisturbed p q :=
  fun _ _ hparts => get?_performs h hparts fun _ _ => rfl

theorem directories_perform (d : Disk) (x : Part) : (d.perform x).directories = d.directories := by
  cases x with
  | write path file => rfl
  | rename path =>
    rw [perform_rename]
    cases d.files.get? (temporary path) <;> rfl

/-- What is loaded from a path stays while others are written and renamed. -/
theorem load_performs {parts : List Part} (h : ∀ x ∈ parts, p ∉ filesOf x.path) (d : Disk) :
    (parts.foldl perform d).load p = d.load p := by
  induction parts generalizing d with
  | nil => rfl
  | cons x parts ih =>
    rw [List.forall_mem_cons] at h
    rw [List.foldl_cons, ih h.2]
    unfold load
    rw [get?_perform h.1, directories_perform]

/-- What is loaded from one path stays while a table is saved at the other. -/
theorem Apart.load_save (h : Apart p q) (d : Disk) (t : Table) :
    (d.save q t).2.load p = d.load p := by
  obtain ⟨parts, hparts, hsave, -⟩ := save_parts d q t
  rw [hsave]
  refine load_performs (fun x hx => ?_) d
  have hpath : x.path = q := by
    have hx' := hparts.subset hx
    rw [List.mem_cons, List.mem_singleton] at hx'
    rcases hx' with rfl | rfl <;> rfl
  rw [hpath]
  exact fun hq => (List.nodup_append.1 h).2.2 p List.mem_cons_self p hq rfl

end ZoneRelay.Disk
