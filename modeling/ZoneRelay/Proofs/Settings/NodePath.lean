import ZoneRelay.Proofs.Store.FilePath
import ZoneRelay.Proofs.Store.Saving
import ZoneRelay.Settings.Basic

/-!
# The files of several nodes

The nodes of one process keep their snapshots beside each other, and the name of a server tells
their files apart. The temporary file has an extension of its own instead of the last one, so this
holds if the configured path has an extension and it is another one. If the path has none, the name
of the server stands where its extension would be: what follows the last dot of the name is then
replaced.

* `Settings.toList_nodePath`, `Settings.toList_temporary_nodePath`: the files of a node.
* `Settings.TellsApart`: whether a path keeps the files of two nodes apart.
* `Settings.apart_iff`: that they are different ones just then, and what follows from it.
-/

namespace ZoneRelay.Settings

open FilePath Text

/-- A server's identity that can stand in a file name. -/
structure PlainId (id : String) : Prop where
  ne_empty : id ≠ ""
  no_slash : '/' ∉ id.toList

instance (id : String) : Decidable (PlainId id) :=
  decidable_of_iff (id ≠ "" ∧ '/' ∉ id.toList) ⟨fun h => ⟨h.1, h.2⟩, fun h => ⟨h.1, h.2⟩⟩

variable {path id s t : String}

/-- What follows the stem and a dot in the name of a node's snapshot. -/
def nodeTail (path id : String) : List Char :=
  id.toList ++ match extension? path with
    | some e => '.' :: e
    | none => []

/-- What the files of all nodes start with. -/
def nodeBase (path : String) : List Char :=
  (split path.toList).1 ++ stem (split path.toList).2 ++ ['.']

theorem nodePath_eq (path id : String) :
    nodePath path id = withExtension path (String.ofList (nodeTail path id)) := by
  unfold nodePath nodeTail
  cases extension? path with
  | none => simp
  | some e =>
    simp only
    congr 1
    refine String.toList_inj.1 ?_
    simp

theorem nodeTail_ne_nil (hid : PlainId id) : nodeTail path id ≠ [] := by
  have h : id.toList ≠ [] := fun h => hid.ne_empty (String.toList_eq_nil_iff.1 h)
  unfold nodeTail
  simp [h]

/-- The snapshot of a node: its name and the extension of the path after the stem. -/
theorem toList_nodePath (hp : isFile (split path.toList).2 = true) (hid : PlainId id) :
    (nodePath path id).toList = nodeBase path ++ nodeTail path id := by
  have hne : String.ofList (nodeTail path id) ≠ "" := by
    rw [ne_eq, String.ofList_eq_empty_iff]
    exact nodeTail_ne_nil hid
  rw [nodePath_eq, withExtension_eq hp hne, String.toList_ofList]
  simp [nodeBase]

theorem slash_not_mem_nodeTail (hp : isFile (split path.toList).2 = true) (hid : PlainId id) :
    '/' ∉ nodeTail path id := by
  unfold nodeTail
  rw [List.mem_append, not_or]
  refine ⟨hid.no_slash, ?_⟩
  rcases extension?_cases hp with ⟨h, -⟩ | ⟨e, h, -, hname⟩
  · rw [h]
    exact List.not_mem_nil
  · rw [h]
    intro hmem
    refine slash_not_mem_file path.toList ?_
    rw [hname]
    exact List.mem_append_right _ hmem

/-- What starts so is beside the configured path, in the same folder. -/
theorem split_nodeBase_append (hp : isFile (split path.toList).2 = true) {tail : List Char}
    (hne : tail ≠ []) (hslash : '/' ∉ tail) :
    split (nodeBase path ++ tail) =
      ((split path.toList).1, stem (split path.toList).2 ++ '.' :: tail) ∧
    isFile (stem (split path.toList).2 ++ '.' :: tail) = true := by
  have hstem := stem_ne_nil (isFile_iff.1 hp).1
  have hfile : isFile (stem (split path.toList).2 ++ '.' :: tail) = true := by
    -- with the dot these are three characters or more, so not only dots that stand for a folder
    obtain ⟨c, r, hc⟩ := List.exists_cons_of_ne_nil hstem
    obtain ⟨c', r', hc'⟩ := List.exists_cons_of_ne_nil hne
    rw [hc, hc', isFile_iff]
    refine ⟨by simp, by simp, fun h => ?_⟩
    have hlen := congrArg List.length h
    simp at hlen
    omega
  have hslash' : '/' ∉ stem (split path.toList).2 ++ '.' :: tail := by
    rw [List.mem_append, List.mem_cons, not_or, not_or]
    exact ⟨fun h => slash_not_mem_file _ (mem_of_mem_stem h), by decide, hslash⟩
  refine ⟨?_, hfile⟩
  rw [← split_append path.toList hfile hslash']
  simp [nodeBase]

/-- The temporary file of a node: what follows the last dot is replaced. -/
theorem toList_temporary_nodePath (hp : isFile (split path.toList).2 = true) (hid : PlainId id) :
    (Disk.temporary (nodePath path id)).toList =
      nodeBase path ++ (upToLast '.' (nodeTail path id) ++ Disk.temporaryExtension.toList) := by
  obtain ⟨hsplit, hfile⟩ :=
    split_nodeBase_append hp (nodeTail_ne_nil hid) (slash_not_mem_nodeTail hp hid)
  have hstem := stem_ne_nil (isFile_iff.1 hp).1
  rw [← toList_nodePath hp hid] at hsplit
  unfold Disk.temporary
  rw [withExtension_eq (by rw [hsplit]; exact hfile) (by decide), hsplit]
  -- the stem of the snapshot ends where the tail has its own last dot
  simp only
  rw [List.append_cons, List.append_assoc _ (stem _), stem_append_tail hstem]
  simp [nodeBase]

/-- **All files of a node are beside the configured path.** -/
theorem split_of_mem_filesOf (hp : isFile (split path.toList).2 = true) (hid : PlainId id)
    {f : String} (hf : f ∈ Disk.filesOf (nodePath path id)) :
    (split f.toList).1 = (split path.toList).1 ∧ isFile (split f.toList).2 = true := by
  have hslash := slash_not_mem_nodeTail hp hid
  obtain ⟨tail, hne, hslash', hf'⟩ : ∃ tail, tail ≠ [] ∧ '/' ∉ tail ∧
      f.toList = nodeBase path ++ tail := by
    unfold Disk.filesOf at hf
    rw [List.mem_cons, List.mem_singleton] at hf
    rcases hf with hf | hf
    · rw [hf]
      exact ⟨_, nodeTail_ne_nil hid, hslash, toList_nodePath hp hid⟩
    · rw [hf]
      refine ⟨_, ?_, ?_, toList_temporary_nodePath hp hid⟩
      · simp [Disk.temporaryExtension]
      · rw [← upToLast_append_afterLast '.' (nodeTail path id), List.mem_append, not_or] at hslash
        rw [List.mem_append, not_or]
        exact ⟨hslash.1, by simp [Disk.temporaryExtension]⟩
  obtain ⟨hsplit, hfile⟩ := split_nodeBase_append hp hne hslash'
  rw [hf', hsplit]
  exact ⟨rfl, hfile⟩

/-- **Two nodes have different files** just if their tails differ up to the last dot, and neither
tail ends like a temporary file. -/
theorem apart_iff_tails (hp : isFile (split path.toList).2 = true) (hs : PlainId s)
    (ht : PlainId t) : Disk.Apart (nodePath path s) (nodePath path t) ↔
      upToLast '.' (nodeTail path s) ≠ upToLast '.' (nodeTail path t) ∧
        afterLast '.' (nodeTail path s) ≠ Disk.temporaryExtension.toList ∧
        afterLast '.' (nodeTail path t) ≠ Disk.temporaryExtension.toList := by
  have htmp : '.' ∉ Disk.temporaryExtension.toList := by simp [Disk.temporaryExtension]
  -- each path is cut at its last dot
  have hpath : ∀ {id}, PlainId id → (nodePath path id).toList =
      nodeBase path ++ (upToLast '.' (nodeTail path id) ++ afterLast '.' (nodeTail path id)) := by
    intro id hid
    rw [upToLast_append_afterLast, toList_nodePath hp hid]
  have hcut : ∀ (l m : List Char) {x y : List Char}, '.' ∉ x → '.' ∉ y →
      (nodeBase path ++ (upToLast '.' l ++ x) = nodeBase path ++ (upToLast '.' m ++ y) ↔
        upToLast '.' l = upToLast '.' m ∧ x = y) := by
    intro l m x y hx hy
    rw [List.append_right_inj, upToLast_append_inj hx hy]
  have hafter := not_mem_afterLast '.' (nodeTail path s)
  have hafter' := not_mem_afterLast '.' (nodeTail path t)
  unfold Disk.Apart Disk.filesOf
  simp only [List.cons_append, List.nil_append, List.nodup_cons, List.mem_cons, List.not_mem_nil,
    or_false, not_false_eq_true, and_true, List.nodup_nil, not_or, ← String.toList_inj,
    toList_temporary_nodePath hp hs, toList_temporary_nodePath hp ht, hpath hs, hpath ht]
  -- the six pairs among the four files
  rw [hcut _ _ hafter htmp, hcut _ _ hafter hafter', hcut _ _ hafter htmp, hcut _ _ htmp hafter',
    hcut _ _ htmp htmp, hcut _ _ hafter' htmp]
  constructor
  · rintro ⟨⟨hown, -, -⟩, ⟨-, htemp⟩, hown'⟩
    exact ⟨fun h => htemp ⟨h, rfl⟩, fun h => hown ⟨rfl, h⟩, fun h => hown' ⟨rfl, h⟩⟩
  · rintro ⟨hne, hown, hown'⟩
    exact ⟨⟨fun h => hown h.2, fun h => hne h.1, fun h => hne h.1⟩,
      ⟨fun h => hne h.1, fun h => hne h.1⟩, fun h => hown' h.2⟩

/-- Whether a path keeps the files of two nodes apart: its extension is not the temporary one, and
if it has none, neither do the names of the nodes have it or agree up to their last dot. -/
def TellsApart (path s t : String) : Prop :=
  extension? path ≠ some Disk.temporaryExtension.toList ∧
    (extension? path = none →
      upToLast '.' s.toList ≠ upToLast '.' t.toList ∧
        afterLast '.' s.toList ≠ Disk.temporaryExtension.toList ∧
        afterLast '.' t.toList ≠ Disk.temporaryExtension.toList)

instance (path s t : String) : Decidable (TellsApart path s t) :=
  inferInstanceAs (Decidable (_ ∧ (_ → _)))

theorem tellsApart_iff_tails (hp : isFile (split path.toList).2 = true) (hne : s ≠ t) :
    TellsApart path s t ↔
      upToLast '.' (nodeTail path s) ≠ upToLast '.' (nodeTail path t) ∧
        afterLast '.' (nodeTail path s) ≠ Disk.temporaryExtension.toList ∧
        afterLast '.' (nodeTail path t) ≠ Disk.temporaryExtension.toList := by
  unfold TellsApart nodeTail
  rcases extension?_cases hp with ⟨h, -⟩ | ⟨e, h, hdot, -⟩
  · rw [h]
    simp only [List.append_nil]
    exact ⟨fun h => h.2 trivial, fun h => ⟨nofun, fun _ => h⟩⟩
  · -- the names of the nodes are not touched
    have hids : s.toList ++ ['.'] ≠ t.toList ++ ['.'] := fun h =>
      hne (String.toList_inj.1 (List.append_cancel_right h))
    simp only [h, upToLast_append hdot, afterLast_append hdot]
    exact ⟨fun he => ⟨hids, fun h => he.1 (congrArg some h), fun h => he.1 (congrArg some h)⟩,
      fun he => ⟨fun h => he.2.1 (Option.some.inj h), nofun⟩⟩

theorem nodePath_injective (hp : isFile (split path.toList).2 = true) (hs : PlainId s)
    (ht : PlainId t) (h : nodePath path s = nodePath path t) : s = t := by
  have h1 := congrArg String.toList h
  rw [toList_nodePath hp hs, toList_nodePath hp ht] at h1
  exact String.toList_inj.1 (List.append_cancel_right (List.append_cancel_left h1))

/-- **The files of two nodes in one process.** Their snapshots are different files beside the
configured one, and so are the files these are written to first. All four are different just if the
path tells them apart, and then neither node disturbs what the other keeps, however the parts of
their saving follow each other. -/
theorem apart_iff (st : Settings) (hrole : st.node.role = .standalone)
    (hpath : st.resolver.storePath = some path) (hfile : (fileName? path).isSome) (hs : PlainId s)
    (ht : PlainId t) (hne : s ≠ t) :
    ∃ p q, st.storePath? s = some p ∧ st.storePath? t = some q ∧ p ≠ q ∧
      (∀ f ∈ Disk.filesOf p ++ Disk.filesOf q,
        (fileName? f).isSome ∧ (split f.toList).1 = (split path.toList).1) ∧
      (Disk.Apart p q ↔ TellsApart path s t) ∧
      (TellsApart path s t → Disk.Undisturbed p q ∧ Disk.Undisturbed q p ∧
        ∀ d table, (Disk.save d q table).2.load p = d.load p ∧
          (Disk.save d p table).2.load q = d.load q) := by
  have hstore : ∀ id, st.storePath? id = some (nodePath path id) := by
    intro id
    unfold storePath?
    rw [hpath, Option.map_some, if_pos hrole]
  have hp : isFile (split path.toList).2 = true := isSome_fileName?.1 hfile
  have hapart : Disk.Apart (nodePath path s) (nodePath path t) ↔ TellsApart path s t :=
    (apart_iff_tails hp hs ht).trans (tellsApart_iff_tails hp hne).symm
  refine ⟨_, _, hstore s, hstore t, fun h => hne (nodePath_injective hp hs ht h), ?_, hapart, ?_⟩
  · intro f hf
    rw [isSome_fileName?]
    rcases List.mem_append.1 hf with hf | hf
    · exact (split_of_mem_filesOf hp hs hf).symm
    · exact (split_of_mem_filesOf hp ht hf).symm
  · intro htells
    have h := hapart.2 htells
    exact ⟨h.undisturbed, h.symm.undisturbed,
      fun d table => ⟨h.load_save d table, h.symm.load_save d table⟩⟩

/-- A process with two nodes. The identity of one is the extension of a temporary file. -/
def twoNodes (path : String) : Settings :=
  { default with
    resolver := { default.resolver with storePath := some path }
    ledger := { default.ledger with servers := ["ns1", "tmp"] } }

/-- With an extension the files of the two nodes are different ones. -/
theorem apart_iff_twoNodes :
    (twoNodes "/var/lib/store.json").storePath? "ns1" = some "/var/lib/store.ns1.json" ∧
      (twoNodes "/var/lib/store.json").storePath? "tmp" = some "/var/lib/store.tmp.json" ∧
      Disk.Apart "/var/lib/store.ns1.json" "/var/lib/store.tmp.json" ∧
      Disk.Undisturbed "/var/lib/store.ns1.json" "/var/lib/store.tmp.json" := by
  obtain ⟨p, q, hp, hq, -, -, hapart, hquiet⟩ :=
    apart_iff (twoNodes "/var/lib/store.json") rfl rfl (by decide +kernel)
      (by decide +kernel : PlainId "ns1") (by decide +kernel : PlainId "tmp") (by decide)
  have htells : TellsApart "/var/lib/store.json" "ns1" "tmp" := by decide +kernel
  have hns1 : (twoNodes "/var/lib/store.json").storePath? "ns1" =
      some "/var/lib/store.ns1.json" := by decide +kernel
  have htmp : (twoNodes "/var/lib/store.json").storePath? "tmp" =
      some "/var/lib/store.tmp.json" := by decide +kernel
  obtain rfl := Option.some.inj (hp.symm.trans hns1)
  obtain rfl := Option.some.inj (hq.symm.trans htmp)
  exact ⟨hns1, htmp, hapart.2 htells, (hquiet htells).1⟩

/-- The directory after the two nodes have each saved a table under a path without extension. -/
def bothSaved (table table' : Table) : Disk :=
  ((Disk.empty.save "store.tmp" table).2.save "store.ns1" table').2

/-- Without an extension they are not: what one node writes first is the snapshot of the other, and
that is gone when the file gets its name. -/
theorem not_apart_bare :
    (twoNodes "store").validate = .ok () ∧ PlainId "ns1" ∧ PlainId "tmp" ∧
      (twoNodes "store").storePath? "ns1" = some "store.ns1" ∧
      (twoNodes "store").storePath? "tmp" = some "store.tmp" ∧
      Disk.temporary "store.ns1" = "store.tmp" ∧ ¬ Disk.Apart "store.ns1" "store.tmp" ∧
      (bothSaved (.ofList [(Key.zoneMarker "example.com.", [])]) .empty).files.get? "store.tmp" =
        none := by
  decide +kernel

end ZoneRelay.Settings
