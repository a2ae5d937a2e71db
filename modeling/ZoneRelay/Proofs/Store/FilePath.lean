import ZoneRelay.Proofs.Text.Cut
import ZoneRelay.Store.FilePath

/-!
# Paths taken apart

* `split_eq`: a path is cut at its last slash; `split_append`: a folder and a file name are what
  their path is split into.
* `extension?_cases`: what the last dot of a file name makes of it.
* `withExtension_eq`: another extension takes the place of what follows the last dot.
-/

namespace ZoneRelay.FilePath

open Text

variable {folder file m tail : List Char} {path extension : String}

/-! ## Folders and file names -/

theorem isFile_iff : isFile file = true ↔ file ≠ [] ∧ file ≠ ['.'] ∧ file ≠ ['.', '.'] := by
  unfold isFile
  simp [and_assoc]

theorem isSome_fileName? : (fileName? path).isSome ↔ isFile (split path.toList).2 = true := by
  unfold fileName?
  simp only
  split_ifs with h <;> simp [h]

/-- A file name is not cut off, for it ends neither with a slash nor with a dot after one. -/
theorem bare_append (h : isFile file = true) (hs : '/' ∉ file) :
    bare (folder ++ file) = folder ++ file := by
  obtain ⟨hne, hdot, -⟩ := isFile_iff.1 h
  have hs' : ∀ c ∈ file.reverse, c ≠ '/' := by
    rintro c hc rfl
    exact hs (List.mem_reverse.1 hc)
  have key : bareBack (file.reverse ++ folder.reverse) = file.reverse ++ folder.reverse := by
    cases hr : file.reverse with
    | nil => exact absurd (List.reverse_eq_nil_iff.1 hr) hne
    | cons c r =>
      rw [hr, List.forall_mem_cons] at hs'
      unfold bareBack
      split
      · next heq => exact absurd (List.cons.inj heq).1 hs'.1
      · next heq =>
        obtain ⟨rfl, h2⟩ := List.cons.inj heq
        cases r with
        | nil =>
          -- the file name would be a single dot
          exact absurd (by simpa using congrArg List.reverse hr) hdot
        | cons d r => exact absurd (List.cons.inj h2).1 (hs'.2 d List.mem_cons_self)
      · rfl
  unfold bare
  rw [List.reverse_append, key, ← List.reverse_append, List.reverse_reverse]

/-- A path without what it ends with for nothing is cut at its last slash. -/
theorem split_eq (path : List Char) :
    split path = (upToLast '/' (bare path), afterLast '/' (bare path)) := by
  have hfile : ((bare path).reverse.takeWhile (· != '/')).reverse = afterLast '/' (bare path) := rfl
  unfold split
  simp only [hfile, take_sub_afterLast]

theorem slash_not_mem_file (path : List Char) : '/' ∉ (split path).2 := by
  rw [split_eq]
  exact not_mem_afterLast _ _

/-- **A folder and a file name** are what their path is split into. -/
theorem split_append (path : List Char) (h : isFile file = true) (hs : '/' ∉ file) :
    split ((split path).1 ++ file) = ((split path).1, file) := by
  rw [split_eq path]
  simp only
  have hfolder := upToLast_upToLast_append (l := bare path) hs
  have hcut := upToLast_append_afterLast '/' (upToLast '/' (bare path) ++ file)
  rw [hfolder] at hcut
  rw [split_eq, bare_append h hs, hfolder, List.append_cancel_left hcut]

/-! ## Extensions -/

theorem stem_eq (file : List Char) : stem file =
    if (upToLast '.' file).dropLast = [] then file else (upToLast '.' file).dropLast := by
  have hafter : (file.reverse.takeWhile (· != '.')).length = (afterLast '.' file).length :=
    List.length_reverse.symm
  have hbefore : file.take (file.length - (afterLast '.' file).length - 1) =
      (upToLast '.' file).dropLast := by
    rw [← take_sub_afterLast, List.dropLast_eq_take, List.take_take, List.length_take]
    congr 1
    omega
  unfold stem
  simp only [hafter, hbefore, List.isEmpty_iff]

theorem stem_ne_nil (h : file ≠ []) : stem file ≠ [] := by
  rw [stem_eq]
  split_ifs with h1
  · exact h
  · exact h1

/-- A file name is cut at its last dot, if there is something in front of it. -/
theorem stem_append (hm : m ≠ []) (ht : '.' ∉ tail) : stem (m ++ '.' :: tail) = m := by
  rw [stem_eq, upToLast_append ht, List.dropLast_concat, if_neg hm]

/-- So what follows a stem and a dot is cut at its own last dot, if it has one. -/
theorem stem_append_tail (hm : m ≠ []) (tail : List Char) :
    stem (m ++ '.' :: tail) ++ ['.'] = m ++ '.' :: upToLast '.' tail := by
  have hcut := upToLast_append_afterLast '.' tail
  have hafter := not_mem_afterLast '.' tail
  rcases upToLast_cases '.' tail with h | ⟨x, h⟩
  · rw [h, List.nil_append] at hcut
    rw [h, stem_append hm (hcut ▸ hafter)]
  · rw [h, List.append_assoc, List.singleton_append] at hcut
    have hassoc : m ++ '.' :: tail = (m ++ '.' :: x) ++ '.' :: afterLast '.' tail := by
      conv_lhs => rw [← hcut]
      simp
    rw [hassoc, stem_append (by simp) hafter, h, List.append_assoc, List.cons_append]

theorem mem_of_mem_stem {c : Char} (h : c ∈ stem file) : c ∈ file := by
  rw [stem_eq] at h
  split_ifs at h
  · exact h
  · exact (List.rdropWhile_prefix _ file).subset (List.dropLast_subset _ h)

/-- **What the last dot makes of a file name**: it has no extension, and then it is all stem and any
dot is in front; or it is a stem, a dot and the extension. -/
theorem extension?_cases (h : isFile (split path.toList).2 = true) :
    extension? path = none ∧ stem (split path.toList).2 = (split path.toList).2 ∨
      ∃ e, extension? path = some e ∧ '.' ∉ e ∧
        (split path.toList).2 = stem (split path.toList).2 ++ '.' :: e := by
  have hname : fileName? path = some (split path.toList).2 := by
    unfold fileName?
    rw [if_pos h]
  unfold extension?
  rw [hname]
  generalize (split path.toList).2 = file
  simp only
  by_cases hm : (upToLast '.' file).dropLast = []
  · have hstem : stem file = file := by rw [stem_eq, if_pos hm]
    exact Or.inl ⟨by rw [hstem, if_pos rfl], hstem⟩
  · -- there is a dot with something in front of it
    obtain ⟨x, hx⟩ := (upToLast_cases '.' file).resolve_left fun h1 => hm (by rw [h1]; rfl)
    have hstem : stem file = x := by rw [stem_eq, if_neg hm, hx, List.dropLast_concat]
    have hcut := upToLast_append_afterLast '.' file
    rw [hx, List.append_assoc, List.singleton_append] at hcut
    refine Or.inr ⟨afterLast '.' file, ?_, not_mem_afterLast _ _, by rw [hstem, hcut]⟩
    rw [hstem]
    conv_lhs => rw [← hcut]
    rw [if_neg (by simp), List.drop_append]
    simp

/-- Another extension goes after the stem. -/
theorem withExtension_eq (h : isFile (split path.toList).2 = true) (he : extension ≠ "") :
    (withExtension path extension).toList =
      (split path.toList).1 ++ stem (split path.toList).2 ++ '.' :: extension.toList := by
  have he' : extension.isEmpty = false := by simpa using he
  unfold withExtension
  simp only [h, if_true, he', Bool.false_eq_true, if_false, String.toList_ofList]

end ZoneRelay.FilePath
