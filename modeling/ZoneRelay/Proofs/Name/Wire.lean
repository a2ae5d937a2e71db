import ZoneRelay.Proofs.Name
import ZoneRelay.Text.Octets

/-!
# How long a name is in a message

In a message a name is its labels, each after an octet that gives its length, and an empty label at
the end (RFC 1035). A name is checked by the length of its normal form, which is one octet shorter.

* `wireForm`: a name as it is in a message.
* `length_wireForm`: it is one octet longer than the normal form, unless the name is the root.
* `wireForm_of_validate?`: what a name that passes the check is like in a message.
* `not_fits_oversized`: a name may pass and be too long for a message by one octet.
-/

namespace ZoneRelay.Name

open Text

variable {s m : String} {l : List Char}

/-- The octets of a label. -/
def labelSize (label : List Char) : ℕ :=
  (String.ofList label).utf8ByteSize

/-- A name as it is in a message: the labels, each after its length, and the root. -/
def wireForm (name : String) : Octets :=
  (labels name).flatMap (fun label =>
    UInt8.ofNat (labelSize label) :: Octets.ofText (String.ofList label)) ++ [0]

theorem length_ofText (s : String) : (Octets.ofText s).length = s.utf8ByteSize := by
  unfold Octets.ofText
  rw [Array.length_toList]
  exact String.size_toByteArray

theorem labelSize_append (a b : List Char) : labelSize (a ++ b) = labelSize a + labelSize b := by
  unfold labelSize
  rw [String.ofList_append, String.utf8ByteSize_append]

/-- Labels take as many octets after their lengths as they do before their dots. -/
theorem length_flatMap_labels (ls : List (List Char)) :
    (ls.flatMap fun label =>
      UInt8.ofNat (labelSize label) :: Octets.ofText (String.ofList label)).length =
      labelSize (ls.flatMap (· ++ ['.'])) := by
  induction ls with
  | nil => rfl
  | cons l ls ih =>
    have hdot : labelSize ['.'] = 1 := by decide
    have hlabel : (Octets.ofText (String.ofList l)).length = labelSize l := length_ofText _
    rw [List.flatMap_cons, List.flatMap_cons, List.length_append, ih, labelSize_append,
      labelSize_append, List.length_cons, hlabel, hdot]

/-- **The form in a message is one octet longer than the normal form**, unless the name is the
root. -/
theorem length_wireForm (s : String) :
    (wireForm s).length = if stem s = [] then 1 else (normalize s).utf8ByteSize + 1 := by
  unfold wireForm
  rw [List.length_append, length_flatMap_labels]
  unfold labels
  by_cases h : stem s = []
  · rw [if_pos h, if_pos (by simpa using h)]
    rfl
  · have hnormal : normalize s = String.ofList (stem s ++ ['.']) := by
      rw [normalize, ofStem, if_neg (by simpa using h)]
    rw [if_neg h, if_neg (by simpa using h), splitOn_flatMap, hnormal]
    rfl

theorem labels_normalize (s : String) : labels (normalize s) = labels s := by
  unfold labels
  rw [stem_normalize]

theorem wireForm_normalize (s : String) : wireForm (normalize s) = wireForm s := by
  unfold wireForm
  rw [labels_normalize]

/-- A name that passes the check is the root, or keeps the limits on its normal form. -/
theorem isLegal_of_validate? (h : validate? s = some m) :
    stem s = [] ∨ (normalize s).utf8ByteSize ≤ maxSize ∧ ∀ l ∈ labels s, isLegalLabel l := by
  unfold validate? at h
  split at h
  · next hl =>
    simpa only [isLegal, Bool.or_eq_true, List.isEmpty_iff, Bool.and_eq_true, decide_eq_true_eq,
      List.all_eq_true] using hl
  · cases h

theorem labelSize_of_isLegalLabel (h : isLegalLabel l) : 1 ≤ labelSize l ∧ labelSize l ≤ 63 := by
  unfold isLegalLabel at h
  simp only [Bool.and_eq_true, Bool.not_eq_true', List.isEmpty_eq_false_iff, decide_eq_true_eq] at h
  obtain ⟨⟨hne, hle⟩, -⟩ := h
  refine ⟨Nat.one_le_iff_ne_zero.2 fun h0 => hne ?_, hle⟩
  unfold labelSize at h0
  rw [String.utf8ByteSize_eq_zero_iff] at h0
  exact String.ofList_eq_empty_iff.1 h0

/-- **A name that passes the check** comes out in normal form and passes again, its labels have from
1 to 63 octets, and it keeps the limit of 255 octets in a message, unless its normal form already
has that many: then it is too long by one octet. -/
theorem wireForm_of_validate? (h : validate? s = some m) :
    m = normalize s ∧ validate? m = some m ∧
      (∀ l ∈ labels m, 1 ≤ labelSize l ∧ labelSize l ≤ 63) ∧
      (wireForm m).length ≤ 256 ∧ ((wireForm m).length ≤ 255 ↔ m.utf8ByteSize < 255) := by
  refine ⟨validate?_eq_some h, validate?_normal h, ?_⟩
  obtain rfl := validate?_eq_some h
  rw [labels_normalize, wireForm_normalize, length_wireForm]
  by_cases hroot : stem s = []
  · have hdot : normalize s = "." := by
      rw [normalize, hroot]
      rfl
    have hnone : labels s = [] := by
      unfold labels
      rw [if_pos (by simpa using hroot)]
    rw [if_pos hroot, hnone, hdot]
    decide
  · obtain ⟨hsize, hall⟩ := (isLegal_of_validate? h).resolve_left hroot
    have hlimit : (normalize s).utf8ByteSize ≤ 255 := hsize
    rw [if_neg hroot]
    refine ⟨fun l hl => labelSize_of_isLegalLabel (hall l hl), ?_⟩
    omega

/-- A name with blanks around it and letters in upper case. -/
theorem wireForm_of_validate?_blanks :
    validate? " WWW.Example.COM\t" = some "www.example.com." ∧
      "www.example.com." = normalize " WWW.Example.COM\t" ∧
      validate? "www.example.com." = some "www.example.com." ∧
      (∀ l ∈ labels "www.example.com.", 1 ≤ labelSize l ∧ labelSize l ≤ 63) ∧
      (wireForm "www.example.com.").length ≤ 256 ∧
      ((wireForm "www.example.com.").length ≤ 255 ↔ "www.example.com.".utf8ByteSize < 255) := by
  have h : validate? " WWW.Example.COM\t" = some "www.example.com." := by decide +kernel
  exact ⟨h, wireForm_of_validate? h⟩

/-- A label of `n` letters. -/
def letters (n : ℕ) : String :=
  String.ofList (List.replicate n 'x')

/-- A name of four labels whose normal form has 255 octets. -/
def oversized : String :=
  letters 63 ++ "." ++ letters 63 ++ "." ++ letters 63 ++ "." ++ letters 62

theorem stem_oversized : stem oversized =
    List.replicate 63 'x' ++ '.' :: (List.replicate 63 'x' ++ '.' :: (List.replicate 63 'x' ++
      '.' :: List.replicate 62 'x')) := by
  unfold stem oversized letters
  simp only [String.toList_append, String.toList_ofList]
  decide +kernel

/-- **The check lets a name through that does not fit into a message.** -/
theorem not_fits_oversized :
    ¬ ∀ m, validate? oversized = some m → m = normalize oversized ∧ validate? m = some m ∧
      (∀ l ∈ labels m, 1 ≤ labelSize l ∧ labelSize l ≤ 63) ∧ (wireForm m).length ≤ 255 := by
  intro h
  have hlegal : isLegal oversized = true := by
    unfold isLegal normalize labels
    rw [stem_oversized]
    decide +kernel
  have hsize : (normalize oversized).utf8ByteSize = 255 := by
    unfold normalize
    rw [stem_oversized]
    decide +kernel
  obtain ⟨-, -, -, hle⟩ := h _ (by rw [validate?, if_pos hlegal])
  rw [wireForm_normalize, length_wireForm, if_neg (by rw [stem_oversized]; simp), hsize] at hle
  omega

end ZoneRelay.Name
