import ZoneRelay.Address.IPv6
import ZoneRelay.Proofs.Address.IPv4

/-!
# IPv6 addresses read back

The text of an address leaves out a run of zeros, or ends with an IPv4 address. Either way a reader
finds all eight groups again.

* `longestZeros_spec`: what is left out is zeros.
* `readGroups_render`: groups are read back up to where their text ends.
* `IPv6.parse?_render`: an address is read back.
-/

namespace ZoneRelay

namespace Address

open Text

variable {a : UInt8} {c : Char} {r s : List Char}

/-! ## Groups -/

theorem isHexDigit_of_mem_hexLower {n : ℕ} (h : c ∈ hexLower n) : isHexDigit c = true := by
  obtain ⟨d, hd, rfl⟩ := mem_toDigits (by decide) h
  have key : ∀ d < 16, isHexDigit (Nat.digitChar d) = true := by decide
  exact key d hd

/-- **A group is read back**, if no digit follows. -/
theorem group?_hexLower (g : UInt16) (hr : ∀ c ∈ r.head?, isHexDigit c = false) :
    group? (hexLower g.toNat ++ r) = some (g, r) := by
  have hdigits : ∀ c ∈ hexLower g.toNat, isHexDigit c = true := fun _ => isHexDigit_of_mem_hexLower
  obtain ⟨h1, h2⟩ := span_append hdigits hr
  have h3 : valueOf 16 (hexLower g.toNat) = g.toNat := valueOf_toDigits (by decide) le_rfl _
  have hlt := g.toNat_lt
  have hlen : (hexLower g.toNat).length ≤ 4 := Nat.toDigits_length 16 _ 4 (by decide) (by omega)
  have hne : hexLower g.toNat ≠ [] := Nat.toDigits_ne_nil
  unfold group?
  simp only [h1, h2, h3]
  rw [if_neg, UInt16.ofNat_toNat]
  simp only [Bool.or_eq_true, decide_eq_true_eq, List.isEmpty_iff, not_or]
  exact ⟨hne, by omega⟩

theorem group?_of_head (h : ∀ c ∈ r.head?, isHexDigit c = false) : group? r = none := by
  have h1 : r.takeWhile isHexDigit = [] := by
    cases r with
    | nil => rfl
    | cons c r => exact List.takeWhile_cons_of_neg (by simp [h c rfl])
  unfold group?
  rw [h1]
  rfl

theorem char?_of_not_mem (h : c ∉ r) : char? c r = none := by
  cases r with
  | nil => rfl
  | cons d r =>
    rw [char?, if_neg]
    rintro rfl
    exact h List.mem_cons_self

theorem octet?_suffix (h : octet? s = some (a, r)) : r <:+ s := by
  unfold octet? at h
  simp only at h
  split at h
  · cases h
  · obtain ⟨-, rfl⟩ := Prod.mk.inj (Option.some.inj h)
    exact List.dropWhile_suffix _

end Address

namespace IPv4

open Address

variable {r : List Char}

/-- No address is read where a dot does not follow. -/
theorem read?_of_no_dot (h : '.' ∉ r) : read? r = none := by
  unfold read?
  cases ho : octet? r with
  | none => rfl
  | some x =>
    obtain ⟨a, s⟩ := x
    have h1 : char? '.' s = none := char?_of_not_mem fun h2 => h ((octet?_suffix ho).mem h2)
    simp only [Option.bind_eq_bind, Option.bind_some, h1, Option.bind_none]

/-- No address is read where no digit follows. -/
theorem read?_of_head (h : ∀ c ∈ r.head?, c.isDigit = false) : read? r = none := by
  unfold read?
  rw [octet?_of_head h]
  rfl

end IPv4

namespace IPv6

open Address Text

variable {room : ℕ} {g : UInt16} {gs : List UInt16} {c : Char} {r s : List Char}
  {ip : IPv6} {v4 : IPv4}

/-! ## A row of groups -/

theorem readGroups_stop (isFirst : Bool) (h4 : separated? isFirst IPv4.read? s = none)
    (hg : separated? isFirst group? s = none) (room : ℕ) :
    readGroups isFirst room s = ([], false, s) := by
  cases room with
  | zero => rfl
  | succ room => simp only [readGroups, h4, ite_self, hg]

theorem readGroups_step (isFirst : Bool) (h4 : separated? isFirst IPv4.read? s = none)
    (hg : separated? isFirst group? s = some (g, r)) (room : ℕ) :
    readGroups isFirst (room + 1) s =
      (g :: (readGroups false room r).1, (readGroups false room r).2) := by
  simp only [readGroups, h4, ite_self, hg]

/-- Groups with a colon before each. -/
def further (gs : List UInt16) : List Char :=
  gs.flatMap fun g => ':' :: hexLower g.toNat

theorem renderGroups_cons (g : UInt16) (gs : List UInt16) :
    renderGroups (g :: gs) = hexLower g.toNat ++ further gs := by
  induction gs generalizing g with
  | nil => simp [renderGroups, further]
  | cons h gs ih => rw [renderGroups, ih]; rfl

/-- What ends a row of groups: nothing, or two colons. -/
structure Closes (r : List Char) : Prop where
  colons : r = [] ∨ ∃ s, r = ':' :: ':' :: s
  plain : '.' ∉ r

theorem closes_nil : Closes [] :=
  ⟨Or.inl rfl, List.not_mem_nil⟩

theorem colon_ends (h : c ∈ (':' :: s).head?) : c.isDigit = false ∧ isHexDigit c = false := by
  obtain rfl : ':' = c := by simpa using h
  decide

theorem Closes.head (h : Closes r) : ∀ c ∈ r.head?, isHexDigit c = false := by
  intro c hc
  rcases h.colons with rfl | ⟨s, rfl⟩
  · cases hc
  · exact (colon_ends hc).2

/-- Neither a group nor an IPv4 address starts with a colon. -/
theorem reads_colon (s : List Char) : IPv4.read? (':' :: s) = none ∧ group? (':' :: s) = none :=
  ⟨IPv4.read?_of_head fun _ hc => (colon_ends hc).1, group?_of_head fun _ hc => (colon_ends hc).2⟩

/-- Neither of them is read where a row ends. -/
theorem Closes.stop (h : Closes r) (isFirst : Bool) :
    separated? isFirst IPv4.read? r = none ∧ separated? isFirst group? r = none := by
  rcases h.colons with rfl | ⟨s, rfl⟩
  · cases isFirst <;> exact ⟨rfl, rfl⟩
  · cases isFirst with
    | true => exact reads_colon (':' :: s)
    | false => exact reads_colon s

theorem further_head (gs : List UInt16) (h : Closes r) :
    ∀ c ∈ (further gs ++ r).head?, isHexDigit c = false := by
  cases gs with
  | nil => exact h.head
  | cons g gs =>
    exact fun c hc => (colon_ends (s := hexLower g.toNat ++ further gs ++ r) hc).2

theorem hexLower_plain (n : ℕ) : '.' ∉ hexLower n := fun h =>
  absurd (isHexDigit_of_mem_hexLower h) (by decide)

theorem further_plain (gs : List UInt16) : '.' ∉ further gs := by
  intro h
  obtain ⟨g, -, h1⟩ := List.mem_flatMap.1 h
  rcases List.mem_cons.1 h1 with h2 | h2
  · cases h2
  · exact hexLower_plain g.toNat h2

/-- Groups with a colon before each are read back. -/
theorem readGroups_further (h : gs.length ≤ room) (hr : Closes r) :
    readGroups false room (further gs ++ r) = (gs, false, r) := by
  induction gs generalizing room with
  | nil => exact readGroups_stop false (hr.stop false).1 (hr.stop false).2 room
  | cons g gs ih =>
    cases room with
    | zero => cases h
    | succ room =>
      have hs : further (g :: gs) ++ r = ':' :: (hexLower g.toNat ++ (further gs ++ r)) := by
        simp [further]
      have hplain : '.' ∉ hexLower g.toNat ++ (further gs ++ r) := by
        simp only [List.mem_append, not_or]
        exact ⟨hexLower_plain _, further_plain gs, hr.plain⟩
      rw [hs, readGroups_step false (g := g) (r := further gs ++ r),
        ih (Nat.le_of_succ_le_succ h)]
      · simp only [separated?, Bool.false_eq_true, if_false, char?_cons, Option.bind_some]
        exact IPv4.read?_of_no_dot hplain
      · simp only [separated?, Bool.false_eq_true, if_false, char?_cons, Option.bind_some]
        exact group?_hexLower g (further_head gs hr)

/-- **Groups are read back**, up to where their text ends. -/
theorem readGroups_render (h : gs.length ≤ room) (hr : Closes r) :
    readGroups true room (renderGroups gs ++ r) = (gs, false, r) := by
  cases gs with
  | nil => exact readGroups_stop true (hr.stop true).1 (hr.stop true).2 room
  | cons g gs =>
    cases room with
    | zero => cases h
    | succ room =>
      have hplain : '.' ∉ hexLower g.toNat ++ (further gs ++ r) := by
        simp only [List.mem_append, not_or]
        exact ⟨hexLower_plain _, further_plain gs, hr.plain⟩
      rw [renderGroups_cons, List.append_assoc,
        readGroups_step true (IPv4.read?_of_no_dot hplain) (group?_hexLower g (further_head gs hr)),
        readGroups_further (Nat.le_of_succ_le_succ h) hr]

theorem renderGroups_plain (gs : List UInt16) : '.' ∉ renderGroups gs := by
  cases gs with
  | nil => exact List.not_mem_nil
  | cons g gs =>
    rw [renderGroups_cons, List.mem_append, not_or]
    exact ⟨hexLower_plain _, further_plain gs⟩

/-! ## What is left out -/

theorem zerosAhead_spec (gs : List UInt16) :
    List.replicate (zerosAhead gs) 0 ++ gs.drop (zerosAhead gs) = gs := by
  induction gs with
  | nil => rfl
  | cons g gs ih =>
    by_cases h : g = 0
    · have h1 : zerosAhead (g :: gs) = zerosAhead gs + 1 := by
        unfold zerosAhead
        rw [List.takeWhile_cons_of_pos (by simp [h]), List.length_cons]
      rw [h1, List.replicate_succ, List.drop_succ_cons, List.cons_append, ih, h]
    · have h1 : zerosAhead (g :: gs) = 0 := by
        unfold zerosAhead
        rw [List.takeWhile_cons_of_neg (by simp [h]), List.length_nil]
      rw [h1]
      rfl

/-- **What is left out of a text is zeros.** -/
theorem longestZeros_spec (gs : List UInt16) :
    gs.take (longestZeros gs).1 ++ (List.replicate (longestZeros gs).2 0 ++
      gs.drop ((longestZeros gs).1 + (longestZeros gs).2)) = gs := by
  induction gs with
  | nil => rfl
  | cons g gs ih =>
    unfold longestZeros
    simp only
    split
    · rw [List.take_zero, List.nil_append, Nat.zero_add]
      exact zerosAhead_spec (g :: gs)
    · simp only
      rw [List.take_succ_cons, Nat.add_right_comm, List.drop_succ_cons, List.cons_append, ih]

/-! ## Addresses -/

theorem ofGroups?_groups (ip : IPv6) : ofGroups? ip.groups = some ip := by
  unfold ofGroups?
  rw [dif_pos ip.eight]

/-- A text with all eight groups is read back. -/
theorem read?_whole (ip : IPv6) : read? (renderGroups ip.groups) = some (ip, []) := by
  have h : readGroups true 8 (renderGroups ip.groups ++ []) = (ip.groups, false, []) :=
    readGroups_render (by rw [ip.eight]) closes_nil
  rw [List.append_nil] at h
  unfold read?
  simp only [h, ip.eight, if_true, ofGroups?_groups, Option.map_some]

/-- A text that leaves out some groups is read back, if these are zeros. -/
theorem read?_cut {front back : List UInt16} {n : ℕ} (hn : 0 < n)
    (h : ip.groups = front ++ (List.replicate n 0 ++ back)) :
    read? (renderGroups front ++ ':' :: ':' :: renderGroups back) = some (ip, []) := by
  have h8 : front.length + (n + back.length) = 8 := by
    have h1 := ip.eight
    rwa [h, List.length_append, List.length_append, List.length_replicate] at h1
  have hr : Closes (':' :: ':' :: renderGroups back) :=
    ⟨Or.inr ⟨_, rfl⟩, by simpa using renderGroups_plain back⟩
  have h1 : readGroups true 8 (renderGroups front ++ ':' :: ':' :: renderGroups back) =
      (front, false, ':' :: ':' :: renderGroups back) := readGroups_render (by omega) hr
  have h2 : readGroups true (7 - front.length) (renderGroups back ++ []) = (back, false, []) :=
    readGroups_render (by omega) closes_nil
  rw [List.append_nil] at h2
  have h3 : 8 - front.length - back.length = n := by omega
  unfold read?
  simp only [h1, if_neg (show ¬ front.length = 8 by omega), Bool.false_eq_true, if_false,
    char?_cons, Option.bind_eq_bind, Option.bind_some, h2, h3, List.append_assoc, ← h,
    ofGroups?_groups]

theorem join_halves (x : UInt16) : (x / 256).toUInt8.toUInt16 * 256 + x.toUInt8.toUInt16 = x := by
  have h := x.toNat_lt
  rw [← UInt16.toNat_inj]
  simp
  omega

theorem groups_of_mapped (h : ip.mapped? = some v4) :
    ip.groups = List.replicate 5 0 ++ (0xFFFF :: embedded v4) := by
  unfold mapped? at h
  split at h
  · next x y hg =>
    rw [← Option.some.inj h, hg, embedded]
    simp only [join_halves]
    rfl
  · cases h

/-- A text that ends with an IPv4 address is read back. -/
theorem read?_mapped (h : ip.mapped? = some v4) :
    read? ("::ffff:".toList ++ v4.render) = some (ip, []) := by
  have htext : "::ffff:".toList ++ v4.render = ':' :: ':' :: ("ffff:".toList ++ v4.render) := rfl
  have h4 := IPv4.read?_render (r := []) v4 (by simp)
  rw [List.append_nil] at h4
  -- nothing is in front of the two colons
  obtain ⟨h1, h2⟩ := reads_colon (':' :: ("ffff:".toList ++ v4.render))
  have hfront : readGroups true 8 (':' :: ':' :: ("ffff:".toList ++ v4.render)) =
      ([], false, ':' :: ':' :: ("ffff:".toList ++ v4.render)) :=
    readGroups_stop true h1 h2 8
  have hones : group? ("ffff:".toList ++ v4.render) = some (0xFFFF, ':' :: v4.render) :=
    group?_hexLower 0xFFFF fun c hc => (colon_ends hc).2
  have hlast : readGroups false 6 (':' :: v4.render) = (embedded v4, true, []) := by
    simp only [readGroups, separated?, char?_cons, Option.bind_some, h4]
    rfl
  have hback : readGroups true 7 ("ffff:".toList ++ v4.render) =
      (0xFFFF :: embedded v4, true, []) := by
    have hletter : IPv4.read? ("ffff:".toList ++ v4.render) = none :=
      IPv4.read?_of_head (by simp)
    rw [readGroups_step true hletter hones 6, hlast]
  rw [htext]
  unfold read?
  simp only [hfront, List.length_nil, Nat.sub_zero, hback, char?_cons, Option.bind_eq_bind,
    Option.bind_some, Bool.false_eq_true, if_false, List.nil_append]
  rw [if_neg (by decide)]
  have h5 : (0xFFFF :: embedded v4).length = 3 := rfl
  rw [h5, ← groups_of_mapped h, ofGroups?_groups]
  rfl

/-- **An address is read back.** -/
theorem parse?_render (ip : IPv6) : parse? ip.render = some ip := by
  have h : read? ip.render = some (ip, []) := by
    unfold render
    split
    · next v4 h => exact read?_mapped h
    · simp only
      split
      · next hlt => exact read?_cut (by omega) (longestZeros_spec ip.groups).symm
      · exact read?_whole ip
  unfold parse?
  rw [h]

/-! ## Blanks -/

theorem solid_hexLower {n : ℕ} (h : c ∈ hexLower n) : isBlank c = false := by
  obtain ⟨d, hd, rfl⟩ := mem_toDigits (by decide) h
  have key : ∀ d < 16, isBlank (Nat.digitChar d) = false := by decide
  exact key d hd

theorem solid_renderGroups (h : c ∈ renderGroups gs) : isBlank c = false := by
  cases gs with
  | nil => cases h
  | cons g gs =>
    rw [renderGroups_cons, List.mem_append] at h
    rcases h with h | h
    · exact solid_hexLower h
    · obtain ⟨x, -, h1⟩ := List.mem_flatMap.1 h
      rcases List.mem_cons.1 h1 with rfl | h2
      · decide
      · exact solid_hexLower h2

/-- The text of an address is a word. -/
theorem isWord_render (ip : IPv6) : IsWord ip.render := by
  refine ⟨fun h => ?_, fun c hc => ?_⟩
  · have h1 := parse?_render ip
    rw [h] at h1
    cases h1
  · unfold render at hc
    split at hc
    · next v4 h =>
      have key : ("::ffff:".toList.all fun c => !isBlank c) = true := by decide
      rcases List.mem_append.1 hc with h1 | h1
      · simpa using List.all_eq_true.1 key c h1
      · exact (IPv4.isWord_render v4).solid c h1
    · simp only at hc
      split at hc
      · rcases List.mem_append.1 hc with h1 | h1
        · exact solid_renderGroups h1
        · rcases List.mem_cons.1 h1 with rfl | h1
          · decide
          · rcases List.mem_cons.1 h1 with rfl | h1
            · decide
            · exact solid_renderGroups h1
      · exact solid_renderGroups hc

end IPv6

end ZoneRelay
