import ZoneRelay.Instant.Text
import ZoneRelay.Proofs.Text.Blank
import ZoneRelay.Proofs.Text.Numeral

/-!
# Instants read back

`parse?_render`: reading the text of an instant gives that instant, for every year there is, with
any fraction of a second and in a leap second.
-/

namespace ZoneRelay.Instant

open Text

/-- Digits are read up to their end, if the width or another character stops the reader there. -/
theorem digits?_append {w : ℕ} {ds r : List Char} (hne : ds ≠ []) (hd : ∀ c ∈ ds, c.isDigit)
    (hw : ds.length ≤ w) (hr : (r.take (w - ds.length)).takeWhile Char.isDigit = []) :
    digits? w (ds ++ r) = some (Nat.ofDigitChars 10 ds 0, r) := by
  have h1 : ((ds ++ r).take w).takeWhile Char.isDigit = ds := by
    rw [List.take_append, List.take_of_length_le hw, List.takeWhile_append_of_pos hd, hr,
      List.append_nil]
  unfold digits?
  simp only [h1, ofDigits?_eq hne hd, Option.bind_eq_bind, Option.bind_some, List.drop_left]

theorem trimStart_digits {ds r : List Char} (hne : ds ≠ []) (hd : ∀ c ∈ ds, c.isDigit) :
    trimStart (ds ++ r) = ds ++ r := by
  cases ds with
  | nil => exact absurd rfl hne
  | cons c ds => exact trimStart_cons (isBlank_of_isDigit (hd c List.mem_cons_self))

theorem pair?_padded {n : ℕ} (h : n < 100) (r : List Char) :
    pair? (padded 2 n ++ r) = some (n, r) := by
  have h1 : (padded 2 n).length = 2 := length_padded (by decide) h
  unfold pair?
  rw [trimStart_digits (padded_ne_nil 2 n) (padded_isDigit 2 n),
    digits?_append (padded_ne_nil 2 n) (padded_isDigit 2 n) (by omega) (by simp [h1]),
    ofDigitChars_padded]

theorem separator?_cons {c : Char} (h : isBlank c = false) (r : List Char) :
    separator? c (c :: r) = some r := by
  simp [separator?, trimStart_cons h]

theorem allDigits?_padded (n : ℕ) (r : List Char) :
    allDigits? (padded 4 n ++ '-' :: r) = some (n, '-' :: r) := by
  have h1 : (('-' :: r).take ((padded 4 n ++ '-' :: r).length - (padded 4 n).length)).takeWhile
      Char.isDigit = [] := by
    simp
  unfold allDigits?
  rw [digits?_append (padded_ne_nil 4 n) (padded_isDigit 4 n) (by simp) h1, ofDigitChars_padded]

theorem year?_renderYear (y : ℤ) (r : List Char) :
    year? (renderYear y ++ '-' :: r) = some (y, '-' :: r) := by
  unfold renderYear
  split_ifs with h1 h2
  · -- four digits
    have h3 : (padded 4 y.toNat).length = 4 := length_padded (by decide) (by omega)
    have h4 := padded_isDigit 4 y.toNat
    have h5 : digits? 4 (padded 4 y.toNat ++ '-' :: r) = some (y.toNat, '-' :: r) := by
      rw [digits?_append (padded_ne_nil 4 _) h4 (by omega) (by simp [h3]), ofDigitChars_padded]
    unfold year?
    rw [trimStart_digits (padded_ne_nil 4 _) h4]
    cases hds : padded 4 y.toNat with
    | nil => exact absurd hds (padded_ne_nil 4 _)
    | cons c ds =>
      have hc : c.isDigit := h4 c (by rw [hds]; exact List.mem_cons_self)
      rw [hds] at h5
      split
      · rename_i heq; simp only [List.cons_append, List.cons.injEq] at heq
        rw [heq.1] at hc; exact absurd hc (by decide)
      · rename_i heq; simp only [List.cons_append, List.cons.injEq] at heq
        rw [heq.1] at hc; exact absurd hc (by decide)
      · rw [h5]
        simp only [Option.map_some, Option.some.injEq, Prod.mk.injEq, and_true]
        omega
  · have h3 : -(y.natAbs : ℤ) = y := by omega
    simp only [List.cons_append, year?, trimStart_cons (show isBlank '-' = false by decide),
      allDigits?_padded, Option.map_some, h3]
  · have h3 : (y.natAbs : ℤ) = y := by omega
    simp only [List.cons_append, year?, trimStart_cons (show isBlank '+' = false by decide),
      allDigits?_padded, Option.map_some, h3]

theorem fraction?_digits {w n : ℕ} (hw : 0 < w) (hw9 : w ≤ 9) (hn : n < 10 ^ w) :
    fraction? ('.' :: (padded w n ++ ['Z'])) = some (n * 10 ^ (9 - w), ['Z']) := by
  have h1 := length_padded hw hn
  have h2 : ((padded w n ++ ['Z']).take 9).takeWhile Char.isDigit = padded w n := by
    rw [List.take_append, List.take_of_length_le (by omega),
      List.takeWhile_append_of_pos (padded_isDigit w n)]
    have h3 : (['Z'].take (9 - (padded w n).length)).takeWhile Char.isDigit = [] := by
      cases 9 - (padded w n).length <;> simp
    rw [h3, List.append_nil]
  have h4 : (padded w n ++ ['Z']).dropWhile Char.isDigit = ['Z'] := by
    rw [List.dropWhile_append_of_pos (padded_isDigit w n)]
    decide
  simp [fraction?, h2, h4, ofDigits?_padded, h1]

theorem fraction?_renderFraction {nano : ℕ} (h : nano < 1_000_000_000) :
    fraction? (renderFraction nano ++ ['Z']) = some (nano, ['Z']) := by
  unfold renderFraction
  split_ifs with h0 h6 h3
  · subst h0; rfl
  · have h1 : nano / 1_000_000 * 10 ^ (9 - 3) = nano := by omega
    rw [List.cons_append, fraction?_digits (by decide) (by decide) (by omega), h1]
  · have h1 : nano / 1_000 * 10 ^ (9 - 6) = nano := by omega
    rw [List.cons_append, fraction?_digits (by decide) (by decide) (by omega), h1]
  · rw [List.cons_append, fraction?_digits (by decide) (by decide) (by omega)]
    simp

/-- What validity says, field by field. -/
theorem isValid_bounds {c : Civil} (h : c.isValid) :
    c.month < 100 ∧ c.day < 100 ∧ c.hour < 24 ∧ c.minute < 60 ∧ c.second < 60 ∧
      (c.nano < 1_000_000_000 ∨ c.second = 59 ∧ c.nano < 2_000_000_000) := by
  simp only [Civil.isValid, Bool.and_eq_true, Bool.or_eq_true, decide_eq_true_eq,
    beq_iff_eq] at h
  obtain ⟨⟨⟨⟨⟨⟨⟨-, -⟩, h1⟩, h2⟩, h3⟩, h4⟩, h5⟩, h6⟩ := h
  have h7 : c.month ≤ 12 ∧ Civil.daysIn c.year c.month ≤ 31 := by
    unfold Civil.daysIn at h2 ⊢
    split at h2 <;> (try split at h2) <;> simp_all
  exact ⟨by omega, by omega, h3, h4, h5, h6⟩

theorem earlier_zero {c : Civil} (h : c.isValid) : c.earlier 0 = c := by
  obtain ⟨-, -, h3, h4, -, -⟩ := isValid_bounds h
  unfold Civil.earlier
  simp only [Int.sub_zero]
  rw [if_neg (by omega), if_neg (by omega)]
  have h5 : (60 * c.hour + c.minute) / 60 = c.hour := by omega
  have h6 : (60 * c.hour + c.minute) % 60 = c.minute := by omega
  simp only [Civil.atMinute, Int.toNat_natCast, h5, h6]

/-- Date and time fields, once written, are read back; the second 60 is a leap second. -/
theorem fields?_written {y : ℤ} {mo d h mi s n : ℕ} (h1 : mo < 100) (h2 : d < 100) (h3 : h < 100)
    (h4 : mi < 100) (h5 : s < 100) (h6 : n < 1_000_000_000) :
    fields? (renderYear y ++ '-' :: (padded 2 mo ++ '-' :: (padded 2 d ++ 'T' :: (padded 2 h ++
      ':' :: (padded 2 mi ++ ':' :: (padded 2 s ++ (renderFraction n ++ ['Z']))))))) =
      some (if s = 60 then ⟨y, mo, d, h, mi, 59, n + 1_000_000_000⟩
        else ⟨y, mo, d, h, mi, s, n⟩, 0) := by
  have hd : ∀ r, separator? '-' ('-' :: r) = some r := separator?_cons (by decide)
  have hc : ∀ r, separator? ':' (':' :: r) = some r := separator?_cons (by decide)
  have ht : ∀ r, between? ('T' :: r) = some r := fun r => rfl
  have hz : offset? (trimStart ['Z']) = some (0, []) := by decide
  have he : trimStart [] = [] := rfl
  -- one reader after the other, each leaving what follows
  refine Option.bind_eq_some_iff.2 ⟨_, year?_renderYear y _, ?_⟩
  refine Option.bind_eq_some_iff.2 ⟨_, hd _, ?_⟩
  refine Option.bind_eq_some_iff.2 ⟨_, pair?_padded h1 _, ?_⟩
  refine Option.bind_eq_some_iff.2 ⟨_, hd _, ?_⟩
  refine Option.bind_eq_some_iff.2 ⟨_, pair?_padded h2 _, ?_⟩
  refine Option.bind_eq_some_iff.2 ⟨_, ht _, ?_⟩
  refine Option.bind_eq_some_iff.2 ⟨_, pair?_padded h3 _, ?_⟩
  refine Option.bind_eq_some_iff.2 ⟨_, hc _, ?_⟩
  refine Option.bind_eq_some_iff.2 ⟨_, pair?_padded h4 _, ?_⟩
  refine Option.bind_eq_some_iff.2 ⟨_, hc _, ?_⟩
  refine Option.bind_eq_some_iff.2 ⟨_, pair?_padded h5 _, ?_⟩
  refine Option.bind_eq_some_iff.2 ⟨_, fraction?_renderFraction h6, ?_⟩
  refine Option.bind_eq_some_iff.2 ⟨_, hz, ?_⟩
  by_cases h7 : s = 60 <;> simp [he, h7]

/-- Reading the fields of an instant's text gives them back, with no offset. -/
theorem fields?_render (t : Instant) : fields? t.render.toList = some (t.civil, 0) := by
  obtain ⟨c, hv⟩ := t
  obtain ⟨h1, h2, h3, h4, h5, h6⟩ := isValid_bounds hv
  unfold render
  simp only [String.toList_ofList, List.append_assoc, List.cons_append]
  -- the second that is written is 60 in a leap second
  by_cases hl : 1_000_000_000 ≤ c.nano
  · obtain ⟨h7, h8⟩ : c.second = 59 ∧ c.nano < 2_000_000_000 := by omega
    have h9 : c.nano - 1_000_000_000 + 1_000_000_000 = c.nano := by omega
    rw [if_pos hl, if_pos hl, fields?_written h1 h2 (by omega) (by omega) (by omega) (by omega),
      if_pos (by omega), h9, ← h7]
  · rw [if_neg hl, if_neg hl, fields?_written h1 h2 (by omega) (by omega) (by omega) (by omega),
      if_neg (by omega)]

/-- **Reading undoes writing.** -/
theorem parse?_render (t : Instant) : parse? t.render = some t := by
  simp [parse?, fields?_render, t.valid, earlier_zero t.valid, ofCivil?]

end ZoneRelay.Instant
