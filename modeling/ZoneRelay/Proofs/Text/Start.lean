import Mathlib.Data.List.Lex
import Mathlib.Data.String.Basic
import ZoneRelay.Proofs.Text.Cut
import ZoneRelay.Text.Basic

/-!
# How texts start

* `strip?_append`: what follows the start of a text.
* `append_lt_append_iff`: two texts with the same start go on alike.
* `startsWith_of_between`: the texts that start alike lie together in the order of texts.
-/

namespace ZoneRelay.Text

variable {p q s t : String}

theorem startsWith_iff : startsWith p s ↔ p.toList <+: s.toList := by
  unfold startsWith
  exact List.isPrefixOf_iff_prefix

theorem startsWith_iff_append : startsWith p s ↔ ∃ t, s = p ++ t := by
  rw [startsWith_iff]
  constructor
  · rintro ⟨l, hl⟩
    refine ⟨String.ofList l, String.toList_inj.1 ?_⟩
    rw [String.toList_append, String.toList_ofList, hl]
  · rintro ⟨t, rfl⟩
    exact ⟨t.toList, String.toList_append.symm⟩

theorem startsWith_append (p t : String) : startsWith p (p ++ t) :=
  startsWith_iff_append.2 ⟨t, rfl⟩

theorem strip?_append (p t : String) : strip? p (p ++ t) = some t := by
  unfold strip?
  rw [if_pos (startsWith_append p t), String.toList_append, List.drop_left', String.ofList_toList]
  rfl

theorem strip?_eq_some (h : strip? p s = some t) : s = p ++ t := by
  unfold strip? at h
  split at h
  · next h1 =>
    obtain ⟨u, rfl⟩ := startsWith_iff_append.1 h1
    have h2 := strip?_append p u
    unfold strip? at h2
    rw [if_pos h1, h] at h2
    rw [Option.some.inj h2]
  · cases h

theorem append_inj_right (h : p ++ s = p ++ t) : s = t := by
  have h1 := congrArg String.toList h
  rw [String.toList_append, String.toList_append] at h1
  exact String.toList_inj.1 (List.append_cancel_left h1)

theorem append_inj_left (h : s ++ p = t ++ p) : s = t := by
  have h1 := congrArg String.toList h
  rw [String.toList_append, String.toList_append] at h1
  exact String.toList_inj.1 (List.append_cancel_right h1)

/-- Equal texts with ends of the same length have equal ends. -/
theorem append_inj_of_length (h : p ++ s = q ++ t) (hl : s.toList.length = t.toList.length) :
    p = q ∧ s = t := by
  have h1 := congrArg String.toList h
  rw [String.toList_append, String.toList_append] at h1
  obtain ⟨h2, h3⟩ := List.append_inj' h1 hl
  exact ⟨String.toList_inj.1 h2, String.toList_inj.1 h3⟩

/-- What stands before the first slash. -/
theorem takeWhile_slash {l r : List Char} (h : '/' ∉ l) :
    (l ++ '/' :: r).takeWhile (· != '/') = l := by
  have h1 : ∀ c ∈ l, (c != '/') = true := by
    intro c hc
    rw [bne_iff_ne]
    rintro rfl
    exact h hc
  rw [List.takeWhile_append_of_pos h1, List.takeWhile_cons_of_neg (by decide), List.append_nil]

/-- Equal texts are cut alike at their first slash. -/
theorem append_inj_of_first_slash (h : p ++ "/" ++ s = q ++ "/" ++ t) (hp : '/' ∉ p.toList)
    (hq : '/' ∉ q.toList) : p = q ∧ s = t := by
  have front : ∀ a b : String, '/' ∉ a.toList →
      (a ++ "/" ++ b).toList.takeWhile (· != '/') = a.toList := by
    intro a b ha
    rw [String.append_assoc, String.toList_append, String.toList_append]
    exact takeWhile_slash ha
  have h1 := front p s hp
  rw [h, front q t hq] at h1
  obtain rfl := String.toList_inj.1 h1
  exact ⟨rfl, append_inj_right h⟩

/-- Equal texts are cut alike at their last slash. -/
theorem append_inj_of_slash (h : p ++ "/" ++ s = q ++ "/" ++ t) (hs : '/' ∉ s.toList)
    (ht : '/' ∉ t.toList) : p = q ∧ s = t := by
  have hlist : p.toList ++ '/' :: s.toList = q.toList ++ '/' :: t.toList := by
    have h1 := congrArg String.toList h
    simpa using h1
  have hfront := congrArg (upToLast '/') hlist
  rw [upToLast_append hs, upToLast_append ht] at hfront
  have hback := congrArg (afterLast '/') hlist
  rw [afterLast_append hs, afterLast_append ht] at hback
  exact ⟨String.toList_inj.1 (List.append_cancel_right hfront), String.toList_inj.1 hback⟩

theorem append_lt_append_iff : p ++ s < p ++ t ↔ s < t := by
  rw [String.lt_iff, String.lt_iff, String.toList_append, String.toList_append]
  generalize p.toList = a
  induction a with
  | nil => rfl
  | cons c r ih =>
    rw [List.cons_append, List.cons_append, List.cons_lt_cons_iff, ih]
    simp

/-- Of two starts of one text, one starts with the other. -/
theorem startsWith_total (hp : startsWith p s) (hq : startsWith q s) :
    startsWith p q ∨ startsWith q p := by
  rw [startsWith_iff] at hp hq ⊢
  rw [startsWith_iff]
  exact List.prefix_or_prefix_of_prefix hp hq

theorem startsWith_self_le (h : startsWith p s) : ¬ s < p := by
  rw [startsWith_iff] at h
  obtain ⟨l, hl⟩ := h
  rw [String.lt_iff, ← hl]
  clear hl
  generalize p.toList = a
  induction a with
  | nil => exact List.not_lt_nil _
  | cons c r ih =>
    rw [List.cons_append, List.cons_lt_cons_iff]
    rintro (h1 | ⟨-, h1⟩)
    · exact Char.lt_irrefl c h1
    · exact ih h1

/-- **Texts that start alike lie together.** -/
theorem startsWith_of_between (h1 : ¬ s < p) (h2 : s < t) (h3 : startsWith p t) :
    startsWith p s := by
  rw [startsWith_iff] at h3 ⊢
  rw [String.lt_iff] at h1 h2
  obtain ⟨l, hl⟩ := h3
  rw [← hl] at h2
  clear hl
  generalize p.toList = a at h1 h2 ⊢
  generalize s.toList = b at h1 h2 ⊢
  induction a generalizing b with
  | nil => exact List.nil_prefix
  | cons c a ih =>
    cases b with
    | nil => exact absurd (List.nil_lt_cons c a) h1
    | cons d b =>
      rw [List.cons_append, List.cons_lt_cons_iff] at h2
      rw [List.cons_lt_cons_iff, not_or, not_and] at h1
      rcases h2 with h2 | ⟨rfl, h2⟩
      · exact absurd h2 h1.1
      · exact List.cons_prefix_cons.2 ⟨rfl, ih b (h1.2 rfl) h2⟩

end ZoneRelay.Text
