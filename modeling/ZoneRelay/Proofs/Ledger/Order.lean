import ZoneRelay.Proofs.Change.Wire
import ZoneRelay.Proofs.Ledger.Progress

/-!
# The order of the outbox

A pass takes the messages by the date of their changes, and by identity where two dates are the
same. The date is the submitter's, the identity is the ledger's: nothing makes them agree.

* `Instant.le_iff`, `Instant.le_total`, `Instant.le_trans`: the order of time.
* `Change.MayPrecede`: what is known of two changes of which the first is sent first.
* `Ledger.rowLe_total`, `Ledger.rowLe_trans`: the order of rows.
* `Ledger.Tidy`: no change has two rows for one server.
* `Ledger.precede_of_pendingRows`: the rows of a pass follow this order.
-/

namespace ZoneRelay

/-! ## Time -/

namespace Instant

variable {t u v : Instant}

theorem le_iff : t.le u = true ↔ ¬ List.Lex (· < ·) u.key t.key := by
  have h1 : u.key.lex t.key (fun a b => decide (a < b)) = true ↔
      List.Lex (· < ·) u.key t.key := by
    rw [List.lex_eq_true_iff_lex]
    simp only [decide_eq_true_eq]
  unfold le
  rw [Bool.not_eq_true', ← Bool.not_eq_true, h1]

theorem le_refl (t : Instant) : t.le t = true :=
  le_iff.2 (List.le_refl t.key)

theorem le_total (t u : Instant) : t.le u = true ∨ u.le t = true := by
  rw [le_iff, le_iff]
  exact List.le_total t.key u.key

theorem le_trans (h1 : t.le u = true) (h2 : u.le v = true) : t.le v = true := by
  have h3 := le_iff.1 h1
  have h4 := le_iff.1 h2
  exact le_iff.2 (List.le_trans h3 h4)

end Instant

/-- What is known of `a` and `b` if `a` is sent first: `a` has the lower identity, or the earlier
date. -/
def Change.MayPrecede (a b : Change) : Prop :=
  a.id < b.id ∨ b.submittedAt.le a.submittedAt = false

theorem Change.not_mayPrecede_self (c : Change) : ¬ c.MayPrecede c := by
  rintro (h | h)
  · exact UInt64.lt_irrefl _ h
  · rw [Instant.le_refl] at h
    cases h

namespace Ledger

variable {l l' : Ledger} {routePrefix : String} {subs : List Submission} {a b row : OutboxRow}
  {x : Submission} {t u v : Option Instant}

/-! ## Rows -/

theorem leSubmitted_total (t u : Option Instant) :
    leSubmitted t u = true ∨ leSubmitted u t = true := by
  cases t with
  | none => exact Or.inl rfl
  | some t =>
    cases u with
    | none => exact Or.inr rfl
    | some u => exact t.le_total u

theorem leSubmitted_trans (h1 : leSubmitted t u = true) (h2 : leSubmitted u v = true) :
    leSubmitted t v = true := by
  cases t with
  | none => rfl
  | some t =>
    cases u with
    | none => cases h1
    | some u =>
      cases v with
      | none => cases h2
      | some v => exact Instant.le_trans h1 h2

theorem rowLe_iff : l.rowLe a b = true ↔
    leSubmitted (l.submittedAt? a) (l.submittedAt? b) = true ∧
      (leSubmitted (l.submittedAt? b) (l.submittedAt? a) = true →
        a.changeId < b.changeId ∨ a.changeId = b.changeId ∧ a.id ≤ b.id) := by
  unfold rowLe
  simp only
  split
  · next h =>
    simp only [h, true_and, Bool.or_eq_true, Bool.not_eq_true', decide_eq_true_eq,
      Bool.and_eq_true, beq_iff_eq, or_assoc]
    cases leSubmitted (l.submittedAt? b) (l.submittedAt? a) <;> simp
  · next h => simp [h]

theorem rowLe_total (l : Ledger) (a b : OutboxRow) : (l.rowLe a b || l.rowLe b a) = true := by
  rw [Bool.or_eq_true, rowLe_iff, rowLe_iff]
  have h1 := leSubmitted_total (l.submittedAt? a) (l.submittedAt? b)
  have h2 : (a.changeId < b.changeId ∨ a.changeId = b.changeId ∧ a.id ≤ b.id) ∨
      (b.changeId < a.changeId ∨ b.changeId = a.changeId ∧ b.id ≤ a.id) := by
    simp only [UInt64.lt_iff_toNat_lt, UInt64.le_iff_toNat_le, ← UInt64.toNat_inj]
    omega
  tauto

theorem rowLe_trans (l : Ledger) (a b c : OutboxRow) (h1 : l.rowLe a b = true)
    (h2 : l.rowLe b c = true) : l.rowLe a c = true := by
  rw [rowLe_iff] at h1 h2 ⊢
  obtain ⟨hab, hab'⟩ := h1
  obtain ⟨hbc, hbc'⟩ := h2
  refine ⟨leSubmitted_trans hab hbc, fun hca => ?_⟩
  -- if the outer two have the same date, so has the one between them
  have h3 := hab' (leSubmitted_trans hbc hca)
  have h4 := hbc' (leSubmitted_trans hca hab)
  simp only [UInt64.lt_iff_toNat_lt, UInt64.le_iff_toNat_le, ← UInt64.toNat_inj] at h3 h4 ⊢
  omega

/-- A pass begins with the rows in front of the ordered outbox. -/
theorem pendingRows_ok {n : ℕ} {rows : List OutboxRow} (h : l.pendingRows n = .ok rows) :
    ∃ later, (rows ++ later).Perm l.outbox ∧ (rows ++ later).Pairwise (l.rowLe · · = true) := by
  unfold pendingRows ifAvailable at h
  split at h
  · rw [← Except.ok.inj h]
    refine ⟨(l.outbox.mergeSort l.rowLe).drop n, ?_, ?_⟩
    · rw [List.take_append_drop]
      exact List.mergeSort_perm _ _
    · rw [List.take_append_drop]
      exact List.pairwise_mergeSort l.rowLe_trans l.rowLe_total _
  · cases h

/-- Of two rows, the one recorded last may be the first. -/
theorem pendingRows_pair (ha : l.available = true) (ho : l.outbox = [a, b])
    (hab : l.rowLe a b = false) : l.pendingRows 2 = .ok [b, a] := by
  have hsort : [a, b].mergeSort l.rowLe = [b, a] := by
    simp [List.mergeSort, List.MergeSort.Internal.splitInTwo, hab]
  unfold pendingRows ifAvailable
  rw [if_pos ha, ho, hsort]
  rfl

/-- A row has the date of its change, as long as the ledger knows the change. -/
theorem Books.submittedAt? (h : l.Books routePrefix subs) (hx : x ∈ subs)
    (hs : row.Sends routePrefix x) (hf : ¬ l.Forgot row.changeId) :
    l.submittedAt? row = some x.change.submittedAt := by
  unfold Forgot at hf
  push Not at hf
  obtain ⟨e, he, hid⟩ := hf
  have h1 : l.entry? row.changeId = some e := by
    have h2 : (l.entry? row.changeId).isSome := by
      unfold entry?
      rw [List.find?_isSome]
      exact ⟨e, he, by simpa using hid⟩
    obtain ⟨e', h3⟩ := Option.isSome_iff_exists.1 h2
    have h4 : e'.change.id = row.changeId := by simpa using List.find?_some h3
    rw [h3, h.entry_unique he (List.mem_of_find?_eq_some h3) (hid.trans h4.symm)]
  have h2 := (h.records he hx (hid.trans hs.change)).change
  unfold Ledger.submittedAt?
  rw [h1, Option.map_some, h2]

/-- **A row that goes before another** is for a lower change, or for one with an earlier date. -/
theorem precede_of_rowLe (hab : l.rowLe a b = true) (hne : a.changeId ≠ b.changeId)
    {t u : Instant} (ha : l.submittedAt? a = some t) (hb : l.submittedAt? b = some u) :
    a.changeId < b.changeId ∨ u.le t = false := by
  rw [rowLe_iff, ha, hb] at hab
  cases h : u.le t with
  | false => exact Or.inr rfl
  | true =>
    rcases hab.2 h with h1 | ⟨h1, -⟩
    · exact Or.inl h1
    · exact absurd h1 hne

/-! ## Rows for one server -/

/-- Whether no change has two rows for one server. -/
def Apart (rows : List OutboxRow) : Prop :=
  rows.Pairwise fun a b => a.serverId = b.serverId → a.changeId ≠ b.changeId

/-- What holds of a ledger whose roster is a set. -/
structure Tidy (l : Ledger) : Prop where
  servers : l.servers.Nodup
  apart : Apart l.outbox
  /-- The change of a row is not forgotten. -/
  present : ∀ row ∈ l.outbox, ¬ l.Forgot row.changeId

theorem servers_newRows (c : Change) (targets : List NewTarget) (id : UInt64) :
    (newRows c id targets).map (·.serverId) = targets.map (·.serverId) := by
  induction targets generalizing id with
  | nil => rfl
  | cons t r ih =>
    unfold newRows
    rw [List.map_cons, List.map_cons, ih]

/-- Recording a change for all servers keeps the rows apart. -/
theorem tidy_after (h : l.Books routePrefix subs) (hr : l.HasRoom) (ht : l.Tidy) (c : Change) :
    (l.after routePrefix c).Tidy := by
  obtain ⟨hrows, -, -⟩ := newRows_spec (l.recorded c).change (routes routePrefix l.servers)
    l.lastRowId (by rw [routes, List.length_map]; exact hr.2)
  refine ⟨ht.servers, ?_, fun row hrow => ?_⟩
  · rw [outbox_after]
    refine List.pairwise_append.2 ⟨ht.apart, ?_, fun a ha b hb _ => ?_⟩
    · have h1 : ((newRows (l.recorded c).change l.lastRowId
          (routes routePrefix l.servers)).map (·.serverId)).Nodup := by
        rw [servers_newRows, servers_routes]
        exact ht.servers
      exact (List.pairwise_map.1 h1).imp fun hne heq => absurd heq hne
    · obtain ⟨x, hx, h1⟩ := h.rows a ha
      rw [h1.change, (hrows b hb).2.2.1]
      exact UInt64.ne_of_lt (UInt64.lt_of_le_of_lt (h.last x hx) (lt_recorded hr c))
  · intro hf
    rcases List.mem_append.1 hrow with h1 | h1
    · exact ht.present row h1 fun e he => hf e (List.mem_append_left _ he)
    · exact hf _ (List.mem_append_right _ List.mem_cons_self) (hrows row h1).2.2.1.symm

/-- What shrinks stays tidy, if no change is forgotten that has a row left. -/
theorem Tidy.shrink (ht : l.Tidy) (hl : l.Shrinks l') (ho : l'.outbox.Sublist l.outbox)
    (hf : ∀ row ∈ l'.outbox, l'.Forgot row.changeId → l.Forgot row.changeId) : l'.Tidy := by
  refine ⟨?_, ht.apart.sublist ho, fun row hrow h1 => ?_⟩
  · rw [hl.servers]
    exact ht.servers
  · exact ht.present row (ho.mem hrow) (hf row hrow h1)

theorem outbox_markPublished {id : UInt64} (hm : l.markPublished id = .ok l') :
    l'.outbox = l.outbox.filter (·.id != id) := by
  unfold markPublished ifAvailable at hm
  split at hm
  · rw [← Except.ok.inj hm]
    split
    · next hnone =>
      -- there is no such row to take out
      refine (List.filter_eq_self.2 fun row hrow => ?_).symm
      simpa using List.find?_eq_none.1 hnone row hrow
    · rfl
  · cases hm

theorem tidy_markPublished (h : l.Books routePrefix subs) (ht : l.Tidy) {id : UInt64}
    (hm : l.markPublished id = .ok l') : l'.Tidy := by
  obtain ⟨-, hd⟩ := markPublished_ok h hm
  refine ht.shrink hd.toShrinks ?_ fun row _ => hd.forgot row.changeId
  rw [outbox_markPublished hm]
  exact List.filter_sublist

theorem tidy_purge (h : l.Books routePrefix subs) (ht : l.Tidy) {cutoff : Stamp} {n : ℕ}
    (hp : l.purge cutoff = .ok (n, l')) : l'.Tidy ∧ l'.outbox.Sublist l.outbox := by
  have hs := (purge_ok h hp).2.toShrinks
  unfold purge ifAvailable at hp
  split at hp
  · obtain ⟨-, rfl⟩ := Prod.mk.inj (Except.ok.inj hp)
    refine ⟨ht.shrink hs List.filter_sublist fun row hrow hf e he hid => ?_, List.filter_sublist⟩
    -- the entry of a row that is left is left too
    have h1 := (List.mem_filter.1 hrow).2
    simp only [Bool.not_eq_true', List.contains_eq_mem, decide_eq_false_iff_not, List.mem_map,
      List.mem_filter, not_exists, not_and, and_imp] at h1
    have h2 : ¬ isExpired cutoff e = true := fun h3 => h1 e he h3 hid
    exact hf e (List.mem_filter.2 ⟨he, by simpa using h2⟩) hid
  · cases hp

/-- **The rows of a pass, and then those left for later**, are such that of two rows for one server
the change of the first may precede that of the second. -/
theorem precede_of_pendingRows (h : l.Books routePrefix subs) (ht : l.Tidy) {n : ℕ}
    {rows : List OutboxRow} (hp : l.pendingRows n = .ok rows) :
    ∃ later, (rows ++ later).Perm l.outbox ∧ (rows ++ later).Pairwise fun a b =>
      a.serverId = b.serverId → ∀ c, Change.decode? a.payload = some c →
        ∀ d, Change.decode? b.payload = some d → c.MayPrecede d := by
  obtain ⟨later, hperm, hsorted⟩ := pendingRows_ok hp
  have hapart : Apart (rows ++ later) :=
    (hperm.pairwise_iff fun h1 h2 h3 => h1 h2.symm h3.symm).2 ht.apart
  refine ⟨later, hperm, (hsorted.and hapart).imp_of_mem fun {a b} ha hb h1 hs c hc d hd => ?_⟩
  have ha' := hperm.mem_iff.1 ha
  have hb' := hperm.mem_iff.1 hb
  obtain ⟨x, hx, hax⟩ := h.rows a ha'
  obtain ⟨y, hy, hby⟩ := h.rows b hb'
  rw [hax.payload, Change.decode?_encode] at hc
  rw [hby.payload, Change.decode?_encode] at hd
  obtain rfl := Option.some.inj hc
  obtain rfl := Option.some.inj hd
  have h2 := precede_of_rowLe h1.1 (h1.2 hs) (h.submittedAt? hx hax (ht.present a ha'))
    (h.submittedAt? hy hby (ht.present b hb'))
  rwa [hax.change, hby.change] at h2

end Ledger

end ZoneRelay
