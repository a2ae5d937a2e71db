import ZoneRelay.Proofs.Ledger.Dispatch
import ZoneRelay.Proofs.Ledger.Order

/-!
# The front of the outbox

A pass takes as many messages as its limit allows, in order. A message has its turn if fewer go
before it, whichever route they are for.

* `Ledger.ahead`: the messages that go before a message.
* `Ledger.mem_pendingRows`: those of a pass are the ones with fewer than the limit ahead.
* `Ledger.Crowded`: the messages for other routes that are ahead fill up a pass.
* `Ledger.Sends`: a ledger after some of its messages have left.
-/

namespace ZoneRelay

/-- Of a list in order, the elements in front are those with few before them. -/
theorem mem_take_iff {α : Type} {le : α → α → Bool} {s : List α} (hs : s.Pairwise (le · · = true))
    (hrefl : ∀ a, le a a = true)
    (hanti : ∀ a ∈ s, ∀ b ∈ s, le a b = true → le b a = true → a = b) {x : α} (hx : x ∈ s) (n : ℕ) :
    x ∈ s.take n ↔ (s.filter fun y => !le x y).length < n := by
  induction s generalizing n with
  | nil => cases hx
  | cons a s ih =>
    obtain ⟨hfirst, hrest⟩ := List.pairwise_cons.1 hs
    cases n with
    | zero => simp
    | succ n =>
      rw [List.take_succ_cons, List.mem_cons]
      by_cases hxa : x = a
      · -- nothing is before the first one
        have hnone : (a :: s).filter (fun y => !le x y) = [] := by
          rw [hxa, List.filter_eq_nil_iff]
          intro y hy
          rcases List.mem_cons.1 hy with rfl | hy
          · simp [hrefl]
          · simp [hfirst y hy]
        simp [hxa ▸ hnone, hxa]
      · have hxs : x ∈ s := (List.mem_cons.1 hx).resolve_left hxa
        have hbefore : le x a = false := by
          rw [Bool.eq_false_iff]
          exact fun h => hxa (hanti x hx a List.mem_cons_self h (hfirst x hxs))
        rw [List.filter_cons_of_pos (by simp [hbefore]), List.length_cons, Nat.add_lt_add_iff_right,
          ← ih hrest (fun a ha b hb => hanti a (List.mem_cons_of_mem _ ha) b
            (List.mem_cons_of_mem _ hb)) hxs n]
        exact or_iff_right hxa

namespace Ledger

variable {l l' l'' : Ledger} {a b row : OutboxRow} {n : ℕ} {gone gone' : OutboxRow → Bool}

/-! ## The order -/

theorem rowLe_refl (l : Ledger) (a : OutboxRow) : l.rowLe a a = true := by
  simpa using l.rowLe_total a a

/-- Of two messages that wait, one goes before the other. -/
theorem rowLe_antisymm (hid : (l.outbox.map (·.id)).Nodup) (ha : a ∈ l.outbox) (hb : b ∈ l.outbox)
    (hab : l.rowLe a b = true) (hba : l.rowLe b a = true) : a = b := by
  obtain ⟨h1, h2⟩ := rowLe_iff.1 hab
  obtain ⟨h3, h4⟩ := rowLe_iff.1 hba
  have hle := h2 h3
  have hge := h4 h1
  have hsame : a.id = b.id := by
    simp only [UInt64.lt_iff_toNat_lt, UInt64.le_iff_toNat_le, ← UInt64.toNat_inj] at hle hge ⊢
    omega
  exact List.inj_on_of_nodup_map hid ha hb hsame

/-- The first of some messages. -/
theorem exists_first (l : Ledger) {rows : List OutboxRow} (h : rows ≠ []) :
    ∃ first ∈ rows, ∀ other ∈ rows, l.rowLe first other = true := by
  have hperm := List.mergeSort_perm rows l.rowLe
  have hsorted := List.pairwise_mergeSort l.rowLe_trans l.rowLe_total rows
  cases hs : rows.mergeSort l.rowLe with
  | nil =>
    rw [hs] at hperm
    exact absurd hperm.symm.eq_nil h
  | cons first rest =>
    rw [hs] at hperm hsorted
    refine ⟨first, hperm.mem_iff.1 List.mem_cons_self, fun other hother => ?_⟩
    rcases List.mem_cons.1 (hperm.mem_iff.2 hother) with rfl | hrest
    · exact l.rowLe_refl _
    · exact (List.pairwise_cons.1 hsorted).1 other hrest

/-- The messages that go before a message. -/
def ahead (l : Ledger) (row : OutboxRow) : List OutboxRow :=
  l.outbox.filter fun other => !l.rowLe row other

theorem mem_ahead : a ∈ l.ahead b ↔ a ∈ l.outbox ∧ l.rowLe b a = false := by
  unfold ahead
  rw [List.mem_filter, Bool.not_eq_true']

/-- **A pass takes the messages that have fewer ahead than its limit.** -/
theorem mem_pendingRows (row : OutboxRow) (hid : (l.outbox.map (·.id)).Nodup) {rows : List OutboxRow}
    (h : l.pendingRows n = .ok rows) :
    row ∈ rows ↔ row ∈ l.outbox ∧ (l.ahead row).length < n := by
  unfold pendingRows ifAvailable at h
  split at h
  · have hperm := List.mergeSort_perm l.outbox l.rowLe
    have hsorted := List.pairwise_mergeSort l.rowLe_trans l.rowLe_total l.outbox
    have hlength : ((l.outbox.mergeSort l.rowLe).filter fun y => !l.rowLe row y).length =
        (l.ahead row).length := (hperm.filter _).length_eq
    have hanti : ∀ a ∈ l.outbox.mergeSort l.rowLe, ∀ b ∈ l.outbox.mergeSort l.rowLe,
        l.rowLe a b = true → l.rowLe b a = true → a = b := by
      intro a ha b hb
      exact rowLe_antisymm hid (hperm.mem_iff.1 ha) (hperm.mem_iff.1 hb)
    rw [← Except.ok.inj h, ← hlength]
    constructor
    · intro hrow
      have hmem := List.mem_of_mem_take hrow
      exact ⟨hperm.mem_iff.1 hmem, (mem_take_iff hsorted l.rowLe_refl hanti hmem n).1 hrow⟩
    · rintro ⟨hrow, hfew⟩
      exact (mem_take_iff hsorted l.rowLe_refl hanti (hperm.mem_iff.2 hrow) n).2 hfew
  · cases h

/-! ## Crowds -/

/-- The messages for other routes that go before a message. -/
def aheadElsewhere (l : Ledger) (row : OutboxRow) : List OutboxRow :=
  (l.ahead row).filter (·.routeKey != row.routeKey)

/-- Whether the messages for other routes that go before a message fill up a pass. -/
def Crowded (l : Ledger) (limit : ℕ) (row : OutboxRow) : Prop :=
  limit ≤ (l.aheadElsewhere row).length

instance (l : Ledger) (limit : ℕ) (row : OutboxRow) : Decidable (l.Crowded limit row) :=
  inferInstanceAs (Decidable (_ ≤ _))

/-- What crowds a message crowds all those on its route that go after it. -/
theorem Crowded.after (h : l.Crowded n a) (hab : l.rowLe b a = false)
    (hroute : a.routeKey = b.routeKey) : l.Crowded n b := by
  have hle : l.rowLe a b = true := by
    have h1 := l.rowLe_total a b
    rwa [hab, Bool.or_false] at h1
  have hsub : (l.aheadElsewhere a).Sublist (l.aheadElsewhere b) := by
    unfold aheadElsewhere
    rw [hroute]
    refine List.Sublist.filter _ (List.monotone_filter_right _ fun other hother => ?_)
    -- what goes before the first goes before the second
    rw [Bool.not_eq_true'] at hother ⊢
    rw [Bool.eq_false_iff] at hother ⊢
    exact fun h1 => hother (l.rowLe_trans _ _ _ hle h1)
  unfold Crowded at h ⊢
  exact Nat.le_trans h hsub.length_le

/-! ## Messages that leave -/

/-- Whether `l'` is `l` without some of the messages that waited, as far as the outbox goes. -/
structure Sends (l l' : Ledger) (gone : OutboxRow → Bool) : Prop where
  outbox : l'.outbox = l.outbox.filter fun row => !gone row
  dates : ∀ row, l'.submittedAt? row = l.submittedAt? row

theorem Sends.refl (l : Ledger) : l.Sends l fun _ => false :=
  ⟨by simp, fun _ => rfl⟩

theorem Sends.trans (h : l.Sends l' gone) (h' : l'.Sends l'' gone') :
    l.Sends l'' fun row => gone row || gone' row := by
  refine ⟨?_, fun row => (h'.dates row).trans (h.dates row)⟩
  rw [h'.outbox, h.outbox, List.filter_filter]
  refine List.filter_congr fun row _ => ?_
  rw [Bool.not_or, Bool.and_comm]

theorem Sends.rowLe (h : l.Sends l' gone) (a b : OutboxRow) : l'.rowLe a b = l.rowLe a b := by
  unfold Ledger.rowLe
  rw [h.dates, h.dates]

theorem Sends.aheadElsewhere (h : l.Sends l' gone) (row : OutboxRow) :
    l'.aheadElsewhere row = (l.aheadElsewhere row).filter fun other => !gone other := by
  unfold Ledger.aheadElsewhere ahead
  simp only [h.outbox, h.rowLe, List.filter_filter]
  refine List.filter_congr fun other _ => ?_
  rw [← Bool.and_assoc, Bool.and_comm]

theorem Sends.ids (h : l.Sends l' gone) (hid : (l.outbox.map (·.id)).Nodup) :
    (l'.outbox.map (·.id)).Nodup := by
  rw [h.outbox]
  exact hid.sublist (List.Sublist.map _ List.filter_sublist)

/-- A change keeps its date when messages about it leave. -/
theorem submittedAt?_dispatch (l : Ledger) (rows : List OutboxRow) (row : OutboxRow) :
    (l.dispatch rows).submittedAt? row = l.submittedAt? row := by
  unfold submittedAt? entry? dispatch
  rw [List.find?_map, Option.map_map]
  rfl

/-- Messages that leave the outbox are the only ones to leave. -/
theorem sends_dispatch (l : Ledger) (rows : List OutboxRow) (available : Bool) :
    l.Sends { l.dispatch rows with available } (· ∈ rows) where
  outbox := List.filter_congr fun row _ => by simp
  dates := l.submittedAt?_dispatch rows

end Ledger

end ZoneRelay
