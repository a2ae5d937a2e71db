import ZoneRelay.Proofs.Ledger.WellFormed

/-!
# Forgetting finished changes

Whether an entry is forgotten is read off the status of its change and the latest time of an
acknowledgment that there is. In a ledger that calls lead to, this comes to what it is meant for: that
every target has acknowledged the change before a given time.

* `LedgerEntry.DoneBefore`: what it is meant for.
* `LedgerEntry.Settled.isExpired_iff`: the two agree.
* `Ledger.Purges`: a ledger next to the one in which the changes done before a time are forgotten.
* `Ledger.purge_exact`: this is what a purge leaves, and it says how many changes are forgotten.
-/

namespace ZoneRelay

variable {e : LedgerEntry} {cutoff : Stamp}

/-- Every target of an entry has acknowledged the change, and before a time. -/
def LedgerEntry.DoneBefore (cutoff : Stamp) (e : LedgerEntry) : Prop :=
  ∀ t ∈ e.targets, t.status = .inSync ∧ ∃ u ∈ t.syncedAt, u < cutoff

instance : DecidablePred (LedgerEntry.DoneBefore cutoff) := fun e =>
  inferInstanceAs (Decidable (∀ t ∈ e.targets, t.status = .inSync ∧ ∃ u ∈ t.syncedAt, u < cutoff))

/-- The latest acknowledgment is before a time if and only if all are. -/
theorem lastSynced_before_iff : ((Ledger.lastSynced e).all fun u => u < cutoff) = true ↔
    ∀ t ∈ e.targets, ∀ u ∈ t.syncedAt, u < cutoff := by
  have hmem : ∀ u, u ∈ e.targets.filterMap (·.syncedAt) ↔ ∃ t ∈ e.targets, t.syncedAt = some u :=
    fun u => List.mem_filterMap
  unfold Ledger.lastSynced
  cases hmax : (e.targets.filterMap (·.syncedAt)).max? with
  | none =>
    rw [List.max?_eq_none_iff] at hmax
    refine ⟨fun _ t ht u hu => ?_, fun _ => rfl⟩
    have h1 := (hmem u).2 ⟨t, ht, hu⟩
    rw [hmax] at h1
    cases h1
  | some latest =>
    obtain ⟨h1, h2⟩ := List.max?_eq_some_iff.1 hmax
    rw [Option.all_some, decide_eq_true_eq]
    constructor
    · intro hlt t ht u hu
      exact lt_of_le_of_lt (h2 u ((hmem u).2 ⟨t, ht, hu⟩)) hlt
    · intro hall
      obtain ⟨t, ht, hu⟩ := (hmem latest).1 h1
      exact hall t ht latest hu

/-- **The status of the change and the latest acknowledgment say enough**: they tell whether every
target has acknowledged the change before a time. -/
theorem LedgerEntry.Settled.isExpired_iff (h : e.Settled) :
    Ledger.isExpired cutoff e = true ↔ e.DoneBefore cutoff := by
  unfold Ledger.isExpired
  rw [Bool.and_eq_true, beq_iff_eq, h.change, lastSynced_before_iff]
  constructor
  · rintro ⟨hsync, hbefore⟩ t ht
    obtain ⟨u, hu⟩ := Option.isSome_iff_exists.1 ((h.targets t ht).2 (hsync t ht))
    exact ⟨hsync t ht, u, hu, hbefore t ht u hu⟩
  · intro hdone
    refine ⟨fun t ht => (hdone t ht).1, fun t ht u hu => ?_⟩
    obtain ⟨-, v, hv, hlt⟩ := hdone t ht
    rwa [Option.some.inj (hu.symm.trans hv)]

namespace Ledger

variable {l l' : Ledger} {made : List Creation}

/-- The ledger `l'` is `l` without the changes that were done before a time. -/
structure Purges (l : Ledger) (cutoff : Stamp) (l' : Ledger) : Prop where
  /-- The entries of these changes are gone with all their targets, and so are the rows for them.
  Nothing else is touched. -/
  left : l' = { l with
    entries := l.entries.filter fun e => ¬ e.DoneBefore cutoff
    outbox := l.outbox.filter fun row =>
      ∀ e ∈ l.entries, e.DoneBefore cutoff → row.changeId ≠ e.change.id }
  /-- A change that some target has not acknowledged is still there. -/
  unfinished : ∀ e ∈ l.entries, (∃ t ∈ e.targets, t.status ≠ .inSync) → e ∈ l'.entries
  /-- Every row that is left is for a change that is left. -/
  rows : ∀ row ∈ l'.outbox, ∃ e ∈ l'.entries, row.Serves e

/-- The rows that a purge keeps are those of no forgotten change. -/
theorem contains_expired_iff (h : l.WellFormed made) (row : OutboxRow) :
    (!((l.entries.filter (isExpired cutoff)).map (·.change.id)).contains row.changeId) = true ↔
      ∀ e ∈ l.entries, e.DoneBefore cutoff → row.changeId ≠ e.change.id := by
  rw [Bool.not_eq_true', ← Bool.not_eq_true, List.contains_iff_mem, List.mem_map, not_exists]
  refine forall_congr' fun e => ?_
  rw [List.mem_filter, not_and, and_imp]
  refine forall_congr' fun he => ?_
  rw [(h.settled e he).isExpired_iff, ne_comm]

/-- What a purge makes of a ledger that is well formed. -/
theorem WellFormed.purges (h : l.WellFormed made) (cutoff : Stamp) :
    ∃ l', l.purge cutoff =
        l.ifAvailable ((l.entries.filter fun e => e.DoneBefore cutoff).length, l') ∧
      l.Purges cutoff l' := by
  have hdone : ∀ e ∈ l.entries, isExpired cutoff e = decide (e.DoneBefore cutoff) := by
    intro e he
    rw [Bool.eq_iff_iff, decide_eq_true_eq]
    exact (h.settled e he).isExpired_iff
  have hentries : (l.entries.filter fun e => !isExpired cutoff e) =
      l.entries.filter fun e => ¬ e.DoneBefore cutoff :=
    List.filter_congr fun e he => by rw [hdone e he, decide_not]
  have houtbox : (l.outbox.filter fun row =>
      !((l.entries.filter (isExpired cutoff)).map (·.change.id)).contains row.changeId) =
      l.outbox.filter fun row =>
        ∀ e ∈ l.entries, e.DoneBefore cutoff → row.changeId ≠ e.change.id :=
    List.filter_congr fun row _ => by
      rw [Bool.eq_iff_iff, contains_expired_iff h, decide_eq_true_eq]
  refine ⟨_, ?_, ?_, fun e he hopen => ?_, (wellFormed_purged h cutoff).1.rows⟩
  · unfold purge
    simp only [List.length_map, List.filter_congr hdone]
  · rw [hentries, houtbox]
  · rw [hentries, List.mem_filter, decide_eq_true_eq]
    refine ⟨he, fun hdone => ?_⟩
    obtain ⟨t, ht, hst⟩ := hopen
    exact hst (hdone t ht).1

/-- **A purge is exact.** Whatever was asked of a ledger before, and whatever failed, as long as row
identities do not run out: a purge forgets the changes that every target has acknowledged before the
given time, with all their targets and all rows for them, and says how many they are. It touches
nothing else, keeps every change that some target has not acknowledged, and leaves no row of a
change that is gone. A ledger that cannot be reached refuses. -/
theorem purge_exact (calls : List Call) (hroom : rowsFor (empty.created calls) < UInt64.size)
    (cutoff : Stamp) :
    ∃ l', (empty.run calls).purge cutoff = (empty.run calls).ifAvailable
        (((empty.run calls).entries.filter fun e => e.DoneBefore cutoff).length, l') ∧
      (empty.run calls).Purges cutoff l' :=
  (wellFormed_calls wellFormed_empty calls hroom).1.purges cutoff

/-- The change of the rehearsal was acknowledged by one server at 5 and by the other at 6: at 6 it
is not done yet, and at 7 it goes, with the two rows that were never marked as published. -/
theorem purge_exact_rehearsal :
    rowsFor (empty.created rehearsal) < UInt64.size ∧
      (∃ l', (empty.run rehearsal).purge 6 = .ok (0, l') ∧ (empty.run rehearsal).Purges 6 l' ∧
        l'.entries.length = 1 ∧ l'.outbox.length = 2) ∧
      ∃ l', (empty.run rehearsal).purge 7 = .ok (1, l') ∧ (empty.run rehearsal).Purges 7 l' ∧
        l'.entries = [] ∧ l'.outbox = [] := by
  have hroom : rowsFor (empty.created rehearsal) < UInt64.size := by decide +kernel
  refine ⟨hroom, ?_, ?_⟩
  · obtain ⟨l', h1, h2⟩ := purge_exact rehearsal hroom 6
    have hcount : ((empty.run rehearsal).entries.filter fun e => e.DoneBefore 6).length = 0 := by
      decide +kernel
    refine ⟨l', by rw [h1, hcount]; rfl, h2, ?_, ?_⟩
    · rw [h2.left]; decide +kernel
    · rw [h2.left]; decide +kernel
  · obtain ⟨l', h1, h2⟩ := purge_exact rehearsal hroom 7
    have hcount : ((empty.run rehearsal).entries.filter fun e => e.DoneBefore 7).length = 1 := by
      decide +kernel
    refine ⟨l', by rw [h1, hcount]; rfl, h2, ?_, ?_⟩
    · rw [h2.left]; decide +kernel
    · rw [h2.left]; decide +kernel

end Ledger

end ZoneRelay
