import ZoneRelay.Proofs.Ledger.Dispatch

/-!
# Updates in any order

The bus confirms messages and servers acknowledge changes in any order, and some of that is reported
twice. Each such report asks for a status of a target, and a target has the furthest status asked
for, so neither order nor repetition matters.

* `Ledger.Update`, `Ledger.update`: a report, and the ledger after several.
* `Ledger.asks`, `Ledger.furthestAsked`: what reports ask for a target.
* `Ledger.CaughtUp`: the ledger after updates, up to the times of acknowledgments; `undated` takes
  these away.
* `Ledger.caughtUp_update`: what updates come to, by `caughtUp_call` for one and
  `CaughtUp.trans` for several.
* `Ledger.updates_confluent`: only the times depend on the order.
-/

namespace ZoneRelay

namespace TargetStatus

/-- The one of two statuses that is further on the way. -/
def furthest (a b : TargetStatus) : TargetStatus :=
  if a.rank < b.rank then b else a

theorem rank_furthest (a b : TargetStatus) : (a.furthest b).rank = max a.rank b.rank := by
  unfold furthest
  split <;> omega

theorem rank_inj {a b : TargetStatus} (h : a.rank = b.rank) : a = b := by
  revert h
  cases a <;> cases b <;> decide

/-- A status is known by the bounds that it keeps. -/
theorem eq_of_rank_le {a b : TargetStatus} (h : ∀ n, a.rank ≤ n ↔ b.rank ≤ n) : a = b :=
  rank_inj (Nat.le_antisymm ((h _).2 le_rfl) ((h _).1 le_rfl))

theorem furthest_of_le {a b : TargetStatus} (h : b.rank ≤ a.rank) : a.furthest b = a :=
  if_neg (by omega)

theorem furthest_of_lt {a b : TargetStatus} (h : a.rank < b.rank) : a.furthest b = b :=
  if_pos h

end TargetStatus

/-- A server and how far a change has come with it. -/
def Target.standing (t : Target) : String × TargetStatus :=
  (t.serverId, t.status)

/-- A target without the time of its acknowledgment, if it has one. -/
def Target.undated (t : Target) : Target :=
  { t with syncedAt := t.syncedAt.map fun _ => 0 }

/-- An entry without the times of acknowledgments. -/
def LedgerEntry.undated (e : LedgerEntry) : LedgerEntry :=
  { e with targets := e.targets.map Target.undated }

namespace Ledger

/-- A ledger without the times of acknowledgments. -/
def undated (l : Ledger) : Ledger :=
  { l with entries := l.entries.map LedgerEntry.undated }

/-- What moves targets forward. -/
inductive Update
  /-- The bus has the message of a row. -/
  | published (rowId : UInt64)
  /-- The target of a server has come to a status. -/
  | reached (id : ChangeId) (serverId : String) (status : TargetStatus)
  deriving DecidableEq, Repr

/-- The call that reports an update at a time. -/
def Update.call (now : Stamp) : Update → Call
  | published rowId => .markPublished rowId
  | reached id s status => .advance id s status now

/-- The ledger after updates, each reported at its time. -/
def update (l : Ledger) (us : List (Update × Stamp)) : Ledger :=
  l.run (us.map fun u => u.1.call u.2)

/-- What a ledger takes in of updates: nothing while it is out of reach. -/
def heard (l : Ledger) (us : List (Update × Stamp)) : List Update :=
  if l.available then us.map (·.1) else []

/-- The status that an update asks for a target, at least. -/
def asks (l : Ledger) (id : ChangeId) (s : String) : Update → TargetStatus
  | .published rowId =>
    if Concerns (l.outbox.filter (·.id = rowId)) id s then .sent else .pending
  | .reached i q status => if i = id ∧ q = s then status else .pending

/-- The furthest of the status a target has and those that updates ask for it. -/
def furthestAsked (l : Ledger) (us : List Update) (id : ChangeId) (s : String)
    (old : TargetStatus) : TargetStatus :=
  us.foldl (fun status u => status.furthest (l.asks id s u)) old

/-- How far a change has come with a server, if the server is a target of it. -/
def status? (l : Ledger) (id : ChangeId) (s : String) : Option TargetStatus :=
  (l.entry? id).bind fun e => (e.targets.map Target.standing).lookup s

/-- An entry after updates of its ledger. Each target has the furthest status asked for, and the
change is in sync if all of them are. -/
structure EntryCaughtUp (l : Ledger) (us : List Update) (e e' : LedgerEntry) : Prop where
  change : e'.change = { e.change with status := e'.change.status }
  targets : e'.targets.map Target.standing =
    e.targets.map fun t => (t.serverId, l.furthestAsked us e.change.id t.serverId t.status)
  settled : e'.Settled

/-- The ledger after updates. The rows that were published have left the outbox. -/
structure CaughtUp (l : Ledger) (us : List Update) (l' : Ledger) : Prop where
  entries : List.Forall₂ (l.EntryCaughtUp us) l.entries l'.entries
  outbox : l'.outbox = l.outbox.filter fun row => .published row.id ∉ us
  rest : l' = { l with entries := l'.entries, outbox := l'.outbox }

variable {l l' l'' : Ledger} {made : List Creation} {us vs : List Update} {u v : Update}
  {id : ChangeId} {s : String} {e e' e'' : LedgerEntry} {old : TargetStatus} {row : OutboxRow}

/-! ## What is asked for -/

theorem rank_furthestAsked_le {n : ℕ} : (l.furthestAsked us id s old).rank ≤ n ↔
    old.rank ≤ n ∧ ∀ u ∈ us, (l.asks id s u).rank ≤ n := by
  induction us generalizing old with
  | nil => simp [furthestAsked]
  | cons u us ih =>
    have h1 : l.furthestAsked (u :: us) id s old =
        l.furthestAsked us id s (old.furthest (l.asks id s u)) := rfl
    rw [h1, ih, TargetStatus.rank_furthest, Nat.max_le, List.forall_mem_cons, and_assoc]

/-- The order of updates does not matter, nor does how often there is one. -/
theorem furthestAsked_congr (h : ∀ u, u ∈ us ↔ u ∈ vs) :
    l.furthestAsked us = l.furthestAsked vs := by
  funext id s old
  refine TargetStatus.eq_of_rank_le fun n => ?_
  rw [rank_furthestAsked_le, rank_furthestAsked_le]
  simp only [h]

/-- A target that is as far as is asked for stays where it is. -/
theorem furthestAsked_of_le (h : ∀ u ∈ us, (l.asks id s u).rank ≤ old.rank) :
    l.furthestAsked us id s old = old := by
  refine TargetStatus.eq_of_rank_le fun n => ?_
  rw [rank_furthestAsked_le, and_iff_left_iff_imp]
  exact fun hn u hu => (h u hu).trans hn

theorem asks_published (hid : (l.outbox.map (·.id)).Nodup) (hrow : row ∈ l.outbox) :
    l.asks id s (.published row.id) =
      if row.changeId = id ∧ row.serverId = s then .sent else .pending := by
  have hiff : Concerns (l.outbox.filter (·.id = row.id)) id s ↔
      row.changeId = id ∧ row.serverId = s := by
    constructor
    · rintro ⟨r, hr, h1⟩
      obtain ⟨h2, h3⟩ := List.mem_filter.1 hr
      rwa [List.inj_on_of_nodup_map hid h2 hrow (by simpa using h3)] at h1
    · exact fun h => ⟨row, List.mem_filter.2 ⟨hrow, by simp⟩, h⟩
  unfold asks
  simp only [hiff]

theorem asks_unpublished {rowId : UInt64} (h : ∀ row ∈ l.outbox, row.id ≠ rowId) :
    l.asks id s (.published rowId) = .pending := by
  have h1 : l.outbox.filter (·.id = rowId) = [] := by
    simpa [List.filter_eq_nil_iff] using h
  unfold asks Concerns
  simp [h1]

/-! ## What is asked for, once some of it has come -/

/-- What an update still asks for once others have come: the same, or nothing if it is one of
them. -/
theorem CaughtUp.asks_le (h : l.CaughtUp us l') (u : Update) :
    (l'.asks id s u).rank ≤ (l.asks id s u).rank := by
  cases u with
  | reached i q status => exact le_rfl
  | published rowId =>
    have hmono : Concerns (l'.outbox.filter (·.id = rowId)) id s →
        Concerns (l.outbox.filter (·.id = rowId)) id s := by
      rintro ⟨row, hrow, h1⟩
      rw [h.outbox, List.filter_filter] at hrow
      obtain ⟨hmem, h2⟩ := List.mem_filter.1 hrow
      exact ⟨row, List.mem_filter.2 ⟨hmem, (Bool.and_eq_true_iff.1 h2).1⟩, h1⟩
    simp only [asks]
    by_cases h1 : Concerns (l'.outbox.filter (·.id = rowId)) id s
    · rw [if_pos h1, if_pos (hmono h1)]
    · rw [if_neg h1]
      exact Nat.zero_le _

theorem CaughtUp.asks_of_not_mem (h : l.CaughtUp us l') (hu : u ∉ us) :
    l'.asks id s u = l.asks id s u := by
  cases u with
  | reached i q status => rfl
  | published rowId =>
    -- the row it is about, if there is one, is none of those that left
    have h1 : l'.outbox.filter (·.id = rowId) = l.outbox.filter (·.id = rowId) := by
      rw [h.outbox, List.filter_filter]
      refine List.filter_congr fun row _ => ?_
      by_cases hid : row.id = rowId <;> simp [hid, hu]
    simp only [asks, h1]

/-- What is asked for in two parts is asked for in one. -/
theorem CaughtUp.furthestAsked_append (h : l.CaughtUp us l') :
    l'.furthestAsked vs id s (l.furthestAsked us id s old) =
      l.furthestAsked (us ++ vs) id s old := by
  refine TargetStatus.eq_of_rank_le fun n => ?_
  rw [rank_furthestAsked_le, rank_furthestAsked_le, rank_furthestAsked_le, List.forall_mem_append,
    and_assoc]
  refine and_congr_right fun _ => and_congr_right fun hus => ?_
  refine forall₂_congr fun v _ => ?_
  by_cases hv : v ∈ us
  · -- it has had its way already, and may ask for nothing any more
    exact iff_of_true ((h.asks_le v).trans (hus v hv)) (hus v hv)
  · rw [h.asks_of_not_mem hv]

/-! ## Updates one after the other -/

/-- An entry whose targets are all as far as is asked for stays as it is. -/
theorem entryCaughtUp_self (hs : e.Settled)
    (h : ∀ t ∈ e.targets, ∀ u ∈ us, (l.asks e.change.id t.serverId u).rank ≤ t.status.rank) :
    l.EntryCaughtUp us e e where
  change := rfl
  targets := List.map_congr_left fun t ht => by
    rw [furthestAsked_of_le (h t ht)]
    rfl
  settled := hs

theorem EntryCaughtUp.same_id (h : l.EntryCaughtUp us e e') : e'.change.id = e.change.id := by
  rw [h.change]

theorem EntryCaughtUp.trans (hl : l.CaughtUp us l') (h : l.EntryCaughtUp us e e')
    (h' : l'.EntryCaughtUp vs e' e'') : l.EntryCaughtUp (us ++ vs) e e'' where
  change := by rw [h'.change, h.change]
  targets := by
    calc e''.targets.map Target.standing
        = (e'.targets.map Target.standing).map fun p =>
            (p.1, l'.furthestAsked vs e.change.id p.1 p.2) := by
          rw [h'.targets, List.map_map, h.same_id]
          rfl
      _ = e.targets.map fun t =>
            (t.serverId, l.furthestAsked (us ++ vs) e.change.id t.serverId t.status) := by
          rw [h.targets, List.map_map]
          refine List.map_congr_left fun t _ => ?_
          exact congrArg (Prod.mk t.serverId) hl.furthestAsked_append
  settled := h'.settled

theorem caughtUp_refl (h : l.WellFormed made) : l.CaughtUp [] l where
  entries := List.forall₂_same.2 fun e he => entryCaughtUp_self (h.settled e he) (by simp)
  outbox := by simp
  rest := rfl

/-- **Updates in two parts** come to what they come to together. -/
theorem CaughtUp.trans (h : l.CaughtUp us l') (h' : l'.CaughtUp vs l'') :
    l.CaughtUp (us ++ vs) l'' where
  entries := forall₂_comp (fun _ _ _ h1 h2 => h1.trans h h2) h.entries h'.entries
  outbox := by
    rw [h'.outbox, h.outbox, List.filter_filter]
    refine List.filter_congr fun row _ => ?_
    simp [Bool.and_comm]
  rest := by rw [h'.rest, h.rest]

theorem CaughtUp.congr (h : l.CaughtUp us l') (huv : ∀ u, u ∈ us ↔ u ∈ vs) :
    l.CaughtUp vs l' where
  entries := h.entries.imp fun e e' h1 =>
    ⟨h1.change, furthestAsked_congr huv ▸ h1.targets, h1.settled⟩
  outbox := by
    rw [h.outbox]
    refine List.filter_congr fun row _ => ?_
    simp only [huv]
  rest := h.rest

/-! ## One update -/

/-- The targets of one server changed so that they are where an update asks them to be. -/
theorem standing_mapTarget {g : Target → Target}
    (hg : ∀ t ∈ e.targets, t.serverId = s → (g t).standing =
      (t.serverId, t.status.furthest (l.asks e.change.id t.serverId u)))
    (hother : ∀ t ∈ e.targets, t.serverId ≠ s →
      (l.asks e.change.id t.serverId u).rank ≤ t.status.rank) :
    (mapTarget s g e.targets).map Target.standing =
      e.targets.map fun t => (t.serverId, l.furthestAsked [u] e.change.id t.serverId t.status) := by
  unfold mapTarget
  rw [List.map_map]
  refine List.map_congr_left fun t ht => ?_
  show (if t.serverId = s then g t else t).standing = _
  split
  · next hs => exact hg t ht hs
  · next hs =>
    exact congrArg (Prod.mk t.serverId) (TargetStatus.furthest_of_le (hother t ht hs)).symm

theorem caughtUp_mapEntry {f : LedgerEntry → LedgerEntry} {outbox : List OutboxRow}
    (hf : ∀ e ∈ l.entries, e.change.id = id → l.EntryCaughtUp us e (f e))
    (hother : ∀ e ∈ l.entries, e.change.id ≠ id → l.EntryCaughtUp us e e)
    (ho : outbox = l.outbox.filter fun row => .published row.id ∉ us) :
    l.CaughtUp us { l.mapEntry id f with outbox } where
  entries := by
    refine List.forall₂_map_right_iff.2 (List.forall₂_same.2 fun e he => ?_)
    split
    · next hid => exact hf e he hid
    · next hid => exact hother e he hid
  outbox := ho
  rest := rfl

theorem furthest_markSent (t : Target) :
    (Target.markSent t).standing = (t.serverId, t.status.furthest .sent) := by
  unfold Target.markSent Target.standing TargetStatus.furthest
  split <;> rfl

theorem caughtUp_unpublished (h : l.WellFormed made) {rowId : UInt64}
    (hnone : ∀ row ∈ l.outbox, row.id ≠ rowId) : l.CaughtUp [.published rowId] l := by
  refine ⟨List.forall₂_same.2 fun e he => entryCaughtUp_self (h.settled e he) fun t _ => ?_, ?_,
    rfl⟩
  · rw [List.forall_mem_singleton, asks_unpublished hnone]
    exact Nat.zero_le _
  · exact (List.filter_eq_self.2 (by simpa using hnone)).symm

theorem caughtUp_published (h : l.WellFormed made) (hrow : row ∈ l.outbox) :
    l.CaughtUp [.published row.id] { l.mapEntry row.changeId (withSent row.serverId) with
      outbox := l.outbox.filter (·.id != row.id) } := by
  have hasks : ∀ i q, l.asks i q (.published row.id) =
      if row.changeId = i ∧ row.serverId = q then .sent else .pending :=
    fun i q => asks_published h.rowIds hrow
  refine caughtUp_mapEntry (fun e he hid => ?_)
    (fun e he hid => entryCaughtUp_self (h.settled e he) fun t _ => ?_) ?_
  · refine ⟨rfl, standing_mapTarget (fun t _ hs => ?_) (fun t _ hs => ?_),
      settled_withSent (h.settled e he) _⟩
    · rw [hasks, if_pos ⟨hid.symm, hs.symm⟩]
      exact furthest_markSent t
    · rw [hasks, if_neg fun hc => hs hc.2.symm]
      exact Nat.zero_le _
  · rw [List.forall_mem_singleton, hasks, if_neg fun hc => hid hc.1.symm]
    exact Nat.zero_le _
  · refine List.filter_congr fun r _ => ?_
    simp [bne, beq_eq_decide]

/-- A status that no target is asked for, or only one that has it, changes nothing. -/
theorem caughtUp_unmoved (h : l.WellFormed made) {status : TargetStatus}
    (hu : ∀ e ∈ l.entries, e.change.id = id → ∀ t ∈ e.targets, t.serverId = s →
      status.rank ≤ t.status.rank) : l.CaughtUp [.reached id s status] l := by
  refine ⟨List.forall₂_same.2 fun e he => entryCaughtUp_self (h.settled e he) fun t ht => ?_,
    by simp, rfl⟩
  rw [List.forall_mem_singleton]
  by_cases hc : id = e.change.id ∧ s = t.serverId
  · have hasks : l.asks e.change.id t.serverId (.reached id s status) = status := if_pos hc
    rw [hasks]
    exact hu e he hc.1.symm t ht hc.2.symm
  · have hasks : l.asks e.change.id t.serverId (.reached id s status) = .pending := if_neg hc
    rw [hasks]
    exact Nat.zero_le _

theorem caughtUp_moved (h : l.WellFormed made) (he : e ∈ l.entries) {t : Target}
    (ht : t ∈ e.targets) {status : TargetStatus} (hlt : t.status.rank < status.rank)
    (now : Stamp) : l.CaughtUp [.reached e.change.id t.serverId status]
      (l.mapEntry e.change.id (withStatus t.serverId status now)) := by
  have hother : ∀ i q, ¬ (e.change.id = i ∧ t.serverId = q) →
      l.asks i q (.reached e.change.id t.serverId status) = .pending := fun i q hc => if_neg hc
  refine caughtUp_mapEntry (fun e' he' hid => ?_)
    (fun e' he' hid => entryCaughtUp_self (h.settled e' he') ?_) (by simp)
  · obtain rfl := h.entry_unique he' he hid
    -- the change has one target at that server, so that none of those moved falls back
    have hup : ∀ t' ∈ e'.targets, t'.serverId = t.serverId → t'.status.rank < status.rank := by
      intro t' ht' hs
      rwa [h.target_unique he' ht' ht hs]
    refine ⟨(onward_withStatus now hup).change, ?_,
      settled_withStatus (h.settled e' he') now ht rfl hup⟩
    refine standing_mapTarget (fun t' ht' hs => ?_) (fun t' _ hs => ?_)
    · have hasks : l.asks e'.change.id t'.serverId (.reached e'.change.id t.serverId status) =
          status := if_pos ⟨rfl, hs.symm⟩
      rw [hasks, TargetStatus.furthest_of_lt (hup t' ht' hs)]
      rfl
    · rw [hother _ _ fun hc => hs hc.2.symm]
      exact Nat.zero_le _
  · intro t' _
    rw [List.forall_mem_singleton, hother _ _ fun hc => hid hc.1.symm]
    exact Nat.zero_le _

/-- An acknowledgment moves the target it is about, or there is none that it could move. -/
theorem advance_outcomes (h : l.WellFormed made) (ha : l.available = true) (id : ChangeId)
    (s : String) (status : TargetStatus) (now : Stamp) :
    (∃ e ∈ l.entries, e.change.id = id ∧ ∃ t ∈ e.targets, t.serverId = s ∧
        t.status.rank < status.rank ∧
        l.advance id s status now = .ok (true, l.mapEntry id (withStatus s status now))) ∨
      (∀ e ∈ l.entries, e.change.id = id → ∀ t ∈ e.targets, t.serverId = s →
          status.rank ≤ t.status.rank) ∧
        (l.advance id s status now = .ok (false, l) ∨
          ∃ error, l.advance id s status now = .error error) := by
  have ha' : ¬ (!l.available) = true := by simp [ha]
  unfold advance
  rw [if_neg ha']
  cases hf : l.entry? id with
  | none =>
    refine Or.inr ⟨fun e he hid => ?_, Or.inr ⟨_, rfl⟩⟩
    exact absurd hid (by simpa using List.find?_eq_none.1 hf e he)
  | some e =>
    have he : e ∈ l.entries := List.mem_of_find?_eq_some hf
    have hid : e.change.id = id := by simpa using List.find?_some hf
    have only : ∀ e' ∈ l.entries, e'.change.id = id → e' = e := fun e' he' hid' =>
      h.entry_unique he' he (hid'.trans hid.symm)
    simp only
    cases ht : e.targets.find? (·.serverId == s) with
    | none =>
      refine Or.inr ⟨fun e' he' hid' t ht' hs => ?_, Or.inr ⟨_, rfl⟩⟩
      rw [only e' he' hid'] at ht'
      exact absurd hs (by simpa using List.find?_eq_none.1 ht t ht')
    | some t =>
      have htm : t ∈ e.targets := List.mem_of_find?_eq_some ht
      have hs : t.serverId = s := by simpa using List.find?_some ht
      simp only
      by_cases hle : status.rank ≤ t.status.rank
      · rw [if_pos hle]
        refine Or.inr ⟨fun e' he' hid' t' ht' hs' => ?_, Or.inl rfl⟩
        rw [only e' he' hid'] at ht'
        rwa [h.target_unique he ht' htm (hs'.trans hs.symm)]
      · rw [if_neg hle]
        exact Or.inl ⟨e, he, hid, t, htm, hs, by omega, rfl⟩

/-- A confirmation takes a row out of the outbox, or there is none that it could take. -/
theorem markPublished_outcomes (ha : l.available = true) (rowId : UInt64) :
    (∃ row ∈ l.outbox, row.id = rowId ∧ l.markPublished rowId =
        .ok { l.mapEntry row.changeId (withSent row.serverId) with
          outbox := l.outbox.filter (·.id != rowId) }) ∨
      (∀ row ∈ l.outbox, row.id ≠ rowId) ∧ l.markPublished rowId = .ok l := by
  unfold markPublished ifAvailable
  rw [if_pos ha]
  cases hf : l.outbox.find? (·.id == rowId) with
  | none => exact Or.inr ⟨by simpa using List.find?_eq_none.1 hf, rfl⟩
  | some row =>
    exact Or.inl ⟨row, List.mem_of_find?_eq_some hf, by simpa using List.find?_some hf, rfl⟩

/-- **One update**: its target has the furthest of the status it had and the one asked for. -/
theorem caughtUp_call (h : l.WellFormed made) (ha : l.available = true) (u : Update)
    (now : Stamp) : l.CaughtUp [u] (l.call (u.call now)).2 := by
  cases u with
  | published rowId =>
    unfold Update.call call
    rcases markPublished_outcomes ha rowId with ⟨row, hrow, rfl, hm⟩ | ⟨hnone, hm⟩
    · simp only [hm]
      exact caughtUp_published h hrow
    · simp only [hm]
      exact caughtUp_unpublished h hnone
  | reached id s status =>
    unfold Update.call call
    rcases advance_outcomes h ha id s status now with ⟨e, he, rfl, t, ht, rfl, hlt, hadv⟩ |
      ⟨hu, hadv | ⟨error, hadv⟩⟩
    · simp only [hadv]
      exact caughtUp_moved h he ht hlt now
    · simp only [hadv]
      exact caughtUp_unmoved h hu
    · simp only [hadv]
      exact caughtUp_unmoved h hu

/-! ## Any updates -/

theorem update_cons (l : Ledger) (u : Update × Stamp) (us : List (Update × Stamp)) :
    l.update (u :: us) = (l.call (u.1.call u.2)).2.update us :=
  rfl

theorem creates_update (l : Ledger) (u : Update) (now : Stamp) :
    (u.call now).creates (l.call (u.call now)).1 = [] := by
  cases u <;> rfl

/-- An update leaves a ledger well formed. -/
theorem wellFormed_update (h : l.WellFormed made) (hroom : rowsFor made < UInt64.size)
    (u : Update) (now : Stamp) : (l.call (u.call now)).2.WellFormed made := by
  have hstep := step_call l (u.call now)
  rw [creates_update] at hstep
  have hw := (wellFormed_step h hstep (by rwa [List.append_nil])).1
  rwa [List.append_nil] at hw

theorem wellFormed_updates (h : l.WellFormed made) (hroom : rowsFor made < UInt64.size)
    (us : List (Update × Stamp)) : (l.update us).WellFormed made := by
  induction us generalizing l with
  | nil => exact h
  | cons u us ih => exact ih (wellFormed_update h hroom u.1 u.2)

/-- A ledger out of reach takes in no update. -/
theorem update_unreachable (ha : l.available = false) (us : List (Update × Stamp)) :
    l.update us = l := by
  induction us with
  | nil => rfl
  | cons u us ih =>
    have hcall : (l.call (u.1.call u.2)).2 = l := by
      obtain ⟨u, now⟩ := u
      cases u with
      | published rowId => simp [Update.call, call, markPublished_unreachable ha, transact]
      | reached id s status => simp [Update.call, call, advance, ha, transact]
    rw [update_cons, hcall, ih]

/-- **What updates come to**, in the order in which they are reported. -/
theorem caughtUp_update (h : l.WellFormed made) (hroom : rowsFor made < UInt64.size)
    (us : List (Update × Stamp)) : l.CaughtUp (l.heard us) (l.update us) := by
  unfold heard
  by_cases ha : l.available = true
  · rw [if_pos ha]
    -- no update puts the ledger out of reach, so that the next one is taken in too
    induction us generalizing l with
    | nil => exact caughtUp_refl h
    | cons u us ih =>
      have hone := caughtUp_call h ha u.1 u.2
      have hreach : (l.call (u.1.call u.2)).2.available = true := by
        rw [hone.rest]
        exact ha
      exact hone.trans (ih (wellFormed_update h hroom u.1 u.2) hreach)
  · rw [if_neg ha, update_unreachable (by simpa using ha)]
    exact caughtUp_refl h

/-! ## What is left open: the times -/

/-- Without the time, a target is known by its server and its status. -/
theorem undated_of_standing {t t' : Target} (h : t.standing = t'.standing)
    (ht : t.syncedAt.isSome ↔ t.status = .inSync)
    (ht' : t'.syncedAt.isSome ↔ t'.status = .inSync) : t.undated = t'.undated := by
  obtain ⟨s, status, synced⟩ := t
  obtain ⟨s', status', synced'⟩ := t'
  obtain ⟨rfl, rfl⟩ := Prod.mk.inj h
  have hsome : synced.isSome = synced'.isSome := Bool.eq_iff_iff.2 (ht.trans ht'.symm)
  unfold Target.undated
  cases synced <;> cases synced' <;> simp at hsome ⊢

theorem map_undated_of_standing {ts ts' : List Target}
    (h : ts.map Target.standing = ts'.map Target.standing)
    (hts : ∀ t ∈ ts, t.syncedAt.isSome ↔ t.status = .inSync)
    (hts' : ∀ t ∈ ts', t.syncedAt.isSome ↔ t.status = .inSync) :
    ts.map Target.undated = ts'.map Target.undated := by
  induction ts generalizing ts' with
  | nil =>
    rw [List.map_nil, eq_comm, List.map_eq_nil_iff] at h
    rw [h]
  | cons t ts ih =>
    cases ts' with
    | nil => cases h
    | cons t' ts' =>
      rw [List.forall_mem_cons] at hts hts'
      obtain ⟨h1, h2⟩ := List.cons.inj h
      rw [List.map_cons, List.map_cons, undated_of_standing h1 hts.1 hts'.1, ih h2 hts.2 hts'.2]

/-- A change is in sync or not by the statuses of its targets. -/
theorem status_of_standing (h : e.Settled) (h' : e'.Settled)
    (hst : e.targets.map Target.standing = e'.targets.map Target.standing) :
    e.change.status = e'.change.status := by
  have key : ∀ ts : List Target, (∀ t ∈ ts, t.status = .inSync) ↔
      ∀ p ∈ ts.map Target.standing, p.2 = .inSync := fun ts =>
    (List.forall_mem_map (f := Target.standing) (P := fun p => p.2 = .inSync)).symm
  have hiff : e.change.status = .inSync ↔ e'.change.status = .inSync := by
    rw [h.change, h'.change, key, key, hst]
  cases hs : e.change.status <;> cases hs' : e'.change.status <;> simp [hs, hs'] at hiff ⊢

theorem EntryCaughtUp.undated_eq (h : l.EntryCaughtUp us e e') (h' : l.EntryCaughtUp us e e'') :
    e'.undated = e''.undated := by
  -- servers and statuses say whether the change is in sync, and which targets have a time
  have hst : e'.targets.map Target.standing = e''.targets.map Target.standing :=
    h.targets.trans h'.targets.symm
  have hchange : e'.change = e''.change := by
    rw [h.change, h'.change, status_of_standing h.settled h'.settled hst]
  have htargets := map_undated_of_standing hst h.settled.targets h'.settled.targets
  unfold LedgerEntry.undated
  rw [hchange, htargets]

/-- **Updates leave nothing open but the times** of acknowledgments. -/
theorem CaughtUp.undated_eq (h : l.CaughtUp us l') (h' : l.CaughtUp us l'') :
    l'.undated = l''.undated := by
  have hboth : List.Forall₂ (fun e' e'' => e'.undated = e''.undated) l'.entries l''.entries :=
    forall₂_comp (fun _ _ _ h1 h2 => h1.undated_eq h2) h.entries.flip h'.entries
  have hentries : l'.entries.map LedgerEntry.undated = l''.entries.map LedgerEntry.undated := by
    rw [← List.forall₂_eq_eq_eq, List.forall₂_map_left_iff, List.forall₂_map_right_iff]
    exact hboth
  have houtbox : l'.outbox = l''.outbox := h.outbox.trans h'.outbox.symm
  unfold undated
  rw [hentries, h.rest, h'.rest, houtbox]

/-! ## What is answered -/

theorem lookup_standing {f : String → TargetStatus → TargetStatus} (ts : List Target) :
    (ts.map fun t => (t.serverId, f t.serverId t.status)).lookup s =
      ((ts.map Target.standing).lookup s).map (f s) := by
  induction ts with
  | nil => rfl
  | cons t ts ih =>
    rw [List.map_cons, List.map_cons, Target.standing, List.lookup_cons, List.lookup_cons, ih]
    cases hs : s == t.serverId with
    | true =>
      rw [← beq_iff_eq.1 hs]
      rfl
    | false => rfl

/-- **Each target has the furthest status** of the one it had and those asked for. -/
theorem CaughtUp.status?_eq (h : l.CaughtUp us l') (id : ChangeId) (s : String) :
    l'.status? id s = (l.status? id s).map (l.furthestAsked us id s) := by
  have key : ∀ {es es' : List LedgerEntry}, List.Forall₂ (l.EntryCaughtUp us) es es' →
      ((es'.find? (·.change.id == id)).bind fun e => (e.targets.map Target.standing).lookup s) =
        ((es.find? (·.change.id == id)).bind fun e =>
          (e.targets.map Target.standing).lookup s).map (l.furthestAsked us id s) := by
    intro es es' h1
    induction h1 with
    | nil => rfl
    | @cons e e' _ _ h1 _ ih =>
      rw [List.find?_cons, List.find?_cons, h1.same_id]
      by_cases hid : e.change.id = id
      · simp only [hid, beq_self_eq_true, Option.bind_some]
        rw [h1.targets, lookup_standing, hid]
      · have hne : (e.change.id == id) = false := by simpa using hid
        simp only [hne, ih]
  exact key h.entries

theorem status?_of_mem (h : l.WellFormed made) (he : e ∈ l.entries) {t : Target}
    (ht : t ∈ e.targets) : l.status? e.change.id t.serverId = some t.status := by
  have hentry : l.entry? e.change.id = some e := by
    cases hf : l.entry? e.change.id with
    | none => exact absurd (List.find?_eq_none.1 hf e he) (by simp)
    | some e' =>
      have hid : e'.change.id = e.change.id := by simpa using List.find?_some hf
      rw [h.entry_unique (List.mem_of_find?_eq_some hf) he hid]
  unfold status?
  rw [hentry, Option.bind_some]
  cases hl : (e.targets.map Target.standing).lookup t.serverId with
  | none =>
    rw [List.lookup_eq_none_iff] at hl
    exact absurd (hl _ (List.mem_map_of_mem ht)) (by simp [Target.standing])
  | some status =>
    obtain ⟨l1, l2, hmem, -⟩ := List.lookup_eq_some_iff.1 hl
    have hin : (t.serverId, status) ∈ e.targets.map Target.standing := by
      rw [hmem]
      simp
    obtain ⟨t', ht', hst⟩ := List.mem_map.1 hin
    obtain ⟨hs, hstatus⟩ := Prod.mk.inj hst
    rw [← h.target_unique he ht' ht hs, hstatus]

/-- **An update is said to have moved a target exactly when it has.** -/
theorem moved_iff (h : l.WellFormed made) (id : ChangeId) (s : String) (status : TargetStatus)
    (now : Stamp) :
    (l.call (.advance id s status now)).1 = .ok (.moved true) ↔
      ∃ a b, l.status? id s = some a ∧
        (l.call (.advance id s status now)).2.status? id s = some b ∧ a.rank < b.rank := by
  -- a call that leaves the ledger as it is has moved nothing
  have unmoved : ∀ {reply}, l.call (.advance id s status now) = (reply, l) →
      reply ≠ .ok (.moved true) →
      ((l.call (.advance id s status now)).1 = .ok (.moved true) ↔
        ∃ a b, l.status? id s = some a ∧
          (l.call (.advance id s status now)).2.status? id s = some b ∧ a.rank < b.rank) := by
    intro reply hcall hreply
    rw [hcall]
    refine iff_of_false hreply ?_
    rintro ⟨a, b, ha, hb, hlt⟩
    rw [Option.some.inj (ha.symm.trans hb)] at hlt
    exact Nat.lt_irrefl _ hlt
  by_cases ha : l.available = true
  · rcases advance_outcomes h ha id s status now with ⟨e, he, rfl, t, ht, rfl, hlt, hadv⟩ |
      ⟨-, hadv | ⟨error, hadv⟩⟩
    · have hcall : l.call (.advance e.change.id t.serverId status now) = (.ok (.moved true),
          l.mapEntry e.change.id (withStatus t.serverId status now)) := by
        simp only [call, hadv]
        rfl
      have hold := status?_of_mem h he ht
      have hnew := (caughtUp_moved h he ht hlt now).status?_eq e.change.id t.serverId
      have hasks : l.asks e.change.id t.serverId (.reached e.change.id t.serverId status) =
          status := if_pos ⟨rfl, rfl⟩
      have hmoved : l.furthestAsked [.reached e.change.id t.serverId status] e.change.id
          t.serverId t.status = status := by
        show t.status.furthest _ = _
        rw [hasks, TargetStatus.furthest_of_lt hlt]
      rw [hold, Option.map_some, hmoved] at hnew
      rw [hcall]
      exact iff_of_true rfl ⟨t.status, status, hold, hnew, hlt⟩
    · exact unmoved (by simp only [call, hadv]; rfl) (by simp)
    · exact unmoved (by simp only [call, hadv]; rfl) (by simp)
  · exact unmoved (by simp [call, advance, ha, transact]; rfl) (by simp)

/-- **Updates are confluent.** Two reports of the same updates, in whatever order and with whatever
repetitions, leave a ledger the same but for the times of acknowledgments: the rows that were
published have left the outbox, each target has the furthest of the status it had and those asked
for, and a change is in sync if all its targets are. All the while, an acknowledgment is said to
have moved a target exactly when it has. -/
theorem updates_confluent (calls : List Call) (hroom : rowsFor (empty.created calls) < UInt64.size)
    (us vs : List (Update × Stamp)) (hsame : ∀ u, u ∈ us.map (·.1) ↔ u ∈ vs.map (·.1)) :
    ((empty.run calls).update us).undated = ((empty.run calls).update vs).undated ∧
      (empty.run calls).CaughtUp ((empty.run calls).heard us) ((empty.run calls).update us) ∧
      ∀ id s status now,
        (((empty.run calls).update us).call (.advance id s status now)).1 = .ok (.moved true) ↔
          ∃ a b, ((empty.run calls).update us).status? id s = some a ∧
            (((empty.run calls).update us).call (.advance id s status now)).2.status? id s =
              some b ∧ a.rank < b.rank := by
  obtain ⟨hw, -⟩ := wellFormed_calls wellFormed_empty calls hroom
  rw [List.nil_append] at hw
  have hheard : ∀ u, u ∈ (empty.run calls).heard us ↔ u ∈ (empty.run calls).heard vs := by
    intro u
    unfold heard
    split
    · exact hsame u
    · rfl
  have hus := caughtUp_update hw hroom us
  have hvs := caughtUp_update hw hroom vs
  have hafter : ((empty.run calls).update us).WellFormed (empty.created calls) :=
    wellFormed_updates hw hroom us
  exact ⟨(hus.congr hheard).undated_eq hvs, hus, fun id s status now =>
    moved_iff hafter id s status now⟩

/-- A change for two servers. -/
def forTwo : List Call :=
  [.create ⟨0, .zone, some ⟨"example.com.", .create, []⟩, none,
    ⟨⟨2024, 1, 5, 0, 0, 0, 0⟩, by decide⟩, .pending⟩ [⟨"ns1", "node.ns1"⟩, ⟨"ns2", "node.ns2"⟩]]

/-- One message is confirmed, and both servers acknowledge. -/
def prompt : List (Update × Stamp) :=
  [(.published 1, 3), (.reached 1 "ns1" .inSync, 5), (.reached 1 "ns2" .inSync, 8)]

/-- The same, but the confirmation is late and one acknowledgment comes twice. -/
def belated : List (Update × Stamp) :=
  [(.reached 1 "ns2" .inSync, 4), (.reached 1 "ns1" .inSync, 6), (.published 1, 7),
    (.reached 1 "ns2" .inSync, 9)]

/-- Both times the change is in sync and the message of the second server waits; only the times of
the acknowledgments differ. -/
theorem confluent_belated :
    rowsFor (empty.created forTwo) < UInt64.size ∧
      (∀ u, u ∈ prompt.map (·.1) ↔ u ∈ belated.map (·.1)) ∧
      ((empty.run forTwo).update prompt).undated = ((empty.run forTwo).update belated).undated ∧
      (empty.run forTwo).update prompt ≠ (empty.run forTwo).update belated ∧
      ((empty.run forTwo).update belated).outbox.map (·.serverId) = ["ns2"] ∧
      ((empty.run forTwo).update belated).entries.map (·.change.status) = [.inSync] := by
  have hroom : rowsFor (empty.created forTwo) < UInt64.size := by decide +kernel
  have hsame : ∀ u, u ∈ prompt.map (·.1) ↔ u ∈ belated.map (·.1) := by
    intro u
    simp only [prompt, belated, List.map_cons, List.map_nil, List.mem_cons, List.not_mem_nil,
      or_false]
    tauto
  exact ⟨hroom, hsame, (updates_confluent forTwo hroom prompt belated hsame).1, by decide +kernel,
    by decide +kernel, by decide +kernel⟩

end Ledger

end ZoneRelay
