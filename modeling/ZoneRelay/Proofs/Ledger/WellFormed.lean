import ZoneRelay.Proofs.Change.Wire
import ZoneRelay.Proofs.Ledger.Calls
import ZoneRelay.Proofs.Success

/-!
# What a ledger is after any calls

The tables of a ledger fit each other whatever is asked of it, and whatever fails.

* `LedgerEntry.Onward`: an entry has kept its change and its servers, and no target has moved back.
* `Ledger.WellFormed`: the tables fit each other and the changes created so far.
* `Ledger.Onward`: what becomes of the entries that are there.
* `Ledger.wellFormed_step`: what one call preserves.
* `Ledger.wellFormed_run`: every ledger that calls lead to is well formed.
-/

namespace ZoneRelay

/-- A change is in sync as soon as all its targets are, and targets have the time at which they came
to be so. -/
structure LedgerEntry.Settled (e : LedgerEntry) : Prop where
  change : e.change.status = .inSync ↔ ∀ t ∈ e.targets, t.status = .inSync
  targets : ∀ t ∈ e.targets, t.syncedAt.isSome ↔ t.status = .inSync

/-- An entry is that of a creation. -/
structure LedgerEntry.Tracks (e : LedgerEntry) (x : Creation) : Prop where
  change : e.change = { x.change with status := e.change.status }
  servers : ∀ s, s ∈ e.targets.map (·.serverId) ↔ s ∈ x.targets.map (·.serverId)
  distinct : (e.targets.map (·.serverId)).Nodup
  targeted : e.targets ≠ []

/-- An outbox row is that of a creation, for one of its targets. -/
structure OutboxRow.Carries (row : OutboxRow) (x : Creation) : Prop where
  change : row.changeId = x.change.id
  target : ⟨row.serverId, row.routeKey⟩ ∈ x.targets
  payload : Change.decode? row.payload = some x.change

/-- An outbox row is for a target of an entry. -/
structure OutboxRow.Serves (row : OutboxRow) (e : LedgerEntry) : Prop where
  change : row.changeId = e.change.id
  target : row.serverId ∈ e.targets.map (·.serverId)

/-- A target has stayed where it is or moved forward. -/
structure Target.Onward (t t' : Target) : Prop where
  server : t'.serverId = t.serverId
  status : t.status.rank ≤ t'.status.rank

/-- An entry has kept its change and its servers, and no target has moved back. -/
structure LedgerEntry.Onward (e e' : LedgerEntry) : Prop where
  change : e'.change = { e.change with status := e'.change.status }
  targets : List.Forall₂ Target.Onward e.targets e'.targets

theorem Target.Onward.refl (t : Target) : t.Onward t :=
  ⟨rfl, le_rfl⟩

theorem Target.Onward.trans {t t' t'' : Target} (h : t.Onward t') (h' : t'.Onward t'') :
    t.Onward t'' :=
  ⟨h'.server.trans h.server, h.status.trans h'.status⟩

/-- Lists that are related member by member in two steps are so in one. -/
theorem forall₂_comp {α β γ : Type} {R : α → β → Prop} {S : β → γ → Prop} {T : α → γ → Prop}
    (hT : ∀ a b c, R a b → S b c → T a c) {as : List α} {bs : List β} {cs : List γ}
    (h : List.Forall₂ R as bs) (h' : List.Forall₂ S bs cs) : List.Forall₂ T as cs := by
  induction h generalizing cs with
  | nil =>
    cases h'
    exact .nil
  | cons h1 _ ih =>
    cases h' with
    | cons h2 h3 => exact .cons (hT _ _ _ h1 h2) (ih h3)

/-! ## Lists of targets that move forward -/

theorem Target.servers_of_forall₂ {ts ts' : List Target} (h : List.Forall₂ Target.Onward ts ts') :
    ts'.map (·.serverId) = ts.map (·.serverId) := by
  induction h with
  | nil => rfl
  | cons h1 _ ih => rw [List.map_cons, List.map_cons, h1.server, ih]

namespace LedgerEntry.Onward

variable {e e' e'' : LedgerEntry}

theorem refl (e : LedgerEntry) : e.Onward e :=
  ⟨rfl, List.forall₂_same.2 fun t _ => .refl t⟩

theorem trans (h : e.Onward e') (h' : e'.Onward e'') : e.Onward e'' where
  change := by rw [h'.change, h.change]
  targets := forall₂_comp (fun _ _ _ h1 h2 => h1.trans h2) h.targets h'.targets

theorem id (h : e.Onward e') : e'.change.id = e.change.id := by
  rw [h.change]

theorem servers (h : e.Onward e') : e'.targets.map (·.serverId) = e.targets.map (·.serverId) :=
  Target.servers_of_forall₂ h.targets

end LedgerEntry.Onward

/-- An entry that has moved forward is that of the same creation. -/
theorem LedgerEntry.Tracks.onward {e e' : LedgerEntry} {x : Creation} (h : e.Tracks x)
    (h' : e.Onward e') : e'.Tracks x where
  change := by rw [h'.change, h.change]
  servers s := by rw [h'.servers, h.servers]
  distinct := h'.servers ▸ h.distinct
  targeted := by
    have h1 := h'.servers
    have h2 := h.targeted
    intro h3
    rw [h3, List.map_nil, eq_comm, List.map_eq_nil_iff] at h1
    exact h2 h1

namespace Ledger

variable {l l' l'' : Ledger} {made new : List Creation} {id : ChangeId} {s : String}
  {e : LedgerEntry}

/-! ## What holds of a ledger -/

/-- The tables of a ledger fit each other and the changes created so far. -/
structure WellFormed (l : Ledger) (made : List Creation) : Prop where
  targeted : ∀ x ∈ made, x.targets ≠ []
  rising : made.Pairwise (·.change.id < ·.change.id)
  lastChange : ∀ x ∈ made, x.change.id ≤ l.lastChangeId
  /-- Identities are given out one by one, so they do not run out before rows do. -/
  changeCount : l.lastChangeId.toNat = made.length
  rowCount : l.lastRowId.toNat = rowsFor made
  entries : ∀ e ∈ l.entries, ∃ x ∈ made, e.Tracks x
  settled : ∀ e ∈ l.entries, e.Settled
  distinct : (l.entries.map (·.change.id)).Nodup
  rows : ∀ row ∈ l.outbox, ∃ e ∈ l.entries, row.Serves e
  payloads : ∀ row ∈ l.outbox, ∃ x ∈ made, row.Carries x
  rowIds : (l.outbox.map (·.id)).Nodup
  lastRow : ∀ row ∈ l.outbox, row.id ≤ l.lastRowId
  pending : ∀ e ∈ l.entries, ∀ t ∈ e.targets, t.status = .pending →
    ∃ row ∈ l.outbox, row.changeId = e.change.id ∧ row.serverId = t.serverId

/-- What becomes of the entries of a ledger: those that are left have moved forward, and none that
is gone comes back. -/
structure Onward (l l' : Ledger) : Prop where
  lastChange : l.lastChangeId ≤ l'.lastChangeId
  entries : ∀ e' ∈ l'.entries, e'.change.id ≤ l.lastChangeId → ∃ e ∈ l.entries, e.Onward e'

theorem wellFormed_empty : empty.WellFormed [] := by
  constructor <;> simp [empty, rowsFor]

theorem WellFormed.entry_unique (h : l.WellFormed made) {e' : LedgerEntry} (he : e ∈ l.entries)
    (he' : e' ∈ l.entries) (hid : e.change.id = e'.change.id) : e = e' :=
  List.inj_on_of_nodup_map h.distinct he he' hid

theorem WellFormed.target_unique (h : l.WellFormed made) (he : e ∈ l.entries) {t t' : Target}
    (ht : t ∈ e.targets) (ht' : t' ∈ e.targets) (hs : t.serverId = t'.serverId) : t = t' := by
  obtain ⟨x, -, hx⟩ := h.entries e he
  exact List.inj_on_of_nodup_map hx.distinct ht ht' hs

theorem WellFormed.id_le (h : l.WellFormed made) (he : e ∈ l.entries) :
    e.change.id ≤ l.lastChangeId := by
  obtain ⟨x, hx, hr⟩ := h.entries e he
  rw [hr.change]
  exact h.lastChange x hx

/-! ## Moving forward -/

theorem Onward.refl (l : Ledger) : l.Onward l :=
  ⟨UInt64.le_refl _, fun e he _ => ⟨e, he, .refl e⟩⟩

theorem Onward.trans (h : l.Onward l') (h' : l'.Onward l'') : l.Onward l'' := by
  refine ⟨UInt64.le_trans h.lastChange h'.lastChange, fun e'' he'' hid => ?_⟩
  obtain ⟨e', he', h1⟩ := h'.entries e'' he'' (UInt64.le_trans hid h.lastChange)
  obtain ⟨e, he, h2⟩ := h.entries e' he' (h1.id ▸ hid)
  exact ⟨e, he, h2.trans h1⟩

/-- Targets of one server that move forward, among those of an entry. -/
theorem onward_mapTarget {g : Target → Target} {ts : List Target}
    (hg : ∀ t ∈ ts, t.serverId = s → t.Onward (g t)) :
    List.Forall₂ Target.Onward ts (mapTarget s g ts) := by
  unfold mapTarget
  refine List.forall₂_map_right_iff.2 (List.forall₂_same.2 fun t ht => ?_)
  split
  · next hs => exact hg t ht hs
  · exact .refl t

theorem onward_withSent (s : String) (e : LedgerEntry) : e.Onward (withSent s e) := by
  refine ⟨rfl, onward_mapTarget fun t _ _ => ⟨markSent_serverId t, ?_⟩⟩
  unfold Target.markSent
  split
  · next h => exact Nat.le_of_lt h
  · exact le_rfl

theorem settled_withSent (h : e.Settled) (s : String) : (withSent s e).Settled := by
  refine ⟨h.change.trans ⟨whole_mapTarget fun t => (markSent_inSync t).2, fun h1 t ht => ?_⟩,
    fun t' ht' => ?_⟩
  · have h2 := h1 _ (List.mem_map_of_mem ht)
    split at h2
    · exact (markSent_inSync t).1 h2
    · exact h2
  · obtain ⟨t, ht, rfl⟩ := List.mem_map.1 ht'
    split
    · rw [markSent_inSync, ← h.targets t ht]
      unfold Target.markSent
      split <;> rfl
    · exact h.targets t ht

theorem onward_withStatus {status : TargetStatus} (now : Stamp)
    (hup : ∀ t ∈ e.targets, t.serverId = s → t.status.rank < status.rank) :
    e.Onward (withStatus s status now e) where
  change := by
    unfold withStatus LedgerEntry.settle
    simp only
    split <;> rfl
  targets := onward_mapTarget fun t ht hs => ⟨rfl, Nat.le_of_lt (hup t ht hs)⟩

theorem settled_withStatus (h : e.Settled) {status : TargetStatus} (now : Stamp) {t : Target}
    (ht : t ∈ e.targets) (hs : t.serverId = s)
    (hup : ∀ t ∈ e.targets, t.serverId = s → t.status.rank < status.rank) :
    (withStatus s status now e).Settled := by
  -- a target that can still move forward is not in sync, so neither was the change
  have hopen : e.change.status ≠ .inSync := by
    intro h1
    have h2 := hup t ht hs
    rw [h.change.1 h1 t ht] at h2
    cases status <;> simp [TargetStatus.rank] at h2
  constructor
  · unfold withStatus LedgerEntry.settle
    simp only [List.all_eq_true, beq_iff_eq]
    split
    · next hall => exact ⟨fun _ => hall, fun _ => rfl⟩
    · next hall => exact ⟨fun h1 => absurd h1 hopen, fun h1 => absurd h1 hall⟩
  · intro t' ht'
    obtain ⟨t, ht, rfl⟩ := List.mem_map.1 ht'
    split
    · next hs =>
      have h1 := hup t ht hs
      have h2 : t.status ≠ .inSync := by
        intro h2
        rw [h2] at h1
        cases status <;> simp [TargetStatus.rank] at h1
      have h3 := h.targets t ht
      unfold Target.raise
      simp only
      split
      · next h4 => simp [h4]
      · next h4 => exact ⟨fun h5 => absurd (h3.1 h5) h2, fun h5 => absurd h5 h4⟩
    · exact h.targets t ht

/-! ## What a step preserves -/

theorem wellFormed_mapEntry (h : l.WellFormed made) {f : LedgerEntry → LedgerEntry}
    (hf : ∀ e ∈ l.entries, e.change.id = id → e.Onward (f e) ∧ (f e).Settled) :
    (l.mapEntry id f).WellFormed made ∧ l.Onward (l.mapEntry id f) := by
  have key : ∀ e' ∈ (l.mapEntry id f).entries, ∃ e ∈ l.entries, e.Onward e' ∧ e'.Settled := by
    intro e' he'
    obtain ⟨e, he, rfl⟩ := List.mem_map.1 he'
    refine ⟨e, he, ?_⟩
    split
    · next hid => exact hf e he hid
    · exact ⟨.refl e, h.settled e he⟩
  have moved : ∀ e ∈ l.entries, ∃ e' ∈ (l.mapEntry id f).entries, e.Onward e' := by
    intro e he
    refine ⟨_, List.mem_map_of_mem he, ?_⟩
    split
    · next hid => exact (hf e he hid).1
    · exact .refl e
  refine ⟨{ h with entries := fun e' he' => ?_, settled := fun e' he' => ?_, distinct := ?_
                   rows := fun row hrow => ?_, pending := fun e' he' t' ht' hst => ?_ },
    UInt64.le_refl _, fun e' he' _ => ?_⟩
  · obtain ⟨e, he, h1, -⟩ := key e' he'
    obtain ⟨x, hx, hr⟩ := h.entries e he
    exact ⟨x, hx, hr.onward h1⟩
  · obtain ⟨e, he, -, h2⟩ := key e' he'
    exact h2
  · have h1 : (l.mapEntry id f).entries.map (·.change.id) = l.entries.map (·.change.id) := by
      unfold mapEntry
      rw [List.map_map]
      refine List.map_congr_left fun e he => ?_
      show (if e.change.id = id then f e else e).change.id = _
      split
      · next hid => exact (hf e he hid).1.id
      · rfl
    rw [h1]
    exact h.distinct
  · obtain ⟨e, he, h1⟩ := h.rows row hrow
    obtain ⟨e', he', h2⟩ := moved e he
    exact ⟨e', he', h1.change.trans h2.id.symm, h2.servers ▸ h1.target⟩
  · -- what is pending now was pending before
    obtain ⟨e, he, h1, -⟩ := key e' he'
    obtain ⟨t, ht, h2⟩ := exists_of_forall₂ h1.targets ht'
    have hst0 : t.status = .pending := by
      have h3 := h2.status
      rw [hst] at h3
      revert h3
      cases t.status <;> simp [TargetStatus.rank]
    obtain ⟨row, hrow, h4, h5⟩ := h.pending e he t ht hst0
    exact ⟨row, hrow, h4.trans h1.id.symm, h5.trans h2.server.symm⟩
  · obtain ⟨e, he, h1, -⟩ := key e' he'
    exact ⟨e, he, h1⟩

theorem wellFormed_advanced (h : l.WellFormed made) (he : e ∈ l.entries) {t : Target}
    (ht : t ∈ e.targets) {status : TargetStatus} (hstatus : t.status.rank < status.rank)
    (now : Stamp) : (l.mapEntry e.change.id (withStatus t.serverId status now)).WellFormed made ∧
      l.Onward (l.mapEntry e.change.id (withStatus t.serverId status now)) := by
  refine wellFormed_mapEntry h fun e' he' hid => ?_
  have hee : e' = e := h.entry_unique he' he hid
  subst hee
  have hup : ∀ t' ∈ e'.targets, t'.serverId = t.serverId → t'.status.rank < status.rank := by
    intro t' ht' hs
    rw [h.target_unique he ht' ht hs]
    exact hstatus
  exact ⟨onward_withStatus now hup, settled_withStatus (h.settled e' he) now ht rfl hup⟩

theorem wellFormed_published (h : l.WellFormed made) {row : OutboxRow} (hrow : row ∈ l.outbox) :
    WellFormed { l.mapEntry row.changeId (withSent row.serverId) with
        outbox := l.outbox.filter (·.id != row.id) } made ∧
      l.Onward { l.mapEntry row.changeId (withSent row.serverId) with
        outbox := l.outbox.filter (·.id != row.id) } := by
  have hsent : ∀ e ∈ l.entries, e.change.id = row.changeId →
      e.Onward (withSent row.serverId e) ∧ (withSent row.serverId e).Settled :=
    fun e he _ => ⟨onward_withSent _ e, settled_withSent (h.settled e he) _⟩
  obtain ⟨hw, ho⟩ := wellFormed_mapEntry h hsent
  have mem : ∀ {r}, r ∈ l.outbox.filter (·.id != row.id) → r ∈ l.outbox :=
    fun hr => (List.mem_filter.1 hr).1
  refine ⟨{ hw with rows := fun r hr => hw.rows r (mem hr)
                    payloads := fun r hr => hw.payloads r (mem hr)
                    rowIds := h.rowIds.sublist (List.Sublist.map _ List.filter_sublist)
                    lastRow := fun r hr => hw.lastRow r (mem hr)
                    pending := fun e he t ht hst => ?_ }, ho.lastChange, ho.entries⟩
  obtain ⟨r, hr, hid, hs⟩ := hw.pending e he t ht hst
  refine ⟨r, List.mem_filter.2 ⟨hr, ?_⟩, hid, hs⟩
  rw [bne_iff_ne]
  intro hrr
  -- the row taken out is not that of a pending target: its target was marked as sent
  have hrr : r = row := List.inj_on_of_nodup_map h.rowIds hr hrow hrr
  subst hrr
  obtain ⟨e0, he0, rfl⟩ := List.mem_map.1 he
  have hid0 : e0.change.id = r.changeId := by
    rw [hid]
    split <;> rfl
  rw [if_pos hid0] at ht
  obtain ⟨t0, ht0, rfl⟩ := List.mem_map.1 ht
  have hs0 : t0.serverId = r.serverId := by
    rw [hs]
    split
    · exact (markSent_serverId t0).symm
    · rfl
  rw [if_pos hs0] at hst
  revert hst
  unfold Target.markSent
  cases h1 : t0.status <;> simp [TargetStatus.rank, h1]

theorem wellFormed_purged (h : l.WellFormed made) (cutoff : Stamp) :
    WellFormed { l with
        entries := l.entries.filter fun e => !isExpired cutoff e
        outbox := l.outbox.filter fun r =>
          !((l.entries.filter (isExpired cutoff)).map (·.change.id)).contains r.changeId } made ∧
      l.Onward { l with
        entries := l.entries.filter fun e => !isExpired cutoff e
        outbox := l.outbox.filter fun r =>
          !((l.entries.filter (isExpired cutoff)).map (·.change.id)).contains r.changeId } := by
  have mem : ∀ {e}, e ∈ l.entries.filter (fun e => !isExpired cutoff e) →
      e ∈ l.entries ∧ isExpired cutoff e = false := by
    intro e he
    simpa using List.mem_filter.1 he
  -- a row goes if and only if its entry does
  have row_iff : ∀ {r : OutboxRow} {e}, e ∈ l.entries → r.changeId = e.change.id →
      ((!((l.entries.filter (isExpired cutoff)).map (·.change.id)).contains r.changeId) = true ↔
        isExpired cutoff e = false) := by
    intro r e he hid
    simp only [Bool.not_eq_true', List.contains_eq_mem, decide_eq_false_iff_not, List.mem_map,
      List.mem_filter, not_exists, not_and, and_imp]
    constructor
    · intro h1
      by_contra h2
      exact h1 e he (by simpa using h2) hid.symm
    · intro h1 e' he' hx hid'
      rw [h.entry_unique he' he (hid'.trans hid), h1] at hx
      cases hx
  refine ⟨{ h with entries := fun e he => h.entries e (mem he).1
                   settled := fun e he => h.settled e (mem he).1
                   distinct := h.distinct.sublist (List.Sublist.map _ List.filter_sublist)
                   rows := fun r hr => ?_
                   payloads := fun r hr => h.payloads r (List.mem_filter.1 hr).1
                   rowIds := h.rowIds.sublist (List.Sublist.map _ List.filter_sublist)
                   lastRow := fun r hr => h.lastRow r (List.mem_filter.1 hr).1
                   pending := fun e he t ht hst => ?_ },
    UInt64.le_refl _, fun e he _ => ⟨e, (mem he).1, .refl e⟩⟩
  · obtain ⟨h1, h2⟩ := List.mem_filter.1 hr
    obtain ⟨e, he, h3⟩ := h.rows r h1
    have h4 := (row_iff he h3.change).1 h2
    exact ⟨e, List.mem_filter.2 ⟨he, by simpa using h4⟩, h3⟩
  · obtain ⟨he0, hx⟩ := mem he
    obtain ⟨r, hr, hid, hs⟩ := h.pending e he0 t ht hst
    exact ⟨r, List.mem_filter.2 ⟨hr, (row_iff he0 hid).2 hx⟩, hid, hs⟩

theorem length_le_rowsFor (h : ∀ x ∈ made, x.targets ≠ []) : made.length ≤ rowsFor made := by
  induction made with
  | nil => exact le_rfl
  | cons x made ih =>
    have h1 : 0 < x.targets.length := List.length_pos_iff.2 (h x List.mem_cons_self)
    have h2 := ih fun y hy => h y (List.mem_cons_of_mem _ hy)
    rw [List.length_cons, rowsFor]
    omega

theorem newTargets_syncedAt (targets : List NewTarget) :
    ∀ t ∈ newTargets targets, t.syncedAt = none := by
  have key : ∀ ts : List Target, (∀ t ∈ ts, t.syncedAt = none) →
      ∀ t ∈ targets.foldl (fun ts t => insertTarget t.serverId ts) ts, t.syncedAt = none := by
    induction targets with
    | nil => exact fun _ h => h
    | cons y r ih =>
      intro ts h
      refine ih _ fun t ht => ?_
      rcases mem_insertTarget ht with rfl | ht
      · rfl
      · exact h t ht
  exact key [] (by simp)

/-- A new entry is that of its creation, and nobody has acknowledged it. -/
theorem tracks_record (l : Ledger) (change : Change) {targets : List NewTarget}
    (hne : targets ≠ []) :
    LedgerEntry.Tracks ⟨(l.record change targets).1, newTargets targets⟩
        ⟨(l.record change targets).1, targets⟩ ∧
      LedgerEntry.Settled ⟨(l.record change targets).1, newTargets targets⟩ := by
  obtain ⟨h1, h2, h3⟩ := newTargets_spec targets
  have hfresh : ∀ t ∈ newTargets targets, t.syncedAt = none := newTargets_syncedAt targets
  have hsome : newTargets targets ≠ [] := by
    intro h4
    obtain ⟨t, ht⟩ := List.exists_mem_of_ne_nil _ hne
    have h5 := (h3 t.serverId).2 (List.mem_map_of_mem ht)
    rw [h4] at h5
    cases h5
  refine ⟨⟨rfl, h3, h1, hsome⟩, ⟨?_, fun t ht => ?_⟩⟩
  · constructor
    · intro h4
      cases h4
    · intro h4
      obtain ⟨t, ht⟩ := List.exists_mem_of_ne_nil _ hsome
      cases (h2 t ht).symm.trans (h4 t ht)
  · rw [hfresh t ht, h2 t ht]
    simp

/-- As long as there is room for the rows, no counter starts over. -/
theorem WellFormed.counters (h : l.WellFormed made) {targets : List NewTarget} (hne : targets ≠ [])
    (hroom : l.lastRowId.toNat + targets.length < UInt64.size) :
    (l.lastChangeId + 1).toNat = l.lastChangeId.toNat + 1 ∧
      (l.lastRowId + UInt64.ofNat targets.length).toNat =
        l.lastRowId.toNat + targets.length := by
  have hpos : 0 < targets.length := List.length_pos_iff.2 hne
  -- every change has a row, so there are no more changes than rows
  have hle : l.lastChangeId.toNat ≤ l.lastRowId.toNat := by
    rw [h.changeCount, h.rowCount]
    exact length_le_rowsFor h.targeted
  constructor
  · have h1 : l.lastChangeId.toNat + 1 < UInt64.size := by omega
    rw [UInt64.toNat_add]
    exact Nat.mod_eq_of_lt h1
  · rw [UInt64.toNat_add, UInt64.toNat_ofNat_of_lt' (by omega)]
    exact Nat.mod_eq_of_lt hroom

theorem wellFormed_created (h : l.WellFormed made) (change : Change) {targets : List NewTarget}
    (hne : targets ≠ [])
    (hroom : rowsFor (made ++ [⟨(l.record change targets).1, targets⟩]) < UInt64.size) :
    (l.record change targets).2.WellFormed (made ++ [⟨(l.record change targets).1, targets⟩]) ∧
      l.Onward (l.record change targets).2 := by
  have hrows : l.lastRowId.toNat + targets.length < UInt64.size := by
    rw [rowsFor_append, ← h.rowCount] at hroom
    simpa [rowsFor] using hroom
  obtain ⟨hid, hlast⟩ := h.counters hne hrows
  have hlt : l.lastChangeId < l.lastChangeId + 1 := by
    rw [UInt64.lt_iff_toNat_lt]
    omega
  obtain ⟨hnew, hnodup, hall⟩ := newRows_spec (l.record change targets).1 targets l.lastRowId hrows
  obtain ⟨htracks, hsettled⟩ := tracks_record l change hne
  have hentries : (l.record change targets).2.entries =
      l.entries ++ [⟨(l.record change targets).1, newTargets targets⟩] := rfl
  have houtbox : (l.record change targets).2.outbox =
      l.outbox ++ newRows (l.record change targets).1 l.lastRowId targets := rfl
  refine ⟨{ targeted := ?targeted, rising := ?rising, lastChange := ?lastChange
            changeCount := ?changeCount, rowCount := ?rowCount, entries := ?entries
            settled := ?settled, distinct := ?distinct, rows := ?rows, payloads := ?payloads
            rowIds := ?rowIds, lastRow := ?lastRow, pending := ?pending },
    UInt64.le_of_lt hlt, ?onward⟩
  case targeted =>
    exact List.forall_mem_append.2 ⟨h.targeted, List.forall_mem_singleton.2 hne⟩
  case rising =>
    -- identities are given out in order
    refine List.pairwise_append.2 ⟨h.rising, List.pairwise_singleton _ _, fun x hx => ?_⟩
    exact List.forall_mem_singleton.2 (UInt64.lt_of_le_of_lt (h.lastChange x hx) hlt)
  case lastChange =>
    refine List.forall_mem_append.2 ⟨fun x hx => ?_, ?_⟩
    · exact UInt64.le_of_lt (UInt64.lt_of_le_of_lt (h.lastChange x hx) hlt)
    · exact List.forall_mem_singleton.2 (UInt64.le_refl _)
  case changeCount =>
    rw [List.length_append, ← h.changeCount]
    exact hid
  case rowCount =>
    rw [rowsFor_append, ← h.rowCount]
    exact hlast
  case entries =>
    rw [hentries]
    refine List.forall_mem_append.2 ⟨fun e he => ?_, List.forall_mem_singleton.2 ?_⟩
    · obtain ⟨x, hx, h1⟩ := h.entries e he
      exact ⟨x, List.mem_append_left _ hx, h1⟩
    · exact ⟨_, List.mem_append_right _ List.mem_cons_self, htracks⟩
  case settled =>
    rw [hentries]
    exact List.forall_mem_append.2 ⟨h.settled, List.forall_mem_singleton.2 hsettled⟩
  case distinct =>
    rw [hentries, List.map_append, List.nodup_append]
    -- no entry has an identity that was not given out yet
    refine ⟨h.distinct, List.nodup_singleton _, fun a ha => List.forall_mem_singleton.2 ?_⟩
    obtain ⟨e, he, rfl⟩ := List.mem_map.1 ha
    exact UInt64.ne_of_lt (UInt64.lt_of_le_of_lt (h.id_le he) hlt)
  case rows =>
    rw [houtbox, hentries]
    refine List.forall_mem_append.2 ⟨fun row hrow => ?_, fun row hrow => ?_⟩
    · obtain ⟨e, he, h1⟩ := h.rows row hrow
      exact ⟨e, List.mem_append_left _ he, h1⟩
    · obtain ⟨-, -, h1, -, t, ht, h2, -⟩ := hnew row hrow
      refine ⟨_, List.mem_append_right _ List.mem_cons_self, h1, ?_⟩
      rw [h2]
      exact (htracks.servers t.serverId).2 (List.mem_map_of_mem ht)
  case payloads =>
    rw [houtbox]
    refine List.forall_mem_append.2 ⟨fun row hrow => ?_, fun row hrow => ?_⟩
    · obtain ⟨x, hx, h1⟩ := h.payloads row hrow
      exact ⟨x, List.mem_append_left _ hx, h1⟩
    · obtain ⟨-, -, h1, h2, t, ht, h3, h4⟩ := hnew row hrow
      refine ⟨_, List.mem_append_right _ List.mem_cons_self, h1, ?_, ?_⟩
      · rw [h3, h4]
        exact ht
      · rw [h2]
        exact Change.decode?_encode _
  case rowIds =>
    rw [houtbox, List.map_append, List.nodup_append]
    refine ⟨h.rowIds, hnodup, fun a ha b hb => ?_⟩
    obtain ⟨row, h1, rfl⟩ := List.mem_map.1 ha
    obtain ⟨row', h2, rfl⟩ := List.mem_map.1 hb
    exact UInt64.ne_of_lt (UInt64.lt_of_le_of_lt (h.lastRow row h1) (hnew row' h2).1)
  case lastRow =>
    rw [houtbox]
    refine List.forall_mem_append.2 ⟨fun row hrow => ?_, fun row hrow => ?_⟩
    · have h1 := UInt64.le_iff_toNat_le.1 (h.lastRow row hrow)
      exact UInt64.le_iff_toNat_le.2 (le_of_le_of_eq (by omega) hlast.symm)
    · exact UInt64.le_iff_toNat_le.2 (le_of_le_of_eq (hnew row hrow).2.1 hlast.symm)
  case pending =>
    rw [houtbox, hentries]
    -- an old target keeps its row, and a new one has the row that was made for it
    refine List.forall_mem_append.2 ⟨fun e he t ht hst => ?_,
      List.forall_mem_singleton.2 fun t ht _ => ?_⟩
    · obtain ⟨row, hrow, h1⟩ := h.pending e he t ht hst
      exact ⟨row, List.mem_append_left _ hrow, h1⟩
    · obtain ⟨t', ht', hs⟩ := List.mem_map.1
        ((htracks.servers t.serverId).1 (List.mem_map_of_mem ht))
      obtain ⟨row, hrow, h1⟩ := hall t' ht'
      exact ⟨row, List.mem_append_right _ hrow, (hnew row hrow).2.2.1, h1.trans hs⟩
  case onward =>
    rw [hentries]
    refine List.forall_mem_append.2 ⟨fun e he _ => ⟨e, he, .refl e⟩, ?_⟩
    -- the new entry does not count: no change had its identity
    exact List.forall_mem_singleton.2 fun hle => absurd hlt (UInt64.not_lt.2 hle)

/-- **A step keeps a ledger well formed**, and its entries only move forward. -/
theorem wellFormed_step (h : l.WellFormed made) (hs : l.Step new l')
    (hroom : rowsFor (made ++ new) < UInt64.size) : l'.WellFormed (made ++ new) ∧ l.Onward l' := by
  cases hs with
  | stayed servers available fault =>
    rw [List.append_nil]
    exact ⟨{ h with }, UInt64.le_refl _, (Onward.refl l).entries⟩
  | created change targets hne => exact wellFormed_created h change hne hroom
  | advanced e t he ht status hstatus now =>
    rw [List.append_nil]
    exact wellFormed_advanced h he ht hstatus now
  | published row hrow =>
    rw [List.append_nil]
    exact wellFormed_published h hrow
  | purged cutoff =>
    rw [List.append_nil]
    exact wellFormed_purged h cutoff

/-- Calls keep a ledger well formed, and its entries only move forward. -/
theorem wellFormed_calls (h : l.WellFormed made) (calls : List Call)
    (hroom : rowsFor (made ++ l.created calls) < UInt64.size) :
    (l.run calls).WellFormed (made ++ l.created calls) ∧ l.Onward (l.run calls) := by
  induction calls generalizing l made with
  | nil =>
    rw [created, List.append_nil]
    exact ⟨h, .refl l⟩
  | cons c calls ih =>
    rw [created, ← List.append_assoc] at hroom ⊢
    have h1 : rowsFor (made ++ c.creates (l.call c).1) < UInt64.size := by
      rw [rowsFor_append] at hroom
      omega
    obtain ⟨h2, h3⟩ := wellFormed_step h (step_call l c) h1
    obtain ⟨h4, h5⟩ := ih h2 hroom
    exact ⟨h4, h3.trans h5⟩

/-- **A ledger is well formed after any calls**, as long as row identities do not run out; further
calls only move what is there forward, and a call that is refused changes nothing. -/
theorem wellFormed_run (calls more : List Call)
    (hroom : rowsFor (empty.created (calls ++ more)) < UInt64.size) :
    (empty.run calls).WellFormed (empty.created calls) ∧
      (empty.run calls).Onward (empty.run (calls ++ more)) ∧
      ∀ c error, ((empty.run calls).call c).1 = .error error →
        ((empty.run calls).call c).2 =
          { empty.run calls with fault := ((empty.run calls).call c).2.fault } := by
  rw [created_append] at hroom
  have h1 : rowsFor (empty.created calls) < UInt64.size := by
    rw [rowsFor_append] at hroom
    omega
  obtain ⟨h2, -⟩ := wellFormed_calls wellFormed_empty calls h1
  obtain ⟨-, h3⟩ := wellFormed_calls h2 more hroom
  rw [run_append]
  exact ⟨h2, h3, fun _ _ => call_refused⟩

/-- A change for two servers, one of them named twice; another that fails half way; and the
acknowledgments of the first change, which come before two of its messages have left. -/
def rehearsal : List Call :=
  let change : Change := ⟨0, .zone, some ⟨"example.com.", .create, []⟩, none,
    ⟨⟨2024, 1, 4, 0, 0, 0, 0⟩, by decide⟩, .pending⟩
  [.create change [⟨"ns1", "node.ns1"⟩, ⟨"ns2", "node.ns2"⟩, ⟨"ns1", "node.ns1"⟩],
    .injectFault .afterTargetRows, .create change [⟨"ns1", "node.ns1"⟩],
    .advance 1 "ns1" .inSync 5, .markPublished 1, .advance 1 "ns2" .inSync 6]

/-- The ledger of the rehearsal, before and after its entry is purged. -/
theorem wellFormed_rehearsal :
    rowsFor (empty.created (rehearsal ++ [.purge 7])) < UInt64.size ∧
      (empty.run rehearsal).WellFormed (empty.created rehearsal) ∧
      (empty.run rehearsal).outbox.length = 2 ∧
      (empty.run rehearsal).Onward (empty.run (rehearsal ++ [.purge 7])) ∧
      (empty.run (rehearsal ++ [.purge 7])).outbox = [] ∧
      ((empty.run rehearsal).call (.advance 2 "ns1" .inSync 7)).2 = empty.run rehearsal := by
  have hroom : rowsFor (empty.created (rehearsal ++ [.purge 7])) < UInt64.size := by decide +kernel
  obtain ⟨h1, h2, h3⟩ := wellFormed_run rehearsal [.purge 7] hroom
  refine ⟨hroom, h1, by decide +kernel, h2, by decide +kernel, ?_⟩
  exact h3 (.advance 2 "ns1" .inSync 7) (.changeNotFound 2) (by decide +kernel)

end Ledger

end ZoneRelay
