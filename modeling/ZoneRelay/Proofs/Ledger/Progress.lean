import ZoneRelay.Ledger.Outbox
import ZoneRelay.Proofs.Ledger.Books

/-!
# How a ledger moves on

Once a change is recorded, its targets only move forward. What is kept and what is lost is said for
each operation.

* `Ledger.markPublished_ok`: a message leaves the outbox, and no target is closed by that.
* `Ledger.advance_cases`: a target acknowledges.
* `Ledger.purge_ok`: only changes in sync are forgotten.
-/

namespace ZoneRelay.Ledger

variable {l l' : Ledger} {routePrefix : String} {subs : List Submission} {id : ChangeId}
  {s : String} {P : TargetStatus → Prop} {e : LedgerEntry}

/-! ## Targets -/

section

variable {f : LedgerEntry → LedgerEntry} {g : Target → Target} {i : ChangeId} {q : String}

/-- Whether an entry changed so is still that of its submission. -/
def Faithful (f : LedgerEntry → LedgerEntry) : Prop :=
  ∀ e x, LedgerEntry.Records e x → (f e).Records x

theorem id_of_faithful (h : l.Books routePrefix subs) (hf : Faithful f) (he : e ∈ l.entries) :
    (f e).change.id = e.change.id := by
  obtain ⟨x, -, hx⟩ := h.entries e he
  rw [hx.change, (hf e x hx).change]

theorem books_mapEntry (h : l.Books routePrefix subs) (hf : Faithful f) (id : ChangeId) :
    (l.mapEntry id f).Books routePrefix subs := by
  refine ⟨h.rising, h.last, h.servers, fun e he => ?_, ?_, h.rows, h.rowIds, h.lastRow⟩
  · obtain ⟨e, he', rfl⟩ := List.mem_map.1 he
    obtain ⟨x, hx, h1⟩ := h.entries e he'
    refine ⟨x, hx, ?_⟩
    split
    · exact hf e x h1
    · exact h1
  · have h1 : (l.mapEntry id f).entries.map (·.change.id) = l.entries.map (·.change.id) := by
      unfold mapEntry
      rw [List.map_map]
      refine List.map_congr_left fun e he => ?_
      show (if e.change.id = id then f e else e).change.id = _
      split
      · exact id_of_faithful h hf he
      · rfl
    rw [h1]
    exact h.distinct

theorem shows_mapEntry (h : l.Books routePrefix subs) (hf : Faithful f) :
    (l.mapEntry id f).Shows P i s ↔ ∃ e ∈ l.entries, e.change.id = i ∧
      ∃ t ∈ (if i = id then f e else e).targets, t.serverId = s ∧ P t.status := by
  constructor
  · rintro ⟨e', he', rfl, t, ht, hs, hP⟩
    obtain ⟨e, he, rfl⟩ := List.mem_map.1 he'
    by_cases hid : e.change.id = id
    · rw [if_pos hid] at ht ⊢
      rw [id_of_faithful h hf he]
      exact ⟨e, he, rfl, t, by rwa [if_pos hid], hs, hP⟩
    · rw [if_neg hid] at ht ⊢
      exact ⟨e, he, rfl, t, by rwa [if_neg hid], hs, hP⟩
  · rintro ⟨e, he, rfl, t, ht, hs, hP⟩
    refine ⟨_, List.mem_map_of_mem he, ?_, t, ht, hs, hP⟩
    show (if e.change.id = id then f e else e).change.id = _
    split
    · exact id_of_faithful h hf he
    · rfl

theorem forgot_mapEntry (h : l.Books routePrefix subs) (hf : Faithful f) :
    (l.mapEntry id f).Forgot i ↔ l.Forgot i := by
  have key : ∀ e ∈ l.entries, (if e.change.id = id then f e else e).change.id = e.change.id :=
    fun e he => by
      split
      · exact id_of_faithful h hf he
      · rfl
  constructor
  · intro h1 e he h2
    exact h1 _ (List.mem_map_of_mem he) ((key e he).trans h2)
  · intro h1 e' he' h2
    obtain ⟨e, he, rfl⟩ := List.mem_map.1 he'
    exact h1 e he ((key e he).symm.trans h2)

theorem servers_mapTarget (hg : ∀ t, (g t).serverId = t.serverId) (ts : List Target) :
    (mapTarget s g ts).map (·.serverId) = ts.map (·.serverId) := by
  unfold mapTarget
  rw [List.map_map]
  refine List.map_congr_left fun t _ => ?_
  show (if t.serverId = s then g t else t).serverId = _
  split
  · exact hg t
  · rfl

/-- A target that was there is there with its new status. -/
theorem exists_mapTarget (hg : ∀ t, (g t).serverId = t.serverId) {ts : List Target} :
    (∃ t ∈ mapTarget s g ts, t.serverId = q ∧ P t.status) ↔
      ∃ t ∈ ts, t.serverId = q ∧ P (if q = s then (g t).status else t.status) := by
  constructor
  · rintro ⟨t', ht', rfl, hP⟩
    obtain ⟨t, ht, rfl⟩ := List.mem_map.1 ht'
    by_cases hs : t.serverId = s
    · rw [if_pos hs] at hP ⊢
      exact ⟨t, ht, (hg t).symm, by rwa [if_pos ((hg t).trans hs)]⟩
    · rw [if_neg hs] at hP ⊢
      exact ⟨t, ht, rfl, by rwa [if_neg hs]⟩
  · rintro ⟨t, ht, rfl, hP⟩
    refine ⟨_, List.mem_map_of_mem ht, ?_⟩
    by_cases hs : t.serverId = s
    · rw [if_pos hs] at hP ⊢
      exact ⟨hg t, hP⟩
    · rw [if_neg hs] at hP ⊢
      exact ⟨rfl, hP⟩

/-- Nothing changes for a target in sync that is changed so. -/
theorem whole_mapTarget (hg : ∀ t : Target, t.status = .inSync → (g t).status = .inSync)
    {ts : List Target} (h : ∀ t ∈ ts, t.status = .inSync) :
    ∀ t ∈ mapTarget s g ts, t.status = .inSync := by
  intro t' ht'
  obtain ⟨t, ht, rfl⟩ := List.mem_map.1 ht'
  split
  · exact hg t (h t ht)
  · exact h t ht

theorem markSent_inSync (t : Target) : (Target.markSent t).status = .inSync ↔
    t.status = .inSync := by
  unfold Target.markSent
  cases h : t.status <;> simp [TargetStatus.rank, h]

theorem markSent_serverId (t : Target) : (Target.markSent t).serverId = t.serverId := by
  unfold Target.markSent
  split <;> rfl

/-- An entry whose message for a server was published. -/
def withSent (s : String) (e : LedgerEntry) : LedgerEntry :=
  { e with targets := mapTarget s Target.markSent e.targets }

/-- An entry that a server acknowledged. -/
def withAck (s : String) (now : Stamp) (e : LedgerEntry) : LedgerEntry :=
  LedgerEntry.settle e (mapTarget s (Target.raise · .inSync now) e.targets)

theorem faithful_withSent (s : String) : Faithful (withSent s) := by
  intro e x h
  have h1 := servers_mapTarget (s := s) markSent_serverId e.targets
  refine ⟨h.change, fun q => ?_, ?_, fun hst => ?_⟩
  · rw [withSent, h1]
    exact h.servers q
  · rw [withSent, h1]
    exact h.distinct
  · exact whole_mapTarget (fun t => (markSent_inSync t).2) (h.whole hst)

theorem faithful_withAck (s : String) (now : Stamp) : Faithful (withAck s now) := by
  intro e x h
  have h1 := servers_mapTarget (s := s) (g := (Target.raise · .inSync now)) (fun _ => rfl)
    e.targets
  unfold withAck LedgerEntry.settle
  refine ⟨?_, fun q => ?_, ?_, fun hst => ?_⟩
  · simp only
    split
    · rw [h.change]
    · exact h.change
  · rw [h1]
    exact h.servers q
  · rw [h1]
    exact h.distinct
  · -- either all targets were found in sync, or the change was in sync before
    simp only at hst ⊢
    split at hst
    · next hall => simpa using hall
    · exact whole_mapTarget (fun _ _ => rfl) (h.whole hst)

/-- Publishing a message shows in no status that it does not touch. -/
theorem shows_withSent (h : l.Books routePrefix subs)
    (hP : ∀ t : Target, P (Target.markSent t).status ↔ P t.status) :
    (l.mapEntry id (withSent s)).Shows P i q ↔ l.Shows P i q := by
  refine (shows_mapEntry h (faithful_withSent s)).trans (exists_congr fun e =>
    and_congr_right fun _ => and_congr_right fun _ => ?_)
  have h1 : (∃ t ∈ (withSent s e).targets, t.serverId = q ∧ P t.status) ↔
      ∃ t ∈ e.targets, t.serverId = q ∧ P t.status := by
    unfold withSent
    rw [exists_mapTarget markSent_serverId]
    refine exists_congr fun t => and_congr_right fun _ => and_congr_right fun _ => ?_
    split
    · exact hP t
    · rfl
  by_cases hi : i = id
  · rw [if_pos hi]
    exact h1
  · rw [if_neg hi]

/-- Acknowledging a target shows in the status of this target alone. -/
theorem shows_withAck (h : l.Books routePrefix subs) (now : Stamp) :
    (l.mapEntry id (withAck s now)).Shows P i q ↔ ∃ e ∈ l.entries, e.change.id = i ∧
      ∃ t ∈ e.targets, t.serverId = q ∧ P (if i = id ∧ q = s then .inSync else t.status) := by
  refine (shows_mapEntry h (faithful_withAck s now)).trans (exists_congr fun e =>
    and_congr_right fun _ => and_congr_right fun _ => ?_)
  by_cases hi : i = id
  · rw [if_pos hi]
    show (∃ t ∈ mapTarget s (Target.raise · .inSync now) e.targets, _) ↔ _
    rw [exists_mapTarget (g := (Target.raise · .inSync now)) fun _ => rfl]
    simp only [hi, true_and]
    rfl
  · simp only [hi, if_false, false_and]

end

/-! ## Operations -/

/-- There are no open targets and no rows in `l'` that are not in `l`. -/
structure Shrinks (l l' : Ledger) : Prop where
  unsynced : ∀ i q, l'.Unsynced i q → l.Unsynced i q
  outbox : ∀ row ∈ l'.outbox, row ∈ l.outbox
  lastRow : l'.lastRowId = l.lastRowId
  servers : l'.servers = l.servers

/-- `l'` is `l` after a message left the outbox. -/
structure Dispatched (l l' : Ledger) (id : UInt64) : Prop extends Shrinks l l' where
  synced : ∀ i q, l'.Synced i q → l.Synced i q
  forgot : ∀ i, l'.Forgot i → l.Forgot i
  kept : ∀ row ∈ l.outbox, row.id ≠ id → row ∈ l'.outbox

/-- `l'` is `l` after a target acknowledged. -/
structure Acknowledged (l l' : Ledger) (id : ChangeId) (s : String) : Prop
    extends Shrinks l l' where
  synced : ∀ i q, l'.Synced i q → l.Synced i q ∨ i = id ∧ q = s
  forgot : ∀ i, l'.Forgot i → l.Forgot i
  done : ¬ l'.Unsynced id s
  kept : l'.outbox = l.outbox

/-- `l'` is `l` after some changes in sync were forgotten. -/
structure Purged (l l' : Ledger) : Prop extends Shrinks l l' where
  synced : ∀ i q, l'.Synced i q → l.Synced i q
  forgot : ∀ e ∈ l.entries, l'.Forgot e.change.id → ∀ t ∈ e.targets, t.status = .inSync
  kept : ∀ row ∈ l.outbox, l'.Unsynced row.changeId row.serverId → row ∈ l'.outbox

theorem Shrinks.refl (l : Ledger) : Shrinks l l :=
  ⟨fun _ _ => id, fun _ => id, rfl, rfl⟩

/-- A row that leaves the outbox as its target is marked as sent. -/
theorem dispatched_withSent (h : l.Books routePrefix subs) (changeId : ChangeId) (s : String)
    (id : UInt64) : Dispatched l
      { l.mapEntry changeId (withSent s) with outbox := l.outbox.filter (·.id != id) } id where
  unsynced _ _ := (shows_withSent (P := (· ≠ .inSync)) h fun t => (markSent_inSync t).not).1
  outbox _ hrow := (List.mem_filter.1 hrow).1
  lastRow := rfl
  servers := rfl
  synced _ _ := (shows_withSent (P := (· = .inSync)) h markSent_inSync).1
  forgot _ := (forgot_mapEntry h (faithful_withSent s)).1
  kept _ hrow hne := List.mem_filter.2 ⟨hrow, by simpa using hne⟩

/-- **Marking a message as published keeps the books**, and closes no target. -/
theorem markPublished_ok (h : l.Books routePrefix subs) {id : UInt64}
    (hm : l.markPublished id = .ok l') : l'.Books routePrefix subs ∧ Dispatched l l' id := by
  unfold markPublished ifAvailable at hm
  split at hm
  · rw [← Except.ok.inj hm]
    split
    · exact ⟨h, .refl l, fun _ _ h => h, fun _ h => h, fun row hrow _ => hrow⟩
    · next r hr =>
      have hb := books_mapEntry h (faithful_withSent r.serverId) r.changeId
      refine ⟨⟨hb.rising, hb.last, hb.servers, hb.entries, hb.distinct, fun row hrow => ?_, ?_,
        fun row hrow => ?_⟩, dispatched_withSent h r.changeId r.serverId id⟩
      · exact hb.rows row (List.mem_filter.1 hrow).1
      · exact hb.rowIds.sublist (List.Sublist.map _ List.filter_sublist)
      · exact hb.lastRow row (List.mem_filter.1 hrow).1
  · cases hm

theorem acknowledged_withAck (h : l.Books routePrefix subs) (id : ChangeId) (s : String)
    (now : Stamp) : Acknowledged l (l.mapEntry id (withAck s now)) id s := by
  refine ⟨⟨fun i q h1 => ?_, fun _ h => h, rfl, rfl⟩, fun i q h1 => ?_,
    fun i => (forgot_mapEntry h (faithful_withAck s now)).1, fun h1 => ?_, rfl⟩
  · obtain ⟨e, h2, h3, t, h4, h5, h6⟩ := (shows_withAck h now).1 h1
    refine ⟨e, h2, h3, t, h4, h5, ?_⟩
    split at h6
    · exact absurd rfl h6
    · exact h6
  · obtain ⟨e, h2, h3, t, h4, h5, h6⟩ := (shows_withAck h now).1 h1
    split at h6
    · next h7 => exact Or.inr h7
    · exact Or.inl ⟨e, h2, h3, t, h4, h5, h6⟩
  · obtain ⟨e, h2, h3, t, h4, h5, h6⟩ := (shows_withAck h now).1 h1
    rw [if_pos ⟨rfl, rfl⟩] at h6
    exact h6 rfl

/-- **Acknowledging a target keeps the books.** If the ledger refuses for good, the target is not
open. -/
theorem advance_cases (h : l.Books routePrefix subs) (id : ChangeId) (s : String) (now : Stamp) :
    (∃ e, l.advance id s .inSync now = .error e ∧ e.isTransient = true) ∨
      (∃ e, l.advance id s .inSync now = .error e ∧ e.isTransient = false ∧ ¬ l.Unsynced id s) ∨
      ∃ moved l', l.advance id s .inSync now = .ok (moved, l') ∧ l'.Books routePrefix subs ∧
        Acknowledged l l' id s := by
  unfold advance
  split
  · exact Or.inl ⟨_, rfl, rfl⟩
  · split
    · next hnone =>
      -- a target that the ledger does not know is not open
      refine Or.inr (Or.inl ⟨_, rfl, rfl, ?_⟩)
      rintro ⟨e, he, hid, -⟩
      exact List.find?_eq_none.1 hnone e he (by simpa using hid)
    · next e hsome =>
      have he : e ∈ l.entries := List.mem_of_find?_eq_some hsome
      have hid : e.change.id = id := by simpa using List.find?_some hsome
      split
      · next hnone =>
        refine Or.inr (Or.inl ⟨_, rfl, rfl, ?_⟩)
        rintro ⟨e', he', hid', t, ht, hs, -⟩
        cases h.entry_unique he' he (hid'.trans hid.symm)
        exact List.find?_eq_none.1 hnone t ht (by simpa using hs)
      · next t htsome =>
        have ht : t ∈ e.targets := List.mem_of_find?_eq_some htsome
        have hs : t.serverId = s := by simpa using List.find?_some htsome
        split
        · next hrank =>
          have hst : t.status = .inSync := by
            revert hrank
            cases t.status <;> simp [TargetStatus.rank]
          refine Or.inr (Or.inr ⟨_, _, rfl, h, ⟨.refl l, fun _ _ => Or.inl, fun _ h => h, ?_, rfl⟩⟩)
          exact h.not_unsynced ⟨e, he, hid, t, ht, hs, hst⟩
        · exact Or.inr (Or.inr ⟨_, _, rfl, books_mapEntry h (faithful_withAck s now) id,
            acknowledged_withAck h id s now⟩)

/-- **Forgetting old changes keeps the books**, and only changes in sync are forgotten. -/
theorem purge_ok (h : l.Books routePrefix subs) {cutoff : Stamp} {n : ℕ}
    (hp : l.purge cutoff = .ok (n, l')) : l'.Books routePrefix subs ∧ Purged l l' := by
  unfold purge ifAvailable at hp
  split at hp
  · obtain ⟨-, rfl⟩ := Prod.mk.inj (Except.ok.inj hp)
    have whole : ∀ e ∈ l.entries, isExpired cutoff e = true → ∀ t ∈ e.targets,
        t.status = .inSync := by
      intro e he hx
      obtain ⟨x, -, hr⟩ := h.entries e he
      unfold isExpired at hx
      rw [Bool.and_eq_true] at hx
      exact hr.whole (beq_iff_eq.1 hx.1)
    have mem : ∀ {e}, e ∈ l.entries.filter (fun e => !isExpired cutoff e) → e ∈ l.entries :=
      fun he => (List.mem_filter.1 he).1
    have sub : ∀ {P : TargetStatus → Prop} {i q},
        Shows { l with
          entries := l.entries.filter fun e => !isExpired cutoff e
          outbox := l.outbox.filter fun r => !((l.entries.filter (isExpired cutoff)).map
            (·.change.id)).contains r.changeId } P i q → l.Shows P i q := by
      rintro P i q ⟨e, he, h1⟩
      exact ⟨e, mem he, h1⟩
    refine ⟨⟨h.rising, h.last, h.servers, fun e he => h.entries e (mem he), ?_,
      fun row hrow => ?_, ?_, fun row hrow => ?_⟩, ⟨⟨fun i q => sub, fun row hrow => ?_, rfl, rfl⟩,
      fun i q => sub, fun e he hf => ?_, fun row hrow hu => ?_⟩⟩
    · exact h.distinct.sublist (List.Sublist.map _ List.filter_sublist)
    · exact h.rows row (List.mem_filter.1 hrow).1
    · exact h.rowIds.sublist (List.Sublist.map _ List.filter_sublist)
    · exact h.lastRow row (List.mem_filter.1 hrow).1
    · exact (List.mem_filter.1 hrow).1
    · refine whole e he ?_
      by_contra hx
      exact hf e (List.mem_filter.2 ⟨he, by simpa using hx⟩) rfl
    · refine List.mem_filter.2 ⟨hrow, ?_⟩
      obtain ⟨e, he, hid, t, ht, hs, hst⟩ := hu
      simp only [Bool.not_eq_true', List.contains_eq_mem, decide_eq_false_iff_not, List.mem_map,
        List.mem_filter, not_exists, not_and, and_imp]
      intro e' he' hx hid'
      rw [h.entry_unique (mem he) he' (hid.trans hid'.symm)] at ht
      exact hst (whole e' he' hx t ht)
  · cases hp

end ZoneRelay.Ledger
