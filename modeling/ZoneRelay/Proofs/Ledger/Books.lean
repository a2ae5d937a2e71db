import Mathlib.Data.List.Nodup
import ZoneRelay.Ledger.Basic

/-!
# The books of a ledger

The books say what the ledger has to do with the changes submitted to it: each entry and each outbox
row is that of a submission, and nothing is there twice.

* `Submission`: a change and the servers it is meant for.
* `Ledger.Books`: the invariant.
* `Ledger.Synced`, `Ledger.Unsynced`: the targets that have acknowledged, and those that have not.
* `Ledger.books_after`: recording a change for all servers keeps the books.
-/

namespace ZoneRelay

/-- A change that was submitted, and the servers it is meant for. -/
structure Submission where
  change : Change
  servers : List String
  deriving DecidableEq, Repr

/-- An entry is that of a submission. -/
structure LedgerEntry.Records (e : LedgerEntry) (x : Submission) : Prop where
  change : e.change = { x.change with status := e.change.status }
  servers : ∀ s, s ∈ e.targets.map (·.serverId) ↔ s ∈ x.servers
  distinct : (e.targets.map (·.serverId)).Nodup
  /-- A change in sync is so with every target. -/
  whole : e.change.status = .inSync → ∀ t ∈ e.targets, t.status = .inSync

/-- An outbox row is that of a submission, for one of its servers. -/
structure OutboxRow.Sends (row : OutboxRow) (routePrefix : String) (x : Submission) : Prop where
  change : row.changeId = x.change.id
  server : row.serverId ∈ x.servers
  route : row.routeKey = routePrefix ++ row.serverId
  payload : row.payload = x.change.encode

theorem LedgerEntry.Records.id {e : LedgerEntry} {x : Submission} (h : e.Records x) :
    e.change.id = x.change.id := by
  rw [h.change]

namespace Ledger

/-- What a ledger has to do with the changes submitted to it. -/
structure Books (l : Ledger) (routePrefix : String) (subs : List Submission) : Prop where
  rising : subs.Pairwise (·.change.id < ·.change.id)
  last : ∀ x ∈ subs, x.change.id ≤ l.lastChangeId
  servers : ∀ x ∈ subs, x.servers = l.servers
  entries : ∀ e ∈ l.entries, ∃ x ∈ subs, e.Records x
  distinct : (l.entries.map (·.change.id)).Nodup
  rows : ∀ row ∈ l.outbox, ∃ x ∈ subs, row.Sends routePrefix x
  rowIds : (l.outbox.map (·.id)).Nodup
  lastRow : ∀ row ∈ l.outbox, row.id ≤ l.lastRowId

/-- Whether there is a target with such a status. -/
def Shows (l : Ledger) (P : TargetStatus → Prop) (id : ChangeId) (s : String) : Prop :=
  ∃ e ∈ l.entries, e.change.id = id ∧ ∃ t ∈ e.targets, t.serverId = s ∧ P t.status

/-- Whether there is a target that has acknowledged. -/
def Synced (l : Ledger) (id : ChangeId) (s : String) : Prop :=
  l.Shows (· = .inSync) id s

/-- Whether there is a target that has not acknowledged. -/
def Unsynced (l : Ledger) (id : ChangeId) (s : String) : Prop :=
  l.Shows (· ≠ .inSync) id s

/-- Whether there is no entry of a change. -/
def Forgot (l : Ledger) (id : ChangeId) : Prop :=
  ∀ e ∈ l.entries, e.change.id ≠ id

variable {l l' : Ledger} {routePrefix : String} {subs : List Submission} {x : Submission}
  {id : ChangeId} {s : String} {P : TargetStatus → Prop} {row : OutboxRow} {e : LedgerEntry}

/-- Identities tell submissions apart. -/
theorem Books.submission_unique (h : l.Books routePrefix subs) {y : Submission} (hx : x ∈ subs)
    (hy : y ∈ subs) (hid : x.change.id = y.change.id) : x = y := by
  have h1 : (subs.map (·.change.id)).Nodup := by
    rw [List.Nodup, List.pairwise_map]
    exact h.rising.imp fun h2 => UInt64.ne_of_lt h2
  exact List.inj_on_of_nodup_map h1 hx hy hid

theorem Books.records (h : l.Books routePrefix subs) (he : e ∈ l.entries) (hx : x ∈ subs)
    (hid : e.change.id = x.change.id) : e.Records x := by
  obtain ⟨y, hy, h1⟩ := h.entries e he
  rwa [h.submission_unique hx hy (hid.symm.trans h1.id)]

/-- An entry has a target for each server that its change is meant for. -/
theorem Books.target (h : l.Books routePrefix subs) (he : e ∈ l.entries) (hx : x ∈ subs)
    (hid : e.change.id = x.change.id) (hs : s ∈ x.servers) : ∃ t ∈ e.targets, t.serverId = s :=
  List.mem_map.1 (((h.records he hx hid).servers s).2 hs)

theorem Books.entry_unique (h : l.Books routePrefix subs) {e' : LedgerEntry} (he : e ∈ l.entries)
    (he' : e' ∈ l.entries) (hid : e.change.id = e'.change.id) : e = e' :=
  List.inj_on_of_nodup_map h.distinct he he' hid

/-- A target has one status. -/
theorem Books.not_unsynced (h : l.Books routePrefix subs) (h1 : l.Synced id s) :
    ¬ l.Unsynced id s := by
  obtain ⟨e, he, he1, t, ht, hs, hst⟩ := h1
  rintro ⟨e', he', he2, t', ht', hs', hst'⟩
  cases h.entry_unique he he' (he1.trans he2.symm)
  obtain ⟨x, -, hx⟩ := h.entries e he
  rw [List.inj_on_of_nodup_map hx.distinct ht ht' (hs.trans hs'.symm)] at hst
  exact hst' hst

theorem books_flags (h : l.Books routePrefix subs) (available : Bool) (fault : Option LedgerFault) :
    Books { l with available, fault } routePrefix subs :=
  ⟨h.rising, h.last, h.servers, h.entries, h.distinct, h.rows, h.rowIds, h.lastRow⟩

/-! ## Recording -/

theorem mem_insertTarget {ts : List Target} {t : Target} (h : t ∈ insertTarget s ts) :
    t = ⟨s, .pending, none⟩ ∨ t ∈ ts := by
  induction ts with
  | nil => exact Or.inl (List.mem_singleton.1 h)
  | cons y r ih =>
    unfold insertTarget at h
    split at h
    · exact List.mem_cons.1 h
    · split at h
      · exact (List.mem_cons.1 h).imp_right (List.mem_cons_of_mem _)
      · rcases List.mem_cons.1 h with rfl | h
        · exact Or.inr List.mem_cons_self
        · exact (ih h).imp_right (List.mem_cons_of_mem _)

theorem mem_servers_insertTarget {ts : List Target} {q : String} :
    q ∈ (insertTarget s ts).map (·.serverId) ↔ q = s ∨ q ∈ ts.map (·.serverId) := by
  induction ts with
  | nil => simp [insertTarget]
  | cons y r ih =>
    unfold insertTarget
    split
    · simp
    · split
      · next h =>
        rw [List.map_cons, List.map_cons, List.mem_cons, List.mem_cons, h]
        simp
      · rw [List.map_cons, List.mem_cons, ih, List.map_cons, List.mem_cons, or_left_comm]

theorem ordered_insertTarget {ts : List Target} (h : ts.Pairwise (·.serverId < ·.serverId)) :
    (insertTarget s ts).Pairwise (·.serverId < ·.serverId) := by
  induction ts with
  | nil => simp [insertTarget]
  | cons y r ih =>
    obtain ⟨h1, h2⟩ := List.pairwise_cons.1 h
    unfold insertTarget
    split
    · next hlt =>
      refine List.pairwise_cons.2 ⟨fun t ht => ?_, h⟩
      rcases List.mem_cons.1 ht with rfl | ht
      · exact hlt
      · exact String.lt_trans hlt (h1 t ht)
    · next hge =>
      split
      · next heq => exact List.pairwise_cons.2 ⟨fun t ht => heq ▸ h1 t ht, h2⟩
      · next hne =>
        refine List.pairwise_cons.2 ⟨fun t ht => ?_, ih h2⟩
        rcases mem_insertTarget ht with rfl | ht
        · exact String.not_le.1 fun h3 => hne (String.le_antisymm h3 (String.not_lt.1 hge))
        · exact h1 t ht

/-- The targets of a new entry. -/
def newTargets (targets : List NewTarget) : List Target :=
  targets.foldl (fun ts t => insertTarget t.serverId ts) []

/-- Targets put into a list one after the other. -/
theorem foldl_insertTarget (targets : List NewTarget) {ts : List Target}
    (ho : ts.Pairwise (·.serverId < ·.serverId)) (hp : ∀ t ∈ ts, t.status = .pending) :
    (targets.foldl (fun ts t => insertTarget t.serverId ts) ts).Pairwise
        (·.serverId < ·.serverId) ∧
      (∀ t ∈ targets.foldl (fun ts t => insertTarget t.serverId ts) ts, t.status = .pending) ∧
      ∀ q, q ∈ (targets.foldl (fun ts t => insertTarget t.serverId ts) ts).map (·.serverId) ↔
        q ∈ targets.map (·.serverId) ∨ q ∈ ts.map (·.serverId) := by
  induction targets generalizing ts with
  | nil => exact ⟨ho, hp, fun q => by simp⟩
  | cons y r ih =>
    have h0 : (insertTarget y.serverId ts).Pairwise (·.serverId < ·.serverId) :=
      ordered_insertTarget ho
    obtain ⟨h1, h2, h3⟩ := ih h0 fun t ht => by
      rcases mem_insertTarget ht with rfl | ht
      · rfl
      · exact hp t ht
    refine ⟨h1, h2, fun q => ?_⟩
    rw [List.foldl_cons, h3, mem_servers_insertTarget, List.map_cons, List.mem_cons, or_left_comm,
      or_assoc]

theorem newTargets_spec (targets : List NewTarget) :
    ((newTargets targets).map (·.serverId)).Nodup ∧
      (∀ t ∈ newTargets targets, t.status = .pending) ∧
      ∀ q, q ∈ (newTargets targets).map (·.serverId) ↔ q ∈ targets.map (·.serverId) := by
  obtain ⟨h1, h2, h3⟩ := foldl_insertTarget targets List.Pairwise.nil (by simp)
  refine ⟨?_, h2, fun q => ?_⟩
  · rw [List.Nodup, List.pairwise_map]
    refine h1.imp fun h4 h5 => ?_
    rw [h5] at h4
    exact String.lt_irrefl _ h4
  · rw [newTargets, h3]
    simp

/-- The rows of a new change are numbered on from the last one. -/
theorem newRows_spec (c : Change) (targets : List NewTarget) (last : UInt64)
    (hl : last.toNat + targets.length < UInt64.size) :
    (∀ row ∈ newRows c last targets, last < row.id ∧
      row.id.toNat ≤ last.toNat + targets.length ∧ row.changeId = c.id ∧ row.payload = c.encode ∧
      ∃ t ∈ targets, row.serverId = t.serverId ∧ row.routeKey = t.routeKey) ∧
    ((newRows c last targets).map (·.id)).Nodup ∧
    ∀ t ∈ targets, ∃ row ∈ newRows c last targets, row.serverId = t.serverId := by
  induction targets generalizing last with
  | nil => simp [newRows]
  | cons y r ih =>
    rw [List.length_cons] at hl
    have h0 : (last + 1).toNat = last.toNat + 1 := by
      rw [UInt64.toNat_add]
      exact Nat.mod_eq_of_lt (by simpa using (by omega : last.toNat + 1 < UInt64.size))
    obtain ⟨h1, h2, h3⟩ := ih (last + 1) (by omega)
    unfold newRows
    refine ⟨fun row hrow => ?_, ?_, fun t ht => ?_⟩
    · rw [List.length_cons]
      rcases List.mem_cons.1 hrow with rfl | hrow
      · refine ⟨?_, ?_, rfl, rfl, y, List.mem_cons_self, rfl, rfl⟩
        · rw [UInt64.lt_iff_toNat_lt]
          show last.toNat < (last + 1).toNat
          omega
        · show (last + 1).toNat ≤ _
          omega
      · obtain ⟨h4, h5, h6, h7, t, h8, h9⟩ := h1 row hrow
        refine ⟨?_, by omega, h6, h7, t, List.mem_cons_of_mem _ h8, h9⟩
        rw [UInt64.lt_iff_toNat_lt] at h4 ⊢
        omega
    · rw [List.map_cons, List.nodup_cons]
      refine ⟨fun h4 => ?_, h2⟩
      obtain ⟨row, h5, h6⟩ := List.mem_map.1 h4
      have h7 := (h1 row h5).1
      rw [h6] at h7
      exact UInt64.lt_irrefl _ h7
    · rcases List.mem_cons.1 ht with rfl | ht
      · exact ⟨_, List.mem_cons_self, rfl⟩
      · obtain ⟨row, h4, h5⟩ := h3 t ht
        exact ⟨row, List.mem_cons_of_mem _ h4, h5⟩

/-- The targets for servers, each with its route. -/
def routes (routePrefix : String) (servers : List String) : List NewTarget :=
  servers.map fun s => ⟨s, routePrefix ++ s⟩

/-- Whether there are identities left for a change and its outbox rows. -/
def HasRoom (l : Ledger) : Prop :=
  l.lastChangeId.toNat + 1 < UInt64.size ∧ l.lastRowId.toNat + l.servers.length < UInt64.size

instance (l : Ledger) : Decidable l.HasRoom :=
  inferInstanceAs (Decidable (_ ∧ _))

/-- The submission that the ledger records. -/
def recorded (l : Ledger) (c : Change) : Submission :=
  ⟨{ c with id := l.lastChangeId + 1, status := .pending }, l.servers⟩

theorem lt_recorded (hr : l.HasRoom) (c : Change) : l.lastChangeId < (l.recorded c).change.id := by
  rw [UInt64.lt_iff_toNat_lt]
  show l.lastChangeId.toNat < (l.lastChangeId + 1).toNat
  rw [UInt64.toNat_add]
  have h1 := hr.1
  have h2 : (l.lastChangeId.toNat + (1 : UInt64).toNat) % UInt64.size = l.lastChangeId.toNat + 1 :=
    Nat.mod_eq_of_lt h1
  exact lt_of_lt_of_eq (Nat.lt_succ_self _) h2.symm

/-- The identity of a new change is not in the books. -/
theorem Books.ne_recorded (h : l.Books routePrefix subs) (hr : l.HasRoom) (c : Change)
    (he : e ∈ l.entries) : e.change.id ≠ (l.recorded c).change.id := by
  obtain ⟨x, hx, h1⟩ := h.entries e he
  rw [h1.id]
  exact UInt64.ne_of_lt (UInt64.lt_of_le_of_lt (h.last x hx) (lt_recorded hr c))

variable (routePrefix) in
/-- The ledger after recording a change for all its servers. -/
def after (l : Ledger) (c : Change) : Ledger :=
  (l.record c (routes routePrefix l.servers)).2

theorem entries_after (c : Change) : (l.after routePrefix c).entries =
    l.entries ++ [⟨(l.recorded c).change, newTargets (routes routePrefix l.servers)⟩] :=
  rfl

theorem outbox_after (c : Change) : (l.after routePrefix c).outbox =
    l.outbox ++ newRows (l.recorded c).change l.lastRowId (routes routePrefix l.servers) :=
  rfl

theorem servers_routes (servers : List String) :
    (routes routePrefix servers).map (·.serverId) = servers := by
  unfold routes
  rw [List.map_map]
  exact List.map_id _

theorem records_recorded (c : Change) :
    LedgerEntry.Records ⟨(l.recorded c).change, newTargets (routes routePrefix l.servers)⟩
      (l.recorded c) := by
  obtain ⟨h1, h2, h3⟩ := newTargets_spec (routes routePrefix l.servers)
  refine ⟨rfl, fun s => ?_, h1, fun h => by cases h⟩
  rw [h3, servers_routes]
  rfl

variable (routePrefix) in
theorem lastRowId_after (hr : l.HasRoom) (c : Change) :
    (l.after routePrefix c).lastRowId.toNat = l.lastRowId.toNat + l.servers.length := by
  show (l.lastRowId + UInt64.ofNat (routes routePrefix l.servers).length).toNat = _
  have h1 := hr.2
  rw [routes, List.length_map, UInt64.toNat_add,
    UInt64.toNat_ofNat_of_lt' (by show _ < UInt64.size; omega)]
  exact Nat.mod_eq_of_lt h1

/-- **Recording a change for all servers keeps the books.** -/
theorem books_after (h : l.Books routePrefix subs) (hr : l.HasRoom) (c : Change) :
    (l.after routePrefix c).Books routePrefix (subs ++ [l.recorded c]) := by
  have hlt := lt_recorded hr c
  have hlen : (routes routePrefix l.servers).length = l.servers.length := by
    rw [routes, List.length_map]
  obtain ⟨hrows, hnodup, -⟩ := newRows_spec (l.recorded c).change
    (routes routePrefix l.servers) l.lastRowId (by rw [hlen]; exact hr.2)
  have hlast := lastRowId_after routePrefix hr c
  refine { rising := ?rising, last := ?last, servers := ?roster, entries := ?entries
           distinct := ?distinct, rows := ?rows, rowIds := ?rowIds, lastRow := ?lastRow }
  case rising =>
    refine List.pairwise_append.2 ⟨h.rising, List.pairwise_singleton _ _, fun x hx y hy => ?_⟩
    rw [List.mem_singleton.1 hy]
    exact UInt64.lt_of_le_of_lt (h.last x hx) hlt
  case last =>
    intro x hx
    rcases List.mem_append.1 hx with hx | hx
    · exact UInt64.le_of_lt (UInt64.lt_of_le_of_lt (h.last x hx) hlt)
    · rw [List.mem_singleton.1 hx]
      exact UInt64.le_refl _
  case roster =>
    intro x hx
    rcases List.mem_append.1 hx with hx | hx
    · exact h.servers x hx
    · rw [List.mem_singleton.1 hx]
      rfl
  case entries =>
    intro e he
    rw [entries_after] at he
    rcases List.mem_append.1 he with he | he
    · obtain ⟨x, hx, h1⟩ := h.entries e he
      exact ⟨x, List.mem_append_left _ hx, h1⟩
    · rw [List.mem_singleton.1 he]
      exact ⟨_, List.mem_append_right _ List.mem_cons_self, records_recorded c⟩
  case distinct =>
    rw [entries_after, List.map_append, List.nodup_append]
    refine ⟨h.distinct, by simp, fun a ha b hb hab => ?_⟩
    obtain ⟨e, he, rfl⟩ := List.mem_map.1 ha
    rw [List.map_singleton, List.mem_singleton] at hb
    exact h.ne_recorded hr c he (hab.trans hb)
  case rows =>
    intro row hrow
    rw [outbox_after] at hrow
    rcases List.mem_append.1 hrow with hrow | hrow
    · obtain ⟨x, hx, h1⟩ := h.rows row hrow
      exact ⟨x, List.mem_append_left _ hx, h1⟩
    · obtain ⟨-, -, h1, h2, t, h3, h4, h5⟩ := hrows row hrow
      obtain ⟨s, h6, rfl⟩ := List.mem_map.1 h3
      refine ⟨_, List.mem_append_right _ List.mem_cons_self, h1, ?_, ?_, h2⟩
      · rw [h4]
        exact h6
      · rw [h5, h4]
  case rowIds =>
    rw [outbox_after, List.map_append, List.nodup_append]
    refine ⟨h.rowIds, hnodup, fun a ha b hb hab => ?_⟩
    obtain ⟨row, h1, rfl⟩ := List.mem_map.1 ha
    obtain ⟨row', h2, rfl⟩ := List.mem_map.1 hb
    have h3 := UInt64.lt_of_le_of_lt (h.lastRow row h1) (hrows row' h2).1
    rw [hab] at h3
    exact UInt64.lt_irrefl _ h3
  case lastRow =>
    intro row hrow
    rw [outbox_after] at hrow
    rw [UInt64.le_iff_toNat_le, hlast]
    rcases List.mem_append.1 hrow with hrow | hrow
    · have h1 := UInt64.le_iff_toNat_le.1 (h.lastRow row hrow)
      omega
    · rw [← hlen]
      exact (hrows row hrow).2.1

theorem shows_after (c : Change) : (l.after routePrefix c).Shows P id s ↔
    l.Shows P id s ∨ id = (l.recorded c).change.id ∧ s ∈ l.servers ∧ P .pending := by
  obtain ⟨-, h2, h3⟩ := newTargets_spec (routes routePrefix l.servers)
  unfold Shows
  rw [entries_after]
  simp only [List.mem_append, List.mem_singleton, or_and_right, exists_or, exists_eq_left]
  refine or_congr_right ⟨?_, ?_⟩
  · rintro ⟨rfl, t, ht, rfl, hP⟩
    rw [h2 t ht] at hP
    refine ⟨rfl, ?_, hP⟩
    have h4 := (h3 t.serverId).1 (List.mem_map_of_mem ht)
    rwa [servers_routes] at h4
  · rintro ⟨rfl, hs, hP⟩
    obtain ⟨t, ht, h4⟩ := List.mem_map.1 ((h3 s).2 (by rwa [servers_routes]))
    exact ⟨rfl, t, ht, h4, by rwa [h2 t ht]⟩

variable (routePrefix) in
/-- A change that is recorded has a row for each server. -/
theorem row_after (hr : l.HasRoom) (c : Change) (hs : s ∈ l.servers) :
    ∃ row ∈ (l.after routePrefix c).outbox,
      row.changeId = (l.recorded c).change.id ∧ row.serverId = s := by
  obtain ⟨h1, -, h2⟩ := newRows_spec (l.recorded c).change (routes routePrefix l.servers)
    l.lastRowId (by rw [routes, List.length_map]; exact hr.2)
  obtain ⟨row, h3, h4⟩ := h2 ⟨s, routePrefix ++ s⟩ (List.mem_map.2 ⟨s, hs, rfl⟩)
  exact ⟨row, List.mem_append_right _ h3, (h1 row h3).2.2.1, h4⟩

theorem create_cases (c : Change) (targets : List NewTarget) :
    (∃ e fault, l.create c targets = (.error e, { l with fault })) ∨
      l.create c targets = (.ok (l.record c targets).1, (l.record c targets).2) := by
  unfold create
  split
  · exact Or.inl ⟨_, l.fault, rfl⟩
  · split
    · exact Or.inl ⟨_, l.fault, rfl⟩
    · split
      · exact Or.inl ⟨_, none, rfl⟩
      · exact Or.inr rfl

end Ledger

end ZoneRelay
