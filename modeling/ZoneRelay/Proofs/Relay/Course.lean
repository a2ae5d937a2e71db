import ZoneRelay.Cluster.Basic
import ZoneRelay.Proofs.Bus.Reach
import ZoneRelay.Proofs.Ledger.Dispatch

/-!
# The course of a pass

A pass over the outbox goes on while the world around it does: at every turn the bus may be another
one, a route may work or not, and the ledger may be out of reach. Nothing but the pass itself
changes the tables of the ledger.

* `Surroundings`: what happens around a pass; `calm` is nothing, and `staged` makes every attempt to
  publish go as it is told to.
* `Cluster.course`: a pass amid some surroundings, with its turns; `course_calm` is that amid none
  it is `Cluster.pollOnce`.
* `WorksThrough`: what a pass makes of its rows, one after the other.
* `Cluster.courseFrom_cases`, `Cluster.runs_courseFrom`: one turn of a pass, and all of them.
-/

namespace ZoneRelay

/-- What happens around a pass. Before each turn the bus, the modes of its routes and whether the
ledger can be reached may change, in view of the number of the turn and the message. -/
structure Surroundings where
  bus : ℕ → OutboxRow → Bus → Bus
  modes : ℕ → OutboxRow → RouteModes → RouteModes
  reachable : ℕ → OutboxRow → Bool → Bool

namespace Surroundings

/-- Nothing happens. -/
def calm : Surroundings where
  bus _ _ b := b
  modes _ _ m := m
  reachable _ _ a := a

/-- At each turn the route works as it is told to. -/
def staged (mode : ℕ → OutboxRow → RouteMode) : Surroundings where
  bus _ row _ := Bus.empty.declare row.routeKey
  modes n row _ := [(row.routeKey, mode n row)]
  reachable _ _ a := a

/-- Whether the ledger stays within reach. -/
def KeepsLedger (w : Surroundings) : Prop :=
  ∀ n row, w.reachable n row true = true

end Surroundings

/-- A message that had its turn, and how publishing it went. -/
structure PassTurn where
  row : OutboxRow
  outcome : Attempt
  deriving DecidableEq

namespace PassTurn

/-- Whether the message went through. -/
def wentThrough (t : PassTurn) : Bool :=
  t.outcome == .confirmed

/-- The messages that went through. -/
def confirmed (turns : List PassTurn) : List OutboxRow :=
  (turns.filter (·.wentThrough)).map (·.row)

/-- The messages that did not. -/
def failed (turns : List PassTurn) : List OutboxRow :=
  (turns.filter (!·.wentThrough)).map (·.row)

variable {row : OutboxRow} {outcome : Attempt} {turns later : List PassTurn}

@[simp] theorem confirmed_nil : confirmed [] = [] := rfl

@[simp] theorem failed_nil : failed [] = [] := rfl

@[simp] theorem confirmed_cons_confirmed :
    confirmed (⟨row, .confirmed⟩ :: turns) = row :: confirmed turns := rfl

@[simp] theorem failed_cons_confirmed :
    failed (⟨row, .confirmed⟩ :: turns) = failed turns := rfl

theorem mem_confirmed_iff :
    row ∈ confirmed turns ↔ ∃ t ∈ turns, t.outcome = .confirmed ∧ t.row = row := by
  simp [confirmed, wentThrough, and_assoc]

theorem confirmed_cons_of_ne (ho : outcome ≠ .confirmed) :
    confirmed (⟨row, outcome⟩ :: turns) = confirmed turns := by
  simp [confirmed, wentThrough, ho]

theorem failed_cons_of_ne (ho : outcome ≠ .confirmed) :
    failed (⟨row, outcome⟩ :: turns) = row :: failed turns := by
  simp [failed, wentThrough, ho]

@[simp] theorem confirmed_append :
    confirmed (turns ++ later) = confirmed turns ++ confirmed later := by
  unfold confirmed
  rw [List.filter_append, List.map_append]

@[simp] theorem failed_append :
    failed (turns ++ later) = failed turns ++ failed later := by
  unfold failed
  rw [List.filter_append, List.map_append]

end PassTurn

/-- How a pass went. -/
structure PassCourse where
  result : Except LedgerError PassReport
  /-- The turns that came to their end. -/
  turns : List PassTurn
  /-- A message that the bus has, but that the ledger could not be told of. -/
  lost : Option OutboxRow
  cluster : Cluster

/-- How a pass goes that has no turn any more. -/
def PassCourse.over (result : Except LedgerError PassReport) (lost : Option OutboxRow)
    (cluster : Cluster) : PassCourse :=
  { result, turns := [], lost, cluster }

/-- How a pass went that had a turn before. -/
def PassCourse.after (o : PassCourse) (t : PassTurn) : PassCourse :=
  { o with turns := t :: o.turns }

namespace Relay

/-- The relay at a turn. -/
def amid (r : Relay) (w : Surroundings) (n : ℕ) (row : OutboxRow) : Relay :=
  { r with
    ledger := { r.ledger with available := w.reachable n row r.ledger.available }
    bus := w.bus n row r.bus
    modes := w.modes n row r.modes }

/-- How publishing a message goes. -/
def outcome (r : Relay) (row : OutboxRow) : Attempt :=
  (r.publish row.routeKey { host := row.serverId, replyTo := some r.ackQueue } row.payload).1

end Relay

namespace Cluster

/-- Goes on with a pass amid some surroundings, `n` turns having been taken. -/
def courseFrom (w : Surroundings) : ℕ → ℕ → Cluster → Pass → PassCourse
  | 0, _, c, p => .over (.ok p.report) none c
  | fuel + 1, n, c, p =>
    let p := p.ready
    match p.next? with
    | none => .over (.ok p.report) none c
    | some row =>
      let relay := c.relay.amid w n row
      let outcome := relay.outcome row
      match relay.sendNext p row with
      | (.done p, relay) => (courseFrom w fuel (n + 1) { c with relay } p).after ⟨row, outcome⟩
      | (.aborted e, relay) => .over (.error e) (some row) { c with relay }
      | (.hanging, relay) =>
        let (p, relay) := (relay.moveTo (relay.now + c.publishTimeout)).sendFailed p row
        (courseFrom w fuel (n + 1) { c with relay } p).after ⟨row, outcome⟩

/-- A pass over the outbox, to its end, amid some surroundings. -/
def course (c : Cluster) (w : Surroundings) : PassCourse :=
  match c.relay.beginPass c.batchSize with
  | .error e => .over (.error e) none c
  | .ok p => courseFrom w (p.rows.length + 1) 0 c p

theorem courseFrom_calm (fuel n : ℕ) (c : Cluster) (p : Pass) :
    ((courseFrom .calm fuel n c p).result, (courseFrom .calm fuel n c p).cluster) =
      c.continuePass none fuel p := by
  induction fuel generalizing n c p with
  | zero => rfl
  | succ fuel ih =>
    rw [courseFrom, continuePass]
    simp only [Option.any_none, Bool.false_eq_true, if_false]
    cases hnext : p.ready.next? with
    | none => rfl
    | some row =>
      have hamid : c.relay.amid .calm n row = c.relay := rfl
      simp only [hamid]
      rcases c.relay.sendNext p.ready row with ⟨p' | e | _, r⟩
      · exact ih (n + 1) { c with relay := r } p'
      · rfl
      · exact ih (n + 1) _ _

/-- **Amid nothing a pass is the one over the outbox.** -/
theorem course_calm (c : Cluster) :
    ((c.course .calm).result, (c.course .calm).cluster) = c.pollOnce := by
  unfold course pollOnce pass
  cases c.relay.beginPass c.batchSize with
  | error e => rfl
  | ok p => exact courseFrom_calm _ _ _ _

end Cluster

variable {r : Relay} {c : Cluster} {p : Pass} {row : OutboxRow} {rest : List OutboxRow}
  {w : Surroundings}

/-- A message goes through if and only if its route works. -/
theorem Relay.outcome_confirmed_iff (r : Relay) (row : OutboxRow) :
    r.outcome row = .confirmed ↔ r.bus.Reaches r.modes row.routeKey :=
  Bus.attempt_confirmed_iff ..

/-- **Every outcome can be staged**: a message goes through, fails or never ends, as the mode of its
route says. -/
theorem Relay.outcome_staged (r : Relay) (mode : ℕ → OutboxRow → RouteMode) (n : ℕ)
    (row : OutboxRow) :
    (r.amid (.staged mode) n row).outcome row =
      match mode n row with
      | .normal | .twice => .confirmed
      | .fail | .failOnce => .failed .reset
      | .hang => .hanging := by
  have hout : (r.amid (.staged mode) n row).outcome row =
      ((Bus.empty.declare row.routeKey).attempt [(row.routeKey, mode n row)] row.routeKey
        ⟨row.serverId, some r.ackQueue⟩ row.payload).1 := rfl
  rw [hout]
  generalize mode n row = m
  have hmode : RouteModes.mode [(row.routeKey, m)] row.routeKey = m := by
    unfold RouteModes.mode
    rw [List.lookup_cons_self, Option.getD_some]
  have hreaches : m = .normal ∨ m = .twice →
      (Bus.empty.declare row.routeKey).Reaches [(row.routeKey, m)] row.routeKey := by
    intro h
    refine ⟨rfl, ?_, ?_⟩
    · simp [Bus.declare, Bus.queue?, Bus.empty]
    · rwa [hmode]
  cases m with
  | normal => exact (Bus.attempt_confirmed_iff ..).2 (hreaches (Or.inl rfl))
  | twice => exact (Bus.attempt_confirmed_iff ..).2 (hreaches (Or.inr rfl))
  | fail => simp only [Bus.attempt, hmode]
  | failOnce => simp only [Bus.attempt, hmode]
  | hang => simp only [Bus.attempt, hmode]

/-! ## What a pass makes of its rows -/

/-- The messages in front that are left are those on routes that are blocked. -/
theorem Pass.skip_spec (blocked : List String) (rows : List OutboxRow) :
    ∃ left, rows = left ++ (Pass.skip blocked rows).2 ∧
      (∀ row ∈ left, row.routeKey ∈ blocked) ∧
      ∀ row ∈ (Pass.skip blocked rows).2.head?, row.routeKey ∉ blocked := by
  induction rows with
  | nil => exact ⟨[], rfl, by simp, by simp [Pass.skip]⟩
  | cons x rest ih =>
    unfold Pass.skip
    split
    · next hx =>
      obtain ⟨left, h1, h2, h3⟩ := ih
      refine ⟨x :: left, by simpa using h1, fun row hrow => ?_, h3⟩
      rcases List.mem_cons.1 hrow with rfl | hrow
      · simpa using hx
      · exact h2 row hrow
    · next hx =>
      refine ⟨[], rfl, by simp, fun row hrow => ?_⟩
      obtain rfl : x = row := by simpa using hrow
      simpa using hx

/-- A pass that is ready has left the messages in front that are on blocked routes. -/
theorem Pass.ready_spec (p : Pass) : ∃ left, p.rows = left ++ p.ready.rows ∧
    (∀ row ∈ left, row.routeKey ∈ p.blocked) ∧ ∀ row ∈ p.ready.next?, row.routeKey ∉ p.blocked :=
  Pass.skip_spec p.blocked p.rows

theorem Pass.next?_nil (hp : p.rows = []) : p.next? = none := by
  unfold Pass.next?
  rw [hp, List.head?_nil]

theorem Pass.next?_cons (hp : p.rows = row :: rest) : p.next? = some row := by
  unfold Pass.next?
  rw [hp, List.head?_cons]

theorem Pass.rows_fail (hp : p.rows = row :: rest) : (p.fail row).rows = rest := by
  unfold Pass.fail
  rw [hp, List.drop_one, List.tail_cons]

/-- What a pass makes of its rows, one after the other, with some routes blocked: the turns that
come to their end, and the message with which it breaks off, if it does. -/
inductive WorksThrough : List String → List OutboxRow → List PassTurn → Option OutboxRow → Prop
  | done {blocked : List String} : WorksThrough blocked [] [] none
  | deferred {blocked : List String} {row : OutboxRow} {rows : List OutboxRow}
      {turns : List PassTurn} {lost : Option OutboxRow} (h : row.routeKey ∈ blocked)
      (later : WorksThrough blocked rows turns lost) : WorksThrough blocked (row :: rows) turns lost
  | confirmed {blocked : List String} {row : OutboxRow} {rows : List OutboxRow}
      {turns : List PassTurn} {lost : Option OutboxRow} (h : row.routeKey ∉ blocked)
      (later : WorksThrough blocked rows turns lost) :
      WorksThrough blocked (row :: rows) (⟨row, .confirmed⟩ :: turns) lost
  | failed {blocked : List String} {row : OutboxRow} {rows : List OutboxRow}
      {turns : List PassTurn} {lost : Option OutboxRow} (h : row.routeKey ∉ blocked)
      {outcome : Attempt} (ho : outcome ≠ .confirmed)
      (later : WorksThrough (row.routeKey :: blocked) rows turns lost) :
      WorksThrough blocked (row :: rows) (⟨row, outcome⟩ :: turns) lost
  | lost {blocked : List String} {row : OutboxRow} {rows : List OutboxRow}
      (h : row.routeKey ∉ blocked) : WorksThrough blocked (row :: rows) [] (some row)

/-- Rows in front whose routes are blocked have no turn. -/
theorem WorksThrough.skip {blocked : List String} {left rows : List OutboxRow}
    {turns : List PassTurn} {lost : Option OutboxRow} (hleft : ∀ x ∈ left, x.routeKey ∈ blocked)
    (h : WorksThrough blocked rows turns lost) :
    WorksThrough blocked (left ++ rows) turns lost := by
  induction left with
  | nil => exact h
  | cons x left ih =>
    have hrest := ih fun y hy => hleft y (List.mem_cons_of_mem _ hy)
    exact .deferred (hleft x List.mem_cons_self) hrest

/-- The messages that a pass has counted. -/
def PassReport.total (r : PassReport) : ℕ :=
  r.published + r.failed + r.deferred

theorem Pass.length_skip (blocked : List String) (rows : List OutboxRow) :
    (Pass.skip blocked rows).1 + (Pass.skip blocked rows).2.length = rows.length := by
  induction rows with
  | nil => rfl
  | cons x rest ih =>
    unfold Pass.skip
    split
    · simp only [List.length_cons]
      omega
    · simp

/-- A pass that is ready has counted the messages that it left. -/
theorem Pass.total_ready (p : Pass) :
    p.ready.report.total + p.ready.rows.length = p.report.total + p.rows.length := by
  have h := Pass.length_skip p.blocked p.rows
  unfold Pass.ready PassReport.total
  simp only
  omega

/-- The rows of a pass wait in a ledger, each of them once. -/
structure Pass.Waits (p : Pass) (l : Ledger) : Prop where
  ids : (l.outbox.map (·.id)).Nodup
  nodup : p.rows.Nodup
  waiting : ∀ row ∈ p.rows, row ∈ l.outbox

/-- The rows behind another one wait, whether that one stays or has left. -/
theorem Pass.Waits.later {p' : Pass} {l l' : Ledger} (h : p.Waits l) {left : List OutboxRow}
    (hp : p.rows = left ++ row :: p'.rows)
    (hl : l'.outbox = l.outbox ∨ l'.outbox = (l.dispatch [row]).outbox) : p'.Waits l' := by
  have hnodup := h.nodup
  have hwaiting := h.waiting
  rw [hp] at hnodup hwaiting
  obtain ⟨hrow, hrest⟩ := List.nodup_cons.1 hnodup.of_append_right
  have hlater : ∀ x ∈ p'.rows, x ∈ l.outbox := fun x hx =>
    hwaiting x (List.mem_append_right _ (List.mem_cons_of_mem _ hx))
  rcases hl with hl | hl
  · refine ⟨?_, hrest, ?_⟩
    · rw [hl]
      exact h.ids
    · rw [hl]
      exact hlater
  · refine ⟨?_, hrest, fun x hx => ?_⟩
    · rw [hl]
      exact Ledger.nodup_dispatch h.ids [row]
    · have hne : x ≠ row := by
        rintro rfl
        exact hrow hx
      rw [hl, Ledger.mem_dispatch, List.mem_singleton]
      exact ⟨hlater x hx, hne⟩

/-- What a pass comes to, amid some surroundings. -/
structure PassCourse.Runs (o : PassCourse) (w : Surroundings) (l : Ledger) (p : Pass) : Prop where
  rows : WorksThrough p.blocked p.rows o.turns o.lost
  ended : o.lost = none → ∃ report, o.result = .ok report ∧
    report.published = p.report.published + (PassTurn.confirmed o.turns).length ∧
    report.failed = p.report.failed + (PassTurn.failed o.turns).length ∧
    report.total = p.report.total + p.rows.length
  aborted : o.lost ≠ none → o.result = .error (.unavailable .unreachable)
  ledger : ∃ available,
    o.cluster.relay.ledger = { l.dispatch (PassTurn.confirmed o.turns) with available }
  reached : w.KeepsLedger → l.available = true →
    o.lost = none ∧ o.cluster.relay.ledger.available = true

namespace PassCourse.Runs

variable {o : PassCourse} {l : Ledger} {available : Bool}

/-- Leaving the messages in front whose routes are blocked is part of a pass. -/
theorem of_ready (h : o.Runs w l p.ready) : o.Runs w l p := by
  obtain ⟨left, hrows, hleft, -⟩ := p.ready_spec
  refine ⟨?_, fun hlost => ?_, h.aborted, h.ledger, h.reached⟩
  · rw [hrows]
    exact .skip hleft h.rows
  · obtain ⟨report, hok, hpublished, hfailed, htotal⟩ := h.ended hlost
    exact ⟨report, hok, hpublished, hfailed, htotal.trans p.total_ready⟩

/-- A pass that has come to the end of its rows. -/
theorem of_nil (hp : p.rows = []) :
    (PassCourse.over (.ok p.report) none c).Runs w c.relay.ledger p where
  rows := hp ▸ .done
  ended _ := ⟨p.report, rfl, rfl, rfl, by rw [hp]; rfl⟩
  aborted h := absurd rfl h
  ledger := ⟨c.relay.ledger.available, (Ledger.dispatch_nil _).symm⟩
  reached _ ha := ⟨rfl, ha⟩

/-- A turn in which the message leaves. -/
theorem after_confirmed {p' : Pass} (hp : p.rows = row :: p'.rows)
    (hopen : row.routeKey ∉ p.blocked) (hblocked : p'.blocked = p.blocked)
    (hreport : p'.report = { p.report with published := p.report.published + 1 })
    (hkeeps : w.KeepsLedger → l.available = true → available = true)
    (h : o.Runs w (({ l with available } : Ledger).dispatch [row]) p') :
    (o.after ⟨row, .confirmed⟩).Runs w l p := by
  refine ⟨?_, fun hlost => ?_, h.aborted, ?_, fun hw ha => h.reached hw (hkeeps hw ha)⟩
  · have hrows := h.rows
    rw [hblocked] at hrows
    rw [hp]
    exact .confirmed hopen hrows
  · obtain ⟨report, hok, hpublished, hfailed, htotal⟩ := h.ended hlost
    rw [hreport] at hpublished hfailed htotal
    unfold PassReport.total at htotal ⊢
    simp only at hpublished hfailed htotal
    unfold PassCourse.after
    rw [hp, PassTurn.confirmed_cons_confirmed, List.length_cons, List.length_cons]
    exact ⟨report, hok, by omega, hfailed, by omega⟩
  · obtain ⟨a, hledger⟩ := h.ledger
    rw [Ledger.dispatch_dispatch] at hledger
    exact ⟨a, hledger⟩

/-- A turn in which the message does not go through. -/
theorem after_failed {rest : List OutboxRow} {outcome : Attempt} (hp : p.rows = row :: rest)
    (hopen : row.routeKey ∉ p.blocked) (ho : outcome ≠ .confirmed)
    (hkeeps : w.KeepsLedger → l.available = true → available = true)
    (h : o.Runs w { l with available } (p.fail row)) :
    (o.after ⟨row, outcome⟩).Runs w l p := by
  have hconfirmed : PassTurn.confirmed (o.after ⟨row, outcome⟩).turns =
      PassTurn.confirmed o.turns := PassTurn.confirmed_cons_of_ne ho
  have hfails : PassTurn.failed (o.after ⟨row, outcome⟩).turns = row :: PassTurn.failed o.turns :=
    PassTurn.failed_cons_of_ne ho
  have hrest := Pass.rows_fail hp
  refine ⟨?_, fun hlost => ?_, h.aborted, ?_, fun hw ha => h.reached hw (hkeeps hw ha)⟩
  · have hrows := h.rows
    rw [hrest] at hrows
    rw [hp]
    exact .failed hopen ho hrows
  · obtain ⟨report, hok, hpublished, hfailed, htotal⟩ := h.ended hlost
    rw [hrest] at htotal
    unfold PassReport.total Pass.fail at *
    simp only at hpublished hfailed htotal
    rw [hconfirmed, hfails, hp, List.length_cons, List.length_cons]
    exact ⟨report, hok, hpublished, by omega, by omega⟩
  · obtain ⟨a, hledger⟩ := h.ledger
    rw [hconfirmed]
    exact ⟨a, hledger⟩

/-- A pass that breaks off, as the ledger cannot be told of a message. -/
theorem of_lost {rest : List OutboxRow} (hp : p.rows = row :: rest)
    (hopen : row.routeKey ∉ p.blocked) (hlost : w.KeepsLedger → l.available ≠ true)
    (hl : c.relay.ledger = { l with available }) :
    (PassCourse.over (.error (.unavailable .unreachable)) (some row) c).Runs w l p where
  rows := hp ▸ .lost hopen
  ended h := by cases h
  aborted _ := rfl
  ledger := by
    refine ⟨available, ?_⟩
    show c.relay.ledger = { l.dispatch (PassTurn.confirmed []) with available }
    rw [PassTurn.confirmed_nil, Ledger.dispatch_nil]
    exact hl
  reached hw ha := absurd ha (hlost hw)

end PassCourse.Runs

/-! ## One turn -/

/-- **What becomes of a message that has its turn**: it leaves if it goes through and the ledger can
be told so, and else nothing changes in the ledger. -/
theorem Relay.sendNext_turn (p : Pass) (hid : (r.ledger.outbox.map (·.id)).Nodup)
    (hrow : row ∈ r.ledger.outbox) :
    (r.outcome row = .confirmed ∧ ∃ p' r', r.sendNext p row = (.done p', r') ∧
        p'.rows = p.rows.drop 1 ∧ p'.blocked = p.blocked ∧
        p'.report = { p.report with published := p.report.published + 1 } ∧
        r'.ledger = r.ledger.dispatch [row]) ∨
      (r.ledger.available = false ∧
        ∃ r', r.sendNext p row = (.aborted (.unavailable .unreachable), r') ∧
          r'.ledger = r.ledger) ∨
      r.outcome row ≠ .confirmed ∧
        ∃ r', (r.sendNext p row = (.done (p.fail row), r') ∨ r.sendNext p row = (.hanging, r')) ∧
          r'.ledger = r.ledger := by
  rcases hattempt : r.bus.attempt r.modes row.routeKey ⟨row.serverId, some r.ackQueue⟩
    row.payload with ⟨a, bus, modes⟩
  unfold outcome sendNext publish
  simp only [hattempt]
  cases a with
  | confirmed =>
    unfold sendConfirmed Pass.confirm count
    by_cases ha : r.ledger.available = true
    · have hmark := Ledger.markPublished_eq ha hid hrow
      simp only [hmark]
      refine Or.inl ⟨trivial, _, _, rfl, rfl, rfl, rfl, rfl⟩
    · have hfalse : r.ledger.available = false := by simpa using ha
      have hmark := Ledger.markPublished_unreachable hfalse row.id
      simp only [hmark]
      exact Or.inr (Or.inl ⟨hfalse, _, rfl, rfl⟩)
  | failed e => exact Or.inr (Or.inr ⟨by simp, _, Or.inl rfl, rfl⟩)
  | hanging => exact Or.inr (Or.inr ⟨by simp, _, Or.inr rfl, rfl⟩)

namespace Cluster

/-- The ledger at a turn. -/
def ledgerAmid (c : Cluster) (w : Surroundings) (n : ℕ) (row : OutboxRow) : Ledger :=
  { c.relay.ledger with available := w.reachable n row c.relay.ledger.available }

/-- **One turn of a pass**: its message leaves, or the pass breaks off, or the route is blocked. -/
theorem courseFrom_cases (hid : (c.relay.ledger.outbox.map (·.id)).Nodup)
    (hrow : row ∈ c.relay.ledger.outbox) (hp : p.ready.rows = row :: rest) (fuel n : ℕ) :
    (∃ (c' : Cluster) (p' : Pass),
        courseFrom w (fuel + 1) n c p =
          (courseFrom w fuel (n + 1) c' p').after ⟨row, .confirmed⟩ ∧
        p'.rows = rest ∧ p'.blocked = p.blocked ∧
        p'.report = { p.ready.report with published := p.ready.report.published + 1 } ∧
        c'.relay.ledger = (c.ledgerAmid w n row).dispatch [row]) ∨
      (w.reachable n row c.relay.ledger.available = false ∧
        ∃ c' : Cluster, courseFrom w (fuel + 1) n c p =
            .over (.error (.unavailable .unreachable)) (some row) c' ∧
          c'.relay.ledger = c.ledgerAmid w n row) ∨
      ∃ (outcome : Attempt) (c' : Cluster), outcome ≠ .confirmed ∧
        courseFrom w (fuel + 1) n c p =
          (courseFrom w fuel (n + 1) c' (p.ready.fail row)).after ⟨row, outcome⟩ ∧
        c'.relay.ledger = c.ledgerAmid w n row := by
  have hnext := Pass.next?_cons hp
  rw [courseFrom]
  simp only [hnext]
  rcases Relay.sendNext_turn (r := c.relay.amid w n row) p.ready hid hrow with
    ⟨ho, p', r', hsend, hrows, hblocked, hreport, hledger⟩ | ⟨ha, r', hsend, hledger⟩ |
    ⟨ho, r', hsend | hsend, hledger⟩
  · refine Or.inl ⟨{ c with relay := r' }, p', ?_, ?_, hblocked, hreport, hledger⟩
    · simp only [hsend, ho]
    · rw [hrows, hp]
      rfl
  · refine Or.inr (Or.inl ⟨ha, { c with relay := r' }, ?_, hledger⟩)
    simp only [hsend]
  · refine Or.inr (Or.inr ⟨_, { c with relay := r' }, ho, ?_, hledger⟩)
    simp only [hsend]
  · -- publishing that does not end is given up, and then the message has failed like any other
    let r'' := ((r'.moveTo (r'.now + c.publishTimeout)).sendFailed p.ready row).2
    refine Or.inr (Or.inr ⟨_, { c with relay := r'' }, ho, ?_, hledger⟩)
    simp only [hsend]
    rfl

/-! ## All turns -/

/-- A pass leaves its limit as it is. -/
theorem batchSize_courseFrom (fuel n : ℕ) (c : Cluster) (p : Pass) :
    (courseFrom w fuel n c p).cluster.batchSize = c.batchSize := by
  induction fuel generalizing n c p with
  | zero => rfl
  | succ fuel ih =>
    rw [courseFrom]
    cases p.ready.next? with
    | none => rfl
    | some row =>
      simp only
      rcases (c.relay.amid w n row).sendNext p.ready row with ⟨p' | e | _, r⟩
      · exact ih (n + 1) { c with relay := r } p'
      · rfl
      · exact ih (n + 1) _ _

/-- At each turn publishing goes as it does amid the surroundings. -/
theorem outcome_courseFrom (fuel n : ℕ) (c : Cluster) (p : Pass) :
    ∀ t ∈ (courseFrom w fuel n c p).turns,
      ∃ (r : Relay) (k : ℕ), t.outcome = (r.amid w k t.row).outcome t.row := by
  induction fuel generalizing n c p with
  | zero => simp [courseFrom, PassCourse.over]
  | succ fuel ih =>
    rw [courseFrom]
    cases p.ready.next? with
    | none => simp [PassCourse.over]
    | some row =>
      simp only
      rcases (c.relay.amid w n row).sendNext p.ready row with ⟨p' | e | _, r⟩
      · intro t ht
        rcases List.mem_cons.1 ht with rfl | ht
        · exact ⟨c.relay, n, rfl⟩
        · exact ih (n + 1) { c with relay := r } p' t ht
      · simp [PassCourse.over]
      · intro t ht
        rcases List.mem_cons.1 ht with rfl | ht
        · exact ⟨c.relay, n, rfl⟩
        · exact ih (n + 1) _ _ t ht

/-- **What the rest of a pass comes to.** -/
theorem runs_courseFrom {fuel : ℕ} (hwaits : p.Waits c.relay.ledger) (hf : p.rows.length < fuel)
    (n : ℕ) : (courseFrom w fuel n c p).Runs w c.relay.ledger p := by
  induction fuel generalizing c p n with
  | zero => omega
  | succ fuel ih =>
    obtain ⟨left, hrows, -, hfree⟩ := p.ready_spec
    refine .of_ready ?_
    cases hready : p.ready.rows with
    | nil =>
      have hnext := Pass.next?_nil hready
      rw [courseFrom]
      simp only [hnext]
      exact .of_nil hready
    | cons row rest =>
      have hopen : row.routeKey ∉ p.ready.blocked := hfree row (Pass.next?_cons hready)
      rw [hready] at hrows
      have hrow : row ∈ c.relay.ledger.outbox := by
        refine hwaits.waiting row ?_
        rw [hrows]
        exact List.mem_append_right _ List.mem_cons_self
      have hlen : rest.length < fuel := by
        rw [hrows, List.length_append, List.length_cons] at hf
        omega
      have hkeeps : w.KeepsLedger → c.relay.ledger.available = true →
          w.reachable n row c.relay.ledger.available = true := by
        intro hw ha
        rw [ha]
        exact hw n row
      rcases courseFrom_cases hwaits.ids hrow hready (w := w) fuel n with
        ⟨c', p', heq, hrest, hblocked, hreport, hledger⟩ | ⟨ha, c', heq, hledger⟩ |
        ⟨outcome, c', ho, heq, hledger⟩
      · have hwaits' : p'.Waits c'.relay.ledger := by
          refine hwaits.later (by rw [hrows, hrest]) (Or.inr ?_)
          rw [hledger]
          rfl
        have hruns := ih hwaits' (by rwa [hrest]) (n + 1)
        rw [hledger] at hruns
        rw [heq]
        exact .after_confirmed (by rw [hready, hrest]) hopen hblocked hreport hkeeps hruns
      · rw [heq]
        refine .of_lost hready hopen (fun hw h => ?_) hledger
        rw [hkeeps hw h] at ha
        cases ha
      · have hrest := Pass.rows_fail hready
        have hwaits' : (p.ready.fail row).Waits c'.relay.ledger := by
          refine hwaits.later (by rw [hrows, hrest]) (Or.inl ?_)
          rw [hledger]
          rfl
        have hruns := ih hwaits' (by rwa [hrest]) (n + 1)
        rw [hledger] at hruns
        rw [heq]
        exact .after_failed hready hopen ho hkeeps hruns

end Cluster

end ZoneRelay
