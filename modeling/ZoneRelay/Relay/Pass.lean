import ZoneRelay.Bus.Fault
import ZoneRelay.Ledger.Outbox

/-!
# One pass over the outbox

A pass publishes the messages that wait, one after the other. Once a message on a route has failed,
the later ones on that route wait for the next pass, so that every queue gets its changes in order.

* `Pass.begin`: the messages of a pass.
* `Pass.next?`: the message to publish now.
* `Pass.confirm`, `Pass.fail`: what follows from how it went.
-/

namespace ZoneRelay

/-- What a pass has done so far. -/
structure PassReport where
  published : Nat
  failed : Nat
  /-- Messages left because an earlier one on their route failed. -/
  deferred : Nat
  deriving DecidableEq, Repr

/-- A pass under way. -/
structure Pass where
  rows : List OutboxRow
  /-- The routes on which a message has failed. -/
  blocked : List String
  report : PassReport
  deriving DecidableEq, Repr

namespace Pass

/-- A pass over these messages. -/
def «begin» (rows : List OutboxRow) : Pass :=
  { rows, blocked := [], report := ⟨0, 0, 0⟩ }

/-- Leaves the messages in front whose route is blocked. -/
def skip (blocked : List String) : List OutboxRow → Nat × List OutboxRow
  | [] => (0, [])
  | r :: rest =>
    if blocked.contains r.routeKey then
      let (n, rows) := skip blocked rest
      (n + 1, rows)
    else (0, r :: rest)

/-- The pass without the messages in front whose route is blocked. -/
def ready (p : Pass) : Pass :=
  let (n, rows) := skip p.blocked p.rows
  { p with rows, report := { p.report with deferred := p.report.deferred + n } }

/-- The message to publish now, in a pass that is ready. -/
def next? (p : Pass) : Option OutboxRow :=
  p.rows.head?

/-- The message went through: it leaves the outbox. -/
def confirm (p : Pass) (l : Ledger) (r : OutboxRow) : Except LedgerError (Pass × Ledger) := do
  let l ← l.markPublished r.id
  .ok ({ p with
    rows := p.rows.drop 1
    report := { p.report with published := p.report.published + 1 } }, l)

/-- The message did not go through: its route is blocked. -/
def fail (p : Pass) (r : OutboxRow) : Pass :=
  { p with
    rows := p.rows.drop 1
    blocked := r.routeKey :: p.blocked
    report := { p.report with failed := p.report.failed + 1 } }

end Pass

end ZoneRelay
