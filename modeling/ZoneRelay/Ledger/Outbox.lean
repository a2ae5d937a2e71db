import ZoneRelay.Ledger.Basic

/-!
# The outbox

The outbox keeps a message until it is certain that the bus has it.

* `Ledger.pendingRows`: the messages that wait, oldest change first.
* `Ledger.markPublished`: takes out a message that the bus has.
-/

namespace ZoneRelay.Ledger

/-- When the change of a row was submitted. -/
def submittedAt? (l : Ledger) (r : OutboxRow) : Option Instant :=
  (l.entry? r.changeId).map (·.change.submittedAt)

/-- Whether one time is not after another; no time is before any. -/
def leSubmitted : Option Instant → Option Instant → Bool
  | none, _ => true
  | some _, none => false
  | some t, some u => t.le u

/-- Whether one row goes before another: by the time its change was submitted, then by change, then
by row. -/
def rowLe (l : Ledger) (a b : OutboxRow) : Bool :=
  let x := l.submittedAt? a
  let y := l.submittedAt? b
  if leSubmitted x y then
    !leSubmitted y x || a.changeId < b.changeId || (a.changeId == b.changeId && a.id ≤ b.id)
  else false

/-- At most `limit` messages that wait, oldest change first. -/
def pendingRows (l : Ledger) (limit : Nat) : Except LedgerError (List OutboxRow) :=
  l.ifAvailable ((l.outbox.mergeSort l.rowLe).take limit)

/-- A target whose message the bus has. -/
def Target.markSent (t : Target) : Target :=
  if t.status.rank < TargetStatus.sent.rank then { t with status := .sent } else t

/-- Takes out a message that the bus has. If there is no such message, nothing happens. -/
def markPublished (l : Ledger) (rowId : UInt64) : Except LedgerError Ledger :=
  l.ifAvailable <|
    match l.outbox.find? (·.id == rowId) with
    | none => l
    | some r =>
      { l.mapEntry r.changeId fun e =>
          { e with targets := mapTarget r.serverId Target.markSent e.targets } with
        outbox := l.outbox.filter (·.id != rowId) }

end ZoneRelay.Ledger
