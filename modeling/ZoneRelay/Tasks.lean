/-!
# Tasks

A process waits at its end for all tasks it has started, whether they fail or not. A task that does
something at regular times has a ticker. A tick that comes late moves all later ones, so that there
is always a whole interval between two of them.

* `Tasks.early`: the tasks that end by themselves.
* `Tasks.finished`: the tasks that end at all.
* `Tasks.shutdown`: the tasks that are left after the end.
* `Ticker.next`: the tick after this one.
-/

namespace ZoneRelay

/-- How a task ends. -/
inductive TaskKind
  /-- When it is told to. -/
  | waiting
  /-- By itself. -/
  | immediate
  /-- It fails. -/
  | failing
  deriving DecidableEq, Repr

/-- The tasks that have been started, in order. -/
abbrev Tasks := List TaskKind

namespace Tasks

/-- The places of the tasks of some kinds. -/
def places (p : TaskKind → Bool) (t : Tasks) : List Nat :=
  (t.zipIdx.filter fun x => p x.1).map Prod.snd

/-- The tasks that end before they are told to. -/
def early (t : Tasks) : List Nat :=
  t.places (· == .immediate)

/-- The tasks that end, early or when they are told to. -/
def finished (t : Tasks) : List Nat :=
  t.places (· != .failing)

/-- The tasks that are left once all have been waited for. -/
def shutdown (_ : Tasks) : Tasks :=
  []

end Tasks

namespace Ticker

/-- How many milliseconds late a tick may be and still leave the next one where it was. -/
def tolerance : Nat := 5

/-- The tick after one that was meant for `due` and came at `now`. -/
def next (interval due now : Nat) : Nat :=
  if due + tolerance < now then now + interval else due + interval

theorem lt_next {interval : Nat} (h : 0 < interval) (due now : Nat) :
    due < next interval due now := by
  unfold next
  split <;> omega

end Ticker

end ZoneRelay
