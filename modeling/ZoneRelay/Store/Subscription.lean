import ZoneRelay.Store.Basic

/-!
# Subscriptions

A subscriber first gets the entries whose keys start as it asked, and then every later event on such
keys. The store keeps only the last `capacity` events for it: a subscriber that falls further behind
is told how many it missed, and its subscription ends.

* `Store.subscribe`: a new subscription.
* `Subscription.read`: the next thing a subscriber gets.
-/

namespace ZoneRelay

/-- How a subscription stands. -/
inductive SubscriptionPhase
  | live
  /-- The subscriber has been told that it missed events. -/
  | lagged
  | ended
  deriving DecidableEq, Repr

/-- A subscription to the keys that start so. -/
structure Subscription where
  start : String
  /-- The entries found at first that have not been delivered yet. -/
  waiting : List Entry
  /-- The number of the next event to look at. -/
  next : Nat
  phase : SubscriptionPhase
  deriving DecidableEq, Repr

/-- What a subscriber gets. -/
inductive Notice
  | event (e : Event)
  | missed (count : Nat)
  deriving DecidableEq, Repr

/-- The wording of a notice about missed events. -/
def Notice.missedMessage (count : Nat) : String :=
  "subscriber fell behind and missed " ++ String.ofList (Nat.toDigits 10 count) ++ " events"

/-- How many events a store keeps for its subscribers. -/
def Subscription.capacity : Nat := 1024

/-- A new subscription. -/
def Store.subscribe (s : Store) (start : String) : Subscription :=
  { start, waiting := s.table.scan start, next := s.log.size, phase := .live }

namespace Subscription

/-- The first event from number `i` on whose key starts so, and the number after it. -/
def seek (start : String) (log : Array Event) (i : Nat) : Option (Event × Nat) :=
  if h : i < log.size then
    if Text.startsWith start log[i].key then some (log[i], i + 1) else seek start log (i + 1)
  else none
  termination_by log.size - i

/-- Reads from the events, after the entries found at first. Nothing follows a notice about missed
events: what would come next ends the subscription. -/
def readLive (log : Array Event) (s : Subscription) : Option Notice × Subscription :=
  if s.next + capacity < log.size then
    let next := log.size - capacity
    match s.phase with
    | .live => (some (.missed (next - s.next)), { s with next, phase := .lagged })
    | .lagged | .ended => (none, { s with next, phase := .ended })
  else
    match seek s.start log s.next with
    | none => (none, { s with next := log.size })
    | some (e, next) =>
      match s.phase with
      | .live => (some (.event e), { s with next })
      | .lagged | .ended => (none, { s with next, phase := .ended })

/-- What the subscriber gets next, if there is anything. `log` holds all events of the store. -/
def read (log : Array Event) (s : Subscription) : Option Notice × Subscription :=
  match s.waiting with
  | (key, value) :: rest => (some (.event (.put key value)), { s with waiting := rest })
  | [] =>
    match s.phase with
    | .ended => (none, s)
    | .live | .lagged => s.readLive log

/-- What the subscriber gets next, at most `max` notices. -/
def readUpTo (log : Array Event) : Nat → Subscription → List Notice × Subscription
  | 0, s => ([], s)
  | max + 1, s =>
    match s.read log with
    | (none, s) => ([], s)
    | (some n, s) =>
      let (more, s) := s.readUpTo log max
      (n :: more, s)

end Subscription

end ZoneRelay
