import ZoneRelay.Application.Basic
import ZoneRelay.Tasks

/-!
# An application in time

Between two moments at which something is due, nothing happens. At such a moment the parts act one
after the other: the poller and the messages that come back, whichever has been waiting for longer
first, then the purger, and then the consumers, until no message waits any more.

* `Application.settle`: all that happens at a moment.
* `Application.nextDue?`: the next moment.
* `Application.advance`: all that happens in a while.
-/

namespace ZoneRelay

namespace Relay

/-- Publishes the messages of a pass up to the first one for which publishing does not end. `fuel`
is the number of messages at least. -/
def sendAll (r : Relay) : Nat → Pass → Option (Pass × OutboxRow) × Relay
  | 0, _ => (none, r)
  | fuel + 1, p =>
    let p := p.ready
    match p.next? with
    | none => (none, r)
    | some row =>
      match r.sendNext p row with
      | (.done p, r) => r.sendAll fuel p
      | (.aborted _, r) => (none, r)
      | (.hanging, r) => (some (p, row), r)

/-- The relay after others have changed the directory with its stores. -/
def mount (r : Relay) (disk : Disk) : Relay :=
  { r with receivers := r.receivers.map fun x =>
      { x with resolver := { x.resolver with store := x.resolver.store.mount disk } } }

/-- The directory as the owner of a queue left it. -/
def diskAfter (r : Relay) (queue : String) (disk : Disk) : Disk :=
  match r.owner queue with
  | .receiver serverId =>
    ((r.receiver? serverId).bind fun x => x.resolver.store.disk?).getD disk
  | .acks | .nobody => disk

/-- The queues with a consumer. -/
def consumed (r : Relay) : List String :=
  r.receivers.map (fun x => r.routeTo x.serverId) ++ if r.takesAcks then [r.ackQueue] else []

end Relay

namespace Poller

/-- When the poller acts next. -/
def due : Poller → Nat
  | .waiting _ due => due
  | .publishing _ deadline .. => deadline

/-- Since when the poller has been waiting. -/
def since : Poller → Nat
  | .waiting since _ => since
  | .publishing since .. => since

end Poller

namespace Application

/-- Goes on with a pass; the one after it begins at `due`. -/
def proceed (a : Application) (due : Nat) (p : Pass) : Application :=
  match a.relay.sendAll (p.rows.length + 1) p with
  | (none, relay) => { a with relay, poller := some (.waiting relay.now due) }
  | (some (p, row), relay) =>
    let deadline := relay.now + a.settings.distributor.publishTimeout.toNat
    { a with relay, poller := some (.publishing relay.now deadline due p row) }

/-- Begins a pass that was due. -/
def beginPass (a : Application) (due : Nat) : Application :=
  let due := Ticker.next a.settings.distributor.pollInterval.toNat due a.relay.now
  match a.relay.beginPass a.settings.distributor.batchSize.toNat with
  | .ok p => a.proceed due p
  | .error _ => { a with poller := some (.waiting a.relay.now due) }

/-- Lets the poller act as long as something is due. `fuel` is how often it does at most. -/
def poll (a : Application) : Nat → Application
  | 0 => a
  | fuel + 1 =>
    match a.poller with
    | none => a
    | some (.waiting _ due) => if a.relay.now < due then a else (a.beginPass due).poll fuel
    | some (.publishing _ deadline due pass row) =>
      if a.relay.now < deadline then a
      else
        let (pass, relay) := a.relay.sendFailed pass row
        ({ a with relay }.proceed due pass).poll fuel

/-- Forgets old changes if that is due. -/
def purge (a : Application) : Application :=
  match a.purgeDue with
  | none => a
  | some due =>
    if a.relay.now < due then a
    else
      { a with
        relay := (a.relay.purge a.settings.ledger.retainSynced.toNat).2
        purgeDue := some (Ticker.next a.settings.purgeMillis due a.relay.now) }

/-- Delivers messages from a queue, `n` at most. A store finds its file as the others left it. -/
def consume (queue : String) : Nat → Application → Application
  | 0, a => a
  | n + 1, a =>
    if a.stuck.contains queue then a
    else
      match (a.relay.mount a.disk).deliver queue none with
      | none => a
      | some (_, h, relay) =>
        let a := { a with relay, disk := relay.diskAfter queue a.disk }
        match h with
        | .stuck => { a with stuck := queue :: a.stuck }
        | .finished _ => consume queue n a

/-- Whether no consumer has a message to take. -/
def isIdle (a : Application) : Bool :=
  a.relay.consumed.all fun q => a.stuck.contains q || a.relay.bus.length q == 0

/-- Lets the consumers act until no message waits any more. `fuel` is the number of rounds at most.
-/
def drain : Nat → Application → Application
  | 0, a => a
  | fuel + 1, a =>
    let a := { a with relay := a.relay.moveTo a.relay.now }
    if a.isIdle then a
    else drain fuel (a.relay.consumed.foldl (fun a q => consume q (a.relay.bus.length q) a) a)

/-- How often the poller acts at one moment at most: it gives up every message once in every pass,
and a late tick is followed by few more. -/
def pollBound (a : Application) : Nat :=
  (Ticker.tolerance + 2) * (a.relay.ledger.outbox.length + 2)

/-- How often at most the consumers are gone through at one moment: messages that come back at once
do so until no commit is made to fail any more. -/
def drainBound (a : Application) : Nat :=
  a.relay.receivers.foldl (fun n x => n + x.resolver.store.failing) 8

/-- If the poller is to act now, lets those messages come back first that are due now as well and
have been held for longer than the poller has been waiting. -/
def releaseOlder (a : Application) : Application :=
  match a.poller with
  | none => a
  | some p =>
    if a.relay.now < p.due then a
    else
      let older := min a.relay.now (p.since + a.relay.redeliveryDelay - 1)
      { a with relay := { a.relay with bus := a.relay.bus.release older } }

/-- All that happens at the present moment. -/
def settle (a : Application) : Application :=
  let a := a.releaseOlder
  let a := a.poll a.pollBound
  let a := { a with relay := a.relay.moveTo a.relay.now }.purge
  a.drain a.drainBound

/-- The next moment at which something is due. -/
def nextDue? (a : Application) : Option Nat :=
  ((a.poller.map Poller.due).toList ++ a.purgeDue.toList ++
    (a.relay.bus.held.head?.map (·.due)).toList).min?

/-- All that happens up to a time. `fuel` is the number of moments at most. -/
def advanceTo (stop : Nat) : Nat → Application → Application
  | 0, a => a
  | fuel + 1, a =>
    let a := a.settle
    match a.nextDue? with
    | some time =>
      if time ≤ stop then
        advanceTo stop fuel { a with relay := { a.relay with now := max a.relay.now time } }
      else { a with relay := { a.relay with now := stop } }
    | none => { a with relay := { a.relay with now := stop } }

/-- All that happens in a while. -/
def advance (a : Application) (ms : Nat) : Application :=
  advanceTo (a.relay.now + ms) (ms + 2) a

end Application

end ZoneRelay
