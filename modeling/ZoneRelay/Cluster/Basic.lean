import ZoneRelay.Relay.Basic
import ZoneRelay.Tasks

/-!
# A cluster run step by step

A cluster is a relay whose parts act only when they are told to. Time moves only where it is said.

* `Cluster.pollOnce`, `Cluster.runPoller`: passes over the outbox.
* `Cluster.deliverWaiting`: delivers the messages that wait on a queue.
* `Cluster.runPurger`: forgets old changes at regular times.
-/

namespace ZoneRelay

/-- A relay and how its outbox is worked through. -/
structure Cluster where
  relay : Relay
  /-- How many messages a pass takes at most. -/
  batchSize : Nat
  /-- After how many milliseconds publishing is given up. -/
  publishTimeout : Nat

namespace Cluster

/-- A cluster of resolvers over empty stores. -/
def new (servers extraResolvers undeclared : List String) (routePrefix ackQueue : String)
    (redeliveryDelay batchSize publishTimeout : Nat) : Cluster :=
  let ids := (servers ++ extraResolvers).foldl (fun l s => insertSorted s l) []
  let queues := ackQueue :: ids.map (routePrefix ++ ·)
  let receiver (id : String) : Receiver :=
    { serverId := id, resolver := .inMemory, memory := .new 10000 3600 }
  { relay :=
      { ledger := .withServers servers
        bus := (queues.filter fun q => !undeclared.contains q).foldl Bus.declare .empty
        modes := []
        receivers := ids.map receiver
        routePrefix, ackQueue
        takesAcks := true
        redeliveryDelay
        now := 0
        readings := 0
        tally := [] }
    batchSize, publishTimeout }

/-- Goes on with a pass, which is given up at time `until?`. Publishing that does not end takes
until it is given up. `fuel` is the number of messages at most. -/
def continuePass (c : Cluster) (until? : Option Nat) : Nat → Pass →
    Except LedgerError PassReport × Cluster
  | 0, p => (.ok p.report, c)
  | fuel + 1, p =>
    if until?.any (· ≤ c.relay.now) then (.ok p.report, c)
    else
      let p := p.ready
      match p.next? with
      | none => (.ok p.report, c)
      | some row =>
        match c.relay.sendNext p row with
        | (.done p, relay) => continuePass { c with relay } until? fuel p
        | (.aborted e, relay) => (.error e, { c with relay })
        | (.hanging, relay) =>
          let (p, relay) := (relay.moveTo (relay.now + c.publishTimeout)).sendFailed p row
          continuePass { c with relay } until? fuel p

/-- One pass over the outbox. -/
def pass (c : Cluster) (until? : Option Nat) : Except LedgerError PassReport × Cluster :=
  match c.relay.beginPass c.batchSize with
  | .error e => (.error e, c)
  | .ok p => c.continuePass until? (p.rows.length + 1) p

/-- One pass over the outbox, to its end. -/
def pollOnce (c : Cluster) : Except LedgerError PassReport × Cluster :=
  c.pass none

/-- Passes over the outbox at regular times, the next one at `due`, until `stop`. `fuel` is the
number of passes at most. -/
def pollUntil (stop interval : Nat) : Nat → Nat → Cluster → Cluster
  | 0, _, c => c
  | fuel + 1, due, c =>
    if stop ≤ max due c.relay.now then { c with relay := c.relay.moveTo stop }
    else
      let c := { c with relay := c.relay.moveTo due }
      let tick := c.relay.now
      let c := (c.pass (some stop)).2
      pollUntil stop interval fuel (Ticker.next interval due tick) c

/-- Passes over the outbox for a while, the first one at once. -/
def runPoller (c : Cluster) (ms interval : Nat) : Cluster :=
  pollUntil (c.relay.now + ms) (max 1 interval) (ms + 2) c.relay.now c

/-- Forgets old changes at regular times, the next one at `due`, until `stop`. -/
def purgeUntil (stop interval retain : Nat) : Nat → Nat → Cluster → Cluster
  | 0, _, c => c
  | fuel + 1, due, c =>
    if stop ≤ due then { c with relay := c.relay.moveTo stop }
    else
      let relay := (c.relay.moveTo due).purge retain
      purgeUntil stop interval retain fuel (due + interval) { c with relay := relay.2 }

/-- Forgets old changes for a while, the first time after one interval. -/
def runPurger (c : Cluster) (ms interval retain : Nat) : Cluster :=
  purgeUntil (c.relay.now + ms) (max 1 interval) retain (ms + 2)
    (c.relay.now + max 1 interval) c

/-- Delivers `n` messages from a queue, handled as `script` says as long as it lasts. Without a
script the owner of the queue handles them. -/
def deliverSome (queue : String) : Nat → Option (List Relay.Reply) → Relay →
    List (Message × Handling) × Relay
  | 0, _, r => ([], r)
  | n + 1, script, r =>
    let reply := script.map fun l => l.head?.getD .accept
    match r.deliver queue reply with
    | none => ([], r)
    | some (m, h, r) =>
      let (more, r) := deliverSome queue n (script.map (·.drop 1)) r
      ((m, h) :: more, r)

/-- Delivers the messages that wait on a queue, at most `max`. A queue that is not there is
declared. -/
def deliverWaiting (c : Cluster) (queue : String) (max : Option Nat)
    (script : Option (List Relay.Reply)) : List (Message × Handling) × Cluster :=
  let relay := { c.relay with bus := c.relay.bus.declare queue }
  let waiting := relay.bus.length queue
  let n := (max.map (min waiting)).getD waiting
  let (deliveries, relay) := deliverSome queue n script relay
  (deliveries, { c with relay })

end Cluster

end ZoneRelay
