import ZoneRelay.Relay.Pass
import ZoneRelay.Relay.Receiver
import ZoneRelay.Resolver.Query

/-!
# The relay

The relay is what lies between the submitter of a change and its resolvers: the ledger, the bus, a
receiver for each resolver, and the listener for acknowledgments. Every part acts in steps of its
own.

* `Relay.submit`: records a change for all servers.
* `Relay.beginPass`, `Relay.sendNext`, `Relay.sendFailed`: a pass over the outbox, message by
  message.
* `Relay.deliver`: delivers one message to whom its queue belongs.
-/

namespace ZoneRelay

/-- The ledger, the bus and the receivers. -/
structure Relay where
  ledger : Ledger
  bus : Bus
  /-- The routes that do not work normally. -/
  modes : RouteModes
  receivers : List Receiver
  /-- What the queue of a server starts with. -/
  routePrefix : String
  /-- The queue for acknowledgments. -/
  ackQueue : String
  /-- Whether the relay takes acknowledgments. -/
  takesAcks : Bool
  /-- After how many milliseconds a message comes back. -/
  redeliveryDelay : Nat
  /-- The time, in milliseconds. -/
  now : Nat
  /-- How often the ledger's clock has been read. It never shows the same time twice. -/
  readings : Nat
  tally : Tally

/-- Whom a queue belongs to. -/
inductive QueueOwner
  | receiver (serverId : String)
  | acks
  | nobody
  deriving DecidableEq, Repr

/-- How far handling a message came. -/
inductive Handling
  | finished (result : Except HandlerError Unit)
  /-- It waits for ever. -/
  | stuck

namespace Relay

/-- The queue of a server. -/
def routeTo (r : Relay) (serverId : String) : String :=
  r.routePrefix ++ serverId

/-- Reads the ledger's clock. -/
def readClock (r : Relay) : Stamp × Relay :=
  (r.readings, { r with readings := r.readings + 1 })

/-- Counts one. -/
def count (r : Relay) (c : Counter) : Relay :=
  { r with tally := r.tally.count c }

/-- The receiver of a server. -/
def receiver? (r : Relay) (serverId : String) : Option Receiver :=
  r.receivers.find? (·.serverId == serverId)

/-- Puts a receiver in the place of the one of its server. -/
def setReceiver (r : Relay) (x : Receiver) : Relay :=
  { r with receivers := r.receivers.map fun y => if y.serverId = x.serverId then x else y }

/-- Moves the time forward. The messages that are due by then come back. -/
def moveTo (r : Relay) (time : Nat) : Relay :=
  let now := max r.now time
  { r with now, bus := r.bus.release now }

/-- Records a change for all servers there are now. -/
def submit (r : Relay) (c : Change) : Except LedgerError Change × Relay :=
  match r.ledger.roster with
  | .error e => (.error e, r)
  | .ok servers =>
    let (result, ledger) := r.ledger.create c (servers.map fun s => ⟨s, r.routeTo s⟩)
    (result, { r with ledger })

/-- Publishes a message over a route with its mode. -/
def publish (r : Relay) (route : String) (headers : Headers) (payload : Octets) :
    Attempt × Relay :=
  let (a, bus, modes) := r.bus.attempt r.modes route headers payload
  (a, { r with bus, modes })

/-- Begins a pass over the outbox. -/
def beginPass (r : Relay) (batchSize : Nat) : Except LedgerError Pass :=
  (r.ledger.pendingRows batchSize).map Pass.begin

/-- The message in front went through. -/
def sendConfirmed (r : Relay) (p : Pass) (row : OutboxRow) : Except LedgerError Pass × Relay :=
  let r := r.count .outboxPublished
  match p.confirm r.ledger row with
  | .ok (p, ledger) => (.ok p, { r with ledger })
  | .error e => (.error e, r)

/-- The message in front did not go through. -/
def sendFailed (r : Relay) (p : Pass) (row : OutboxRow) : Pass × Relay :=
  (p.fail row, r.count .outboxPublishFailures)

/-- What came of publishing the message in front. -/
inductive Sent
  | done (p : Pass)
  | aborted (e : LedgerError)
  /-- Publishing has not ended. -/
  | hanging

/-- Publishes the message in front. -/
def sendNext (r : Relay) (p : Pass) (row : OutboxRow) : Sent × Relay :=
  let headers : Headers := { host := row.serverId, replyTo := some r.ackQueue }
  match r.publish row.routeKey headers row.payload with
  | (.confirmed, r) =>
    match r.sendConfirmed p row with
    | (.ok p, r) => (.done p, r)
    | (.error e, r) => (.aborted e, r)
  | (.failed _, r) =>
    let (p, r) := r.sendFailed p row
    (.done p, r)
  | (.hanging, r) => (.hanging, r)

/-- Whom a queue belongs to. A receiver goes before the listener for acknowledgments. -/
def owner (r : Relay) (queue : String) : QueueOwner :=
  match r.receivers.find? fun x => r.routeTo x.serverId == queue with
  | some x => .receiver x.serverId
  | none => if r.takesAcks && queue == r.ackQueue then .acks else .nobody

/-- A receiver handles a message: it applies the change and acknowledges it. -/
def receive (r : Relay) (x : Receiver) (m : Message) : Handling × Relay :=
  let (outcome, result, x) := x.digest m
  let r := (r.setReceiver x).count (.changesApplied outcome)
  match result with
  | .error e => (.finished (.error e), r)
  | .ok id =>
    match m.headers.replyTo with
    | none => (.finished (.ok ()), r)
    | some queue =>
      match r.publish queue x.ackHeaders (x.acknowledgment id) with
      | (.confirmed, r) => (.finished (.ok ()), r)
      | (.failed e, r) => (.finished (.error (.retryable (.bus e))), r)
      | (.hanging, r) => (.stuck, r)

/-- The listener handles an acknowledgment: the target is in sync. -/
def acceptAck (r : Relay) (m : Message) : Except HandlerError Unit × Relay :=
  match Ack.decode? m.payload with
  | none => (.error (.nonRetryable .undecodable), r)
  | some a =>
    let (now, r) := r.readClock
    match r.ledger.advance a.changeId a.serverId .inSync now with
    | .ok (moved, ledger) =>
      let r := { r with ledger }
      (.ok (), if moved then r.count .acksProcessed else r)
    | .error e =>
      if e.isTransient then (.error (.retryable (.ledger e)), r)
      else (.error (.nonRetryable (.ledger e)), r)

/-- How a script says to handle a message. -/
inductive Reply
  | accept
  | retry
  | drop
  deriving DecidableEq, Repr

/-- What a reply comes to. -/
def Reply.result : Reply → Except HandlerError Unit
  | accept => .ok ()
  | retry => .error (.retryable .scripted)
  | drop => .error (.nonRetryable .scripted)

/-- Handles a message as the owner of its queue does, or as `script` says. -/
def handle (r : Relay) (queue : String) (script : Option Reply) (m : Message) : Handling × Relay :=
  match script, r.owner queue with
  | some reply, _ => (.finished reply.result, r)
  | none, .nobody => (.finished (.ok ()), r)
  | none, .acks =>
    let (result, r) := r.acceptAck m
    (.finished result, r)
  | none, .receiver serverId =>
    match r.receiver? serverId with
    | some x => r.receive x m
    | none => (.finished (.ok ()), r)

/-- Keeps a message that comes back. -/
def settle (r : Relay) (queue : String) (m : Message) : Handling → Relay
  | .finished (.error (.retryable _)) =>
    { r with bus := r.bus.hold (r.now + r.redeliveryDelay) queue m }
  | .finished (.error (.nonRetryable _)) | .finished (.ok _) | .stuck => r

/-- Delivers the first message on a queue, if there is one. -/
def deliver (r : Relay) (queue : String) (script : Option Reply) :
    Option (Message × Handling × Relay) :=
  match r.bus.take queue with
  | none => none
  | some (m, bus) =>
    let (h, r) := { r with bus }.handle queue script m
    some (m, h, r.settle queue m h)

/-- Forgets the changes that all targets acknowledged longer ago than `retain` seconds. -/
def purge (r : Relay) (retain : Nat) : Except LedgerError Nat × Relay :=
  let (now, r) := r.readClock
  match r.ledger.purge (max Stamp.earliest (now - retain * 1_000_000_000)) with
  | .ok (n, ledger) => (.ok n, { r with ledger })
  | .error e => (.error e, r)

/-- Answers a query at a server's resolver. -/
def query (r : Relay) (x : Receiver) (order : FirewallOrder) (qname : String)
    (qtype : RecordType) : Except StoreError Resolution × Relay :=
  match x.resolver.query order qname qtype with
  | .ok a => (.ok a, { r with tally := r.tally.countAll a.counters })
  | .error e => (.error e, r)

end Relay

end ZoneRelay
