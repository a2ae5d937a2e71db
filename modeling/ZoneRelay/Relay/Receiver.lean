import ZoneRelay.Bus.Basic
import ZoneRelay.Ledger.Basic
import ZoneRelay.Metric
import ZoneRelay.Resolver.Apply

/-!
# Receiving changes

A receiver takes the messages on a resolver's queue: it applies the change in each and then
acknowledges it. A message that could not be handled for the moment comes back; one that never can
be is dropped.

* `Recall`: the changes that a receiver remembers to have applied, to save itself looking at the
  store. It may forget any of them at any time.
* `Receiver.digest`: what a message does to the resolver, and whether it is to be acknowledged.
* `Receiver.acknowledgment`: the message that acknowledges a change.
-/

namespace ZoneRelay

/-! ## Recently applied changes -/

/-- The changes that a receiver remembers. -/
structure Recall where
  /-- How many changes it is meant to remember. -/
  capacity : Nat
  /-- For how many seconds; for none, it remembers nothing. -/
  lifetime : Nat
  /-- The remembered changes, in the order in which they were noted. -/
  ids : List ChangeId
  /-- How many changes have been noted since it was last cut down to its capacity. -/
  fresh : Nat
  deriving DecidableEq, Repr

namespace Recall

/-- How many changes are noted before the capacity is looked at. -/
def slack : Nat := 64

/-- Remembers nothing yet. -/
def new (capacity lifetime : Nat) : Recall :=
  { capacity, lifetime, ids := [], fresh := 0 }

/-- Whether a change is remembered. -/
def contains (r : Recall) (id : ChangeId) : Bool :=
  r.ids.contains id

/-- Forgets what is beyond the capacity, once enough has been noted. -/
def trim (r : Recall) : Recall :=
  if slack ≤ r.fresh then { r with ids := r.ids.take r.capacity, fresh := 0 } else r

/-- Notes a change. -/
def note (r : Recall) (id : ChangeId) : Recall :=
  if r.lifetime = 0 then r
  else
    let r := r.trim
    { r with ids := r.ids ++ [id], fresh := r.fresh + 1 }

end Recall

/-! ## Handling messages -/

/-- Why a message was not handled. -/
inductive HandlerCause
  | undecodable
  | apply (cause : ApplyError)
  | bus (cause : BusError)
  | ledger (cause : LedgerError)
  /-- The handler was told to refuse. -/
  | scripted
  deriving DecidableEq, Repr

/-- What becomes of a message that was not handled. -/
inductive HandlerError
  /-- It comes back. -/
  | retryable (cause : HandlerCause)
  /-- It is dropped. -/
  | nonRetryable (cause : HandlerCause)
  deriving DecidableEq, Repr

/-- The wording of a cause, where it is this library's own. -/
def HandlerCause.message? : HandlerCause → Option String
  | undecodable => none
  | apply cause => cause.message?
  | bus cause => some cause.message
  | ledger cause => some cause.message
  | scripted => some "scripted"

/-- The cause of an error. -/
def HandlerError.cause : HandlerError → HandlerCause
  | retryable c | nonRetryable c => c

/-- Whether the message comes back. -/
def HandlerError.isRetryable : HandlerError → Bool
  | retryable _ => true
  | nonRetryable _ => false

/-- A resolver that takes messages. -/
structure Receiver where
  serverId : String
  resolver : Resolver
  memory : Recall

namespace Receiver

/-- What the receiver does with a change, given whether it remembers having applied it. -/
def absorb (r : Receiver) (known : Bool) (c : Change) :
    ReceiptOutcome × Except HandlerError Unit × Receiver :=
  if known then (.duplicate, .ok (), r)
  else
    let (result, resolver) := r.resolver.apply c
    let r := { r with resolver }
    match result with
    | .ok .applied => (.applied, .ok (), { r with memory := r.memory.note c.id })
    | .ok (.stale _) => (.stale, .ok (), { r with memory := r.memory.note c.id })
    | .error e =>
      if e.isRetryable then (.retry, .error (.retryable (.apply e)), r)
      else (.rejected, .error (.nonRetryable (.apply e)), r)

/-- What a message does to the resolver. If all is well, the change in it is to be acknowledged. -/
def digest (r : Receiver) (m : Message) :
    ReceiptOutcome × Except HandlerError ChangeId × Receiver :=
  match Change.decode? m.payload with
  | none => (.poison, .error (.nonRetryable .undecodable), r)
  | some c =>
    let (outcome, result, r) := r.absorb (r.memory.contains c.id) c
    (outcome, result.map fun _ => c.id, r)

/-- The headers of an acknowledgment. -/
def ackHeaders (r : Receiver) : Headers :=
  { host := r.serverId, replyTo := none }

/-- The payload of an acknowledgment. -/
def acknowledgment (r : Receiver) (id : ChangeId) : Octets :=
  Ack.encode { changeId := id, serverId := r.serverId }

end Receiver

end ZoneRelay
