import ZoneRelay.Text.Octets

/-!
# The message bus

The bus has queues with names. A message is published to a queue that has been declared, and is
delivered at least once: a message whose handling failed for the moment comes back to the end of its
queue after a while.

* `Bus.declare`, `Bus.publish`, `Bus.take`: messages on their way in and out.
* `Bus.hold`, `Bus.release`: messages that come back.
-/

namespace ZoneRelay

/-- What a message carries beside its payload. -/
structure Headers where
  /-- The server it is meant for. -/
  host : String
  /-- The queue that an acknowledgment goes to. -/
  replyTo : Option String
  deriving DecidableEq, Repr

/-- A message on a queue. -/
structure Message where
  headers : Headers
  payload : Octets
  /-- Whether it has been delivered before and came back. -/
  redelivered : Bool
  deriving DecidableEq, Repr

/-- Why a message was not published. -/
inductive BusError
  | disconnected
  | reset
  | unroutable (route : String)
  deriving DecidableEq, Repr

/-- The wording of an error. -/
def BusError.message : BusError → String
  | disconnected => "message bus unavailable: broker connection lost"
  | reset => "message bus unavailable: connection reset"
  | unroutable route => "no queue bound to route key '" ++ route ++ "'"

/-- A message that comes back to its queue. -/
structure Held where
  /-- When it comes back, in milliseconds. -/
  due : Nat
  queue : String
  message : Message
  deriving DecidableEq, Repr

/-- The bus. -/
structure Bus where
  /-- The declared queues, each with its messages in order. -/
  queues : List (String × List Message)
  /-- The messages that come back, by time and then in the order in which they were held. -/
  held : List Held
  available : Bool
  deriving DecidableEq

namespace Bus

/-- A bus without queues. -/
def empty : Bus :=
  { queues := [], held := [], available := true }

/-- The messages on a queue, if it is declared. -/
def queue? (b : Bus) (name : String) : Option (List Message) :=
  b.queues.lookup name

/-- The number of messages on a queue. -/
def length (b : Bus) (name : String) : Nat :=
  ((b.queue? name).getD []).length

/-- Declares a queue, unless there is one of that name. -/
def declare (b : Bus) (name : String) : Bus :=
  if (b.queue? name).isSome then b else { b with queues := b.queues ++ [(name, [])] }

/-- Changes the messages on a queue. -/
def mapQueue (b : Bus) (name : String) (f : List Message → List Message) : Bus :=
  { b with queues := b.queues.map fun q => if q.1 = name then (q.1, f q.2) else q }

/-- Puts a message at the end of the queue that the route names. -/
def publish (b : Bus) (route : String) (headers : Headers) (payload : Octets) :
    Except BusError Bus :=
  if !b.available then .error .disconnected
  else
    match b.queue? route with
    | none => .error (.unroutable route)
    | some _ => .ok (b.mapQueue route (· ++ [{ headers, payload, redelivered := false }]))

/-- Takes the first message from a queue. -/
def take (b : Bus) (name : String) : Option (Message × Bus) :=
  match b.queue? name with
  | some (m :: _) => some (m, b.mapQueue name (·.drop 1))
  | _ => none

/-- Puts a held message in its place. -/
def insertHeld (h : Held) : List Held → List Held
  | [] => [h]
  | x :: r => if h.due < x.due then h :: x :: r else x :: insertHeld h r

/-- Keeps a message until it comes back to its queue. -/
def hold (b : Bus) (due : Nat) (queue : String) (m : Message) : Bus :=
  { b with held := insertHeld { due, queue, message := { m with redelivered := true } } b.held }

/-- Lets a message come back. -/
def restore (b : Bus) (h : Held) : Bus :=
  b.mapQueue h.queue (· ++ [h.message])

/-- Lets all messages come back that are due by a time. -/
def release (b : Bus) (now : Nat) : Bus :=
  (b.held.takeWhile (·.due ≤ now)).foldl restore
    { b with held := b.held.dropWhile (·.due ≤ now) }

end Bus

end ZoneRelay
