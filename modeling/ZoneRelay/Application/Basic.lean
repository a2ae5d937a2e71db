import ZoneRelay.Relay.Basic
import ZoneRelay.Settings.Basic

/-!
# Applications

An application is a relay with the parts that its role asks for, put together from settings.

* `Application.start`: a new application.
* `Application.submit`: records a change.
* `Application.stop`, `Application.restart`: what remains when it ends.
-/

namespace ZoneRelay

/-- What works through the outbox, and since when it has been waiting. -/
inductive Poller
  /-- The next pass begins at `due`. -/
  | waiting (since due : Nat)
  /-- Publishing `row` has not ended; it is given up at `deadline`. The pass after this one begins
  at `due`. -/
  | publishing (since deadline due : Nat) (pass : Pass) (row : OutboxRow)

/-- A running application. -/
structure Application where
  settings : Settings
  relay : Relay
  /-- The directory that all its stores are kept in. -/
  disk : Disk
  /-- What works through the outbox, where there is a ledger. -/
  poller : Option Poller
  /-- When old changes are forgotten next, where there is a ledger. -/
  purgeDue : Option Nat
  /-- The queues whose consumer waits for ever. -/
  stuck : List String

/-- Why an application does not start. -/
inductive StartError
  | settings (cause : SettingsError)
  | register (serverId : String)
  | openStore (path : String)
  | loadState (serverId : String)
  deriving DecidableEq, Repr

/-- The wording of an error. -/
def StartError.message : StartError → String
  | settings cause => cause.message
  | register serverId => "failed to register server '" ++ serverId ++ "'"
  | openStore path => "failed to open store at " ++ path
  | loadState serverId => "failed to load resolver state for '" ++ serverId ++ "'"

namespace Settings

/-- Whether the process runs the ledger's side. -/
def controls (s : Settings) : Bool :=
  s.node.role != .resolver

/-- The store of a node. -/
def openStore (s : Settings) (disk : Disk) (serverId : String) : Except StartError Store :=
  match s.storePath? serverId with
  | none => .ok .inMemory
  | some path =>
    match Store.open disk path with
    | .ok store => .ok store
    | .error _ => .error (.openStore path)

/-- The receiver of a node. -/
def receiver (s : Settings) (disk : Disk) (serverId : String) : Except StartError Receiver := do
  let store ← s.openStore disk serverId
  match Resolver.load store with
  | .ok resolver =>
    .ok { serverId, resolver,
          memory := .new s.resolver.appliedCacheSize.toNat s.resolver.appliedCacheTtl.toNat }
  | .error _ => .error (.loadState serverId)

/-- The queues that there are from the start. -/
def queues (s : Settings) : List String :=
  s.distributor.ackQueue :: (s.ledger.servers ++ s.hosted).map (s.distributor.routePrefix ++ ·)

/-- The number of milliseconds between two times at which old changes are forgotten. -/
def purgeMillis (s : Settings) : Nat :=
  max 1 s.ledger.purgeInterval.toNat * 1000

end Settings

/-- Adds a server when an application starts. -/
def Ledger.enroll (l : Ledger) (serverId : String) : Except StartError Ledger :=
  match l.register serverId with
  | .ok l => .ok l
  | .error _ => .error (.register serverId)

namespace Application

/-- A new application over a ledger and a directory. `tally` and `readings` go on from an earlier
one. -/
def start (s : Settings) (ledger : Ledger) (disk : Disk) (tally : Tally) (readings : Nat) :
    Except StartError Application := do
  match s.validate with
  | .ok () => .ok ()
  | .error e => .error (.settings e)
  let ledger ← s.ledger.servers.foldlM Ledger.enroll ledger
  let receivers ← s.hosted.mapM (s.receiver disk)
  .ok {
    settings := s
    relay :=
      { ledger
        bus := s.queues.foldl Bus.declare .empty
        modes := []
        receivers
        routePrefix := s.distributor.routePrefix
        ackQueue := s.distributor.ackQueue
        takesAcks := s.controls
        redeliveryDelay := s.distributor.redeliveryDelay.toNat
        now := 0
        readings
        tally }
    disk
    poller := if s.controls then some (.waiting 0 0) else none
    purgeDue := if s.controls then some s.purgeMillis else none
    stuck := [] }

/-- Records a change, where the application has a ledger. -/
def submit (a : Application) (c : Change) : Option (Except LedgerError Change × Application) :=
  if a.settings.controls then
    let (result, relay) := a.relay.submit c
    some (result, { a with relay })
  else none

/-- The relay after the application has ended. A message whose publishing has not ended is given up
first. -/
def stop (a : Application) : Relay :=
  match a.poller with
  | some (.publishing _ _ _ pass row) => (a.relay.sendFailed pass row).2
  | some (.waiting ..) | none => a.relay

/-- Ends an application and starts it again over the same directory, with the ledger as it is or
with a new one. The messages on the bus are lost. -/
def restart (a : Application) (keepLedger : Bool) : Except StartError Application :=
  let r := a.stop
  start a.settings (if keepLedger then r.ledger else .empty) a.disk r.tally r.readings

end Application

end ZoneRelay
