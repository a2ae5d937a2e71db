import ZoneRelay.Change.Wire

/-!
# The change ledger

The ledger knows every change, which servers it is meant for and how far it has come with each. A
change, its targets and the messages to be sent for it are recorded together or not at all.

* `Ledger.create`: records a change.
* `Ledger.advance`: moves a target forward.
* `Ledger.changesWithPendingTargets`, `Ledger.pendingTargets`, `Ledger.status`: how far changes are.
* `Ledger.purge`: forgets changes that all targets have applied.
-/

namespace ZoneRelay

/-- How far a change has come with one server. -/
inductive TargetStatus
  | pending
  /-- Handed to the bus. -/
  | sent
  /-- Acknowledged. -/
  | inSync
  deriving DecidableEq, Repr

namespace TargetStatus

/-- The place of a status on the way forward. -/
def rank : TargetStatus → Nat
  | pending => 0
  | sent => 1
  | inSync => 2

/-- The name of a status. -/
def wireName : TargetStatus → String
  | pending => "PENDING"
  | sent => "SENT"
  | inSync => "INSYNC"

/-- The status with a name. -/
def ofWireName? (s : String) : Option TargetStatus :=
  if s = "PENDING" then some pending
  else if s = "SENT" then some sent
  else if s = "INSYNC" then some inSync
  else none

end TargetStatus

/-- A time on the ledger's clock, in nanoseconds since 1970. -/
abbrev Stamp := Int

namespace Stamp

/-- The earliest time there is. -/
def earliest : Stamp := -8_334_601_228_800_000_000_000

/-- The latest time there is. -/
def latest : Stamp := 8_210_266_876_799_999_999_999

end Stamp

/-- How far a change has come with one server, and when the server acknowledged it. -/
structure Target where
  serverId : String
  status : TargetStatus
  syncedAt : Option Stamp
  deriving DecidableEq, Repr

/-- A change and its targets, by ascending server. An entry stands for a row in a table of changes
and the rows of that change in a table of targets: the two are written and purged together, so that
no target is without its change. -/
structure LedgerEntry where
  change : Change
  targets : List Target
  deriving DecidableEq, Repr

/-- A message that waits to be sent. -/
structure OutboxRow where
  id : UInt64
  changeId : ChangeId
  serverId : String
  routeKey : String
  payload : Octets
  deriving DecidableEq, Repr

/-- Where the messages to a server go. -/
structure NewTarget where
  serverId : String
  routeKey : String
  deriving DecidableEq, Repr

/-- A point in the recording of a change at which it can be made to fail. -/
inductive LedgerFault
  | afterChangeRow
  | afterTargetRows
  | afterOutboxRows
  deriving DecidableEq, Repr

/-- Why a ledger is unavailable. -/
inductive Outage
  | unreachable
  | injected (point : LedgerFault)
  deriving DecidableEq, Repr

/-- Why a ledger call failed. -/
inductive LedgerError
  | changeNotFound (id : ChangeId)
  | targetNotFound (id : ChangeId) (serverId : String)
  | noTargets
  | unavailable (outage : Outage)
  deriving DecidableEq, Repr

/-- The name of a point. -/
def LedgerFault.name : LedgerFault → String
  | afterChangeRow => "AfterChangeRow"
  | afterTargetRows => "AfterTargetRows"
  | afterOutboxRows => "AfterOutboxRows"

/-- The wording of an outage. -/
def Outage.message : Outage → String
  | unreachable => "database unreachable"
  | injected point => "injected fault at " ++ point.name

namespace LedgerError

/-- The wording of an error. -/
def message : LedgerError → String
  | changeNotFound id => "change " ++ String.ofList (Text.decimal id.toNat) ++ " not found"
  | targetNotFound id serverId =>
    "change " ++ String.ofList (Text.decimal id.toNat) ++ " has no target '" ++ serverId ++ "'"
  | noTargets => "a change needs at least one target"
  | unavailable outage => "ledger unavailable: " ++ outage.message

/-- Whether the same call may succeed later. -/
def isTransient : LedgerError → Bool
  | unavailable _ => true
  | changeNotFound _ | targetNotFound .. | noTargets => false

end LedgerError

/-- The ledger. -/
structure Ledger where
  /-- The greatest identity given to a change so far. -/
  lastChangeId : ChangeId
  /-- The greatest identity given to an outbox row so far. -/
  lastRowId : UInt64
  /-- The servers that new changes are meant for, in ascending order. -/
  servers : List String
  /-- The changes with their targets, by ascending identity: the tables of both, in one list. -/
  entries : List LedgerEntry
  /-- The messages that wait to be sent, by ascending identity. -/
  outbox : List OutboxRow
  available : Bool
  /-- Where the next recording of a change is made to fail. -/
  fault : Option LedgerFault
  deriving DecidableEq

/-- Puts a text into an ascending list without repeats. -/
def insertSorted (s : String) : List String → List String
  | [] => [s]
  | x :: r => if s < x then s :: x :: r else if s = x then x :: r else x :: insertSorted s r

namespace Ledger

/-- The ledger that has recorded nothing. -/
def empty : Ledger :=
  { lastChangeId := 0, lastRowId := 0, servers := [], entries := [], outbox := [],
    available := true, fault := none }

/-- A ledger with servers and no change. -/
def withServers (servers : List String) : Ledger :=
  { empty with servers := servers.foldl (fun l s => insertSorted s l) [] }

/-- `a`, as long as the ledger can be reached. -/
def ifAvailable (l : Ledger) (a : α) : Except LedgerError α :=
  if l.available then .ok a else .error (.unavailable .unreachable)

/-- Adds a server. -/
def register (l : Ledger) (serverId : String) : Except LedgerError Ledger :=
  l.ifAvailable { l with servers := insertSorted serverId l.servers }

/-- The servers that new changes are meant for. -/
def roster (l : Ledger) : Except LedgerError (List String) :=
  l.ifAvailable l.servers

/-- Puts a fresh target into a list by ascending server. -/
def insertTarget (serverId : String) : List Target → List Target
  | [] => [⟨serverId, .pending, none⟩]
  | t :: r =>
    if serverId < t.serverId then ⟨serverId, .pending, none⟩ :: t :: r
    else if serverId = t.serverId then ⟨serverId, .pending, none⟩ :: r
    else t :: insertTarget serverId r

/-- The outbox rows for a change, numbered on from `id`. -/
def newRows (change : Change) (id : UInt64) : List NewTarget → List OutboxRow
  | [] => []
  | t :: r =>
    { id := id + 1, changeId := change.id, serverId := t.serverId, routeKey := t.routeKey,
      payload := change.encode } :: newRows change (id + 1) r

/-- The ledger after recording a change, and the change with its identity. -/
def record (l : Ledger) (change : Change) (targets : List NewTarget) : Change × Ledger :=
  let change := { change with id := l.lastChangeId + 1, status := .pending }
  let entry : LedgerEntry :=
    { change, targets := targets.foldl (fun ts t => insertTarget t.serverId ts) [] }
  (change,
    { l with
      lastChangeId := change.id
      lastRowId := l.lastRowId + UInt64.ofNat targets.length
      entries := l.entries ++ [entry]
      outbox := l.outbox ++ newRows change l.lastRowId targets })

/-- Records a change for targets, with one outbox row for each. If it is made to fail, nothing is
recorded. -/
def create (l : Ledger) (change : Change) (targets : List NewTarget) :
    Except LedgerError Change × Ledger :=
  if targets.isEmpty then (.error .noTargets, l)
  else if !l.available then (.error (.unavailable .unreachable), l)
  else
    match l.fault with
    | some point => (.error (.unavailable (.injected point)), { l with fault := none })
    | none =>
      let (change, l) := l.record change targets
      (.ok change, l)

/-- The entry of a change. -/
def entry? (l : Ledger) (id : ChangeId) : Option LedgerEntry :=
  l.entries.find? (·.change.id == id)

/-- The change with an identity. -/
def change? (l : Ledger) (id : ChangeId) : Except LedgerError (Option Change) :=
  l.ifAvailable ((l.entry? id).map (·.change))

/-- Whether one change goes before another: by time of submission, then by identity. -/
def submittedBefore (a b : Change) : Bool :=
  if a.submittedAt.le b.submittedAt then !b.submittedAt.le a.submittedAt || a.id ≤ b.id else false

/-- The changes that some target has not acknowledged, oldest first. -/
def changesWithPendingTargets (l : Ledger) : Except LedgerError (List Change) :=
  l.ifAvailable
    (((l.entries.map (·.change)).filter (·.status == .pending)).mergeSort submittedBefore)

/-- The targets of a change that have not acknowledged it. -/
def pendingTargets (l : Ledger) (id : ChangeId) : Except LedgerError (List Target) :=
  l.ifAvailable (((l.entry? id).map fun e => e.targets.filter (·.status != .inSync)).getD [])

/-- A change with all its targets. -/
def status (l : Ledger) (id : ChangeId) : Except LedgerError (Option LedgerEntry) :=
  l.ifAvailable (l.entry? id)

/-- A target moved to a later status. -/
def Target.raise (t : Target) (status : TargetStatus) (now : Stamp) : Target :=
  { t with status, syncedAt := if status = .inSync then some now else t.syncedAt }

/-- The entry after a change to one of its targets. A change whose targets have all acknowledged it
is in sync. -/
def LedgerEntry.settle (e : LedgerEntry) (targets : List Target) : LedgerEntry :=
  { change :=
      if targets.all (·.status == .inSync) then { e.change with status := .inSync } else e.change
    targets }

/-- Changes the targets of one server. -/
def mapTarget (serverId : String) (f : Target → Target) (ts : List Target) : List Target :=
  ts.map fun t => if t.serverId = serverId then f t else t

/-- Changes the entry of one change. -/
def mapEntry (l : Ledger) (id : ChangeId) (f : LedgerEntry → LedgerEntry) : Ledger :=
  { l with entries := l.entries.map fun e => if e.change.id = id then f e else e }

/-- Moves a target forward, and says whether it moved. A target never moves back. -/
def advance (l : Ledger) (id : ChangeId) (serverId : String) (status : TargetStatus)
    (now : Stamp) : Except LedgerError (Bool × Ledger) :=
  if !l.available then .error (.unavailable .unreachable)
  else
    match l.entry? id with
    | none => .error (.changeNotFound id)
    | some e =>
      match e.targets.find? (·.serverId == serverId) with
      | none => .error (.targetNotFound id serverId)
      | some t =>
        if status.rank ≤ t.status.rank then .ok (false, l)
        else
          .ok (true, l.mapEntry id fun e =>
            LedgerEntry.settle e (mapTarget serverId (Target.raise · status now) e.targets))

/-- The time of a change's last acknowledgment. -/
def lastSynced (e : LedgerEntry) : Option Stamp :=
  (e.targets.filterMap (·.syncedAt)).max?

/-- Whether all targets acknowledged a change before a time. -/
def isExpired (cutoff : Stamp) (e : LedgerEntry) : Bool :=
  e.change.status == .inSync && (lastSynced e).all fun t => t < cutoff

/-- Forgets the changes that all targets acknowledged before a time, and says how many. -/
def purge (l : Ledger) (cutoff : Stamp) : Except LedgerError (Nat × Ledger) :=
  let expired := (l.entries.filter (isExpired cutoff)).map (·.change.id)
  l.ifAvailable (expired.length,
    { l with
      entries := l.entries.filter fun e => !isExpired cutoff e
      outbox := l.outbox.filter fun r => !expired.contains r.changeId })

end Ledger

end ZoneRelay
