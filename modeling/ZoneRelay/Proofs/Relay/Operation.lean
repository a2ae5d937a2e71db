import ZoneRelay.Cluster.Basic
import ZoneRelay.Proofs.Bus.Basic
import ZoneRelay.Proofs.Ledger.Books

/-!
# A relay in operation

The parts of a relay act in any order, each in steps of its own, and anything may fail in between. A
pass over the outbox takes two steps for each message, as the ledger may be lost after publishing.

* `Operation`: a relay, where its poller is, and what has come to pass so far.
* `Action`, `Operation.act`, `Operation.run`: the steps.
* `Relay.Fresh`: a relay before its first step.
* `Operation.run_pass`: a whole pass over the outbox is made of such steps.
-/

namespace ZoneRelay

/-- What a receiver made of a message. -/
structure Receipt where
  serverId : String
  /-- The change in the message, if there is one. -/
  change? : Option Change
  outcome : ReceiptOutcome
  deriving DecidableEq, Repr

/-- Where the poller is. -/
inductive Polling
  | idle
  /-- In a pass, between two messages. -/
  | between (p : Pass)
  /-- Publishing the message in front has not ended. -/
  | hanging (p : Pass) (row : OutboxRow)
  /-- The bus has the message in front, but the ledger does not know. -/
  | confirmed (p : Pass) (row : OutboxRow)
  deriving DecidableEq, Repr

/-- A relay, where its poller is, and what has come to pass so far. -/
structure Operation where
  relay : Relay
  poller : Polling
  /-- The changes that were submitted, with the identities they got. -/
  submitted : List Submission
  /-- The receipts, in order. -/
  receipts : List Receipt

/-- What may happen next. -/
inductive Action
  | submit (c : Change)
  | beginPass (batchSize : Nat)
  /-- The poller publishes the message in front. -/
  | publishNext
  /-- The poller gives up publishing. -/
  | giveUp
  | markPublished
  | stopPass
  /-- The first message on a queue is handled by whom the queue belongs to. -/
  | deliver (queue : String)
  /-- A message on a queue is delivered once more, at another place in the queue. -/
  | duplicate (queue : String) (i j : Nat)
  | moveTo (time : Nat)
  | purge (cutoff : Stamp)
  /-- The ledger is lost or found, or its next recording is made to fail. -/
  | setLedger (available : Bool) (fault : Option LedgerFault)
  | setBus (available : Bool)
  | setMode (route : String) (mode : RouteMode)
  | declare (queue : String)
  /-- The next commits of a server's store are made to fail. -/
  | failCommits (serverId : String) (n : Nat)
  /-- Others change the directory with the file of a server's store. -/
  | mount (serverId : String) (disk : Disk)
  /-- A receiver forgets that it applied a change. -/
  | forget (serverId : String) (id : ChangeId)

namespace Relay

/-- Changes the receiver of a server. -/
def mapReceiver (r : Relay) (serverId : String) (f : Receiver → Receiver) : Relay :=
  { r with receivers := r.receivers.map fun x => if x.serverId = serverId then f x else x }

/-- What the owner of a queue makes of a message, if it is a receiver. -/
def receipt? (r : Relay) (queue : String) (m : Message) : Option Receipt :=
  match r.owner queue with
  | .receiver s =>
    (r.receiver? s).map fun x => ⟨x.serverId, Change.decode? m.payload, (x.digest m).1⟩
  | .acks | .nobody => none

/-- Nothing has been recorded, sent or applied yet. -/
structure Fresh (r : Relay) : Prop where
  entries : r.ledger.entries = []
  outbox : r.ledger.outbox = []
  queues : ∀ q ∈ r.bus.queues, q.2 = []
  held : r.bus.held = []
  ids : (r.receivers.map (·.serverId)).Nodup
  tables : ∀ x ∈ r.receivers, x.resolver.store.table = .empty
  memories : ∀ x ∈ r.receivers, x.memory.ids = []

theorem Fresh.queue {r : Relay} (hr : r.Fresh) (q : String) : (r.bus.queue? q).getD [] = [] := by
  cases hq : r.bus.queue? q with
  | none => rfl
  | some ms =>
    obtain ⟨l, l', h1, -⟩ := List.lookup_eq_some_iff.1 hq
    exact hr.queues (q, ms) (by rw [h1]; simp)

end Relay

namespace Operation

/-- A relay before its first step. -/
def start (r : Relay) : Operation :=
  { relay := r, poller := .idle, submitted := [], receipts := [] }

/-- A change is recorded for all servers, as long as there are identities. -/
def submit (o : Operation) (c : Change) : Operation :=
  if o.relay.ledger.HasRoom then
    match o.relay.submit c with
    | (.ok c, r) =>
      { o with relay := r, submitted := o.submitted ++ [⟨c, o.relay.ledger.servers⟩] }
    | (.error _, r) => { o with relay := r }
  else o

/-- The poller begins a pass. -/
def beginPass (o : Operation) (batchSize : Nat) : Operation :=
  match o.poller, o.relay.beginPass batchSize with
  | .idle, .ok p => { o with poller := .between p }
  | _, _ => o

/-- The poller publishes the message in front, or ends the pass if there is none. -/
def publishNext (o : Operation) : Operation :=
  match o.poller with
  | .between p =>
    match p.ready.next? with
    | none => { o with poller := .idle }
    | some row =>
      let headers : Headers := { host := row.serverId, replyTo := some o.relay.ackQueue }
      match o.relay.publish row.routeKey headers row.payload with
      | (.confirmed, r) =>
        { o with relay := r.count .outboxPublished, poller := .confirmed p.ready row }
      | (.failed _, r) =>
        { o with relay := (r.sendFailed p.ready row).2
                 poller := .between (r.sendFailed p.ready row).1 }
      | (.hanging, r) => { o with relay := r, poller := .hanging p.ready row }
  | _ => o

/-- The poller gives up publishing the message in front. -/
def giveUp (o : Operation) : Operation :=
  match o.poller with
  | .hanging p row =>
    { o with relay := (o.relay.sendFailed p row).2
             poller := .between (o.relay.sendFailed p row).1 }
  | _ => o

/-- The message in front leaves the outbox. If the ledger is lost, the pass ends. -/
def markPublished (o : Operation) : Operation :=
  match o.poller with
  | .confirmed p row =>
    match p.confirm o.relay.ledger row with
    | .ok (p, ledger) => { o with relay := { o.relay with ledger }, poller := .between p }
    | .error _ => { o with poller := .idle }
  | _ => o

/-- The first message on a queue is handled. Handling that never ends is no step. -/
def deliver (o : Operation) (queue : String) : Operation :=
  if o.relay.owner queue = .nobody then o
  else
    match o.relay.deliver queue none with
    | some (m, .finished _, r) =>
      { o with relay := r, receipts := o.receipts ++ (o.relay.receipt? queue m).toList }
    | _ => o

/-- Changes that all targets acknowledged before a time are forgotten. -/
def purge (o : Operation) (cutoff : Stamp) : Operation :=
  match o.relay.ledger.purge cutoff with
  | .ok (_, ledger) => { o with relay := { o.relay with ledger } }
  | .error _ => o

/-- What comes of an action. One that is not possible changes nothing. -/
def act (o : Operation) : Action → Operation
  | .submit c => o.submit c
  | .beginPass batchSize => o.beginPass batchSize
  | .publishNext => o.publishNext
  | .giveUp => o.giveUp
  | .markPublished => o.markPublished
  | .stopPass => { o with poller := .idle }
  | .deliver queue => o.deliver queue
  | .duplicate queue i j =>
    { o with relay := { o.relay with bus := o.relay.bus.duplicate queue i j } }
  | .moveTo time => { o with relay := o.relay.moveTo time }
  | .purge cutoff => o.purge cutoff
  | .setLedger available fault =>
    { o with relay := { o.relay with ledger := { o.relay.ledger with available, fault } } }
  | .setBus available =>
    { o with relay := { o.relay with bus := { o.relay.bus with available } } }
  | .setMode route mode =>
    { o with relay := { o.relay with modes := o.relay.modes.set route mode } }
  | .declare queue => { o with relay := { o.relay with bus := o.relay.bus.declare queue } }
  | .failCommits s n =>
    { o with relay := o.relay.mapReceiver s fun x =>
        { x with resolver := { x.resolver with store := { x.resolver.store with failing := n } } } }
  | .mount s disk =>
    { o with relay := o.relay.mapReceiver s fun x =>
        { x with resolver := { x.resolver with store := x.resolver.store.mount disk } } }
  | .forget s id =>
    { o with relay := o.relay.mapReceiver s fun x =>
        { x with memory := { x.memory with ids := x.memory.ids.filter (· != id) } } }

/-- What comes of actions in order. -/
def run (o : Operation) (actions : List Action) : Operation :=
  actions.foldl act o

/-- The changes that were submitted. -/
def changes (o : Operation) : List Change :=
  o.submitted.map (·.change)

/-- The changes that were committed to the store of a server, in that order. -/
def committed (o : Operation) (serverId : String) : List Change :=
  o.receipts.filterMap fun x =>
    if x.serverId = serverId ∧ x.outcome = .applied then x.change? else none

theorem run_append (o : Operation) (a b : List Action) : o.run (a ++ b) = (o.run a).run b :=
  List.foldl_append

theorem run_cons (o : Operation) (a : Action) (l : List Action) :
    o.run (a :: l) = (o.act a).run l :=
  rfl

/-! ## A pass is made of steps -/

/-- Publishes a row of the outbox. -/
def send (o : Operation) (row : OutboxRow) : Attempt × Relay :=
  o.relay.publish row.routeKey { host := row.serverId, replyTo := some o.relay.ackQueue }
    row.payload

variable {o : Operation} {p : Pass} {row : OutboxRow} {r : Relay}

theorem publishNext_confirmed (hp : o.poller = .between p) (hn : p.ready.next? = some row)
    (hs : o.send row = (.confirmed, r)) : o.publishNext =
      { o with relay := r.count .outboxPublished, poller := .confirmed p.ready row } := by
  unfold send at hs
  unfold publishNext
  rw [hp]
  simp only [hn, hs]

theorem publishNext_failed {e : BusError} (hp : o.poller = .between p)
    (hn : p.ready.next? = some row) (hs : o.send row = (.failed e, r)) : o.publishNext =
      { o with relay := (r.sendFailed p.ready row).2
               poller := .between (r.sendFailed p.ready row).1 } := by
  unfold send at hs
  unfold publishNext
  rw [hp]
  simp only [hn, hs]

theorem publishNext_hanging (hp : o.poller = .between p) (hn : p.ready.next? = some row)
    (hs : o.send row = (.hanging, r)) :
    o.publishNext = { o with relay := r, poller := .hanging p.ready row } := by
  unfold send at hs
  unfold publishNext
  rw [hp]
  simp only [hn, hs]

theorem run_continuePass {c : Cluster} (until? : Option Nat) (fuel : Nat)
    (hr : o.relay = c.relay) (hp : o.poller = .between p) :
    ∃ actions, (o.run actions).relay = (c.continuePass until? fuel p).2.relay ∧
      (o.run actions).poller = .idle := by
  induction fuel generalizing c o p with
  | zero => exact ⟨[.stopPass], hr, rfl⟩
  | succ fuel ih =>
    unfold Cluster.continuePass
    split
    · exact ⟨[.stopPass], hr, rfl⟩
    · simp only
      cases hn : p.ready.next? with
      | none => exact ⟨[.stopPass], hr, rfl⟩
      | some row =>
        -- one message is one or two steps, and a moment passes before one that hangs is given up
        simp only
        unfold Relay.sendNext
        rw [← hr]
        obtain ⟨a, r, hs⟩ : ∃ a r, o.send row = (a, r) := ⟨_, _, rfl⟩
        have hs' := hs
        unfold send at hs'
        simp only [hs']
        cases a with
        | confirmed =>
          have h1 := publishNext_confirmed hp hn hs
          cases hc : p.ready.confirm (r.count .outboxPublished).ledger row with
          | ok q =>
            have h2 : r.sendConfirmed p.ready row =
                (.ok q.1, { r.count .outboxPublished with ledger := q.2 }) := by
              unfold Relay.sendConfirmed
              simp only [hc]
            have h3 : (o.publishNext).markPublished =
                { o with relay := { r.count .outboxPublished with ledger := q.2 }
                         poller := .between q.1 } := by
              rw [h1]
              unfold markPublished
              simp only [hc]
            simp only [h2]
            obtain ⟨actions, h4, h5⟩ := ih (c := { c with relay :=
              { r.count .outboxPublished with ledger := q.2 } }) (p := q.1)
              (o := (o.publishNext).markPublished) (by rw [h3]) (by rw [h3])
            exact ⟨.publishNext :: .markPublished :: actions, h4, h5⟩
          | error e =>
            have h2 : r.sendConfirmed p.ready row = (.error e, r.count .outboxPublished) := by
              unfold Relay.sendConfirmed
              simp only [hc]
            have h3 : (o.publishNext).markPublished =
                { o with relay := r.count .outboxPublished, poller := .idle } := by
              rw [h1]
              unfold markPublished
              simp only [hc]
            simp only [h2]
            exact ⟨[.publishNext, .markPublished], congrArg Operation.relay h3,
              congrArg Operation.poller h3⟩
        | failed e =>
          have h1 := publishNext_failed hp hn hs
          obtain ⟨actions, h2, h3⟩ := ih (c := { c with relay := (r.sendFailed p.ready row).2 })
            (p := (r.sendFailed p.ready row).1) (o := o.publishNext) (by rw [h1]) (by rw [h1])
          exact ⟨.publishNext :: actions, h2, h3⟩
        | hanging =>
          have h1 := publishNext_hanging hp hn hs
          obtain ⟨actions, h2, h3⟩ := ih
            (c := { c with
              relay := ((r.moveTo (r.now + c.publishTimeout)).sendFailed p.ready row).2 })
            (p := ((r.moveTo (r.now + c.publishTimeout)).sendFailed p.ready row).1)
            (o := ((o.publishNext).act (.moveTo (r.now + c.publishTimeout))).giveUp)
            (by rw [h1]; rfl) (by rw [h1]; rfl)
          exact ⟨.publishNext :: .moveTo (r.now + c.publishTimeout) :: .giveUp :: actions, h2, h3⟩

/-- **A pass over the outbox is made of steps** of the poller, while nothing else happens but that
time passes. -/
theorem run_pass (c : Cluster) (until? : Option Nat) (hr : o.relay = c.relay)
    (hp : o.poller = .idle) :
    ∃ actions, (o.run actions).relay = (c.pass until?).2.relay ∧
      (o.run actions).poller = .idle := by
  unfold Cluster.pass
  cases hb : c.relay.beginPass c.batchSize with
  | error e => exact ⟨[], hr, hp⟩
  | ok p =>
    have h1 : o.beginPass c.batchSize = { o with poller := .between p } := by
      unfold beginPass
      rw [hp, hr, hb]
    obtain ⟨actions, h2, h3⟩ := run_continuePass (c := c) until? (p.rows.length + 1)
      (o := o.beginPass c.batchSize) (p := p) (by rw [h1]; exact hr) (by rw [h1])
    exact ⟨.beginPass c.batchSize :: actions, h2, h3⟩

end Operation

/-! ## A new cluster -/

theorem mem_insertSorted {s q : String} {l : List String} :
    q ∈ insertSorted s l ↔ q = s ∨ q ∈ l := by
  induction l with
  | nil => simp [insertSorted]
  | cons x r ih =>
    unfold insertSorted
    split
    · simp
    · split
      · next h => simp [h]
      · rw [List.mem_cons, ih, List.mem_cons, or_left_comm]

theorem ordered_insertSorted {s : String} {l : List String} (h : l.Pairwise (· < ·)) :
    (insertSorted s l).Pairwise (· < ·) := by
  induction l with
  | nil => simp [insertSorted]
  | cons x r ih =>
    obtain ⟨h1, h2⟩ := List.pairwise_cons.1 h
    unfold insertSorted
    split
    · next hlt =>
      refine List.pairwise_cons.2 ⟨fun q hq => ?_, h⟩
      rcases List.mem_cons.1 hq with rfl | hq
      · exact hlt
      · exact String.lt_trans hlt (h1 q hq)
    · next hge =>
      split
      · exact h
      · next hne =>
        refine List.pairwise_cons.2 ⟨fun q hq => ?_, ih h2⟩
        rcases mem_insertSorted.1 hq with rfl | hq
        · exact String.not_le.1 fun h3 => hne (String.le_antisymm h3 (String.not_lt.1 hge))
        · exact h1 q hq

theorem ordered_foldl_insertSorted (names : List String) {l : List String}
    (h : l.Pairwise (· < ·)) :
    (names.foldl (fun l s => insertSorted s l) l).Pairwise (· < ·) := by
  induction names generalizing l with
  | nil => exact h
  | cons s r ih => exact ih (ordered_insertSorted h)

theorem foldl_declare (names : List String) {b : Bus} (h : ∀ q ∈ b.queues, q.2 = []) :
    (∀ q ∈ (names.foldl Bus.declare b).queues, q.2 = []) ∧
      (names.foldl Bus.declare b).held = b.held := by
  induction names generalizing b with
  | nil => exact ⟨h, rfl⟩
  | cons s r ih =>
    have h2 : ∀ q ∈ (b.declare s).queues, q.2 = [] := by
      intro q hq
      unfold Bus.declare at hq
      split at hq
      · exact h q hq
      · rcases List.mem_append.1 hq with hq | hq
        · exact h q hq
        · rw [List.mem_singleton.1 hq]
    obtain ⟨h3, h4⟩ := ih h2
    exact ⟨h3, h4.trans Bus.held_declare⟩

/-- **A new cluster is fresh.** -/
theorem Cluster.fresh_new (servers extraResolvers undeclared : List String)
    (routePrefix ackQueue : String) (redeliveryDelay batchSize publishTimeout : ℕ) :
    (Cluster.new servers extraResolvers undeclared routePrefix ackQueue redeliveryDelay batchSize
      publishTimeout).relay.Fresh := by
  have h1 := foldl_declare ((ackQueue :: ((servers ++ extraResolvers).foldl
    (fun l s => insertSorted s l) []).map (routePrefix ++ ·)).filter
      fun q => !undeclared.contains q) (b := .empty) (by simp [Bus.empty])
  refine ⟨rfl, rfl, h1.1, h1.2, ?_, fun x hx => ?_, fun x hx => ?_⟩
  · have h2 := ordered_foldl_insertSorted (servers ++ extraResolvers) (l := []) List.Pairwise.nil
    unfold Cluster.new
    simp only [List.map_map]
    show (List.map (fun s => s) _).Nodup
    rw [List.map_id']
    refine h2.imp ?_
    rintro a _ h3 rfl
    exact String.lt_irrefl _ h3
  · obtain ⟨s, -, rfl⟩ := List.mem_map.1 hx
    rfl
  · obtain ⟨s, -, rfl⟩ := List.mem_map.1 hx
    rfl

/-! ## A small cluster -/

namespace Operation

/-- A cluster of one server, `ns1`, whose queue is `node.ns1`. -/
def oneServer : Relay :=
  (Cluster.new ["ns1"] [] [] "node." "acks" 200 100 5000).relay

theorem fresh_oneServer : oneServer.Fresh :=
  Cluster.fresh_new ..

/-- A change to the zone `example.com.` and none of its record sets. -/
def zoneChange (action : ZoneAction) : Change :=
  { id := 0, type := .zone, zone := some ⟨"example.com.", action, []⟩, firewall := none
    submittedAt := ⟨⟨2024, 1, 1, 0, 0, 0, 0⟩, by decide⟩, status := .pending }

/-- A pass over the outbox that sends one message. -/
def sendOne : List Action :=
  [.beginPass 1, .publishNext, .markPublished, .stopPass]

end Operation

end ZoneRelay
