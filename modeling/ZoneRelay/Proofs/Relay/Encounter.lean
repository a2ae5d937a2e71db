import ZoneRelay.Proofs.Relay.Digest
import ZoneRelay.Proofs.Resolver.Atomicity
import ZoneRelay.Proofs.Resolver.Redelivery
import ZoneRelay.Relay.Basic

/-!
# A receiver and what it remembers

A receiver meets one message after the other. Between two of them its store can run into trouble,
the bus can change in any way, and what the receiver remembers can be lost or come back, as long as
it is about changes that were noted before. Such a change has been applied, or a newer one to its
zone or rule has, so that looking at the store comes to the same as remembering it.

* `Encounter`: a message and what a receiver finds when it comes.
* `Receiver.meets`, `Receiver.through`: what comes of it, and the receiver after several. By
  `receivers_receive` the relay goes on with that receiver.
* `Receiver.RemembersNoted`: whether a receiver never remembers a change that was not noted.
* `Receiver.verdict`: what a message comes to by the store alone.
* `Receiver.Trusty`: the invariant; `trusty_through`: it is preserved.
* `Receiver.digest_eq_verdict`: with it, a message comes to the same by store and memory.
-/

namespace ZoneRelay

/-- What can go wrong with a store. -/
inductive Trouble
  /-- The next `n` commits are made to fail. -/
  | failCommits (n : ℕ)
  /-- Others change the directory with the store's file. -/
  | mount (disk : Disk)

/-- What a trouble is to the resolver. -/
def Trouble.event : Trouble → Resolver.Event
  | failCommits n => .failCommits n
  | mount disk => .mount disk

/-- A message, and what a receiver finds when it comes. -/
structure Encounter where
  message : Message
  /-- The relay at that time, with the bus and its routes. -/
  relay : Relay
  /-- What has happened to the store since the last message. -/
  troubles : List Trouble
  /-- What has become of the receiver's memory since the last message. -/
  remembered : Recall → Recall

namespace Encounter

/-- The change in the message, if there is one. -/
def change? (e : Encounter) : Option Change :=
  Change.decode? e.message.payload

/-- The changes that come, in order. -/
def changes (es : List Encounter) : List Change :=
  es.filterMap change?

/-- Whether equal identities come with equal changes. -/
def Coherent (es : List Encounter) : Prop :=
  ∀ c ∈ changes es, ∀ d ∈ changes es, c.id = d.id → c = d

instance (es : List Encounter) : Decidable (Coherent es) :=
  inferInstanceAs (Decidable (∀ c ∈ changes es, ∀ d ∈ changes es, c.id = d.id → c = d))

end Encounter

/-- What a failure to apply a change is to the handler of its message. -/
def ApplyError.toHandler (e : ApplyError) : HandlerError :=
  if e.isRetryable then .retryable (.apply e) else .nonRetryable (.apply e)

/-- Whether a change would be found stale: it has been applied, or a newer one to its zone or rule
has. -/
def Table.Covers (t : Table) (c : Change) : Prop :=
  ∃ l, t.plan c = .ok (.stale l)

namespace Receiver

/-- The receiver when the message comes. -/
def facing (x : Receiver) (e : Encounter) : Receiver :=
  { x with
    resolver := x.resolver.run (e.troubles.map Trouble.event)
    memory := e.remembered x.memory }

/-- What comes of a message: how far handling it comes, and the bus and its modes afterwards. -/
def meets (x : Receiver) (e : Encounter) : Handling × Bus × RouteModes :=
  let (h, r) := e.relay.receive (x.facing e) e.message
  (h, r.bus, r.modes)

/-- The receiver after a message. -/
def next (x : Receiver) (e : Encounter) : Receiver :=
  ((x.facing e).digest e.message).2.2

/-- The receiver after several messages. -/
def through (x : Receiver) (es : List Encounter) : Receiver :=
  es.foldl next x

/-- The change that a receiver notes when a message comes, if it notes one. -/
def notes (x : Receiver) (e : Encounter) : List ChangeId :=
  match (x.facing e).digest e.message with
  | (.applied, .ok id, _) | (.stale, .ok id, _) => [id]
  | _ => []

/-- Whether a receiver that has noted some changes never remembers another one. -/
def RemembersNoted : Receiver → List ChangeId → List Encounter → Prop
  | _, _, [] => True
  | x, noted, e :: es =>
    (∀ id ∈ (x.facing e).memory.ids, id ∈ noted) ∧ (x.next e).RemembersNoted (noted ++ x.notes e) es

/-- What a message comes to by the store alone: the change to be acknowledged, if all is well, and
the resolver afterwards. -/
def verdict (r : Resolver) (m : Message) : Except HandlerError ChangeId × Resolver :=
  match Change.decode? m.payload with
  | none => (.error (.nonRetryable .undecodable), r)
  | some c => (((r.apply c).1.mapError ApplyError.toHandler).map fun _ => c.id, (r.apply c).2)

/-- How a message is answered, given what it came to: how far handling it comes, and the bus and its
modes afterwards. -/
def answer (x : Receiver) (e : Encounter) :
    Except HandlerError ChangeId → Handling × Bus × RouteModes
  | .error error => (.finished (.error error), e.relay.bus, e.relay.modes)
  | .ok id =>
    match e.message.headers.replyTo with
    | none => (.finished (.ok ()), e.relay.bus, e.relay.modes)
    | some queue =>
      match e.relay.bus.attempt e.relay.modes queue x.ackHeaders (x.acknowledgment id) with
      | (.confirmed, b) => (.finished (.ok ()), b)
      | (.failed cause, b) => (.finished (.error (.retryable (.bus cause))), b)
      | (.hanging, b) => (.stuck, b)

/-- The store has all changes of `cs` that were noted, and no two of them have one identity. -/
structure Trusty (x : Receiver) (noted : List ChangeId) (cs : List Change) : Prop where
  coherent : ∀ c ∈ cs, ∀ d ∈ cs, c.id = d.id → c = d
  consistent : x.resolver.Consistent
  covers : ∀ c ∈ cs, c.id ∈ noted → x.table.Covers c

end Receiver

/-! ## What a table covers -/

namespace Table

variable {t u : Table} {c : Change}

theorem Covers.onward (h : t.Covers c) (htu : t.Onward u) : u.Covers c := by
  obtain ⟨l, hp⟩ := h
  obtain ⟨s, hs, hlast, hle⟩ := plan_stale hp
  obtain ⟨l', hlast', hll⟩ := htu s l hlast
  exact ⟨l', plan_of_older hp hs hlast' (UInt64.le_trans hle hll)⟩

end Table

theorem Resolver.covers_apply {r : Resolver} {c : Change} {o : ApplyOutcome}
    (h : (r.apply c).1 = .ok o) : (r.apply c).2.store.table.Covers c := by
  obtain ⟨⟨p, hp⟩, s, l, hs, hle, hlast⟩ := reached_of_answered h
  exact ⟨l, Table.plan_of_older hp hs hlast hle⟩

theorem Resolver.Untouched.trans {r₁ r₂ r₃ : Resolver} (h : r₁.Untouched r₂)
    (h' : r₂.Untouched r₃) : r₁.Untouched r₃ :=
  ⟨h'.table.trans h.table, h'.index.trans h.index, h'.log.trans h.log⟩

/-- Trouble leaves all that can be read from a resolver. -/
theorem Resolver.untouched_troubles (r : Resolver) (ts : List Trouble) :
    r.Untouched (r.run (ts.map Trouble.event)) := by
  induction ts generalizing r with
  | nil => exact ⟨rfl, rfl, rfl⟩
  | cons t ts ih =>
    have hone : r.Untouched (r.act t.event) := by
      cases t with
      | failCommits n => exact ⟨rfl, rfl, rfl⟩
      | mount disk =>
        refine ⟨r.store.table_mount disk, rfl, ?_⟩
        show (r.store.mount disk).log = r.store.log
        unfold Store.mount
        split <;> rfl
    exact hone.trans (ih (r.act t.event))

namespace Receiver

variable {x y : Receiver} {m : Message} {e : Encounter} {es : List Encounter} {c : Change}
  {cs : List Change} {noted : List ChangeId}

/-! ## One message -/

theorem verdict_of_decode (r : Resolver) (hd : Change.decode? m.payload = some c) :
    verdict r m =
      (((r.apply c).1.mapError ApplyError.toHandler).map fun _ => c.id, (r.apply c).2) := by
  unfold verdict
  rw [hd]

theorem verdict_of_none (r : Resolver) (hd : Change.decode? m.payload = none) :
    verdict r m = (.error (.nonRetryable .undecodable), r) := by
  unfold verdict
  rw [hd]

/-- **A message comes to the same by store and memory** as by the store alone, if the store covers
what the memory has. -/
theorem digest_eq_verdict (h : ∀ c, Change.decode? m.payload = some c → c.id ∈ x.memory.ids →
    x.table.Covers c) :
    (x.digest m).2.1 = (verdict x.resolver m).1 ∧
      (x.digest m).2.2.resolver = (verdict x.resolver m).2 := by
  cases hd : Change.decode? m.payload with
  | none =>
    rw [verdict_of_none _ hd]
    unfold digest
    rw [hd]
    exact ⟨rfl, rfl⟩
  | some c =>
    rw [verdict_of_decode _ hd]
    unfold digest absorb
    simp only [hd]
    by_cases hk : x.memory.contains c.id = true
    · -- what is remembered is found stale
      obtain ⟨l, hp⟩ := h c hd (by simpa [Recall.contains] using hk)
      rw [if_pos hk, Resolver.apply_of_stale hp]
      exact ⟨rfl, rfl⟩
    · rw [if_neg hk]
      rcases x.resolver.apply c with ⟨error | _ | l, r⟩
      · cases hr : error.isRetryable <;>
          simp [hr, ApplyError.toHandler, Except.map, Except.mapError]
      · exact ⟨rfl, rfl⟩
      · exact ⟨rfl, rfl⟩

theorem verdict_onward {r : Resolver} (h : r.Consistent) (m : Message) :
    (verdict r m).2.Consistent ∧ r.store.table.Onward (verdict r m).2.store.table := by
  cases hd : Change.decode? m.payload with
  | none =>
    rw [verdict_of_none _ hd]
    exact ⟨h, Table.Onward.refl _⟩
  | some c =>
    rw [verdict_of_decode _ hd]
    exact ⟨Resolver.consistent_apply h c, Resolver.onward_apply h c⟩

/-- A change that is to be acknowledged is covered. -/
theorem covers_verdict {r : Resolver} {id : ChangeId} (h : (verdict r m).1 = .ok id) :
    ∃ c, Change.decode? m.payload = some c ∧ c.id = id ∧ (verdict r m).2.store.table.Covers c := by
  cases hd : Change.decode? m.payload with
  | none =>
    rw [verdict_of_none _ hd] at h
    cases h
  | some c =>
    rw [verdict_of_decode _ hd] at h ⊢
    cases hres : (r.apply c).1 with
    | error e =>
      rw [hres] at h
      cases h
    | ok o =>
      rw [hres] at h
      exact ⟨c, rfl, Except.ok.inj h, Resolver.covers_apply hres⟩

theorem facing_table (x : Receiver) (e : Encounter) : (x.facing e).table = x.table :=
  (x.resolver.untouched_troubles e.troubles).table

theorem Trusty.facing (h : x.Trusty noted cs) (e : Encounter) : (x.facing e).Trusty noted cs := by
  refine ⟨h.coherent, Resolver.consistent_run h.consistent _, fun c hc hid => ?_⟩
  rw [facing_table]
  exact h.covers c hc hid

/-- What a trusty receiver makes of a message is seen in its store alone. -/
theorem Trusty.digest_eq (h : x.Trusty noted cs) (hin : ∀ c ∈ e.change?, c ∈ cs)
    (hmem : ∀ id ∈ (x.facing e).memory.ids, id ∈ noted) :
    ((x.facing e).digest e.message).2.1 = (verdict (x.facing e).resolver e.message).1 ∧
      (x.next e).resolver = (verdict (x.facing e).resolver e.message).2 :=
  digest_eq_verdict fun c hd hid => (h.facing e).covers c (hin c hd) (hmem _ hid)

theorem digest_of_mem_notes {id : ChangeId} (h : id ∈ x.notes e) :
    ((x.facing e).digest e.message).2.1 = .ok id := by
  unfold notes at h
  split at h
  · next hd => rw [hd, List.mem_singleton.1 h]
  · next hd => rw [hd, List.mem_singleton.1 h]
  · cases h

theorem serverId_next (x : Receiver) (e : Encounter) : (x.next e).serverId = x.serverId := by
  show _ = (x.facing e).serverId
  exact serverId_digests ((x.facing e).digests e.message)

/-- **A message is answered by what it came to.** -/
theorem meets_eq (x : Receiver) (e : Encounter) :
    x.meets e = x.answer e ((x.facing e).digest e.message).2.1 := by
  unfold meets Relay.receive
  rcases hx : (x.facing e).digest e.message with ⟨out, result, y⟩
  have hy : y.serverId = x.serverId := by
    rw [← x.serverId_next e, Receiver.next, hx]
  cases result with
  | error error => rfl
  | ok id =>
    unfold answer
    cases hq : e.message.headers.replyTo with
    | none => rfl
    | some queue =>
      -- the relay that publishes has another receiver and another tally, but the same bus
      simp only [hy, Relay.publish, ackHeaders, acknowledgment, Relay.setReceiver, Relay.count]
      rcases e.relay.bus.attempt e.relay.modes queue ⟨x.serverId, none⟩
        (Ack.encode ⟨id, x.serverId⟩) with ⟨_ | cause | _, b⟩
      · rfl
      · rfl
      · rfl

/-- The receiver that a relay goes on with is the one after the message. -/
theorem receivers_receive (x : Receiver) (e : Encounter) :
    (e.relay.receive (x.facing e) e.message).2.receivers =
      (e.relay.setReceiver (x.next e)).receivers := by
  unfold Receiver.next Relay.receive
  rcases (x.facing e).digest e.message with ⟨out, result, y⟩
  cases result with
  | error error => rfl
  | ok id =>
    cases hq : e.message.headers.replyTo with
    | none => rfl
    | some queue =>
      simp only [Relay.publish, Relay.setReceiver, Relay.count]
      rcases e.relay.bus.attempt e.relay.modes queue y.ackHeaders (y.acknowledgment id) with
        ⟨_ | cause | _, b⟩
      · rfl
      · rfl
      · rfl

/-- What a receiver remembers after a message, it remembered before or has noted. -/
theorem mem_memory_next {id : ChangeId} (h : id ∈ (x.next e).memory.ids) :
    id ∈ (x.facing e).memory.ids ∨ id ∈ x.notes e := by
  have hdigests := (x.facing e).digests e.message
  unfold next at h
  unfold notes
  rcases hx : (x.facing e).digest e.message with ⟨out, result, y⟩
  rw [hx] at h hdigests
  cases hdigests with
  | poison => exact Or.inl h
  | duplicate => exact Or.inl h
  | applied _ _ _ hids => exact (hids id h).imp_right List.mem_singleton.2
  | stale _ _ _ _ hids => exact (hids id h).imp_right List.mem_singleton.2
  | retry _ _ _ hids =>
    left
    rwa [← hids]
  | rejected _ _ _ hids =>
    left
    rwa [← hids]

/-- **A message leaves a receiver trusty.** -/
theorem Trusty.next (h : x.Trusty noted cs) (hin : ∀ c ∈ e.change?, c ∈ cs)
    (hmem : ∀ id ∈ (x.facing e).memory.ids, id ∈ noted) :
    (x.next e).Trusty (noted ++ x.notes e) cs := by
  obtain ⟨hresult, hresolver⟩ := h.digest_eq hin hmem
  obtain ⟨hconsistent, honward⟩ := verdict_onward (h.facing e).consistent e.message
  refine ⟨h.coherent, hresolver ▸ hconsistent, fun c hc hid => ?_⟩
  unfold table
  rw [hresolver]
  rcases List.mem_append.1 hid with hold | hnew
  · -- what was covered is so ever after
    exact ((h.facing e).covers c hc hold).onward honward
  · -- the only change with that identity is the one that has just come
    obtain ⟨d, hd, hdc, hcovers⟩ := covers_verdict (hresult.symm.trans (digest_of_mem_notes hnew))
    rwa [h.coherent c hc d (hin d hd) hdc.symm]

/-! ## Several messages -/

theorem trusty_blank {s : Store} (h : x.resolver = .blank s) (hes : Encounter.Coherent es) :
    x.Trusty [] (Encounter.changes es) := by
  refine ⟨hes, ?_, fun c _ hid => absurd hid List.not_mem_nil⟩
  rw [h]
  exact Resolver.consistent_blank s

theorem forall_changes_cons {p : Change → Prop} : (∀ c ∈ Encounter.changes (e :: es), p c) ↔
    (∀ c ∈ e.change?, p c) ∧ ∀ c ∈ Encounter.changes es, p c := by
  simp only [Encounter.changes, List.mem_filterMap, List.mem_cons, exists_eq_or_imp, or_imp,
    forall_and, Option.mem_def]

/-- **Messages leave a receiver trusty**, and when the next one comes it remembers noted changes
only. -/
theorem trusty_through (h : x.Trusty noted cs)
    (hin : ∀ c ∈ Encounter.changes (es ++ [e]), c ∈ cs)
    (hmem : x.RemembersNoted noted (es ++ [e])) :
    ∃ noted', (x.through es).Trusty noted' cs ∧
      ∀ id ∈ ((x.through es).facing e).memory.ids, id ∈ noted' := by
  -- from the first message on, as it is the receiver that moves and more and more is noted
  induction es generalizing x noted with
  | nil => exact ⟨noted, h, hmem.1⟩
  | cons d es ih =>
    obtain ⟨hfirst, hrest⟩ := forall_changes_cons.1 hin
    exact ih (h.next hfirst hmem.1) hrest hmem.2

/-- A receiver that remembers nothing at first and only forgets remembers noted changes only. -/
theorem remembersNoted_of_forgets (hforget : ∀ e ∈ es, ∀ r, (e.remembered r).ids ⊆ r.ids)
    (hx : ∀ id ∈ x.memory.ids, id ∈ noted) : x.RemembersNoted noted es := by
  induction es generalizing x noted with
  | nil => trivial
  | cons e es ih =>
    rw [List.forall_mem_cons] at hforget
    have hfacing : ∀ id ∈ (x.facing e).memory.ids, id ∈ noted :=
      fun id hid => hx id (hforget.1 x.memory hid)
    refine ⟨hfacing, ih hforget.2 fun id hid => ?_⟩
    exact List.mem_append.2 ((mem_memory_next hid).imp_left (hfacing id))

/-! ## A receiver to look at -/

/-- A receiver that has met no message yet. -/
def newcomer : Receiver :=
  { serverId := "ns1", resolver := .inMemory, memory := .new 10000 3600 }

/-- A change comes to it, while acknowledgments go the way they do with the mode of their route. -/
def arrival (c : Change) (troubles : List Trouble) (mode : RouteMode) : Encounter :=
  { message := ⟨⟨"ns1", some "acks"⟩, c.encode, false⟩
    relay :=
      { ledger := .empty, bus := Bus.empty.declare "acks", modes := [("acks", mode)]
        receivers := [newcomer], routePrefix := "node.", ackQueue := "acks", takesAcks := false
        redeliveryDelay := 200, now := 0, readings := 0, tally := [] }
    troubles, remembered := id }

end Receiver

end ZoneRelay
