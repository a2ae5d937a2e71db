import ZoneRelay.Proofs.Relay.Digest
import ZoneRelay.Proofs.Relay.Operation

/-!
# Handling a message

* `Relay.Delivery`: all that a delivered message can come to, if its handling ends.
* `Relay.delivery`: handling the first message on a queue is one of these cases.
-/

namespace ZoneRelay.Relay

/-- The relay after a receiver has handled a message. -/
def digested (r : Relay) (bus : Bus) (y : Receiver) (out : ReceiptOutcome) : Relay :=
  ({ r with bus }.setReceiver y).count (.changesApplied out)

/-- The bus and the modes after a receiver has published an acknowledgment, if it could. -/
def acked (r : Relay) (bus : Bus) (y : Receiver) (queue : String) (id : ChangeId) :
    Attempt × Bus × RouteModes :=
  bus.attempt r.modes queue y.ackHeaders (y.acknowledgment id)

/-- What the message `m`, taken from the queue `q` so that `bus` is left, can come to: the relay
afterwards, and what a receiver made of the message. -/
inductive Delivery (r : Relay) (q : String) (m : Message) (bus : Bus) :
    Relay → Option Receipt → Prop
  /-- The listener drops what is no acknowledgment. -/
  | undecodable (ho : r.owner q = .acks) (hd : Ack.decode? m.payload = none) :
      Delivery r q m bus { r with bus } none
  | acknowledged {a : Ack} {now : Stamp} {moved : Bool} {l : Ledger} {readings : ℕ} {tally : Tally}
      (ho : r.owner q = .acks) (hd : Ack.decode? m.payload = some a)
      (hl : r.ledger.advance a.changeId a.serverId .inSync now = .ok (moved, l)) :
      Delivery r q m bus { r with bus, ledger := l, readings, tally } none
  /-- The ledger does not know the target. -/
  | refused {a : Ack} {now : Stamp} {e : LedgerError} {readings : ℕ} (ho : r.owner q = .acks)
      (hd : Ack.decode? m.payload = some a)
      (hl : r.ledger.advance a.changeId a.serverId .inSync now = .error e)
      (he : e.isTransient = false) :
      Delivery r q m bus { r with bus, readings } none
  /-- The ledger is lost, so that the acknowledgment comes back. -/
  | postponed {due readings : ℕ} (ho : r.owner q = .acks) :
      Delivery r q m bus { r with bus := bus.hold due q m, readings } none
  /-- The receiver drops the message. -/
  | dropped {x y : Receiver} {out : ReceiptOutcome} {e : HandlerCause}
      (hx : r.receiver? x.serverId = some x) (ho : r.owner q = .receiver x.serverId)
      (hd : x.Digests m out (.error (.nonRetryable e)) y) :
      Delivery r q m bus (r.digested bus y out)
        (some ⟨x.serverId, Change.decode? m.payload, out⟩)
  /-- The receiver could not apply the change for the moment. -/
  | retried {x y : Receiver} {out : ReceiptOutcome} {e : HandlerCause} {due : ℕ}
      (hx : r.receiver? x.serverId = some x) (ho : r.owner q = .receiver x.serverId)
      (hd : x.Digests m out (.error (.retryable e)) y) :
      Delivery r q m bus (r.digested (bus.hold due q m) y out)
        (some ⟨x.serverId, Change.decode? m.payload, out⟩)
  /-- Nobody waits for an acknowledgment. -/
  | silent {x y : Receiver} {out : ReceiptOutcome} {id : ChangeId}
      (hx : r.receiver? x.serverId = some x) (ho : r.owner q = .receiver x.serverId)
      (hd : x.Digests m out (.ok id) y) (hn : m.headers.replyTo = none) :
      Delivery r q m bus (r.digested bus y out)
        (some ⟨x.serverId, Change.decode? m.payload, out⟩)
  | answered {x y : Receiver} {out : ReceiptOutcome} {id : ChangeId} {queue : String}
      (hx : r.receiver? x.serverId = some x) (ho : r.owner q = .receiver x.serverId)
      (hd : x.Digests m out (.ok id) y) (hn : m.headers.replyTo = some queue)
      (ha : (r.acked bus y queue id).1 = .confirmed) :
      Delivery r q m bus
        { r.digested (r.acked bus y queue id).2.1 y out with modes := (r.acked bus y queue id).2.2 }
        (some ⟨x.serverId, Change.decode? m.payload, out⟩)
  /-- The acknowledgment could not be published, so that the message comes back. -/
  | unanswered {x y : Receiver} {out : ReceiptOutcome} {id : ChangeId} {queue : String} {due : ℕ}
      (hx : r.receiver? x.serverId = some x) (ho : r.owner q = .receiver x.serverId)
      (hd : x.Digests m out (.ok id) y) (hn : m.headers.replyTo = some queue) :
      Delivery r q m bus
        { r.digested ((r.acked bus y queue id).2.1.hold due q m) y out with
          modes := (r.acked bus y queue id).2.2 }
        (some ⟨x.serverId, Change.decode? m.payload, out⟩)

variable {r r' : Relay} {q s : String} {m : Message} {x : Receiver}
  {result : Except HandlerError Unit}

theorem serverId_of_receiver? (h : r.receiver? s = some x) : x ∈ r.receivers ∧ x.serverId = s :=
  ⟨List.mem_of_find?_eq_some h, by simpa using List.find?_some h⟩

/-- A queue that belongs to a receiver is that of its server. -/
theorem owner_receiver (h : r.owner q = .receiver s) :
    r.routeTo s = q ∧ ∃ x, r.receiver? s = some x := by
  unfold owner at h
  split at h
  · next x hx =>
    cases h
    refine ⟨by simpa using List.find?_some hx, ?_⟩
    have h1 : (r.receiver? x.serverId).isSome := by
      rw [receiver?, List.find?_isSome]
      exact ⟨x, List.mem_of_find?_eq_some hx, by simp⟩
    exact Option.isSome_iff_exists.1 h1
  · split at h <;> cases h

/-- The queue for acknowledgments is taken from by the listener. -/
theorem owner_acks (h : r.owner q = .acks) : q = r.ackQueue := by
  unfold owner at h
  split at h
  · cases h
  · split at h
    · next hq => simpa using (Bool.and_eq_true_iff.1 hq).2
    · cases h

theorem acceptAck_delivery {bus : Bus} (ho : r.owner q = .acks)
    (h : ({ r with bus }.acceptAck m) = (result, r')) :
    Delivery r q m bus (r'.settle q m (.finished result)) none := by
  unfold acceptAck at h
  split at h
  · next hd =>
    obtain ⟨rfl, rfl⟩ := Prod.mk.inj h
    exact .undecodable ho hd
  · next a hd =>
    simp only [readClock] at h
    split at h
    · next moved l hl =>
      obtain ⟨rfl, rfl⟩ := Prod.mk.inj h
      cases moved with
      | true => exact .acknowledged ho hd hl
      | false => exact .acknowledged ho hd hl
    · next e hl =>
      split at h
      · obtain ⟨rfl, rfl⟩ := Prod.mk.inj h
        exact .postponed ho
      · next he =>
        obtain ⟨rfl, rfl⟩ := Prod.mk.inj h
        exact .refused ho hd hl (by simpa using he)

theorem receive_delivery {bus : Bus} (hx : r.receiver? x.serverId = some x)
    (ho : r.owner q = .receiver x.serverId)
    (h : ({ r with bus }.receive x m) = (.finished result, r')) :
    Delivery r q m bus (r'.settle q m (.finished result))
      (some ⟨x.serverId, Change.decode? m.payload, (x.digest m).1⟩) := by
  have hd := x.digests m
  unfold receive at h
  obtain ⟨out, res, y, hxm⟩ : ∃ out res y, x.digest m = (out, res, y) := ⟨_, _, _, rfl⟩
  rw [hxm] at hd h ⊢
  simp only at hd h ⊢
  cases res with
  | error e =>
    obtain ⟨h1, rfl⟩ := Prod.mk.inj h
    cases h1
    cases e with
    | retryable e => exact .retried hx ho hd
    | nonRetryable e => exact .dropped hx ho hd
  | ok id =>
    simp only at h
    split at h
    · next hn =>
      obtain ⟨h1, rfl⟩ := Prod.mk.inj h
      cases h1
      exact .silent hx ho hd hn
    · next queue hn =>
      -- the relay that publishes has the receiver's new state already
      have hp : ((({ r with bus }.setReceiver y).count (.changesApplied out)).publish queue
          y.ackHeaders (y.acknowledgment id)) = ((r.acked bus y queue id).1,
            { r.digested (r.acked bus y queue id).2.1 y out with
              modes := (r.acked bus y queue id).2.2 }) := rfl
      rw [hp] at h
      split at h
      · next r'' ha =>
        obtain ⟨h1, rfl⟩ := Prod.mk.inj h
        obtain ⟨h2, rfl⟩ := Prod.mk.inj ha
        cases h1
        exact .answered hx ho hd hn h2
      · next e r'' ha =>
        obtain ⟨h1, rfl⟩ := Prod.mk.inj h
        obtain ⟨h2, rfl⟩ := Prod.mk.inj ha
        cases h1
        exact .unanswered hx ho hd hn
      · cases (Prod.mk.inj h).1

/-- **Handling the first message on a queue**, if it has an owner and handling ends, is one of the
cases. -/
theorem delivery (ho : r.owner q ≠ .nobody)
    (h : r.deliver q none = some (m, .finished result, r')) :
    ∃ bus, r.bus.take q = some (m, bus) ∧ Delivery r q m bus r' (r.receipt? q m) := by
  unfold deliver at h
  split at h
  · cases h
  · next m' bus ht =>
    obtain ⟨hd, r'', hh⟩ : ∃ hd r'', { r with bus }.handle q none m' = (hd, r'') :=
      ⟨_, _, rfl⟩
    rw [hh] at h
    simp only [Option.some.injEq, Prod.mk.injEq] at h
    obtain ⟨rfl, rfl, rfl⟩ := h
    refine ⟨bus, ht, ?_⟩
    have howner : Relay.owner { r with bus } q = r.owner q := rfl
    unfold handle at hh
    rw [howner] at hh
    unfold receipt?
    cases hq : r.owner q with
    | nobody => exact absurd hq ho
    | acks =>
      rw [hq] at hh
      obtain ⟨h1, h2⟩ := Prod.mk.inj hh
      cases h1
      exact acceptAck_delivery hq (Prod.ext rfl h2)
    | receiver s =>
      obtain ⟨-, x, hx⟩ := owner_receiver hq
      have hx' : Relay.receiver? { r with bus } s = some x := hx
      obtain ⟨-, rfl⟩ := serverId_of_receiver? hx
      rw [hq] at hh
      simp only [hx'] at hh
      simp only [hx, Option.map_some]
      exact receive_delivery hx hq hh

end ZoneRelay.Relay
