import ZoneRelay.Proofs.Bus.Reach
import ZoneRelay.Proofs.Relay.Encounter

/-!
# What is acknowledged has been applied

A receiver acknowledges a change only once its store has it, or a newer one to its zone or rule, and
it says that all is well only once the bus has the acknowledgment. What it drops has left no trace,
and what comes back has left none either, unless only the acknowledgment is missing.

* `Receiver.Accounts`: what a receiver makes of a message that asks for an acknowledgment.
* `Receiver.accounts`: it makes that of every message, after any others.
-/

namespace ZoneRelay.Receiver

variable {x : Receiver} {e : Encounter} {queue : String} {c : Change}

/-- What a receiver makes of a message that asks for an acknowledgment on `queue`. -/
structure Accounts (x : Receiver) (e : Encounter) (queue : String) : Prop where
  /-- It is handled if and only if the bus has got the one acknowledgment of its change. -/
  handled_iff : (x.meets e).1 = .finished (.ok ()) ↔
    ∃ c, e.change? = some c ∧ e.relay.bus.Gains (x.meets e).2.1 queue
      ⟨⟨x.serverId, none⟩, Ack.encode ⟨c.id, x.serverId⟩, false⟩ (e.relay.modes.copies queue)
  /-- If it is handled, its change or a newer one has been applied. -/
  settled : (x.meets e).1 = .finished (.ok ()) →
    ∃ c, e.change? = some c ∧ (x.next e).Settled c
  /-- If it is dropped, nothing has been published or applied. -/
  dropped : ∀ cause, (x.meets e).1 = .finished (.error (.nonRetryable cause)) →
    (x.meets e).2.1 = e.relay.bus ∧ x.resolver.Untouched (x.next e).resolver
  /-- If it comes back, nothing has been published, and either nothing has been applied or its
  change has been applied just now and the bus did not take the acknowledgment. -/
  returned : ∀ cause, (x.meets e).1 = .finished (.error (.retryable cause)) →
    (x.meets e).2.1 = e.relay.bus ∧
      (x.resolver.Untouched (x.next e).resolver ∨
        ∃ c fault, e.change? = some c ∧ cause = .bus fault ∧
          (x.facing e).resolver.apply c = (.ok .applied, (x.next e).resolver))
  /-- If publishing does not end, nothing has been published. -/
  stuck : (x.meets e).1 = .stuck → (x.meets e).2.1 = e.relay.bus

/-! ## The answer -/

/-- **The answer to a message that asks for an acknowledgment** and that all is well with: it is
published, or the bus stays as it is and the message is not handled. -/
theorem answer_ok (x : Receiver) (hq : e.message.headers.replyTo = some queue) (id : ChangeId) :
    ((x.answer e (.ok id)).1 = .finished (.ok ()) ∧
      e.relay.bus.Gains (x.answer e (.ok id)).2.1 queue
        ⟨x.ackHeaders, x.acknowledgment id, false⟩ (e.relay.modes.copies queue)) ∨
    ((∃ fault, (x.answer e (.ok id)).1 = .finished (.error (.retryable (.bus fault)))) ∨
      (x.answer e (.ok id)).1 = .stuck) ∧ (x.answer e (.ok id)).2.1 = e.relay.bus := by
  unfold answer
  simp only [hq]
  rcases e.relay.bus.attempt_outcomes e.relay.modes queue x.ackHeaders (x.acknowledgment id) with
    ⟨hconfirmed, hgains⟩ | ⟨hnot, hbus⟩
  · rcases ha : e.relay.bus.attempt e.relay.modes queue x.ackHeaders (x.acknowledgment id) with
      ⟨attempt, bus, modes⟩
    rw [ha] at hconfirmed hgains
    cases hconfirmed
    exact Or.inl ⟨rfl, hgains⟩
  · rcases ha : e.relay.bus.attempt e.relay.modes queue x.ackHeaders (x.acknowledgment id) with
      ⟨_ | fault | _, bus, modes⟩
    · rw [ha] at hnot
      exact absurd rfl hnot
    · rw [ha] at hbus
      exact Or.inr ⟨Or.inl ⟨fault, rfl⟩, hbus⟩
    · rw [ha] at hbus
      exact Or.inr ⟨Or.inr rfl, hbus⟩

/-! ## The store -/

theorem settled_of_covers (h : x.table.Covers c) : x.Settled c := by
  obtain ⟨l, hp⟩ := h
  exact settled_of_stale hp

/-- A message that failed has left no trace in the resolver. -/
theorem untouched_verdict {r : Resolver} {m : Message} {error : HandlerError}
    (h : (verdict r m).1 = .error error) : r.Untouched (verdict r m).2 := by
  cases hd : Change.decode? m.payload with
  | none =>
    rw [verdict_of_none _ hd]
    exact ⟨rfl, rfl, rfl⟩
  | some c =>
    rw [verdict_of_decode _ hd] at h ⊢
    cases hres : (r.apply c).1 with
    | error e => exact (r.apply_atomic c).1 e hres
    | ok o =>
      rw [hres] at h
      cases h

/-- A message that all was well with has left no trace either, unless its change was applied. -/
theorem applied_verdict {r : Resolver} {m : Message} {id : ChangeId}
    (h : (verdict r m).1 = .ok id) : (verdict r m).2 = r ∨
      ∃ c, Change.decode? m.payload = some c ∧ r.apply c = (.ok .applied, (verdict r m).2) := by
  obtain ⟨c, hd, -, -⟩ := covers_verdict h
  rw [verdict_of_decode _ hd] at h ⊢
  cases hres : (r.apply c).1 with
  | error e =>
    rw [hres] at h
    cases h
  | ok o =>
    cases o with
    | applied => exact Or.inr ⟨c, hd, Prod.ext hres rfl⟩
    | stale l => exact Or.inl ((r.apply_atomic c).2.1 l hres)

/-! ## Store and answer -/

/-- A message that is not handled has left the bus as it is, so that it can be seen there that no
acknowledgment was published. -/
theorem handled_iff_of_not (hnot : (x.meets e).1 ≠ .finished (.ok ()))
    (hbus : (x.meets e).2.1 = e.relay.bus) {m : Change → Message} :
    (x.meets e).1 = .finished (.ok ()) ↔ ∃ c, e.change? = some c ∧
      e.relay.bus.Gains (x.meets e).2.1 queue (m c) (e.relay.modes.copies queue) := by
  refine iff_of_false hnot ?_
  rintro ⟨c, -, hgains⟩
  rw [hbus] at hgains
  exact Bus.not_gains_self (e.relay.modes.copies_pos queue) hgains

theorem accounts_failed {error : HandlerError}
    (hmeets : x.meets e = (.finished (.error error), e.relay.bus, e.relay.modes))
    (hsame : x.resolver.Untouched (x.next e).resolver) : x.Accounts e queue := by
  have hnot : (x.meets e).1 ≠ .finished (.ok ()) := by simp [hmeets]
  have hbus : (x.meets e).2.1 = e.relay.bus := by rw [hmeets]
  exact {
    handled_iff := handled_iff_of_not hnot hbus
    settled := fun hok => absurd hok hnot
    dropped := fun _ _ => ⟨hbus, hsame⟩
    returned := fun _ _ => ⟨hbus, Or.inl hsame⟩
    stuck := fun _ => hbus }

theorem accounts_handled (hd : e.change? = some c) (hok : (x.meets e).1 = .finished (.ok ()))
    (hgains : e.relay.bus.Gains (x.meets e).2.1 queue
      ⟨x.ackHeaders, x.acknowledgment c.id, false⟩ (e.relay.modes.copies queue))
    (hset : (x.next e).Settled c) : x.Accounts e queue where
  handled_iff := iff_of_true hok ⟨c, hd, hgains⟩
  settled _ := ⟨c, hd, hset⟩
  dropped _ hc := by cases hok.symm.trans hc
  returned _ hc := by cases hok.symm.trans hc
  stuck hs := by cases hok.symm.trans hs

theorem accounts_unanswered
    (hfail : (∃ fault, (x.meets e).1 = .finished (.error (.retryable (.bus fault)))) ∨
      (x.meets e).1 = .stuck)
    (hbus : (x.meets e).2.1 = e.relay.bus)
    (hstore : x.resolver.Untouched (x.next e).resolver ∨ ∃ c, e.change? = some c ∧
      (x.facing e).resolver.apply c = (.ok .applied, (x.next e).resolver)) :
    x.Accounts e queue := by
  have hnot : (x.meets e).1 ≠ .finished (.ok ()) := by
    rcases hfail with ⟨fault, hf⟩ | hf <;> simp [hf]
  refine ⟨handled_iff_of_not hnot hbus, fun hok => absurd hok hnot, fun cause hc => ?_,
    fun cause hc => ⟨hbus, ?_⟩, fun _ => hbus⟩
  · rcases hfail with ⟨fault, hf⟩ | hf <;> cases hf.symm.trans hc
  · rcases hfail with ⟨fault, hf⟩ | hf
    · cases hf.symm.trans hc
      exact hstore.imp_right fun ⟨c, hd, happlied⟩ => ⟨c, fault, hd, rfl, happlied⟩
    · cases hf.symm.trans hc

variable {noted : List ChangeId} {cs : List Change}

theorem Trusty.accounts (h : x.Trusty noted cs) (hin : ∀ c ∈ e.change?, c ∈ cs)
    (hmem : ∀ id ∈ (x.facing e).memory.ids, id ∈ noted)
    (hq : e.message.headers.replyTo = some queue) : x.Accounts e queue := by
  obtain ⟨hresult, hresolver⟩ := h.digest_eq hin hmem
  have htrouble : x.resolver.Untouched (x.facing e).resolver :=
    x.resolver.untouched_troubles e.troubles
  have hmeets := x.meets_eq e
  rw [hresult] at hmeets
  -- the store decides first: only if all is well with it is an acknowledgment tried
  cases hv : (verdict (x.facing e).resolver e.message).1 with
  | error error =>
    rw [hv] at hmeets
    refine accounts_failed hmeets ?_
    rw [hresolver]
    exact htrouble.trans (untouched_verdict hv)
  | ok id =>
    obtain ⟨c, hd, rfl, hcovers⟩ := covers_verdict hv
    rw [hv] at hmeets
    rcases x.answer_ok hq c.id with ⟨hok, hgains⟩ | ⟨hfail, hbus⟩
    · rw [← hmeets] at hok hgains
      refine accounts_handled hd hok hgains (settled_of_covers ?_)
      unfold table
      rwa [hresolver]
    · rw [← hmeets] at hfail hbus
      refine accounts_unanswered hfail hbus ?_
      rw [hresolver]
      refine (applied_verdict hv).imp_left fun hsame => ?_
      rwa [hsame]

/-- **What is acknowledged has been applied, and what has been handled is acknowledged.** A receiver
starts with an empty store and meets any messages, in which equal identities come with equal
changes, while its store and the bus fail as they may and its memory has nothing but changes noted
before. Of each message that asks for an acknowledgment it makes what `Accounts` says. -/
theorem accounts_through (x : Receiver) (s : Store) (hx : x.resolver = .blank s)
    (es : List Encounter) (e : Encounter) (hmem : x.RemembersNoted [] (es ++ [e]))
    (hco : Encounter.Coherent (es ++ [e])) (queue : String)
    (hq : e.message.headers.replyTo = some queue) : (x.through es).Accounts e queue := by
  obtain ⟨noted, htrusty, hnoted⟩ := trusty_through (trusty_blank hx hco) (fun _ hc => hc) hmem
  have hin : ∀ c ∈ e.change?, c ∈ Encounter.changes (es ++ [e]) := fun c hc =>
    List.mem_filterMap.2 ⟨e, List.mem_append_right _ (List.mem_singleton_self e), hc⟩
  exact htrusty.accounts hin hnoted hq

/-- A change that comes again and again. -/
def persistent (troubles : List Trouble) (mode : RouteMode) : Encounter :=
  arrival (Resolver.passing 5 .create) troubles mode

/-- At first the commit fails, then the acknowledgment, and the third time the change is remembered
and acknowledged. -/
theorem accounts_persistent :
    let before := [persistent [.failCommits 1] .normal, persistent [] .fail]
    let last := persistent [] .normal
    newcomer.resolver = .blank .inMemory ∧ newcomer.RemembersNoted [] (before ++ [last]) ∧
      Encounter.Coherent (before ++ [last]) ∧ last.message.headers.replyTo = some "acks" ∧
      (newcomer.through before).Accounts last "acks" ∧
      (newcomer.through before).memory.ids = [5] ∧
      ((newcomer.through before).meets last).2.1.length "acks" = 1 := by
  intro before last
  have hblank : newcomer.resolver = .blank .inMemory := rfl
  have hmem : newcomer.RemembersNoted [] (before ++ [last]) :=
    remembersNoted_of_forgets (by simp [before, last, persistent, arrival])
      (by simp [newcomer, Recall.new])
  have hco : Encounter.Coherent (before ++ [last]) := by decide +kernel
  exact ⟨hblank, hmem, hco, rfl,
    accounts_through newcomer .inMemory hblank before last hmem hco "acks" rfl, by decide +kernel,
    by decide +kernel⟩

end ZoneRelay.Receiver
