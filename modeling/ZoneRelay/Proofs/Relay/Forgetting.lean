import ZoneRelay.Proofs.Relay.Encounter

/-!
# Remembering saves work and nothing else

A change that a receiver remembers would be found stale in its store, so that a receiver that
remembers nothing does the same: its store and its tries are the same, it publishes the same, and it
says the same of each message.

* `Receiver.course`: what comes of several messages.
* `Encounter.oblivious`: a message to a receiver that remembers nothing.
* `Receiver.course_oblivious`: nothing else comes of it.
-/

namespace ZoneRelay

/-- The same message, but the receiver remembers nothing when it comes. -/
def Encounter.oblivious (e : Encounter) : Encounter :=
  { e with remembered := fun _ => .new 0 0 }

namespace Receiver

/-- What comes of several messages, of one after the other. -/
def course : Receiver → List Encounter → List (Handling × Bus × RouteModes)
  | _, [] => []
  | x, e :: es => x.meets e :: (x.next e).course es

variable {x y : Receiver} {e : Encounter} {es : List Encounter} {noted : List ChangeId}
  {cs : List Change}

theorem answer_oblivious (hs : y.serverId = x.serverId) (result : Except HandlerError ChangeId) :
    y.answer e.oblivious result = x.answer e result := by
  cases result with
  | error error => rfl
  | ok id =>
    unfold answer ackHeaders acknowledgment
    rw [hs]
    rfl

theorem digest_oblivious (y : Receiver) (e : Encounter) :
    ((y.facing e.oblivious).digest e.message).2.1 =
        (verdict (y.facing e.oblivious).resolver e.message).1 ∧
      (y.next e.oblivious).resolver = (verdict (y.facing e.oblivious).resolver e.message).2 :=
  digest_eq_verdict fun _ _ hid => absurd hid List.not_mem_nil

/-- **One message**: of two receivers with the same resolver, it makes no difference that one
remembers nothing. -/
theorem Trusty.meets_oblivious (h : x.Trusty noted cs) (hin : ∀ c ∈ e.change?, c ∈ cs)
    (hmem : ∀ id ∈ (x.facing e).memory.ids, id ∈ noted) (hs : y.serverId = x.serverId)
    (hr : y.resolver = x.resolver) :
    y.meets e.oblivious = x.meets e ∧ (y.next e.oblivious).resolver = (x.next e).resolver := by
  obtain ⟨hresult, hresolver⟩ := h.digest_eq hin hmem
  obtain ⟨hresult', hresolver'⟩ := y.digest_oblivious e
  have hfacing : (y.facing e.oblivious).resolver = (x.facing e).resolver := by
    unfold Receiver.facing
    rw [hr]
    rfl
  rw [hfacing] at hresult' hresolver'
  refine ⟨?_, hresolver'.trans hresolver.symm⟩
  rw [meets_eq, meets_eq, hresult, answer_oblivious hs]
  exact congrArg _ hresult'

/-- **Several messages**, by the same for one. -/
theorem Trusty.course_oblivious (h : x.Trusty noted cs) (hin : ∀ c ∈ Encounter.changes es, c ∈ cs)
    (hmem : x.RemembersNoted noted es) (hs : y.serverId = x.serverId)
    (hr : y.resolver = x.resolver) :
    y.course (es.map .oblivious) = x.course es ∧
      (y.through (es.map .oblivious)).resolver = (x.through es).resolver := by
  -- the two receivers differ in what they remember, and in nothing else on the way
  induction es generalizing x y noted with
  | nil => exact ⟨rfl, hr⟩
  | cons e es ih =>
    obtain ⟨hfirst, hrest⟩ := forall_changes_cons.1 hin
    obtain ⟨hmeets, hnext⟩ := h.meets_oblivious hfirst hmem.1 hs hr
    have hserver : (y.next e.oblivious).serverId = (x.next e).serverId := by
      rw [serverId_next, serverId_next, hs]
    obtain ⟨hcourse, hresolver⟩ := ih (h.next hfirst hmem.1) hrest hmem.2 hserver hnext
    refine ⟨?_, hresolver⟩
    rw [List.map_cons, course, course, hmeets, hcourse]

/-- **A receiver's memory saves work and nothing else.** A receiver starts with an empty store and
meets any messages, in which equal identities come with equal changes, while its store and the bus
fail as they may and its memory has any changes noted before, or none. If it remembered nothing at
all, each message would be handled the same and the same would be published, and in the end its
store and its tries would be the same. -/
theorem memory_transparent (x : Receiver) (s : Store) (hx : x.resolver = .blank s)
    (es : List Encounter) (hmem : x.RemembersNoted [] es) (hco : Encounter.Coherent es) :
    x.course (es.map .oblivious) = x.course es ∧
      (x.through (es.map .oblivious)).resolver = (x.through es).resolver :=
  (trusty_blank hx hco).course_oblivious (fun _ hc => hc) hmem rfl rfl

/-- A zone is created, deleted, and asked to be created again, with the next commit about to fail.
-/
def revived : List Encounter :=
  [arrival (Resolver.passing 5 .create) [] .fail, arrival (Resolver.passing 9 .delete) [] .normal,
    arrival (Resolver.passing 5 .create) [.failCommits 1] .twice]

/-- It is remembered, and would be found stale if it were not: no commit is tried. -/
theorem transparent_revived :
    newcomer.resolver = .blank .inMemory ∧ newcomer.RemembersNoted [] revived ∧
      Encounter.Coherent revived ∧
      (newcomer.through (revived.map .oblivious)).resolver = (newcomer.through revived).resolver ∧
      (newcomer.through revived).memory.ids = [5, 9] ∧
      (newcomer.through (revived.map .oblivious)).memory.ids = [] ∧
      (newcomer.through revived).resolver.store.failing = 1 ∧
      (newcomer.course revived).map (·.2.1.length "acks") = [0, 1, 2] := by
  have hblank : newcomer.resolver = .blank .inMemory := rfl
  have hmem : newcomer.RemembersNoted [] revived :=
    remembersNoted_of_forgets (by simp [revived, arrival]) (by simp [newcomer, Recall.new])
  have hco : Encounter.Coherent revived := by decide +kernel
  exact ⟨hblank, hmem, hco, (memory_transparent newcomer .inMemory hblank revived hmem hco).2,
    by decide +kernel, by decide +kernel, by decide +kernel, by decide +kernel⟩

end Receiver

end ZoneRelay
