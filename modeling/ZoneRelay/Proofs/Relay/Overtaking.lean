import ZoneRelay.Proofs.Relay.Line
import ZoneRelay.Proofs.Resolver.Confluence

/-!
# What is skipped without a fault

A receiver goes by identity: a change is stale once one with a greater identity to the same zone or
rule has been applied. The outbox goes by date, and only then by identity. So a change may be skipped
although nothing has failed: one that was submitted after it, but is dated before it, overtakes it.

* `Change.Overtakes`: the changes that are sent in the other order than their identities have.
* `Receiver.outcome_of_unknown`: what a receiver makes of a change, by those it has committed.
* `Operation.stale_iff_overtaken`: without faults, what is overtaken is skipped and nothing else.
-/

namespace ZoneRelay

/-- Whether `d` is the later change of the two to one zone or rule, and has the earlier date. -/
def Change.Overtakes (d c : Change) : Prop :=
  d.scope? = c.scope? ∧ c.id < d.id ∧ c.submittedAt.le d.submittedAt = false

/-- The change in the message, if the receiver of the server committed it. -/
def Receipt.committedTo? (s : String) (x : Receipt) : Option Change :=
  if x.serverId = s ∧ x.outcome = .applied then x.change? else none

/-- What a receiver has made of the change `c` after it had committed the changes `cs`. -/
structure Receipt.Judges (x : Receipt) (cs : List Change) (c : Change) : Prop where
  /-- Only what is overtaken is skipped. -/
  skipped : x.outcome = .stale → ∃ d ∈ cs, d.Overtakes c
  overtaken : c.Acceptable → (∃ d ∈ cs, d.Overtakes c) → x.outcome = .stale
  applied : c.Acceptable → (¬ ∃ d ∈ cs, d.Overtakes c) → x.outcome = .applied

/-! ## What a receiver makes of a change -/

namespace Receiver

variable {x : Receiver} {m : Message} {c : Change} {cs all : List Change}

/-- What is made of a change that is not remembered is what the resolver makes of it. -/
theorem outcome_of_apply (hd : Change.decode? m.payload = some c) (hk : c.id ∉ x.memory.ids) :
    (x.digest m).1 = match (x.resolver.apply c).1 with
      | .ok .applied => .applied
      | .ok (.stale _) => .stale
      | .error e => if e.isRetryable then .retry else .rejected := by
  have hmem : x.memory.contains c.id = false := by
    simpa [Recall.contains] using hk
  obtain ⟨result, resolver, happly⟩ : ∃ result resolver, x.resolver.apply c = (result, resolver) :=
    ⟨_, _, rfl⟩
  unfold digest absorb
  simp only [hd, hmem, happly, Bool.false_eq_true, if_false]
  cases result with
  | ok outcome => cases outcome <;> rfl
  | error e => by_cases he : e.isRetryable = true <;> simp [he]

/-- A change that can be applied is so unless the store fails, or else is stale. -/
theorem outcome_of_unknown (hx : x.Keeps cs all) (hd : Change.decode? m.payload = some c)
    (hk : c.id ∉ x.memory.ids) :
    ((x.digest m).1 = .stale → ∃ d ∈ cs, d.scope? = c.scope? ∧ c.id ≤ d.id) ∧
      (c.Acceptable → (x.digest m).1 = .stale ∧ (∃ d ∈ cs, d.scope? = c.scope? ∧ c.id ≤ d.id) ∨
        ((x.digest m).1 = .applied ∨ (x.digest m).1 = .retry) ∧
          ∀ d ∈ cs, d.scope? = c.scope? → d.id < c.id) := by
  have hout := outcome_of_apply hd hk
  refine ⟨fun h => ?_, fun hc => ?_⟩
  · obtain ⟨l, hp⟩ : ∃ l, x.table.plan c = .ok (.stale l) := by
      rcases x.resolver.apply_cases c with ⟨ops, edit, -, h1, -⟩ | ⟨⟨e, h1⟩ | ⟨l, hp, -⟩, -⟩
      · rw [h1] at hout
        cases h.symm.trans hout
      · rw [h1] at hout
        simp only at hout
        split at hout <;> cases h.symm.trans hout
      · exact ⟨l, hp⟩
    obtain ⟨s, d, hs, -, hle, hd, hds⟩ := hx.committed_of_settled (settled_of_stale hp)
    exact ⟨d, hd, hds.trans hs.symm, hle⟩
  · rcases hx.history.plan_or_stale (Change.acceptable_iff.1 hc) with ⟨d, hd, hds, hle, hp⟩ |
      ⟨hnew, ops, edit, hp⟩
    · rw [Resolver.apply_of_stale hp] at hout
      exact Or.inl ⟨hout, d, hd, hds, hle⟩
    · refine Or.inr ⟨?_, hnew⟩
      rcases Resolver.apply_of_plan hp with h | ⟨e, h, he⟩
      · rw [h] at hout
        exact Or.inl hout
      · rw [h] at hout
        have hretry : (ApplyError.store e).isRetryable = true := he
        simp only [hretry, if_true] at hout
        exact Or.inr hout

end Receiver

/-! ## Deliveries -/

namespace Operation

variable {o : Operation} {s q : String} {x y : Receipt} {c d : Change} {r : Relay}
  {m : Message} {bus : Bus} {receipts before after : List Receipt}

/-- What is committed at a server was delivered there. -/
theorem delivered_of_committed (h : d ∈ o.committed s) : d ∈ o.delivered s := by
  obtain ⟨x, hx, h1⟩ := List.mem_filterMap.1 h
  refine List.mem_filterMap.2 ⟨x, hx, ?_⟩
  unfold Receipt.deliveredTo?
  split at h1
  · next h2 => rwa [if_pos h2.1]
  · cases h1

/-- A message that does not come back was not one to try again. -/
theorem outcome_ne_retry (hd : o.relay.Delivery q m bus r (some y)) (hheld : r.bus.held = []) :
    y.outcome ≠ .retry := by
  intro h
  cases hd with
  | dropped _ _ hd =>
    cases h
    cases hd
  | retried => exact Bus.hold_ne_nil _ hheld
  | silent _ _ hd =>
    cases h
    cases hd
  | answered _ _ hd =>
    cases h
    cases hd
  | unanswered => exact Bus.hold_ne_nil _ hheld

/-- A receipt is that of the receiver whose queue it is. -/
theorem receipt?_eq_some (h : o.relay.receipt? q m = some x) :
    ∃ z ∈ o.relay.receivers, o.relay.routeTo z.serverId = q ∧
      x = ⟨z.serverId, Change.decode? m.payload, (z.digest m).1⟩ := by
  unfold Relay.receipt? at h
  split at h
  · next s hown =>
    obtain ⟨z, hz, rfl⟩ := Option.map_eq_some_iff.1 h
    obtain ⟨h1, h2⟩ := Relay.serverId_of_receiver? hz
    refine ⟨z, h1, ?_, rfl⟩
    rw [h2]
    exact (Relay.owner_receiver hown).1
  · cases h
  · cases h

/-- What was delivered to a server was in line before what is on its queue. -/
theorem InLine.delivered_queued (h : o.InLine) (hd : d ∈ o.delivered s)
    (hc : c ∈ o.relay.bus.changes (o.relay.routeTo s)) : d.MayPrecede c := by
  have hordered := h.ordered s
  unfold line at hordered
  have hfront := (List.pairwise_append.1 hordered).1
  exact (List.pairwise_append.1 hfront).2.2 d hd c hc

/-- No change is on a queue from which it has been delivered. -/
theorem id_ne_of_queued (hs : o.Sane) (ho : o.Orderly) (hd : d ∈ o.delivered s)
    (hc : c ∈ o.relay.bus.changes (o.relay.routeTo s)) : d.id ≠ c.id := by
  intro hid
  have hd' : d ∈ o.line s := List.mem_append_left _ (List.mem_append_left _ hd)
  have hc' : c ∈ o.line s := List.mem_append_left _ (List.mem_append_right _ hc)
  have heq := Table.History.eq_of_id_eq hs.rising (ho.inLine.known s d hd')
    (ho.inLine.known s c hc') hid
  have hprecede := ho.inLine.delivered_queued hd hc
  rw [heq] at hprecede
  exact c.not_mayPrecede_self hprecede

/-- A change that was delivered although it is no older was dated before. -/
theorem overtakes_of_delivered (hs : o.Sane) (ho : o.Orderly) (hd : d ∈ o.delivered s)
    (hc : c ∈ o.relay.bus.changes (o.relay.routeTo s)) (hscope : d.scope? = c.scope?)
    (hle : c.id ≤ d.id) : d.Overtakes c := by
  have hlt : c.id < d.id := UInt64.lt_of_le_of_ne hle (id_ne_of_queued hs ho hd hc).symm
  rcases ho.inLine.delivered_queued hd hc with h1 | h1
  · exact absurd h1 (UInt64.not_lt.2 hle)
  · exact ⟨hscope, hlt, h1⟩

/-- **What is delivered without a fault** is skipped if it is overtaken, and else applied if it can
be. -/
theorem judges_delivery (hs : o.Sane) (ho : o.Orderly) (ht : o.relay.bus.take q = some (m, bus))
    (hd : o.relay.Delivery q m bus r (o.relay.receipt? q m)) (hheld : r.bus.held = [])
    (hx : o.relay.receipt? q m = some x) (hc : x.change? = some c) :
    x.Judges (o.committed x.serverId) c := by
  have hretry : x.outcome ≠ .retry := by
    rw [hx] at hd
    exact outcome_ne_retry hd hheld
  obtain ⟨z, hz, hroute, rfl⟩ := receipt?_eq_some hx
  have hdecode : Change.decode? m.payload = some c := hc
  have hqueued : c ∈ o.relay.bus.changes (o.relay.routeTo z.serverId) := by
    unfold Bus.changes
    rw [(Bus.queue_take ht).2, if_pos hroute]
    exact List.mem_filterMap.2 ⟨m, List.mem_append_left _ List.mem_cons_self, hdecode⟩
  have hunknown : c.id ∉ z.memory.ids := by
    intro h1
    obtain ⟨d, h2, h3⟩ := ho.remembered z hz _ h1
    exact id_ne_of_queued hs ho h2 hqueued h3
  have hovertakes : ∀ d ∈ o.committed z.serverId, d.scope? = c.scope? → c.id ≤ d.id →
      d.Overtakes c := fun d hd =>
    overtakes_of_delivered hs ho (delivered_of_committed hd) hqueued
  obtain ⟨hstale, hacceptable⟩ := Receiver.outcome_of_unknown (hs.keeps z hz) hdecode hunknown
  refine { skipped := fun h => ?skipped, overtaken := fun hc h => ?overtaken
           applied := fun hc h => ?applied }
  case skipped =>
    obtain ⟨d, hd, hscope, hle⟩ := hstale h
    exact ⟨d, hd, hovertakes d hd hscope hle⟩
  case overtaken =>
    obtain ⟨d, hd, hscope, hlt, -⟩ := h
    rcases hacceptable hc with ⟨h1, -⟩ | ⟨-, hnew⟩
    · exact h1
    · exact absurd (UInt64.lt_trans hlt (hnew d hd hscope)) (UInt64.lt_irrefl _)
  case applied =>
    rcases hacceptable hc with ⟨-, d, hd, hscope, hle⟩ | ⟨h1 | h1, -⟩
    · exact absurd ⟨d, hd, hovertakes d hd hscope hle⟩ h
    · exact h1
    · exact absurd h1 hretry

/-! ## Runs -/

/-- Whether receivers have made of every change what `Receipt.Judges` says. -/
def Judged (o : Operation) : Prop :=
  ∀ before x after, o.receipts = before ++ x :: after → ∀ c, x.change? = some c →
    x.Judges (before.filterMap (Receipt.committedTo? x.serverId)) c

theorem judged_snoc {o' : Operation} (ho : o.Judged) (h : o'.receipts = o.receipts ++ [x])
    (hx : ∀ c, x.change? = some c → x.Judges (o.committed x.serverId) c) : o'.Judged := by
  intro before y after hsplit c hc
  rw [h] at hsplit
  -- the receipt is the last one or one of those before it
  rcases List.eq_nil_or_concat after with rfl | ⟨init, last, rfl⟩
  · obtain ⟨rfl, h1⟩ := List.append_inj' hsplit rfl
    obtain rfl := List.head_eq_of_cons_eq h1
    exact hx c hc
  · have h1 : o.receipts ++ [x] = (before ++ y :: init) ++ [last] := by
      rw [hsplit]
      simp
    exact ho before y init (List.append_inj' h1 rfl).1 c hc

/-- Only deliveries leave receipts. -/
theorem receipts_act (o : Operation) (a : Action) :
    (o.act a).receipts = o.receipts ∨ ∃ q, a = .deliver q := by
  cases a with
  | submit c =>
    refine Or.inl ?_
    show (o.submit c).receipts = _
    rcases o.submit_cases c with h | ⟨fault, h⟩ | ⟨-, h⟩ <;> rw [h]
  | beginPass n =>
    refine Or.inl ?_
    show (o.beginPass n).receipts = _
    rcases o.beginPass_cases n with h | ⟨rows, -, -, h⟩ <;> rw [h]
  | publishNext =>
    refine Or.inl ?_
    show o.publishNext.receipts = _
    unfold publishNext
    split
    · split
      · rfl
      · simp only
        split <;> rfl
    · rfl
  | giveUp =>
    refine Or.inl ?_
    show o.giveUp.receipts = _
    unfold giveUp
    split <;> rfl
  | markPublished =>
    refine Or.inl ?_
    show o.markPublished.receipts = _
    unfold markPublished
    split
    · split <;> rfl
    · rfl
  | purge cutoff =>
    refine Or.inl ?_
    show (o.purge cutoff).receipts = _
    unfold purge
    split <;> rfl
  | deliver q => exact Or.inr ⟨q, rfl⟩
  | _ => exact Or.inl rfl

theorem judged_act (hs : o.Sane) (ho : o.Orderly) (hj : o.Judged) (a : Action)
    (hf : o.faultless a = true) : (o.act a).Judged := by
  rcases o.receipts_act a with h | ⟨q, rfl⟩
  · intro before x after hsplit
    rw [h] at hsplit
    exact hj before x after hsplit
  · have hheld : (o.deliver q).relay.bus.held = [] := List.isEmpty_iff.1 hf
    show (o.deliver q).Judged
    rcases o.deliver_cases q with h | ⟨m, bus, r, ht, hd, h⟩
    · rwa [h]
    · rw [h] at hheld ⊢
      cases hx : o.relay.receipt? q m with
      | none =>
        intro before x after hsplit
        exact hj before x after (by simpa using hsplit)
      | some x =>
        exact judged_snoc hj rfl fun c hc => judges_delivery hs ho ht hd hheld hx hc

/-- What holds along a run without faults. -/
theorem smooth_run (actions : List Action) (hs : o.Sane) (ho : o.Orderly) (hj : o.Judged)
    (hf : o.Smooth actions) :
    (o.run actions).Sane ∧ (o.run actions).Orderly ∧ (o.run actions).Judged := by
  induction actions generalizing o with
  | nil => exact ⟨hs, ho, hj⟩
  | cons a actions ih =>
    exact ih (sane_act hs a) (orderly_act hs ho a hf.1) (judged_act hs ho hj a hf.1) hf.2

theorem smooth_start (hr : r.Fresh) (hservers : r.ledger.servers.Nodup) {actions : List Action}
    (hf : (start r).Smooth actions) : ((start r).run actions).Sane ∧
      ((start r).run actions).Orderly ∧ ((start r).run actions).Judged := by
  refine smooth_run actions (sane_start hr) (orderly_start hr hservers) ?_ hf
  intro before x after hsplit
  have hnil : [] = before ++ x :: after := hsplit
  simp at hnil

/-- **Where nothing fails and the dates follow the identities, nothing is skipped.** -/
theorem applied_of_dated (hr : r.Fresh) (hservers : r.ledger.servers.Nodup)
    {actions : List Action} (hf : (start r).Smooth actions)
    (hdates : ∀ c ∈ ((start r).run actions).changes, ∀ d ∈ ((start r).run actions).changes,
      c.scope? = d.scope? → c.id < d.id → c.submittedAt.le d.submittedAt = true)
    (hx : x ∈ ((start r).run actions).receipts) (hc : x.change? = some c) (ha : c.Acceptable) :
    x.outcome = .applied := by
  obtain ⟨-, ho, hj⟩ := smooth_start hr hservers hf
  obtain ⟨before, after, hsplit⟩ := List.append_of_mem hx
  have hknown : ∀ {y d}, y ∈ ((start r).run actions).receipts → y.change? = some d →
      d ∈ ((start r).run actions).changes := by
    intro y d hy hd
    have hdelivered : d ∈ ((start r).run actions).delivered y.serverId := by
      refine List.mem_filterMap.2 ⟨y, hy, ?_⟩
      unfold Receipt.deliveredTo?
      rwa [if_pos rfl]
    exact ho.inLine.known y.serverId d (List.mem_append_left _ (List.mem_append_left _ hdelivered))
  refine (hj before x after hsplit c hc).applied ha ?_
  rintro ⟨d, hd, hscope, hlt, hdate⟩
  obtain ⟨y, hy, h1⟩ := List.mem_filterMap.1 hd
  have hy' : y ∈ ((start r).run actions).receipts := by
    rw [hsplit]
    exact List.mem_append_left _ hy
  have hyd : y.change? = some d := by
    unfold Receipt.committedTo? at h1
    split at h1
    · exact h1
    · cases h1
  have h2 := hdates c (hknown hx hc) d (hknown hy' hyd) hscope.symm hlt
  rw [hdate] at h2
  cases h2

/-- **Where nothing fails, a change is skipped if and only if it is overtaken.** A change that can
be applied is so, unless a later change to the same zone or rule that has an earlier date was
committed before it; then it is stale. -/
theorem stale_iff_overtaken (hr : r.Fresh) (hservers : r.ledger.servers.Nodup)
    (actions : List Action) (hf : (start r).Smooth actions)
    (hx : ((start r).run actions).receipts = before ++ x :: after) (hc : x.change? = some c) :
    x.Judges (before.filterMap (Receipt.committedTo? x.serverId)) c :=
  (smooth_start hr hservers hf).2.2 before x after hx c hc

/-! ## An early date -/

/-- A zone is created, with a date one second after that of the update that follows. -/
def lateCreation : Change :=
  { zoneChange .create with submittedAt := ⟨⟨2024, 1, 1, 0, 0, 1, 0⟩, by decide⟩ }

/-- Both changes are submitted, sent in one pass and delivered. -/
def backdated : List Action :=
  [.submit lateCreation, .submit (zoneChange .update), .beginPass 2, .publishNext, .markPublished,
    .publishNext, .markPublished, .stopPass, .deliver "node.ns1", .deliver "node.ns1"]

/-- The row of a change for the one server, if rows and changes are numbered alike. -/
def onlyRow (c : Change) : OutboxRow :=
  { id := c.id, changeId := c.id, serverId := "ns1", routeKey := "node.ns1", payload := c.encode }

/-- The relay as the pass begins, with the update in front. -/
def beforeSending : Operation :=
  { (start oneServer).run (backdated.take 2) with
    poller := .between (Pass.begin
      [onlyRow { zoneChange .update with id := 2 }, onlyRow { lateCreation with id := 1 }]) }

theorem run_beginPass : (start oneServer).run (backdated.take 3) = beforeSending := by
  have hrows : ((start oneServer).run (backdated.take 2)).relay.ledger.pendingRows 2 = .ok
      [onlyRow { zoneChange .update with id := 2 }, onlyRow { lateCreation with id := 1 }] :=
    Ledger.pendingRows_pair (by decide +kernel) (by decide +kernel) (by decide +kernel)
  show ((start oneServer).run (backdated.take 2)).beginPass 2 = beforeSending
  unfold beginPass Relay.beginPass
  rw [hrows]
  rfl

theorem smooth_backdated : (start oneServer).Smooth backdated := by
  have h1 : beforeSending.Smooth (backdated.drop 3) := by decide +kernel
  rw [← run_beginPass] at h1
  exact ⟨rfl, rfl, rfl, h1⟩

theorem receipts_backdated : ((start oneServer).run backdated).receipts =
    [⟨"ns1", some { zoneChange .update with id := 2 }, .applied⟩,
      ⟨"ns1", some { lateCreation with id := 1 }, .stale⟩] := by
  have h1 : (start oneServer).run backdated = beforeSending.run (backdated.drop 3) := by
    rw [← run_beginPass]
    rfl
  rw [h1]
  decide +kernel

/-- The update is applied, and the creation of the zone is skipped. -/
theorem skipped_backdated : (start oneServer).Smooth backdated ∧
    ∃ x ∈ ((start oneServer).run backdated).receipts, x.outcome = .stale ∧
      ∃ c, x.change? = some c ∧ c.Acceptable := by
  refine ⟨smooth_backdated, ⟨"ns1", some { lateCreation with id := 1 }, .stale⟩, ?_, rfl, _, rfl,
    ?_⟩
  · rw [receipts_backdated]
    exact List.mem_cons_of_mem _ List.mem_cons_self
  · show (Resolver.inMemory.apply { lateCreation with id := 1 }).1 = .ok .applied
    decide +kernel

theorem judges_backdated : Receipt.Judges ⟨"ns1", some { lateCreation with id := 1 }, .stale⟩
    [{ zoneChange .update with id := 2 }] { lateCreation with id := 1 } := by
  have hx : ((start oneServer).run backdated).receipts =
      [⟨"ns1", some { zoneChange .update with id := 2 }, .applied⟩] ++
        ⟨"ns1", some { lateCreation with id := 1 }, .stale⟩ :: [] := receipts_backdated
  exact stale_iff_overtaken fresh_oneServer (by decide +kernel) backdated smooth_backdated hx rfl

end Operation

end ZoneRelay
