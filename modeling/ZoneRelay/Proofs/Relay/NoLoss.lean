import ZoneRelay.Proofs.Relay.InSync

/-!
# No change is lost

A target that has not acknowledged is owed something: an outbox row, a message, an acknowledgment,
or the word of its resolver that the change can never be applied. Each step that takes one of these
away gives another.

* `Operation.Underway`: what a target is owed once its message has left the outbox.
* `Operation.Traced`: the invariant; `traced_step`: it is preserved.
* `Operation.none_lost`: what has become of each target of each change.
-/

namespace ZoneRelay

/-- The acknowledgments have a queue of their own. -/
def Relay.Separate (r : Relay) : Prop :=
  ∀ s, (s ∈ r.ledger.servers ∨ ∃ x ∈ r.receivers, x.serverId = s) → r.routeTo s ≠ r.ackQueue

namespace Operation

/-- The message for a target is carried to its server, or an acknowledgment is carried back, or the
server has rejected the change for good. -/
def Underway (o : Operation) (c : Change) (s : String) : Prop :=
  o.relay.bus.Carries (o.relay.routeTo s) ⟨s, some o.relay.ackQueue⟩ c.encode ∨
    (∃ h, o.relay.bus.Carries o.relay.ackQueue h (Ack.encode ⟨c.id, s⟩)) ∨
    ∃ x ∈ o.receipts, x.serverId = s ∧ x.change? = some c ∧ x.outcome = .rejected

/-- What is known of the targets that have not acknowledged. -/
structure Traced (o : Operation) : Prop where
  separate : o.relay.Separate
  owed : ∀ x ∈ o.submitted, ∀ s, o.relay.ledger.Unsynced x.change.id s →
    (∃ row ∈ o.relay.ledger.outbox, row.changeId = x.change.id ∧ row.serverId = s) ∨
      o.Underway x.change s
  /-- The poller may take a row out, as its message is underway already. -/
  confirmed : ∀ p row, o.poller = .confirmed p row → ∀ x ∈ o.submitted,
    row.changeId = x.change.id → o.relay.ledger.Unsynced x.change.id row.serverId →
      o.Underway x.change row.serverId

variable {o o' : Operation} {r r' : Relay} {s q : String} {c : Change} {b : Bus} {m : Message}
  {x : Submission}

theorem separate_of (hr : r.Separate) (hp : r'.routePrefix = r.routePrefix)
    (ha : r'.ackQueue = r.ackQueue) (hs : r'.ledger.servers = r.ledger.servers)
    (hx : ∀ x ∈ r'.receivers, ∃ y ∈ r.receivers, y.serverId = x.serverId) : r'.Separate := by
  rintro s h
  have h1 : r.routeTo s ≠ r.ackQueue := by
    refine hr s (h.imp (fun h1 => hs ▸ h1) ?_)
    rintro ⟨x, h1, rfl⟩
    exact hx x h1
  unfold Relay.routeTo at h1 ⊢
  rwa [hp, ha]

/-- A target that has not acknowledged is one of the servers. -/
theorem Sane.server_of_unsynced (ho : o.Sane) (hx : x ∈ o.submitted)
    (hu : o.relay.ledger.Unsynced x.change.id s) : s ∈ o.relay.ledger.servers := by
  obtain ⟨e, he, hid, t, ht, rfl, -⟩ := hu
  rw [← ho.books.servers x hx, ← (ho.books.records he hx hid).servers]
  exact List.mem_map_of_mem ht

/-- A step that opens no target and keeps what the open ones are owed leaves a traced state. -/
theorem Traced.of_kept (ht : o.Traced) (hsep : o'.relay.Separate)
    (hsub : o'.submitted = o.submitted)
    (hu : ∀ i s, o'.relay.ledger.Unsynced i s → o.relay.ledger.Unsynced i s)
    (hrow : ∀ row ∈ o.relay.ledger.outbox,
      o'.relay.ledger.Unsynced row.changeId row.serverId → row ∈ o'.relay.ledger.outbox)
    (hway : ∀ x ∈ o.submitted, ∀ s, o'.relay.ledger.Unsynced x.change.id s →
      o.Underway x.change s → o'.Underway x.change s)
    (hpoll : ∀ p row, o'.poller = .confirmed p row → o.poller = .confirmed p row) :
    o'.Traced := by
  refine ⟨hsep, fun x hx s h1 => ?_, fun p row hp x hx hid h1 => ?_⟩
  · rw [hsub] at hx
    rcases ht.owed x hx s (hu _ _ h1) with ⟨row, h2, h3, h4⟩ | h2
    · exact Or.inl ⟨row, hrow row h2 (by rwa [h3, h4]), h3, h4⟩
    · exact Or.inr (hway x hx s h1 h2)
  · rw [hsub] at hx
    exact hway x hx _ h1 (ht.confirmed p row (hpoll p row hp) x hx hid (hu _ _ h1))

theorem underway_mono (h : o.Underway c s) (hp : o'.relay.routePrefix = o.relay.routePrefix)
    (ha : o'.relay.ackQueue = o.relay.ackQueue)
    (hb : ∀ q h p, o.relay.bus.Carries q h p → o'.relay.bus.Carries q h p)
    (hr : ∀ x ∈ o.receipts, x ∈ o'.receipts) : o'.Underway c s := by
  unfold Underway Relay.routeTo at h ⊢
  rw [hp, ha]
  rcases h with h | ⟨h, h1⟩ | ⟨x, h1, h2⟩
  · exact Or.inl (hb _ _ _ h)
  · exact Or.inr (Or.inl ⟨h, hb _ _ _ h1⟩)
  · exact Or.inr (Or.inr ⟨x, hr x h1, h2⟩)

/-- What is underway stays so if the one message taken from the bus is accounted for. -/
theorem underway_of_take (ht : o.relay.bus.take q = some (m, b))
    (hp : o'.relay.routePrefix = o.relay.routePrefix) (ha : o'.relay.ackQueue = o.relay.ackQueue)
    (hb : ∀ q h p, b.Carries q h p → o'.relay.bus.Carries q h p)
    (hr : ∀ x ∈ o.receipts, x ∈ o'.receipts)
    (hc : q = o.relay.routeTo s → m.headers = ⟨s, some o.relay.ackQueue⟩ →
      m.payload = c.encode → o'.Underway c s)
    (hack : q = o.relay.ackQueue → m.payload = Ack.encode ⟨c.id, s⟩ → o'.Underway c s)
    (h : o.Underway c s) : o'.Underway c s := by
  rcases h with h | ⟨h, h1⟩ | ⟨x, h1, h2⟩
  · rcases (Bus.carries_take ht).1 h with h2 | ⟨h2, h3, h4⟩
    · unfold Underway Relay.routeTo
      rw [hp, ha]
      exact Or.inl (hb _ _ _ h2)
    · exact hc h2.symm h3 h4
  · rcases (Bus.carries_take ht).1 h1 with h2 | ⟨h2, -, h4⟩
    · unfold Underway
      rw [ha]
      exact Or.inr (Or.inl ⟨h, hb _ _ _ h2⟩)
    · exact hack h2.symm h4
  · exact Or.inr (Or.inr ⟨x, hr x h1, h2⟩)

/-! ## Steps -/

/-- The listener accounts for the message it takes. -/
theorem Traced.of_acks (ho : o.Sane) (ht : o.Traced) (hb : o.relay.bus.take q = some (m, b))
    (hown : o.relay.owner q = .acks) {l : Ledger} (hl : Ledger.Shrinks o.relay.ledger l)
    (hrow : l.outbox = o.relay.ledger.outbox) {b' : Bus} (readings : ℕ) (tally : Tally)
    (hc : ∀ q h p, b.Carries q h p → b'.Carries q h p)
    (hack : ∀ a, Ack.decode? m.payload = some a → l.Unsynced a.changeId a.serverId →
      b'.Carries q m.headers m.payload) :
    Traced { o with relay := { o.relay with bus := b', ledger := l, readings, tally } } := by
  have hq := Relay.owner_acks hown
  refine ht.of_kept (separate_of ht.separate rfl rfl hl.servers fun x hx => ⟨x, hx, rfl⟩) rfl
    hl.unsynced (fun row h1 _ => hrow ▸ h1) (fun x hx s hu hway => ?_) fun _ _ h => h
  refine underway_of_take hb rfl rfl hc (fun _ h => h) (fun h1 _ _ => ?_) (fun h1 h2 => ?_) hway
  · -- the listener takes from no server's queue
    have h3 := ho.server_of_unsynced hx (hl.unsynced _ _ hu)
    exact absurd (h1.symm.trans hq) (ht.separate s (Or.inl h3))
  · refine Or.inr (Or.inl ⟨m.headers, ?_⟩)
    have h3 := hack ⟨x.change.id, s⟩ (by rw [h2, Ack.decode?_encode]) hu
    rwa [h1, h2] at h3

/-- A receiver accounts for the message it takes. -/
theorem Traced.of_receiver (ht : o.Traced) (hb : o.relay.bus.take q = some (m, b))
    {x y : Receiver} {out : ReceiptOutcome} {res : Except HandlerError ChangeId} {b' : Bus}
    (modes : RouteModes) (hx : o.relay.receiver? x.serverId = some x)
    (hown : o.relay.owner q = .receiver x.serverId) (hd : x.Digests m out res y)
    (hc : ∀ q h p, b.Carries q h p → b'.Carries q h p)
    (hmsg : ∀ c, Change.decode? m.payload = some c →
      m.headers = ⟨x.serverId, some o.relay.ackQueue⟩ → b'.Carries q m.headers m.payload ∨
        (∃ h, b'.Carries o.relay.ackQueue h (Ack.encode ⟨c.id, x.serverId⟩)) ∨ out = .rejected) :
    Traced { o with
      relay := { o.relay.digested b' y out with modes }
      receipts := o.receipts ++ [⟨x.serverId, Change.decode? m.payload, out⟩] } := by
  obtain ⟨hroute, -⟩ := Relay.owner_receiver hown
  have hx' := (Relay.serverId_of_receiver? hx).1
  have hy := Receiver.serverId_digests hd
  refine ht.of_kept (separate_of ht.separate rfl rfl rfl fun z hz => ?_) rfl (fun _ _ h => h)
    (fun _ h _ => h) (fun z _ s _ hway => ?_) fun _ _ h => h
  · rcases (mem_setReceiver hx' hy).1 hz with rfl | ⟨h1, -⟩
    · exact ⟨x, hx', hy.symm⟩
    · exact ⟨z, h1, rfl⟩
  refine underway_of_take hb rfl rfl hc (fun _ h => List.mem_append_left _ h)
    (fun h1 h2 h3 => ?_) (fun h1 _ => ?_) hway
  · -- the message is on the queue of `s`, so that this receiver is that of `s`
    have hs : x.serverId = s := Text.append_inj_right (hroute.trans h1)
    rw [← hs] at h1 h2 ⊢
    have h4 : Change.decode? m.payload = some z.change := by rw [h3, Change.decode?_encode]
    rcases hmsg z.change h4 h2 with h5 | ⟨h, h5⟩ | rfl
    · rw [h1, h2, h3] at h5
      exact Or.inl h5
    · exact Or.inr (Or.inl ⟨h, h5⟩)
    · exact Or.inr (Or.inr ⟨_, List.mem_append_right _ List.mem_cons_self, rfl, h4, rfl⟩)
  · exact absurd (hroute.trans h1) (ht.separate x.serverId (Or.inr ⟨x, hx', rfl⟩))

theorem traced_delivers {receipt : Option Receipt} (ho : o.Sane) (ht : o.Traced)
    (hb : o.relay.bus.take q = some (m, b)) (hd : o.relay.Delivery q m b r receipt) :
    Traced { o with relay := r, receipts := o.receipts ++ receipt.toList } := by
  have none_toList : o.receipts ++ (none : Option Receipt).toList = o.receipts := by simp
  have held : ∀ {b : Bus} due, (b.hold due q m).Carries q m.headers m.payload := fun due =>
    (Bus.carries_hold due).2 (Or.inr ⟨rfl, rfl, rfl⟩)
  have hold_mono : ∀ {b : Bus} due q' h p, b.Carries q' h p → (b.hold due q m).Carries q' h p :=
    fun due _ _ _ h1 => (Bus.carries_hold due).2 (Or.inl h1)
  have acked_mono : ∀ y queue id q' h p, b.Carries q' h p →
      (o.relay.acked b y queue id).2.1.Carries q' h p := fun y queue id _ _ _ =>
    (Bus.carries_attempt o.relay.modes).1
  cases hd with
  | undecodable hown hdm =>
    rw [none_toList]
    refine ht.of_acks ho hb hown (.refl _) rfl o.relay.readings o.relay.tally (fun _ _ _ h => h)
      fun a ha => ?_
    rw [hdm] at ha
    cases ha
  | @acknowledged a now moved l readings tally hown hdm hl =>
    rw [none_toList]
    rcases Ledger.advance_cases ho.books a.changeId a.serverId now with
      ⟨e, h1, -⟩ | ⟨e, h1, -⟩ | ⟨moved', l', h1, -, hack⟩
    · rw [h1] at hl
      cases hl
    · rw [h1] at hl
      cases hl
    · rw [h1] at hl
      cases hl
      refine ht.of_acks ho hb hown hack.toShrinks hack.kept _ _ (fun _ _ _ h => h)
        fun a' ha hu => ?_
      rw [hdm] at ha
      rw [← Option.some.inj ha] at hu
      exact absurd hu hack.done
  | @refused a now e readings hown hdm hl he =>
    rw [none_toList]
    refine ht.of_acks ho hb hown (.refl _) rfl readings o.relay.tally (fun _ _ _ h => h)
      fun a' ha hu => ?_
    rw [hdm] at ha
    rw [← Option.some.inj ha] at hu
    rcases Ledger.advance_cases ho.books a.changeId a.serverId now with
      ⟨e', h1, h2⟩ | ⟨e', h1, -, h2⟩ | ⟨moved, l, h1, -⟩
    · rw [h1] at hl
      rw [Except.error.inj hl, he] at h2
      cases h2
    · exact absurd hu h2
    · rw [h1] at hl
      cases hl
  | @postponed due readings hown =>
    rw [none_toList]
    exact ht.of_acks ho hb hown (.refl _) rfl readings o.relay.tally (hold_mono due)
      fun _ _ _ => held due
  | @dropped x y out e hx hown hd =>
    refine ht.of_receiver hb o.relay.modes hx hown hd (fun _ _ _ h => h)
      fun c hc _ => Or.inr (Or.inr ?_)
    cases hd with
    | poison hd =>
      rw [hd] at hc
      cases hc
    | rejected => rfl
  | retried hx hown hd =>
    exact ht.of_receiver hb o.relay.modes hx hown hd (hold_mono _)
      fun _ _ _ => Or.inl (held _)
  | silent hx hown hd hn =>
    refine ht.of_receiver hb o.relay.modes hx hown hd (fun _ _ _ h => h)
      fun _ _ hh => ?_
    rw [hh] at hn
    cases hn
  | @answered x y out id queue hx hown hd hn ha =>
    refine ht.of_receiver hb _ hx hown hd (acked_mono _ _ _) fun c hc hh => Or.inr (Or.inl ?_)
    rw [hh] at hn
    cases hn
    have h1 := (Bus.carries_attempt o.relay.modes).2.2 ha
    have h2 : c.id = id := by
      cases hd with
      | duplicate hd => rw [hd] at hc; cases hc; rfl
      | applied hd => rw [hd] at hc; cases hc; rfl
      | stale hd => rw [hd] at hc; cases hc; rfl
    refine ⟨y.ackHeaders, ?_⟩
    rw [h2, ← Receiver.serverId_digests hd]
    exact h1
  | unanswered hx hown hd hn =>
    refine ht.of_receiver hb _ hx hown hd (fun q h p h1 => ?_) fun _ _ _ => Or.inl (held _)
    exact hold_mono _ q h p (acked_mono _ _ _ q h p h1)

theorem traced_records (ho : o.Sane) (ht : o.Traced) (c : Change)
    (hr : o.relay.ledger.HasRoom) : Traced { o with
      relay := { o.relay with ledger := o.relay.ledger.after o.relay.routePrefix c }
      submitted := o.submitted ++ [o.relay.ledger.recorded c] } := by
  have hlt := Ledger.lt_recorded hr c
  have hunsynced : ∀ {i s}, (o.relay.ledger.after o.relay.routePrefix c).Unsynced i s →
      o.relay.ledger.Unsynced i s ∨
        i = (o.relay.ledger.recorded c).change.id ∧ s ∈ o.relay.ledger.servers := by
    intro i s h
    rcases (Ledger.shows_after c).1 h with h1 | ⟨h1, h2, -⟩
    · exact Or.inl h1
    · exact Or.inr ⟨h1, h2⟩
  have hold : ∀ {x s}, x ∈ o.submitted ++ [o.relay.ledger.recorded c] →
      o.relay.ledger.Unsynced x.change.id s → x ∈ o.submitted := by
    intro x s hx hu
    rcases List.mem_append.1 hx with h1 | h1
    · exact h1
    · rw [List.mem_singleton.1 h1] at hu
      obtain ⟨e, he, hid, -⟩ := hu
      exact absurd hid (ho.books.ne_recorded hr c he)
  refine ⟨ht.separate, fun x hx s hu => ?_,
    fun p row hp x hx hid hu => ?_⟩
  · rcases hunsynced hu with h1 | ⟨h1, h2⟩
    · rcases ht.owed x (hold hx h1) s h1 with ⟨row, h3, h4⟩ | h3
      · exact Or.inl ⟨row, List.mem_append_left _ h3, h4⟩
      · exact Or.inr h3
    · obtain ⟨row, h3, h4, h5⟩ := Ledger.row_after o.relay.routePrefix hr c h2
      exact Or.inl ⟨row, h3, by rw [h4, h1], h5⟩
  · -- the poller cannot have a row of the new change at hand
    have hrow : row ∈ o.poller.rows := by
      have hp' : o.poller = .confirmed p row := hp
      rw [hp']
      exact List.mem_cons_self
    obtain ⟨⟨y, hy, hs⟩, -⟩ := ho.rows row hrow
    rcases hunsynced hu with h1 | ⟨h1, -⟩
    · exact ht.confirmed p row hp x (hold hx h1) hid h1
    · have h2 := UInt64.lt_of_le_of_lt (ho.books.last y hy) hlt
      rw [← hs.change, hid, h1] at h2
      exact absurd h2 (UInt64.lt_irrefl _)

theorem traced_publishes {row : OutboxRow} {polling : Polling} {tally : Tally} (ho : o.Sane)
    (ht : o.Traced) (hrow : row ∈ o.poller.rows)
    (hc : ∀ p row', polling = .confirmed p row' → row' = row ∧ (o.send row).1 = .confirmed) :
    Traced { o with
      relay := { o.relay with bus := (o.send row).2.bus, modes := (o.send row).2.modes, tally }
      poller := polling } := by
  have hmono : ∀ q h p, o.relay.bus.Carries q h p → (o.send row).2.bus.Carries q h p :=
    fun _ _ _ => (Bus.carries_attempt o.relay.modes).1
  refine ⟨ht.separate, fun x hx s hu => ?_,
    fun p row' hp x hx hid hu => ?_⟩
  · refine (ht.owed x hx s hu).imp id fun h => ?_
    exact underway_mono h rfl rfl hmono fun _ h => h
  · obtain ⟨rfl, h1⟩ := hc p row' hp
    have h2 : (o.send row').2.bus.Carries row'.routeKey ⟨row'.serverId, some o.relay.ackQueue⟩
        row'.payload := (Bus.carries_attempt o.relay.modes).2.2 h1
    obtain ⟨⟨y, hy, hs⟩, -⟩ := ho.rows _ hrow
    rw [hs.route, hs.payload, ho.books.submission_unique hy hx (hs.change.symm.trans hid)] at h2
    exact Or.inl h2

theorem traced_marks {p p' : Pass} {row : OutboxRow} {l : Ledger} (ho : o.Sane) (ht : o.Traced)
    (hp : o.poller = .confirmed p row) (hl : o.relay.ledger.markPublished row.id = .ok l) :
    Traced { o with relay := { o.relay with ledger := l }, poller := .between p' } := by
  obtain ⟨-, hd⟩ := Ledger.markPublished_ok ho.books hl
  have hrow : row ∈ o.poller.rows := by
    rw [hp]
    exact List.mem_cons_self
  have hkeep : ∀ {c s}, o.Underway c s →
      Underway { o with relay := { o.relay with ledger := l }, poller := .between p' } c s :=
    fun h => h
  refine ⟨separate_of ht.separate rfl rfl hd.servers fun x hx => ⟨x, hx, rfl⟩,
    fun x hx s hu => ?_, fun _ _ h => by cases h⟩
  have hu' := hd.unsynced _ _ hu
  rcases ht.owed x hx s hu' with ⟨row', h1, h2, rfl⟩ | h1
  · -- the row taken out is the one whose message the bus has confirmed
    by_cases hid : row'.id = row.id
    · rw [(ho.rows row hrow).unique row' h1 hid] at h2 hu' ⊢
      exact Or.inr (hkeep (ht.confirmed p row hp x hx h2 hu'))
    · exact Or.inl ⟨row', hd.kept row' h1 hid, h2, rfl⟩
  · exact Or.inr (hkeep h1)

/-- **No step loses what a target is owed.** -/
theorem traced_step (ho : o.Sane) (ht : o.Traced) (h : Step o o') : o'.Traced := by
  cases h with
  | flags available fault =>
    exact ht.of_kept ht.separate rfl
      (fun _ _ h => h) (fun _ h _ => h) (fun _ _ _ _ h => h) fun _ _ h => h
  | records c hr => exact traced_records ho ht c hr
  | moves modes now hb hc =>
    exact ht.of_kept ht.separate rfl
      (fun _ _ h => h) (fun _ h _ => h)
      (fun _ _ _ _ h => underway_mono h rfl rfl (fun q h p => (hc ho.steady q h p).2) fun _ h => h)
      fun _ _ h => h
  | polls tally hr hc =>
    exact ht.of_kept ht.separate rfl
      (fun _ _ h => h) (fun _ h _ => h) (fun _ _ _ _ h => h) fun p row h => absurd h (hc p row)
  | publishes polling tally hrow hr hc => exact traced_publishes ho ht hrow hc
  | marks hp hr hl => exact traced_marks ho ht hp hl
  | delivers hb hd => exact traced_delivers ho ht hb hd
  | purges hl =>
    obtain ⟨-, hd⟩ := Ledger.purge_ok ho.books hl
    exact ht.of_kept (separate_of ht.separate rfl rfl hd.servers fun x hx => ⟨x, hx, rfl⟩) rfl
      hd.unsynced hd.kept (fun _ _ _ _ h => h)
      fun _ _ h => h
  | @disturbs s f hi ht' hm =>
    refine ht.of_kept (separate_of ht.separate rfl rfl rfl fun x hx => ?_) rfl (fun _ _ h => h)
      (fun _ h _ => h) (fun _ _ _ _ h => h) fun _ _ h => h
    obtain ⟨y, hy, rfl⟩ := List.mem_map.1 hx
    refine ⟨y, hy, ?_⟩
    split
    · exact (hi y).symm
    · rfl

theorem traced_run (hr : r.Fresh) (hq : r.Separate) (actions : List Action) :
    ((start r).run actions).Traced := by
  have h1 : (start r).Traced :=
    ⟨hq, (fun x hx => by cases hx), fun p row h => by cases h⟩
  exact (run_induction (P := fun o => o.Sane ∧ o.Traced)
    (fun _ _ h hs => ⟨sane_step h.1 hs, traced_step h.1 h.2 hs⟩) actions
    ⟨sane_start hr, h1⟩).2

/-- **No change is lost.** Let the acknowledgments have a queue of their own, and let anything fail,
come twice or come late. Then each target of each submitted change has acknowledged, or is forgotten
with its change, which has been applied there; or else there is a row for it in the outbox, its
message is carried to its server, its acknowledgment is carried back, or its server has rejected the
change for good. -/
theorem none_lost (hr : r.Fresh) (hq : r.Separate) (actions : List Action) :
    ∀ x ∈ ((start r).run actions).submitted, ∀ s ∈ x.servers,
      ((start r).run actions).relay.ledger.Synced x.change.id s ∨
      ((start r).run actions).relay.ledger.Forgot x.change.id ∧
        ((start r).run actions).AppliedAt s x.change ∨
      (∃ row ∈ ((start r).run actions).relay.ledger.outbox,
        row.changeId = x.change.id ∧ row.serverId = s) ∨
      ((start r).run actions).Underway x.change s := by
  have ho := sane_run hr actions
  have ht := traced_run hr hq actions
  intro x hx s hs
  by_cases hf : ((start r).run actions).relay.ledger.Forgot x.change.id
  · exact Or.inr (Or.inl ⟨hf, ho.appliedAt (ho.forgot x hx s hs hf)⟩)
  · unfold Ledger.Forgot at hf
    push Not at hf
    obtain ⟨e, he, hid⟩ := hf
    obtain ⟨t, h1, h2⟩ := ho.books.target he hx hid hs
    by_cases hst : t.status = .inSync
    · exact Or.inl ⟨e, he, hid, t, h1, h2, hst⟩
    · exact Or.inr (Or.inr (ht.owed x hx s ⟨e, he, hid, t, h1, h2, hst⟩))

theorem separate_oneServer : oneServer.Separate := by
  have h1 : ∀ s ∈ oneServer.ledger.servers, oneServer.routeTo s ≠ oneServer.ackQueue := by
    decide +kernel
  have h2 : ∀ x ∈ oneServer.receivers, oneServer.routeTo x.serverId ≠ oneServer.ackQueue := by
    decide +kernel
  rintro s (h | ⟨x, h, rfl⟩)
  · exact h1 s h
  · exact h2 x h

/-- The ledger is lost after a message was published, before it is marked. -/
def interrupted : List Action :=
  [.submit (zoneChange .create), .beginPass 1, .publishNext, .setLedger false none, .markPublished,
    .deliver "node.ns1", .deliver "acks"]

/-- The zone was created, but the ledger does not know yet: the row is kept or the message or the
acknowledgment comes back. -/
theorem kept_interrupted : ((start oneServer).run interrupted).submitted.length = 1 ∧
    ∀ x ∈ ((start oneServer).run interrupted).submitted, ∀ s ∈ x.servers,
      ¬ ((start oneServer).run interrupted).relay.ledger.Synced x.change.id s ∧
      ((∃ row ∈ ((start oneServer).run interrupted).relay.ledger.outbox,
          row.changeId = x.change.id ∧ row.serverId = s) ∨
        ((start oneServer).run interrupted).Underway x.change s) := by
  refine ⟨by decide +kernel, fun x hx s hs => ?_⟩
  have h1 : ∀ x ∈ ((start oneServer).run interrupted).submitted, ∀ s ∈ x.servers,
      ¬ ((start oneServer).run interrupted).relay.ledger.Synced x.change.id s := by decide +kernel
  have h2 : ∀ x ∈ ((start oneServer).run interrupted).submitted,
      ∃ e ∈ ((start oneServer).run interrupted).relay.ledger.entries,
        e.change.id = x.change.id := by decide +kernel
  refine ⟨h1 x hx s hs, ?_⟩
  rcases none_lost fresh_oneServer separate_oneServer interrupted x hx s hs with h | ⟨h, -⟩ | h
  · exact absurd h (h1 x hx s hs)
  · obtain ⟨e, he, hid⟩ := h2 x hx
    exact absurd hid (h e he)
  · exact h

end Operation

end ZoneRelay
