import ZoneRelay.Proofs.Change.Wire
import ZoneRelay.Proofs.Ledger.Progress
import ZoneRelay.Proofs.Relay.Step
import ZoneRelay.Proofs.Text.Start

/-!
# What holds in every state of a relay

A target is marked only after its resolver has committed the change, or a newer one to the same zone
or rule. The reason is spread over the relay: every message on the bus is one that the relay itself
put there, and an acknowledgment is put there only for what is settled.

* `Relay.SettledAt`: a change, or a newer one, has been applied at a server.
* `Relay.Lawful`: the messages that the relay puts on the bus.
* `Operation.Sane`: the invariant; `sane_act`, `sane_run`: it is preserved.
-/

namespace ZoneRelay

/-- Whether a change, or a newer one to its zone or rule, has been applied at a server. -/
def Relay.SettledAt (r : Relay) (s : String) (c : Change) : Prop :=
  ∃ x ∈ r.receivers, x.serverId = s ∧ x.Settled c

/-- The messages that a relay puts on the bus. -/
inductive Relay.Lawful (r : Relay) (subs : List Submission) : String → Headers → Octets → Prop
  | change {x : Submission} {s : String} (hx : x ∈ subs) (hs : s ∈ x.servers) :
      Lawful r subs (r.routePrefix ++ s) ⟨s, some r.ackQueue⟩ x.change.encode
  | ack {x : Submission} {s : String} {h : Headers} (hx : x ∈ subs) (hh : h.replyTo = none)
      (hset : r.SettledAt s x.change) :
      Lawful r subs r.ackQueue h (Ack.encode ⟨x.change.id, s⟩)

/-- A row is, or was, in the outbox. -/
structure OutboxRow.Known (row : OutboxRow) (l : Ledger) (routePrefix : String)
    (subs : List Submission) : Prop where
  sends : ∃ x ∈ subs, row.Sends routePrefix x
  last : row.id ≤ l.lastRowId
  unique : ∀ row' ∈ l.outbox, row'.id = row.id → row' = row

namespace Operation

/-- What holds in every state of a relay. -/
structure Sane (o : Operation) : Prop where
  books : o.relay.ledger.Books o.relay.routePrefix o.submitted
  /-- A target is marked only if the change is settled there. -/
  synced : ∀ x ∈ o.submitted, ∀ s,
    o.relay.ledger.Synced x.change.id s → o.relay.SettledAt s x.change
  /-- A change is forgotten only if it is settled at all its servers. -/
  forgot : ∀ x ∈ o.submitted, ∀ s ∈ x.servers,
    o.relay.ledger.Forgot x.change.id → o.relay.SettledAt s x.change
  rows : ∀ row ∈ o.poller.rows,
    row.Known o.relay.ledger o.relay.routePrefix o.submitted
  steady : o.relay.bus.Steady
  lawful : ∀ q h p, o.relay.bus.Carries q h p → o.relay.Lawful o.submitted q h p
  ids : (o.relay.receivers.map (·.serverId)).Nodup
  keeps : ∀ x ∈ o.relay.receivers, x.Keeps (o.committed x.serverId) o.changes

variable {o : Operation} {r r' : Relay} {subs subs' : List Submission} {q s : String} {h : Headers}
  {p : Octets} {c : Change} {row : OutboxRow} {l l' : Ledger} {b : Bus}

theorem lawful_mono (hl : r.Lawful subs q h p) (hp : r'.routePrefix = r.routePrefix)
    (ha : r'.ackQueue = r.ackQueue) (hs : ∀ x ∈ subs, x ∈ subs')
    (hset : ∀ s c, r.SettledAt s c → r'.SettledAt s c) : r'.Lawful subs' q h p := by
  cases hl with
  | change hx hs' =>
    rw [← hp, ← ha]
    exact .change (hs _ hx) hs'
  | ack hx hh hset' =>
    rw [← ha]
    exact .ack (hs _ hx) hh (hset _ _ hset')

theorem keeps_mono {x : Receiver} {cs all all' : List Change} (hx : x.Keeps cs all)
    (ha : ∀ c ∈ all, c ∈ all') : x.Keeps cs all' := by
  refine ⟨hx.history, fun c hc => ha c (hx.known c hc), fun id hid => ?_⟩
  obtain ⟨c, h1, h2, h3⟩ := hx.memory id hid
  exact ⟨c, ha c h1, h2, h3⟩

/-! ## Parts that change alone -/

/-- A bus that carries only lawful messages may take the place of the old one. -/
theorem Sane.setBus (ho : o.Sane) (modes : RouteModes) (tally : Tally) (now : ℕ) (hb : b.Steady)
    (hc : ∀ q h p, b.Carries q h p →
      o.relay.bus.Carries q h p ∨ o.relay.Lawful o.submitted q h p) :
    Sane { o with relay := { o.relay with bus := b, modes, tally, now } } := by
  refine ⟨ho.books, ho.synced, ho.forgot, ho.rows, hb, fun q h p h1 => ?_, ho.ids, ho.keeps⟩
  have h2 : o.relay.Lawful o.submitted q h p := (hc q h p h1).elim (ho.lawful q h p) id
  exact lawful_mono h2 rfl rfl (fun _ h => h) (fun _ _ h => h)

/-- A poller that has only known rows at hand may take the place of the old one. -/
theorem Sane.setPoller (ho : o.Sane) {polling : Polling} (tally : Tally)
    (hr : ∀ row ∈ polling.rows, row.Known o.relay.ledger o.relay.routePrefix o.submitted) :
    Sane { o with relay := { o.relay with tally }, poller := polling } := by
  refine ⟨ho.books, ho.synced, ho.forgot, hr, ho.steady, fun q h p h1 => ?_, ho.ids, ho.keeps⟩
  exact lawful_mono (ho.lawful q h p h1) rfl rfl (fun _ h => h) (fun _ _ h => h)

/-- A ledger with no more open targets and rows may take the place of the old one, if what it marks
and forgets is settled. -/
theorem Sane.setLedger (ho : o.Sane) (hb : l.Books o.relay.routePrefix o.submitted)
    (hl : Ledger.Shrinks o.relay.ledger l)
    (hs : ∀ x ∈ o.submitted, ∀ s, l.Synced x.change.id s →
      o.relay.ledger.Synced x.change.id s ∨ o.relay.SettledAt s x.change)
    (hf : ∀ x ∈ o.submitted, ∀ s ∈ x.servers, l.Forgot x.change.id →
      o.relay.ledger.Forgot x.change.id ∨ o.relay.ledger.Synced x.change.id s)
    {tally : Tally} {readings : ℕ} :
    Sane { o with relay := { o.relay with ledger := l, tally, readings } } := by
  refine ⟨hb, fun x hx s h1 => ?_, fun x hx s hxs h1 => ?_, fun row hrow => ?_, ho.steady,
    fun q h p h1 => ?_, ho.ids, ho.keeps⟩
  · rcases hs x hx s h1 with h2 | h2
    · exact ho.synced x hx s h2
    · exact h2
  · rcases hf x hx s hxs h1 with h2 | h2
    · exact ho.forgot x hx s hxs h2
    · exact ho.synced x hx s h2
  · obtain ⟨h1, h2, h3⟩ := ho.rows row hrow
    refine ⟨h1, ?_, fun row' h4 => h3 row' (hl.outbox row' h4)⟩
    show row.id ≤ l.lastRowId
    rwa [hl.lastRow]
  · exact lawful_mono (ho.lawful q h p h1) rfl rfl (fun _ h => h) (fun _ _ h => h)

theorem map_serverId {f : Receiver → Receiver} (hf : ∀ x, (f x).serverId = x.serverId)
    (l : List Receiver) : (l.map f).map (·.serverId) = l.map (·.serverId) := by
  rw [List.map_map]
  exact List.map_congr_left fun x _ => hf x

/-- Receivers with the same servers and tables, and no more memories, may take the place of the old
ones. -/
theorem Sane.mapReceiver (ho : o.Sane) (s : String) {f : Receiver → Receiver}
    (hi : ∀ x, (f x).serverId = x.serverId) (ht : ∀ x, (f x).table = x.table)
    (hm : ∀ x, ∀ id ∈ (f x).memory.ids, id ∈ x.memory.ids) :
    Sane { o with relay := o.relay.mapReceiver s f } := by
  have hset : ∀ t c, o.relay.SettledAt t c → (o.relay.mapReceiver s f).SettledAt t c := by
    rintro t c ⟨x, h1, rfl, h2⟩
    refine ⟨_, List.mem_map_of_mem h1, ?_⟩
    split
    · exact ⟨hi x, Receiver.settled_of_table (ht x) h2⟩
    · exact ⟨rfl, h2⟩
  refine ⟨ho.books, fun x hx t h1 => hset _ _ (ho.synced x hx t h1),
    fun x hx t h1 h2 => hset _ _ (ho.forgot x hx t h1 h2), ho.rows, ho.steady,
    fun q h p h1 => ?_, ?_, ?_⟩
  · exact lawful_mono (ho.lawful q h p h1) rfl rfl (fun _ h => h) hset
  · show ((o.relay.mapReceiver s f).receivers.map (·.serverId)).Nodup
    unfold Relay.mapReceiver
    rw [map_serverId fun x => ?_]
    · exact ho.ids
    · split
      · exact hi x
      · rfl
  · intro y hy
    obtain ⟨x, h1, rfl⟩ := List.mem_map.1 hy
    have hx := ho.keeps x h1
    split
    · rw [hi]
      refine ⟨by rw [ht]; exact hx.history, hx.known, fun id hid => ?_⟩
      obtain ⟨c, h2, h3, h4⟩ := hx.memory id (hm x id hid)
      exact ⟨c, h2, h3, Receiver.settled_of_table (ht x) h4⟩
    · exact hx

/-! ## Messages -/

theorem Sane.rising (ho : o.Sane) : o.changes.Pairwise (·.id < ·.id) := by
  unfold changes
  rw [List.pairwise_map]
  exact ho.books.rising

theorem Sane.known_of_outbox (ho : o.Sane) (hrow : row ∈ o.relay.ledger.outbox) :
    row.Known o.relay.ledger o.relay.routePrefix o.submitted :=
  ⟨ho.books.rows row hrow, ho.books.lastRow row hrow, fun _ h1 h2 =>
    List.inj_on_of_nodup_map ho.books.rowIds h1 hrow h2⟩

/-- A lawful message with a change has one that was submitted. -/
theorem change_of_lawful (hl : r.Lawful subs q h p) (hd : Change.decode? p = some c) :
    ∃ x ∈ subs, x.change = c := by
  cases hl with
  | @change x s hx hs =>
    rw [Change.decode?_encode] at hd
    exact ⟨x, hx, Option.some.inj hd⟩
  | ack hx hh hset =>
    rw [Change.decode?_ack] at hd
    cases hd

/-- A lawful acknowledgment is for what is settled. -/
theorem ack_of_lawful {a : Ack} (hl : r.Lawful subs q h p) (hd : Ack.decode? p = some a) :
    ∃ x ∈ subs, x.change.id = a.changeId ∧ r.SettledAt a.serverId x.change := by
  cases hl with
  | change hx hs =>
    rw [Ack.decode?_change] at hd
    cases hd
  | @ack x s h hx hh hset =>
    rw [Ack.decode?_encode] at hd
    rw [← Option.some.inj hd]
    exact ⟨x, hx, rfl, hset⟩

/-- A lawful message that is to be acknowledged is so on the queue for that. -/
theorem replyTo_of_lawful {queue : String} (hl : r.Lawful subs q h p)
    (hn : h.replyTo = some queue) : queue = r.ackQueue := by
  cases hl with
  | change hx hs => exact (Option.some.inj hn).symm
  | ack hx hh hset =>
    rw [hh] at hn
    cases hn

/-! ## Receivers -/

theorem committed_append (o : Operation) (x : Receipt) (s : String) :
    committed { o with receipts := o.receipts ++ [x] } s = o.committed s ++
      if x.serverId = s ∧ x.outcome = .applied then x.change?.toList else [] := by
  unfold committed
  rw [List.filterMap_append, List.filterMap_cons, List.filterMap_nil]
  split_ifs with h
  · cases x.change? <;> rfl
  · rfl

/-- The receiver that handled a message is there in its new state, and the others are as before. -/
theorem mem_setReceiver {x y z : Receiver} (hx : x ∈ r.receivers) (hy : y.serverId = x.serverId) :
    z ∈ (r.setReceiver y).receivers ↔ z = y ∨ z ∈ r.receivers ∧ z.serverId ≠ x.serverId := by
  unfold Relay.setReceiver
  simp only [List.mem_map]
  constructor
  · rintro ⟨w, hw, rfl⟩
    split_ifs with h1
    · exact Or.inl rfl
    · exact Or.inr ⟨hw, fun h2 => h1 (h2.trans hy.symm)⟩
  · rintro (rfl | ⟨hz, h1⟩)
    · exact ⟨x, hx, if_pos hy.symm⟩
    · exact ⟨z, hz, if_neg fun h2 => h1 (h2.trans hy)⟩

theorem settledAt_setReceiver {x y : Receiver} (hids : (r.receivers.map (·.serverId)).Nodup)
    (hx : x ∈ r.receivers) (hy : y.serverId = x.serverId)
    (hset : ∀ c, x.Settled c → y.Settled c) (h : r.SettledAt s c) :
    (r.setReceiver y).SettledAt s c := by
  obtain ⟨z, hz, rfl, h1⟩ := h
  -- the receiver at this server is either the one replaced or still there
  by_cases h2 : z.serverId = x.serverId
  · rw [List.inj_on_of_nodup_map hids hz hx h2] at h1 ⊢
    exact ⟨y, (mem_setReceiver hx hy).2 (Or.inl rfl), hy, hset c h1⟩
  · exact ⟨z, (mem_setReceiver hx hy).2 (Or.inr ⟨hz, h2⟩), rfl, h1⟩

/-- **A receiver handles a message.** The bus may then carry an acknowledgment of what is
settled. -/
theorem Sane.receive (ho : o.Sane) {x y : Receiver} {m : Message} {out : ReceiptOutcome}
    {res : Except HandlerError ChangeId} (modes : RouteModes)
    (hx : x ∈ o.relay.receivers) (hd : x.Digests m out res y)
    (hm : ∀ c, Change.decode? m.payload = some c → c ∈ o.changes) (hb : b.Steady)
    (hc : ∀ q h p, b.Carries q h p → o.relay.bus.Carries q h p ∨
      (o.relay.setReceiver y).Lawful o.submitted q h p) :
    Sane { o with
      relay := { o.relay.digested b y out with modes }
      receipts := o.receipts ++ [⟨x.serverId, Change.decode? m.payload, out⟩] } := by
  have hkx := ho.keeps x hx
  have hy := Receiver.serverId_digests hd
  have hset : ∀ s c, o.relay.SettledAt s c → (o.relay.setReceiver y).SettledAt s c := fun s c =>
    settledAt_setReceiver ho.ids hx hy fun c => Receiver.settled_digest hkx.history.sound hd
  refine ⟨ho.books, fun x hx s h1 => hset _ _ (ho.synced x hx s h1),
    fun x hx s h1 h2 => hset _ _ (ho.forgot x hx s h1 h2), ho.rows, hb, fun q h p h1 => ?_, ?_,
    fun z hz => ?_⟩
  · rcases hc q h p h1 with h2 | h2
    · exact lawful_mono (ho.lawful q h p h2) rfl rfl (fun _ h => h) hset
    · exact lawful_mono h2 rfl rfl (fun _ h => h) (fun _ _ h => h)
  · show ((o.relay.setReceiver y).receivers.map (·.serverId)).Nodup
    unfold Relay.setReceiver
    rw [map_serverId fun z => ?_]
    · exact ho.ids
    · split_ifs with h2
      · exact h2.symm
      · rfl
  · show z.Keeps (committed { o with
      receipts := o.receipts ++ [⟨x.serverId, Change.decode? m.payload, out⟩] } z.serverId)
      o.changes
    rw [committed_append]
    rcases (mem_setReceiver hx hy).1 hz with rfl | ⟨h1, h2⟩
    · have h3 := Receiver.keeps_digest hkx hm hd
      rw [hy]
      simpa only [Receiver.commits, true_and] using h3
    · rw [if_neg fun h3 => h2 h3.1.symm, List.append_nil]
      exact ho.keeps z h1

/-! ## Steps -/

theorem sane_records (ho : o.Sane) (c : Change) (hr : o.relay.ledger.HasRoom) :
    Sane { o with
      relay := { o.relay with ledger := o.relay.ledger.after o.relay.routePrefix c }
      submitted := o.submitted ++ [o.relay.ledger.recorded c] } := by
  have hb := Ledger.books_after ho.books hr c
  refine ⟨hb, fun x hx s h1 => ?_, fun x hx s hs h1 => ?_, fun row hrow => ?_, ho.steady,
    fun q h p h1 => ?_, ho.ids, fun x hx => ?_⟩
  · rcases Ledger.shows_after c |>.1 h1 with h2 | ⟨-, -, h2⟩
    · rcases List.mem_append.1 hx with hx | hx
      · exact ho.synced x hx s h2
      · rw [List.mem_singleton.1 hx] at h2
        obtain ⟨e, he, hid, -⟩ := h2
        exact absurd hid (ho.books.ne_recorded hr c he)
    · cases h2
  · rcases List.mem_append.1 hx with hx | hx
    · exact ho.forgot x hx s hs fun e he => h1 e (List.mem_append_left _ he)
    · rw [List.mem_singleton.1 hx] at h1
      exact absurd rfl (h1 _ (List.mem_append_right _ List.mem_cons_self))
  · obtain ⟨⟨x, hx, h1⟩, h2, h3⟩ := ho.rows row hrow
    obtain ⟨h4, -, -⟩ := Ledger.newRows_spec (o.relay.ledger.recorded c).change
      (Ledger.routes o.relay.routePrefix o.relay.ledger.servers)
      o.relay.ledger.lastRowId (by rw [Ledger.routes, List.length_map]; exact hr.2)
    refine ⟨⟨x, List.mem_append_left _ hx, h1⟩, ?_, fun row' hrow' hid => ?_⟩
    · refine UInt64.le_trans h2 ?_
      rw [UInt64.le_iff_toNat_le, Ledger.lastRowId_after _ hr]
      omega
    · rcases List.mem_append.1 hrow' with h5 | h5
      · exact h3 row' h5 hid
      · -- the new rows are numbered on from the last, and the poller's are not after it
        have h6 := (h4 row' h5).1
        rw [hid] at h6
        exact absurd (UInt64.lt_of_le_of_lt h2 h6) (UInt64.lt_irrefl _)
  · exact lawful_mono (ho.lawful q h p h1) rfl rfl (fun _ h => List.mem_append_left _ h)
      (fun _ _ h => h)
  · refine keeps_mono (ho.keeps x hx) fun c hc => ?_
    unfold changes at hc ⊢
    rw [List.map_append]
    exact List.mem_append_left _ hc

theorem sane_delivers {m : Message} {receipt : Option Receipt} (ho : o.Sane)
    (ht : o.relay.bus.take q = some (m, b)) (hd : o.relay.Delivery q m b r receipt) :
    Sane { o with relay := r, receipts := o.receipts ++ receipt.toList } := by
  obtain ⟨hb, hq⟩ := Bus.steady_take ho.steady ht
  have old : ∀ q h p, b.Carries q h p → o.relay.bus.Carries q h p :=
    fun q h p h1 => (Bus.carries_take ht).2 (Or.inl h1)
  have hmq : o.relay.Lawful o.submitted q m.headers m.payload :=
    ho.lawful _ _ _ ((Bus.carries_take ht).2 (Or.inr ⟨rfl, rfl, rfl⟩))
  have back : ∀ {due q' h p}, (b.hold due q m).Carries q' h p → o.relay.bus.Carries q' h p := by
    intro due q' h p h1
    rcases (Bus.carries_hold due).1 h1 with h2 | ⟨rfl, rfl, rfl⟩
    · exact old _ _ _ h2
    · exact (Bus.carries_take ht).2 (Or.inr ⟨rfl, rfl, rfl⟩)
  have hm : ∀ c, Change.decode? m.payload = some c → c ∈ o.changes := by
    intro c hc
    obtain ⟨x, hx, rfl⟩ := change_of_lawful hmq hc
    exact List.mem_map_of_mem hx
  have none_toList : o.receipts ++ (none : Option Receipt).toList = o.receipts := by simp
  -- an acknowledgment is published for a change that is settled by then
  have answer : ∀ {x y out id queue q' h p}, x ∈ o.relay.receivers → x.Digests m out (.ok id) y →
      m.headers.replyTo = some queue →
      (o.relay.acked b y queue id).2.1.Carries q' h p →
      b.Carries q' h p ∨ (o.relay.setReceiver y).Lawful o.submitted q' h p := by
    intro x y out id queue q' h p hx hdx hn h1
    rcases (Bus.carries_attempt o.relay.modes).2.1 h1 with h2 | ⟨rfl, rfl, rfl⟩
    · exact Or.inl h2
    · obtain ⟨c, h2, rfl, h3⟩ := Receiver.settled_of_ok (ho.keeps x hx) ho.rising hm hdx
      obtain ⟨z, hz, rfl⟩ := change_of_lawful hmq h2
      have hy := Receiver.serverId_digests hdx
      have h4 : (o.relay.setReceiver y).SettledAt y.serverId z.change :=
        ⟨y, (mem_setReceiver hx hy).2 (Or.inl rfl), rfl, h3⟩
      rw [replyTo_of_lawful hmq hn]
      exact Or.inr (.ack (r := o.relay.setReceiver y) hz rfl h4)
  have steadyAcked : ∀ y queue id, (o.relay.acked b y queue id).2.1.Steady := fun y queue id =>
    Bus.steady_attempt hb o.relay.modes
  cases hd with
  | undecodable hown hdm =>
    rw [none_toList]
    exact ho.setBus _ _ _ hb fun q h p h1 => Or.inl (old q h p h1)
  | @acknowledged a now moved l readings tally hown hdm hl =>
    rw [none_toList]
    obtain ⟨y, hy, hid, hset⟩ := ack_of_lawful hmq hdm
    have h1 := ho.setBus o.relay.modes o.relay.tally o.relay.now
      hb fun q h p h1 => Or.inl (old q h p h1)
    rcases Ledger.advance_cases ho.books a.changeId a.serverId now with
      ⟨e, h2, -⟩ | ⟨e, h2, -⟩ | ⟨moved', l', h2, hbooks, hack⟩
    · rw [h2] at hl
      cases hl
    · rw [h2] at hl
      cases hl
    · rw [h2] at hl
      cases hl
      refine h1.setLedger hbooks hack.toShrinks (fun x hx s h3 => ?_)
        fun x _ _ _ h3 => Or.inl (hack.forgot _ h3)
      -- the one target newly marked is that of the acknowledgment
      rcases hack.synced _ _ h3 with h4 | ⟨h4, rfl⟩
      · exact Or.inl h4
      · rw [ho.books.submission_unique hx hy (h4.trans hid.symm)]
        exact Or.inr hset
  | @refused a now e readings hown hdm hl he =>
    rw [none_toList]
    have h1 := ho.setBus o.relay.modes o.relay.tally o.relay.now
      hb fun q h p h1 => Or.inl (old q h p h1)
    exact h1.setLedger ho.books (.refl _) (fun _ _ _ h => Or.inl h) fun _ _ _ _ h => Or.inl h
  | @postponed due readings hown =>
    rw [none_toList]
    have h1 := ho.setBus o.relay.modes o.relay.tally o.relay.now
      (Bus.steady_hold hb hq due (m := m)) fun q h p h1 => Or.inl (back h1)
    exact h1.setLedger ho.books (.refl _) (fun _ _ _ h => Or.inl h) fun _ _ _ _ h => Or.inl h
  | dropped hx hown hdx =>
    exact ho.receive o.relay.modes (Relay.serverId_of_receiver? hx).1 hdx hm hb
      fun q h p h1 => Or.inl (old q h p h1)
  | retried hx hown hdx =>
    exact ho.receive o.relay.modes (Relay.serverId_of_receiver? hx).1 hdx hm
      (Bus.steady_hold hb hq _) fun q h p h1 => Or.inl (back h1)
  | silent hx hown hdx hn =>
    exact ho.receive o.relay.modes (Relay.serverId_of_receiver? hx).1 hdx hm hb
      fun q h p h1 => Or.inl (old q h p h1)
  | answered hx hown hdx hn ha =>
    have hx' := (Relay.serverId_of_receiver? hx).1
    exact ho.receive _ hx' hdx hm (steadyAcked _ _ _) fun q h p h1 =>
      (answer hx' hdx hn h1).imp_left (old q h p)
  | unanswered hx hown hdx hn =>
    have hx' := (Relay.serverId_of_receiver? hx).1
    have hq' : ∀ y queue id, ((o.relay.acked b y queue id).2.1.queue? q).isSome := by
      intro y queue id
      unfold Relay.acked
      rw [Bus.isSome_attempt]
      exact hq
    refine ho.receive _ hx' hdx hm (Bus.steady_hold (steadyAcked _ _ _) (hq' _ _ _) _)
      fun q h p h1 => ?_
    rcases (Bus.carries_hold _).1 h1 with h2 | ⟨rfl, rfl, rfl⟩
    · exact (answer hx' hdx hn h2).imp_left (old q h p)
    · exact Or.inl ((Bus.carries_take ht).2 (Or.inr ⟨rfl, rfl, rfl⟩))

/-- **Every step keeps a relay sane.** -/
theorem sane_step {o' : Operation} (ho : o.Sane) (h : Step o o') : o'.Sane := by
  cases h with
  | flags available fault =>
    exact ho.setLedger (Ledger.books_flags ho.books available fault) ⟨fun _ _ h => h, fun _ h => h,
      rfl, rfl⟩ (fun _ _ _ h => Or.inl h) fun _ _ _ _ h => Or.inl h
  | records c hr => exact sane_records ho c hr
  | moves modes now hb hc =>
    exact ho.setBus modes o.relay.tally now (hb ho.steady) fun q h p h1 =>
      Or.inl ((hc ho.steady q h p).1 h1)
  | polls tally hr hc =>
    exact ho.setPoller tally fun row hrow => (hr row hrow).elim (ho.rows row) ho.known_of_outbox
  | @publishes row polling tally hrow hr hc =>
    have h1 : Sane { o with relay := { o.relay with
        bus := (o.send row).2.bus, modes := (o.send row).2.modes, tally } } := by
      refine ho.setBus _ tally o.relay.now (Bus.steady_attempt ho.steady o.relay.modes)
        fun q h p h1 => ?_
      rcases (Bus.carries_attempt o.relay.modes).2.1 h1 with h2 | ⟨rfl, rfl, rfl⟩
      · exact Or.inl h2
      · obtain ⟨x, hx, hs⟩ := (ho.rows row hrow).sends
        rw [hs.route, hs.payload]
        exact Or.inr (.change hx hs.server)
    exact h1.setPoller tally fun row' h2 => ho.rows row' (hr row' h2)
  | @marks p p' row l hp hr hl =>
    obtain ⟨hb, hd⟩ := Ledger.markPublished_ok ho.books hl
    have h1 : Sane { o with relay := { o.relay with ledger := l } } :=
      ho.setLedger hb hd.toShrinks (fun x _ s h => Or.inl (hd.synced _ s h))
        fun x _ _ _ h => Or.inl (hd.forgot _ h)
    exact h1.setPoller o.relay.tally fun row' h2 => h1.rows row' (hr row' h2)
  | delivers ht hd => exact sane_delivers ho ht hd
  | @purges cutoff n l hl =>
    obtain ⟨hb, hd⟩ := Ledger.purge_ok ho.books hl
    refine ho.setLedger hb hd.toShrinks (fun x _ s h => Or.inl (hd.synced _ s h))
      fun x hx s hs h => ?_
    -- what is forgotten by this purge was in sync with all targets
    by_cases hf : o.relay.ledger.Forgot x.change.id
    · exact Or.inl hf
    · unfold Ledger.Forgot at hf
      push Not at hf
      obtain ⟨e, he, hid⟩ := hf
      have hw := hd.forgot e he (by rwa [hid])
      obtain ⟨t, ht, h1⟩ := ho.books.target he hx hid hs
      exact Or.inr ⟨e, he, hid, t, ht, h1, hw t ht⟩
  | disturbs s hi ht hm => exact ho.mapReceiver s hi ht hm

theorem sane_act (ho : o.Sane) (a : Action) : (o.act a).Sane := by
  rcases o.step_act a with h | h
  · rwa [h]
  · exact sane_step ho h

theorem sane_start (hr : r.Fresh) : (start r).Sane := by
  have noEntry : ∀ e ∈ r.ledger.entries, False := by
    rw [hr.entries]
    simp
  have noRow : ∀ row ∈ r.ledger.outbox, False := by
    rw [hr.outbox]
    simp
  refine ⟨⟨List.Pairwise.nil, by simp [start], by simp [start], fun e he => (noEntry e he).elim, ?_,
    fun row hrow => (noRow row hrow).elim, ?_, fun row hrow => (noRow row hrow).elim⟩,
    by simp [start], by simp [start], (fun _ h => by cases h), ?_, ?_, hr.ids, ?_⟩
  · show (r.ledger.entries.map _).Nodup
    rw [hr.entries]
    exact List.nodup_nil
  · show (r.ledger.outbox.map _).Nodup
    rw [hr.outbox]
    exact List.nodup_nil
  · intro x hx
    have h1 : x ∈ r.bus.held := hx
    rw [hr.held] at h1
    cases h1
  · rintro q h p (⟨m, hm, -⟩ | ⟨x, hx, -⟩)
    · have h1 : m ∈ (r.bus.queue? q).getD [] := hm
      rw [hr.queue] at h1
      cases h1
    · have h1 : x ∈ r.bus.held := hx
      rw [hr.held] at h1
      cases h1
  · intro x hx
    refine ⟨?_, by simp [start, committed], fun id hid => ?_⟩
    · have h1 : x.table = .empty := hr.tables x hx
      rw [h1]
      exact .empty
    · rw [hr.memories x hx] at hid
      cases hid

/-- **Every state of a relay is sane.** -/
theorem sane_run (hr : r.Fresh) (actions : List Action) : ((start r).run actions).Sane :=
  run_induction (fun _ _ => sane_step) actions (sane_start hr)

end Operation

end ZoneRelay
