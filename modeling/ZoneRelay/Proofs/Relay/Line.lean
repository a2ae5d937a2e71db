import ZoneRelay.Proofs.Relay.Sane

/-!
# Changes in line

As long as nothing fails, the changes for one server stand in a line: in front those that its
receiver has handled, then those on its queue, then those that the pass under way is to publish. A
new pass adds to the end of the line, in the order of the outbox.

* `Operation.Smooth`: actions that meet no fault.
* `Operation.line`: the changes for a server, as far as they have left the outbox.
* `Operation.Orderly`: the invariant; `orderly_act`: an action preserves it.
-/

namespace ZoneRelay

/-- The change in the message, if it was delivered to the server. -/
def Receipt.deliveredTo? (s : String) (x : Receipt) : Option Change :=
  if x.serverId = s then x.change? else none

/-- The change in the message, if it is for the server. -/
def OutboxRow.sentTo? (s : String) (row : OutboxRow) : Option Change :=
  if row.serverId = s then Change.decode? row.payload else none

/-- The changes on a queue, in order. -/
def Bus.changes (b : Bus) (q : String) : List Change :=
  ((b.queue? q).getD []).filterMap fun m => Change.decode? m.payload

namespace Polling

/-- The rows that the pass under way is to publish. -/
def upcoming : Polling → List OutboxRow
  | idle => []
  | between p | hanging p _ => p.rows
  | confirmed p _ => p.rows.drop 1

/-- Whether nothing has failed in the pass under way. -/
def Plain : Polling → Prop
  | idle => True
  | between p => p.blocked = []
  | hanging _ _ => False
  | confirmed p row => p.blocked = [] ∧ p.next? = some row

end Polling

namespace Operation

/-! ## Runs without faults -/

/-- Whether the bus takes the message of a row, and takes it once. -/
def goesThrough (o : Operation) (row : OutboxRow) : Bool :=
  match (o.send row).1 with
  | .confirmed => o.relay.modes.mode row.routeKey != .twice
  | .failed _ | .hanging => false

/-- Whether an action meets no fault: what is published goes through, the ledger takes note of it,
and no message is delivered again. -/
def faultless (o : Operation) : Action → Bool
  | .publishNext =>
    match o.poller with
    | .between p => p.ready.next?.all o.goesThrough
    | .idle | .hanging .. | .confirmed .. => true
  | .stopPass =>
    match o.poller with
    | .confirmed .. => false
    | .idle | .hanging .. | .between .. => true
  | .markPublished => o.relay.ledger.available
  | .deliver queue => (o.deliver queue).relay.bus.held.isEmpty
  | .giveUp | .duplicate .. => false
  | .submit .. | .beginPass .. | .moveTo .. | .purge .. | .setLedger .. | .setBus .. | .setMode ..
  | .declare .. | .failCommits .. | .mount .. | .forget .. => true

/-- Whether none of these actions meets a fault. -/
def Smooth (o : Operation) : List Action → Prop
  | [] => True
  | a :: actions => o.faultless a = true ∧ (o.act a).Smooth actions

instance decidableSmooth (o : Operation) (actions : List Action) : Decidable (o.Smooth actions) :=
  match actions with
  | [] => .isTrue trivial
  | a :: actions =>
    have := decidableSmooth (o.act a) actions
    inferInstanceAs (Decidable (_ ∧ _))

/-! ## The line -/

/-- The changes that the receiver of a server has handled, in order. -/
def delivered (o : Operation) (s : String) : List Change :=
  o.receipts.filterMap (Receipt.deliveredTo? s)

/-- The changes for a server that have left the outbox or are in the pass under way. -/
def line (o : Operation) (s : String) : List Change :=
  o.delivered s ++ o.relay.bus.changes (o.relay.routeTo s) ++
    o.poller.upcoming.filterMap (OutboxRow.sentTo? s)

/-- Whether a change for a server waits for a later pass. -/
def Waits (o : Operation) (s : String) (c : Change) : Prop :=
  ∃ row ∈ o.relay.ledger.outbox, row ∉ o.poller.rows ∧ row.sentTo? s = some c

/-- What holds of the lines. -/
structure InLine (o : Operation) : Prop where
  known : ∀ s, ∀ c ∈ o.line s, c ∈ o.changes
  ordered : ∀ s, (o.line s).Pairwise Change.MayPrecede
  /-- The end of a line is the place for a change that waits. -/
  ahead : ∀ s, ∀ c ∈ o.line s, ∀ d, o.Waits s d → c.MayPrecede d

/-- What holds in every state of a relay in which nothing has failed. -/
structure Orderly (o : Operation) : Prop where
  held : o.relay.bus.held = []
  plain : o.poller.Plain
  tidy : o.relay.ledger.Tidy
  inLine : o.InLine
  /-- A receiver remembers only what it was delivered. -/
  remembered : ∀ x ∈ o.relay.receivers, ∀ id ∈ x.memory.ids,
    ∃ c ∈ o.delivered x.serverId, c.id = id

variable {o o' : Operation} {p : Pass} {row : OutboxRow} {s q : String} {c d : Change}
  {r r' : Relay} {m : Message} {bus : Bus} {receipt : Option Receipt} {polling : Polling}

theorem InLine.shrink (h : o.InLine) (hl : ∀ s, (o'.line s).Sublist (o.line s))
    (hw : ∀ s d, o'.Waits s d → o.Waits s d) (hc : o'.changes = o.changes) : o'.InLine := by
  refine ⟨fun s c h1 => ?_, fun s => ?_, fun s c h1 d h2 => ?_⟩
  · rw [hc]
    exact h.known s c ((hl s).mem h1)
  · exact (h.ordered s).sublist (hl s)
  · exact h.ahead s c ((hl s).mem h1) d (hw s d h2)

theorem sentTo?_eq_some (h : row.sentTo? s = some c) :
    row.serverId = s ∧ Change.decode? row.payload = some c := by
  unfold OutboxRow.sentTo? at h
  split at h
  · next hs => exact ⟨hs, h⟩
  · cases h

/-- The change of a row in the books. -/
theorem sentTo?_of_sends {x : Submission} {routePrefix : String} (h : row.Sends routePrefix x) :
    row.sentTo? s = if row.serverId = s then some x.change else none := by
  unfold OutboxRow.sentTo?
  rw [h.payload, Change.decode?_encode]

/-- The change of a row in the outbox was submitted. -/
theorem changes_of_outbox (hs : o.Sane) (hrow : row ∈ o.relay.ledger.outbox)
    (h : row.sentTo? s = some c) : c ∈ o.changes := by
  obtain ⟨x, hx, hsends⟩ := hs.books.rows row hrow
  rw [sentTo?_of_sends hsends] at h
  split at h
  · rw [← Option.some.inj h]
    exact List.mem_map_of_mem hx
  · cases h

theorem ready_of_plain (h : p.blocked = []) : p.ready.rows = p.rows ∧ p.ready.blocked = [] := by
  have h1 : Pass.skip p.blocked p.rows = (0, p.rows) := by
    rw [h]
    cases p.rows <;> rfl
  unfold Pass.ready
  rw [h1]
  exact ⟨rfl, h⟩

theorem Orderly.blocked (ho : o.Orderly) (hp : o.poller = .between p) : p.blocked = [] := by
  have h1 := ho.plain
  rwa [hp] at h1

theorem routeTo_inj {t : String} : r.routeTo s = r.routeTo t ↔ s = t := by
  unfold Relay.routeTo
  rw [String.ext_iff, String.toList_append, String.toList_append, List.append_cancel_left_eq,
    ← String.ext_iff]

theorem line_of_idle (h : o.poller = .idle) (s : String) :
    o.line s = o.delivered s ++ o.relay.bus.changes (o.relay.routeTo s) := by
  unfold line
  rw [h]
  exact List.append_nil _

theorem changes_gains {b b' : Bus} {name : String} {n : ℕ} (h : b.Gains b' name m n) (q : String) :
    b'.changes q = b.changes q ++
      if q = name then (List.replicate n m).filterMap fun m => Change.decode? m.payload else [] := by
  unfold Bus.changes
  rw [h.queue, List.filterMap_append]
  split_ifs <;> rfl

/-- A message that goes through is at the end of its queue. -/
theorem send_of_goesThrough (h : o.goesThrough row = true) : ∃ bus modes,
    o.send row = (.confirmed, { o.relay with bus, modes }) ∧ o.relay.bus.Gains bus row.routeKey
      ⟨⟨row.serverId, some o.relay.ackQueue⟩, row.payload, false⟩ 1 := by
  obtain ⟨n, hg, hone⟩ := Bus.gains_attempt o.relay.bus row.routeKey
    ⟨row.serverId, some o.relay.ackQueue⟩ row.payload o.relay.modes
  unfold goesThrough at h
  unfold send Relay.publish at h ⊢
  obtain ⟨a, bus, modes, hat⟩ : ∃ a bus modes, o.relay.bus.attempt o.relay.modes row.routeKey
      ⟨row.serverId, some o.relay.ackQueue⟩ row.payload = (a, bus, modes) := ⟨_, _, _, rfl⟩
  rw [hat] at hg hone
  simp only [hat] at h ⊢
  cases a with
  | failed e => cases h
  | hanging => cases h
  | confirmed =>
    have hn : n = 1 := hone rfl (by simpa using h)
    rw [hn] at hg
    exact ⟨bus, modes, rfl, hg⟩

/-! ## Submitting and polling -/

theorem orderly_records (hs : o.Sane) (ho : o.Orderly) (hr : o.relay.ledger.HasRoom) (c : Change) :
    Orderly { o with
      relay := { o.relay with ledger := o.relay.ledger.after o.relay.routePrefix c }
      submitted := o.submitted ++ [o.relay.ledger.recorded c] } := by
  have hlt := Ledger.lt_recorded hr c
  refine ⟨ho.held, ho.plain, Ledger.tidy_after hs.books hr ho.tidy c, ⟨fun s a ha => ?_,
    ho.inLine.ordered, fun s a ha d hd => ?_⟩, ho.remembered⟩
  · have h1 : a ∈ o.changes := ho.inLine.known s a ha
    unfold changes at h1 ⊢
    rw [List.map_append]
    exact List.mem_append_left _ h1
  · obtain ⟨row, hrow, hnew, hd⟩ := hd
    rcases List.mem_append.1 hrow with h1 | h1
    · exact ho.inLine.ahead s a ha d ⟨row, h1, hnew, hd⟩
    · -- a new change has a greater identity than any in the line
      obtain ⟨hrows, -, -⟩ := Ledger.newRows_spec (o.relay.ledger.recorded c).change
        (Ledger.routes o.relay.routePrefix o.relay.ledger.servers) o.relay.ledger.lastRowId
        (by rw [Ledger.routes, List.length_map]; exact hr.2)
      have h2 := (hrows row h1).2.2.2.1
      have h3 := (sentTo?_eq_some hd).2
      rw [h2, Change.decode?_encode] at h3
      obtain ⟨x, hx, rfl⟩ := List.mem_map.1 (ho.inLine.known s a ha)
      rw [← Option.some.inj h3]
      exact Or.inl (UInt64.lt_of_le_of_lt (hs.books.last x hx) hlt)

theorem orderly_submit (hs : o.Sane) (ho : o.Orderly) (c : Change) : (o.submit c).Orderly := by
  rcases o.submit_cases c with h | ⟨fault, h⟩ | ⟨hr, h⟩
  · rw [h]
    exact ho
  · rw [h]
    exact ⟨ho.held, ho.plain, ⟨ho.tidy.servers, ho.tidy.apart, ho.tidy.present⟩,
      ⟨ho.inLine.known, ho.inLine.ordered, ho.inLine.ahead⟩, ho.remembered⟩
  · rw [h]
    exact orderly_records hs ho hr c

/-- **A pass takes its rows to the end of the lines.** -/
theorem orderly_beginPass (hs : o.Sane) (ho : o.Orderly) (n : ℕ) : (o.beginPass n).Orderly := by
  rcases o.beginPass_cases n with h | ⟨rows, hidle, hrows, h⟩
  · rw [h]
    exact ho
  rw [h]
  obtain ⟨later, hperm, hsorted⟩ := Ledger.precede_of_pendingRows hs.books ho.tidy hrows
  have hout : ∀ row ∈ rows, row ∈ o.relay.ledger.outbox := fun row h1 =>
    hperm.mem_iff.1 (List.mem_append_left _ h1)
  have hnew : ∀ s, line { o with poller := .between (Pass.begin rows) } s =
      o.line s ++ rows.filterMap (OutboxRow.sentTo? s) := by
    intro s
    rw [line_of_idle hidle]
    rfl
  have hwaits : ∀ {s d row}, row ∈ o.relay.ledger.outbox → row.sentTo? s = some d →
      o.Waits s d := by
    intro s d row h1 h2
    refine ⟨row, h1, ?_, h2⟩
    rw [hidle]
    exact List.not_mem_nil
  obtain ⟨hpass, -, hcross⟩ := List.pairwise_append.1 hsorted
  refine ⟨ho.held, rfl, ho.tidy, ⟨fun s c hc => ?_, fun s => ?_, fun s c hc d hd => ?_⟩,
    ho.remembered⟩
  · rw [hnew] at hc
    rcases List.mem_append.1 hc with h1 | h1
    · exact ho.inLine.known s c h1
    · obtain ⟨row, h2, h3⟩ := List.mem_filterMap.1 h1
      have h4 : c ∈ o.changes := changes_of_outbox hs (hout row h2) h3
      exact h4
  · rw [hnew]
    refine List.pairwise_append.2 ⟨ho.inLine.ordered s, ?_, fun a ha b hb => ?_⟩
    · refine List.pairwise_filterMap.2 (hpass.imp fun {a b} h1 c hc d hd => ?_)
      obtain ⟨hca, hc'⟩ := sentTo?_eq_some hc
      obtain ⟨hdb, hd'⟩ := sentTo?_eq_some hd
      exact h1 (hca.trans hdb.symm) c hc' d hd'
    · obtain ⟨row, h2, h3⟩ := List.mem_filterMap.1 hb
      exact ho.inLine.ahead s a ha b (hwaits (hout row h2) h3)
  · obtain ⟨row, hrow, hleft, hd⟩ := hd
    rw [hnew] at hc
    rcases List.mem_append.1 hc with h1 | h1
    · exact ho.inLine.ahead s c h1 d (hwaits hrow hd)
    · -- a row that is not in the pass is one of those behind it
      obtain ⟨row', h2, h3⟩ := List.mem_filterMap.1 h1
      have hlater : row ∈ later :=
        (List.mem_append.1 (hperm.mem_iff.2 hrow)).resolve_left hleft
      obtain ⟨hcs, hc'⟩ := sentTo?_eq_some h3
      obtain ⟨hds, hd'⟩ := sentTo?_eq_some hd
      exact hcross row' h2 row hlater (hcs.trans hds.symm) c hc' d hd'

/-- A pass that is stopped leaves its rows to a later one. -/
theorem orderly_stopPass (ho : o.Orderly) (hf : o.faultless .stopPass = true) :
    Orderly { o with poller := .idle } := by
  have hline : ∀ s, line { o with poller := .idle } s =
      o.delivered s ++ o.relay.bus.changes (o.relay.routeTo s) := line_of_idle rfl
  have hsub : ∀ s, (line { o with poller := .idle } s).Sublist (o.line s) := by
    intro s
    rw [hline]
    exact List.sublist_append_left _ _
  refine ⟨ho.held, trivial, ho.tidy, ⟨fun s c hc => ho.inLine.known s c ((hsub s).mem hc),
    fun s => (ho.inLine.ordered s).sublist (hsub s), fun s c hc d hd => ?_⟩, ho.remembered⟩
  obtain ⟨row, h1, -, h2⟩ := hd
  by_cases hrow : row ∈ o.poller.rows
  · -- the change was in line behind those before the pass
    have hup : row ∈ o.poller.upcoming := by
      cases hp : o.poller with
      | idle =>
        rw [hp] at hrow
        cases hrow
      | between p =>
        rw [hp] at hrow
        exact hrow
      | hanging p row =>
        have h3 := ho.plain
        rw [hp] at h3
        exact h3.elim
      | confirmed p row =>
        unfold faultless at hf
        rw [hp] at hf
        cases hf
    have hordered := ho.inLine.ordered s
    unfold line at hordered
    rw [hline] at hc
    exact (List.pairwise_append.1 hordered).2.2 c hc d (List.mem_filterMap.2 ⟨row, hup, h2⟩)
  · exact ho.inLine.ahead s c ((hsub s).mem hc) d ⟨row, h1, hrow, h2⟩

/-- **Publishing moves a change from the pass to the queue**, so that the line stays the same. -/
theorem line_of_sent {x : Submission} {rest : List OutboxRow} (modes : RouteModes) (tally : Tally)
    (hg : o.relay.bus.Gains bus row.routeKey ⟨⟨row.serverId, some o.relay.ackQueue⟩, row.payload,
      false⟩ 1) (hsends : row.Sends o.relay.routePrefix x)
    (hp : o.poller.upcoming = row :: rest) (hp' : polling.upcoming = rest) (s : String) :
    line { o with relay := { o.relay with bus, modes, tally }, poller := polling } s =
      o.line s := by
  have hbefore : o.line s = o.delivered s ++ o.relay.bus.changes (o.relay.routeTo s) ++
      (row :: rest).filterMap (OutboxRow.sentTo? s) := by
    unfold line
    rw [hp]
  have hafter : line { o with relay := { o.relay with bus, modes, tally }, poller := polling } s =
      o.delivered s ++ bus.changes (o.relay.routeTo s) ++
        rest.filterMap (OutboxRow.sentTo? s) := by
    unfold line
    rw [hp']
    rfl
  rw [hbefore, hafter, changes_gains hg, hsends.route]
  -- the row is for one server, and its queue is that of no other
  by_cases hserver : row.serverId = s
  · have hqueue : o.relay.routeTo s = o.relay.routePrefix ++ row.serverId := by
      rw [hserver]
      rfl
    have hsent : row.sentTo? s = some x.change := by
      rw [sentTo?_of_sends hsends, if_pos hserver]
    have hdecode : Change.decode? row.payload = some x.change := (sentTo?_eq_some hsent).2
    simp [hqueue, hsent, hdecode]
  · have hqueue : o.relay.routeTo s ≠ o.relay.routePrefix ++ row.serverId :=
      fun h1 => hserver (routeTo_inj.1 h1).symm
    have hsent : row.sentTo? s = none := by
      rw [sentTo?_of_sends hsends, if_neg hserver]
    simp [hqueue, hsent]

theorem orderly_sent (hs : o.Sane) (ho : o.Orderly) (hp : o.poller = .between p)
    (hn : p.ready.next? = some row) (hgo : o.goesThrough row = true) :
    o.publishNext.Orderly := by
  obtain ⟨hrows, hready⟩ := ready_of_plain (ho.blocked hp)
  obtain ⟨rest, hrest⟩ : ∃ rest, p.rows = row :: rest := by
    rw [← hrows]
    exact List.head?_eq_some_iff.1 hn
  have hrow : row ∈ o.poller.rows := by
    rw [hp]
    exact mem_of_next? hn
  have hupcoming : o.poller.upcoming = row :: rest := by
    rw [hp, ← hrest]
    rfl
  have hleft : (Polling.confirmed p.ready row).upcoming = rest := by
    show p.ready.rows.drop 1 = rest
    rw [hrows, hrest]
    rfl
  obtain ⟨x, -, hsends⟩ := (hs.rows row hrow).sends
  obtain ⟨bus, modes, hsend, hg⟩ := send_of_goesThrough hgo
  rw [publishNext_confirmed hp hn hsend]
  refine ⟨hg.held.trans ho.held, ⟨hready, hn⟩, ho.tidy,
    ho.inLine.shrink (fun s => ?_) (fun s d hd => ?_) rfl, ho.remembered⟩
  · have hline := line_of_sent modes (o.relay.tally.count .outboxPublished) hg hsends hupcoming
      hleft s
    rw [← hline]
    exact List.Sublist.refl _
  · obtain ⟨row', h2, h3, h4⟩ := hd
    refine ⟨row', h2, fun h5 => h3 ?_, h4⟩
    rw [hp] at h5
    show row' ∈ row :: p.ready.rows
    rw [hrows]
    exact List.mem_cons_of_mem _ h5

theorem orderly_publishNext (hs : o.Sane) (ho : o.Orderly) (hf : o.faultless .publishNext = true) :
    o.publishNext.Orderly := by
  have idle : (∀ p, o.poller ≠ .between p) → o.publishNext.Orderly := by
    intro h
    have h1 : o.publishNext = o := by
      unfold publishNext
      split
      · next p hp => exact absurd hp (h p)
      · rfl
    rwa [h1]
  cases hp : o.poller with
  | idle => exact idle (by simp [hp])
  | hanging p row => exact idle (by simp [hp])
  | confirmed p row => exact idle (by simp [hp])
  | between p =>
    cases hn : p.ready.next? with
    | none =>
      -- the pass is at its end
      have h1 : o.publishNext = { o with poller := .idle } := by
        unfold publishNext
        rw [hp]
        simp only [hn]
      rw [h1]
      refine orderly_stopPass ho ?_
      unfold faultless
      rw [hp]
    | some row =>
      have hgo : o.goesThrough row = true := by
        unfold faultless at hf
        rw [hp] at hf
        simpa [hn] using hf
      exact orderly_sent hs ho hp hn hgo

/-- Marking a message as published takes a row out that is not in line any more. -/
theorem orderly_markPublished (hs : o.Sane) (ho : o.Orderly)
    (hf : o.relay.ledger.available = true) : o.markPublished.Orderly := by
  unfold markPublished
  split
  · next p row hp =>
    obtain ⟨hblocked, hnext⟩ : p.blocked = [] ∧ p.next? = some row := by
      have h1 := ho.plain
      rwa [hp] at h1
    obtain ⟨rest, hrest⟩ : ∃ rest, p.rows = row :: rest := List.head?_eq_some_iff.1 hnext
    split
    · next p' l hc =>
      obtain ⟨l', hl, h1⟩ := bind_ok hc
      cases h1
      refine ⟨ho.held, hblocked, Ledger.tidy_markPublished hs.books ho.tidy hl,
        ho.inLine.shrink (fun s => ?_) (fun s d hd => ?_) rfl, ho.remembered⟩
      · unfold line
        rw [hp]
        exact List.Sublist.refl _
      · obtain ⟨row', h2, h3, h4⟩ := hd
        rw [Ledger.outbox_markPublished hl] at h2
        obtain ⟨h5, h6⟩ := List.mem_filter.1 h2
        have hne : row' ≠ row := by
          rintro rfl
          simp at h6
        refine ⟨row', h5, fun h7 => h3 ?_, h4⟩
        rw [hp] at h7
        show row' ∈ p.rows.drop 1
        have h8 : row' ∈ row :: p.rows := h7
        rw [hrest] at h8 ⊢
        simpa [hne] using h8
    · next e hc =>
      -- the ledger is there, so that it takes note
      exfalso
      unfold Pass.confirm Ledger.markPublished Ledger.ifAvailable at hc
      rw [if_pos hf] at hc
      cases hc
  · exact ho

/-! ## Delivering -/

/-- What is left of a delivery of `m` from the queue `q` after which no message comes back. -/
structure Passed (r r' : Relay) (bus : Bus) (q : String) (m : Message)
    (receipt : Option Receipt) : Prop where
  routePrefix : r'.routePrefix = r.routePrefix
  changes : ∀ q, r'.bus.changes q = bus.changes q
  tidy : r'.ledger.Tidy
  outbox : r'.ledger.outbox = r.ledger.outbox
  source : receipt = none ∨
    ∃ s out, receipt = some ⟨s, Change.decode? m.payload, out⟩ ∧ r.routeTo s = q
  memory : ∀ x ∈ r'.receivers, ∀ id ∈ x.memory.ids,
    (∃ y ∈ r.receivers, y.serverId = x.serverId ∧ id ∈ y.memory.ids) ∨
      ∃ c out, receipt = some ⟨x.serverId, some c, out⟩ ∧ c.id = id

theorem mem_of_digests {x y : Receiver} {out : ReceiptOutcome} {res : Except HandlerError ChangeId}
    (h : x.Digests m out res y) {id : ChangeId} (hid : id ∈ y.memory.ids) :
    id ∈ x.memory.ids ∨ ∃ c, Change.decode? m.payload = some c ∧ c.id = id := by
  cases h with
  | poison => exact Or.inl hid
  | duplicate => exact Or.inl hid
  | applied hd _ _ hm => exact (hm id hid).imp_right fun h1 => ⟨_, hd, h1.symm⟩
  | stale hd _ _ _ hm => exact (hm id hid).imp_right fun h1 => ⟨_, hd, h1.symm⟩
  | retry _ _ _ hm => exact Or.inl (hm ▸ hid)
  | rejected _ _ _ hm => exact Or.inl (hm ▸ hid)

/-- A receiver has handled a message, and the bus has at most an acknowledgment more. -/
theorem passed_digested (ho : o.Orderly) {x y : Receiver} {out : ReceiptOutcome}
    {res : Except HandlerError ChangeId} (b : Bus) (modes : RouteModes)
    (hx : o.relay.receiver? x.serverId = some x) (hown : o.relay.owner q = .receiver x.serverId)
    (hd : x.Digests m out res y) (hb : ∀ q, b.changes q = bus.changes q) :
    Passed o.relay { o.relay.digested b y out with modes } bus q m
      (some ⟨x.serverId, Change.decode? m.payload, out⟩) := by
  have hmem := (Relay.serverId_of_receiver? hx).1
  have hy := Receiver.serverId_digests hd
  refine ⟨rfl, hb, ho.tidy, rfl, Or.inr ⟨_, _, rfl, (Relay.owner_receiver hown).1⟩,
    fun z hz id hid => ?_⟩
  have hz' : z ∈ (o.relay.setReceiver y).receivers := hz
  rcases (mem_setReceiver hmem hy).1 hz' with rfl | ⟨h1, -⟩
  · rcases mem_of_digests hd hid with h2 | ⟨c, h2, h3⟩
    · exact Or.inl ⟨x, hmem, hy.symm, h2⟩
    · refine Or.inr ⟨c, out, ?_, h3⟩
      rw [hy, h2]
  · exact Or.inl ⟨z, h1, rfl, hid⟩

theorem changes_acked (r : Relay) (b : Bus) (y : Receiver) (queue : String) (id : ChangeId)
    (q : String) : (r.acked b y queue id).2.1.changes q = b.changes q := by
  obtain ⟨n, hg, -⟩ := Bus.gains_attempt b queue y.ackHeaders (y.acknowledgment id) r.modes
  have hnone : Change.decode? (y.acknowledgment id) = none := Change.decode?_ack _
  unfold Relay.acked
  rw [changes_gains hg]
  -- an acknowledgment is no change
  have h1 : (List.replicate n (⟨y.ackHeaders, y.acknowledgment id, false⟩ : Message)).filterMap
      (fun m => Change.decode? m.payload) = [] := by
    rw [List.filterMap_eq_nil_iff]
    intro m hm
    rw [List.eq_of_mem_replicate hm]
    exact hnone
  rw [h1]
  split_ifs <;> exact List.append_nil _

theorem passed_of_delivery (hs : o.Sane) (ho : o.Orderly)
    (hd : o.relay.Delivery q m bus r receipt) (hheld : r.bus.held = []) :
    Passed o.relay r bus q m receipt := by
  have same : ∀ x ∈ o.relay.receivers, ∀ id ∈ x.memory.ids,
      (∃ y ∈ o.relay.receivers, y.serverId = x.serverId ∧ id ∈ y.memory.ids) ∨
        ∃ c out, (none : Option Receipt) = some ⟨x.serverId, some c, out⟩ ∧ c.id = id :=
    fun x hx id hid => Or.inl ⟨x, hx, rfl, hid⟩
  cases hd with
  | undecodable => exact ⟨rfl, fun _ => rfl, ho.tidy, rfl, Or.inl rfl, same⟩
  | @acknowledged a now moved l readings tally _ _ hl =>
    rcases Ledger.advance_cases hs.books a.changeId a.serverId now with
      ⟨e, h1, -⟩ | ⟨e, h1, -⟩ | ⟨moved', l', h1, -, hack⟩
    · cases h1.symm.trans hl
    · cases h1.symm.trans hl
    · cases h1.symm.trans hl
      refine ⟨rfl, fun _ => rfl, ho.tidy.shrink hack.toShrinks ?_
        (fun row _ => hack.forgot row.changeId), hack.kept, Or.inl rfl, same⟩
      rw [hack.kept]
  | refused => exact ⟨rfl, fun _ => rfl, ho.tidy, rfl, Or.inl rfl, same⟩
  | postponed => exact absurd hheld (Bus.hold_ne_nil _)
  | dropped hx hown hd => exact passed_digested ho bus o.relay.modes hx hown hd fun _ => rfl
  | retried hx hown hd => exact absurd hheld (Bus.hold_ne_nil _)
  | silent hx hown hd hn => exact passed_digested ho bus o.relay.modes hx hown hd fun _ => rfl
  | answered hx hown hd hn ha =>
    exact passed_digested ho _ _ hx hown hd (changes_acked _ _ _ _ _)
  | unanswered hx hown hd hn => exact absurd hheld (Bus.hold_ne_nil _)

theorem delivered_append (o : Operation) (r : Relay) (receipt : Option Receipt) (s : String) :
    delivered { o with relay := r, receipts := o.receipts ++ receipt.toList } s =
      o.delivered s ++ receipt.toList.filterMap (Receipt.deliveredTo? s) :=
  List.filterMap_append

/-- **Delivering moves a change from the queue to the receiver**, so that the line stays the same,
or drops it. -/
theorem Passed.line_sublist (hp : Passed o.relay r bus q m receipt)
    (ht : o.relay.bus.take q = some (m, bus)) (s : String) :
    (line { o with relay := r, receipts := o.receipts ++ receipt.toList } s).Sublist
      (o.line s) := by
  have hroute : r.routeTo s = o.relay.routeTo s := by
    unfold Relay.routeTo
    rw [hp.routePrefix]
  have hchanges : o.relay.bus.changes (o.relay.routeTo s) =
      (if o.relay.routeTo s = q then (Change.decode? m.payload).toList else []) ++
        r.bus.changes (r.routeTo s) := by
    rw [hp.changes, hroute]
    unfold Bus.changes
    rw [(Bus.queue_take ht).2, List.filterMap_append]
    split_ifs
    · cases hc : Change.decode? m.payload <;> simp [hc]
    · rfl
  have hreceipt : (receipt.toList.filterMap (Receipt.deliveredTo? s)).Sublist
      (if o.relay.routeTo s = q then (Change.decode? m.payload).toList else []) := by
    -- a receipt is that of the receiver whose queue it is
    rcases hp.source with h1 | ⟨t, out, h1, rfl⟩
    · rw [h1]
      exact List.nil_sublist _
    · rw [h1]
      by_cases hst : t = s
      · subst hst
        rw [if_pos rfl]
        cases hc : Change.decode? m.payload <;> simp [Receipt.deliveredTo?]
      · simp [Receipt.deliveredTo?, hst]
  unfold line
  rw [delivered_append, hchanges, List.append_assoc (o.delivered s)]
  exact ((hreceipt.append_right _).append_left _).append_right _

theorem orderly_deliver (hs : o.Sane) (ho : o.Orderly)
    (hf : (o.deliver q).relay.bus.held = []) : (o.deliver q).Orderly := by
  rcases o.deliver_cases q with h | ⟨m, bus, r, ht, hd, h⟩
  · rw [h]
    exact ho
  rw [h] at hf ⊢
  generalize o.relay.receipt? q m = receipt at hd hf ⊢
  have hp := passed_of_delivery hs ho hd hf
  refine ⟨hf, ho.plain, hp.tidy, ho.inLine.shrink (hp.line_sublist ht) (fun s d hd => ?_) rfl,
    fun x hx id hid => ?_⟩
  · obtain ⟨row, h1, h2, h3⟩ := hd
    refine ⟨row, ?_, h2, h3⟩
    rw [← hp.outbox]
    exact h1
  · rw [delivered_append]
    rcases hp.memory x hx id hid with ⟨y, hy, hxy, h1⟩ | ⟨c, out, h1, h2⟩
    · obtain ⟨c, h2, h3⟩ := ho.remembered y hy id h1
      rw [hxy] at h2
      exact ⟨c, List.mem_append_left _ h2, h3⟩
    · refine ⟨c, List.mem_append_right _ ?_, h2⟩
      rw [h1]
      simp [Receipt.deliveredTo?]

/-! ## All steps -/

theorem orderly_mapReceiver (ho : o.Orderly) (s : String) {f : Receiver → Receiver}
    (hi : ∀ x, (f x).serverId = x.serverId)
    (hm : ∀ x, ∀ id ∈ (f x).memory.ids, id ∈ x.memory.ids) :
    Orderly { o with relay := o.relay.mapReceiver s f } := by
  refine ⟨ho.held, ho.plain, ho.tidy, ⟨ho.inLine.known, ho.inLine.ordered, ho.inLine.ahead⟩,
    fun y hy id hid => ?_⟩
  obtain ⟨x, hx, rfl⟩ := List.mem_map.1 hy
  split at hid
  · next h1 =>
    rw [if_pos h1, hi]
    exact ho.remembered x hx id (hm x id hid)
  · next h1 =>
    rw [if_neg h1]
    exact ho.remembered x hx id hid

theorem orderly_purge (hs : o.Sane) (ho : o.Orderly) (cutoff : Stamp) :
    (o.purge cutoff).Orderly := by
  unfold purge
  split
  · next n l hl =>
    obtain ⟨htidy, hsub⟩ := Ledger.tidy_purge hs.books ho.tidy hl
    refine ⟨ho.held, ho.plain, htidy, ho.inLine.shrink (fun s => List.Sublist.refl _)
      (fun s d hd => ?_) rfl, ho.remembered⟩
    obtain ⟨row, h1, h2⟩ := hd
    exact ⟨row, hsub.mem h1, h2⟩
  · exact ho

/-- A bus with the same queues and nothing held may take the place of the old one. -/
theorem Orderly.setBus (ho : o.Orderly) (modes : RouteModes) (now : ℕ) {b : Bus}
    (hheld : b.held = []) (hb : ∀ q, b.changes q = o.relay.bus.changes q) :
    Orderly { o with relay := { o.relay with bus := b, modes, now } } := by
  refine ⟨hheld, ho.plain, ho.tidy, ho.inLine.shrink (fun s => ?_) (fun _ _ hd => hd) rfl,
    ho.remembered⟩
  have h1 : line { o with relay := { o.relay with bus := b, modes, now } } s = o.line s := by
    unfold line
    exact congrArg (fun l => o.delivered s ++ l ++ _) (hb _)
  rw [h1]

/-- **An action that meets no fault keeps the lines.** -/
theorem orderly_act (hs : o.Sane) (ho : o.Orderly) (a : Action) (hf : o.faultless a = true) :
    (o.act a).Orderly := by
  cases a with
  | submit c => exact orderly_submit hs ho c
  | beginPass n => exact orderly_beginPass hs ho n
  | publishNext => exact orderly_publishNext hs ho hf
  | giveUp => cases hf
  | markPublished => exact orderly_markPublished hs ho hf
  | stopPass => exact orderly_stopPass ho hf
  | deliver q => exact orderly_deliver hs ho (List.isEmpty_iff.1 hf)
  | duplicate q i j => cases hf
  | moveTo time =>
    have h1 : o.relay.bus.release (max o.relay.now time) = o.relay.bus :=
      Bus.release_of_held ho.held _
    refine ho.setBus o.relay.modes _ ?_ fun q => ?_
    · rw [h1]
      exact ho.held
    · rw [h1]
  | purge cutoff => exact orderly_purge hs ho cutoff
  | setLedger available fault =>
    exact ⟨ho.held, ho.plain, ⟨ho.tidy.servers, ho.tidy.apart, ho.tidy.present⟩,
      ⟨ho.inLine.known, ho.inLine.ordered, ho.inLine.ahead⟩, ho.remembered⟩
  | setBus available => exact ho.setBus o.relay.modes o.relay.now ho.held fun _ => rfl
  | setMode route mode => exact ho.setBus _ o.relay.now ho.held fun _ => rfl
  | declare name =>
    refine ho.setBus o.relay.modes o.relay.now ?_ fun q => ?_
    · rw [Bus.held_declare]
      exact ho.held
    · unfold Bus.changes
      rw [Bus.queue_declare]
  | failCommits s n => exact orderly_mapReceiver ho s (fun _ => rfl) fun _ _ h => h
  | mount s disk => exact orderly_mapReceiver ho s (fun _ => rfl) fun _ _ h => h
  | forget s id =>
    exact orderly_mapReceiver ho s (fun _ => rfl) fun _ _ h => (List.mem_filter.1 h).1

theorem orderly_start (hr : r.Fresh) (hservers : r.ledger.servers.Nodup) : (start r).Orderly := by
  have hline : ∀ s, (start r).line s = [] := by
    intro s
    rw [line_of_idle rfl]
    show [] ++ r.bus.changes (r.routeTo s) = []
    unfold Bus.changes
    rw [hr.queue]
    rfl
  refine ⟨hr.held, trivial, ⟨hservers, ?_, fun row hrow => ?_⟩, ⟨fun s c hc => ?_, fun s => ?_,
    fun s c hc => ?_⟩, fun x hx id hid => ?_⟩
  · show Ledger.Apart r.ledger.outbox
    rw [hr.outbox]
    exact List.Pairwise.nil
  · have h1 : row ∈ r.ledger.outbox := hrow
    rw [hr.outbox] at h1
    cases h1
  · rw [hline] at hc
    cases hc
  · rw [hline]
    exact List.Pairwise.nil
  · rw [hline] at hc
    cases hc
  · have h1 : id ∈ x.memory.ids := hid
    rw [hr.memories x hx] at h1
    cases h1

end Operation

end ZoneRelay
