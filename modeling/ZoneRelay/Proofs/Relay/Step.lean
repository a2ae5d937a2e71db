import ZoneRelay.Proofs.Ledger.Order
import ZoneRelay.Proofs.Relay.Delivery

/-!
# What a step of a relay can do

* `Polling.rows`: the outbox rows that the poller has at hand.
* `Operation.submit_cases`, `Operation.deliver_cases`: what submitting and delivering come to.
* `Operation.Step`: the effects that a step can have, each with what is known then.
* `Operation.step_act`: every action has one of these effects, or none.
-/

namespace ZoneRelay

/-- The rows that the poller has at hand. -/
def Polling.rows : Polling → List OutboxRow
  | idle => []
  | between p => p.rows
  | hanging p row | confirmed p row => row :: p.rows

namespace Operation

/-- The effects that a step can have. -/
inductive Step (o : Operation) : Operation → Prop
  /-- The ledger is lost or found, or will fail once, or has done so. -/
  | flags (available : Bool) (fault : Option LedgerFault) :
      Step o { o with relay :=
        { o.relay with ledger := { o.relay.ledger with available, fault } } }
  | records (c : Change) (hr : o.relay.ledger.HasRoom) :
      Step o { o with
        relay := { o.relay with ledger := o.relay.ledger.after o.relay.routePrefix c }
        submitted := o.submitted ++ [o.relay.ledger.recorded c] }
  /-- The bus carries the same messages. -/
  | moves {b : Bus} (modes : RouteModes) (now : ℕ) (hb : o.relay.bus.Steady → b.Steady)
      (hc : o.relay.bus.Steady → ∀ q h p, b.Carries q h p ↔ o.relay.bus.Carries q h p) :
      Step o { o with relay := { o.relay with bus := b, modes, now } }
  | polls {polling : Polling} (tally : Tally)
      (hr : ∀ row ∈ polling.rows, row ∈ o.poller.rows ∨ row ∈ o.relay.ledger.outbox)
      (hc : ∀ p row, polling ≠ .confirmed p row) :
      Step o { o with relay := { o.relay with tally }, poller := polling }
  | publishes {row : OutboxRow} (polling : Polling) (tally : Tally) (hrow : row ∈ o.poller.rows)
      (hr : ∀ row ∈ polling.rows, row ∈ o.poller.rows)
      (hc : ∀ p row', polling = .confirmed p row' → row' = row ∧ (o.send row).1 = .confirmed) :
      Step o { o with
        relay := { o.relay with bus := (o.send row).2.bus, modes := (o.send row).2.modes, tally }
        poller := polling }
  | marks {p p' : Pass} {row : OutboxRow} {l : Ledger} (hp : o.poller = .confirmed p row)
      (hr : ∀ row ∈ p'.rows, row ∈ o.poller.rows)
      (hl : o.relay.ledger.markPublished row.id = .ok l) :
      Step o { o with relay := { o.relay with ledger := l }, poller := .between p' }
  | delivers {q : String} {m : Message} {bus : Bus} {r : Relay} {receipt : Option Receipt}
      (ht : o.relay.bus.take q = some (m, bus)) (hd : o.relay.Delivery q m bus r receipt) :
      Step o { o with relay := r, receipts := o.receipts ++ receipt.toList }
  | purges {cutoff : Stamp} {n : ℕ} {l : Ledger}
      (hl : o.relay.ledger.purge cutoff = .ok (n, l)) :
      Step o { o with relay := { o.relay with ledger := l } }
  /-- A store may fail or its file may be changed, or a receiver forgets. -/
  | disturbs (s : String) {f : Receiver → Receiver} (hi : ∀ x, (f x).serverId = x.serverId)
      (ht : ∀ x, (f x).table = x.table)
      (hm : ∀ x, ∀ id ∈ (f x).memory.ids, id ∈ x.memory.ids) :
      Step o { o with relay := o.relay.mapReceiver s f }

variable {o : Operation} {p : Pass} {row : OutboxRow}

theorem skip_subset (blocked : List String) (rows : List OutboxRow) :
    ∀ row ∈ (Pass.skip blocked rows).2, row ∈ rows := by
  induction rows with
  | nil => exact fun _ h => h
  | cons x r ih =>
    intro row hrow
    unfold Pass.skip at hrow
    split at hrow
    · exact List.mem_cons_of_mem _ (ih row hrow)
    · exact hrow

theorem mem_of_ready (h : row ∈ p.ready.rows) : row ∈ p.rows :=
  skip_subset p.blocked p.rows row h

theorem mem_of_next? (h : p.ready.next? = some row) : row ∈ p.rows :=
  mem_of_ready (List.mem_of_mem_head? h)

/-- A change is recorded for all servers, or not at all. -/
theorem submit_cases (o : Operation) (c : Change) :
    o.submit c = o ∨
      (∃ fault, o.submit c =
        { o with relay := { o.relay with ledger := { o.relay.ledger with fault } } }) ∨
      o.relay.ledger.HasRoom ∧ o.submit c =
        { o with
          relay := { o.relay with ledger := o.relay.ledger.after o.relay.routePrefix c }
          submitted := o.submitted ++ [o.relay.ledger.recorded c] } := by
  unfold submit
  split
  · next hr =>
    have hroutes : (o.relay.ledger.servers.map fun s => (⟨s, o.relay.routeTo s⟩ : NewTarget)) =
        Ledger.routes o.relay.routePrefix o.relay.ledger.servers := rfl
    unfold Relay.submit Ledger.roster Ledger.ifAvailable
    by_cases ha : o.relay.ledger.available = true
    · rw [if_pos ha]
      simp only
      rw [hroutes]
      rcases o.relay.ledger.create_cases c
        (Ledger.routes o.relay.routePrefix o.relay.ledger.servers) with ⟨e, fault, h⟩ | h
      · rw [h]
        exact Or.inr (Or.inl ⟨fault, rfl⟩)
      · rw [h]
        exact Or.inr (Or.inr ⟨hr, rfl⟩)
    · rw [if_neg ha]
      exact Or.inl rfl
  · exact Or.inl rfl

theorem step_submit (o : Operation) (c : Change) : o.submit c = o ∨ o.Step (o.submit c) := by
  rcases o.submit_cases c with h | ⟨fault, h⟩ | ⟨hr, h⟩
  · exact Or.inl h
  · rw [h]
    exact Or.inr (.flags o.relay.ledger.available fault)
  · rw [h]
    exact Or.inr (.records c hr)

/-- A pass begins with the rows that the ledger gives out. -/
theorem beginPass_cases (o : Operation) (n : ℕ) :
    o.beginPass n = o ∨ ∃ rows, o.poller = .idle ∧ o.relay.ledger.pendingRows n = .ok rows ∧
      o.beginPass n = { o with poller := .between (Pass.begin rows) } := by
  unfold beginPass
  split
  · next p hp hb =>
    obtain ⟨rows, hrows, rfl⟩ := map_ok hb
    exact Or.inr ⟨rows, hp, hrows, rfl⟩
  · exact Or.inl rfl

theorem step_beginPass (o : Operation) (n : ℕ) :
    o.beginPass n = o ∨ o.Step (o.beginPass n) := by
  rcases o.beginPass_cases n with h | ⟨rows, -, hrows, h⟩
  · exact Or.inl h
  · obtain ⟨later, hperm, -⟩ := Ledger.pendingRows_ok hrows
    rw [h]
    exact Or.inr (.polls o.relay.tally
      (fun row hrow => Or.inr (hperm.mem_iff.1 (List.mem_append_left _ hrow)))
      fun _ _ h => by cases h)

theorem step_publishNext (o : Operation) : o.publishNext = o ∨ o.Step o.publishNext := by
  cases hp : o.poller with
  | between p =>
    have hrows : ∀ row ∈ p.rows, row ∈ o.poller.rows := by
      rw [hp]
      exact fun _ h => h
    cases hn : p.ready.next? with
    | none =>
      have h1 : o.publishNext = { o with poller := .idle } := by
        unfold publishNext
        rw [hp]
        simp only [hn]
      rw [h1]
      exact Or.inr (.polls o.relay.tally (fun _ h => by cases h) fun _ _ h => by cases h)
    | some row =>
      have hrow := hrows row (mem_of_next? hn)
      obtain ⟨a, r, hs⟩ : ∃ a r, o.send row = (a, r) := ⟨_, _, rfl⟩
      -- publishing touches nothing but the bus and the modes
      have hr : { o.relay with bus := (o.send row).2.bus, modes := (o.send row).2.modes } = r := by
        rw [hs]
        unfold send Relay.publish at hs
        rw [← (Prod.mk.inj hs).2]
      cases a with
      | confirmed =>
        rw [publishNext_confirmed hp hn hs]
        refine Or.inr ?_
        have h1 := Step.publishes (.confirmed p.ready row)
          (r.tally.count .outboxPublished) hrow (fun row' h => ?_) fun p' row' h => ?_
        · rw [← hr] at h1 ⊢
          exact h1
        · rcases List.mem_cons.1 h with rfl | h
          · exact hrow
          · exact hrows row' (mem_of_ready h)
        · cases h
          exact ⟨rfl, by rw [hs]⟩
      | failed e =>
        rw [publishNext_failed hp hn hs]
        refine Or.inr ?_
        have h1 := Step.publishes (.between (r.sendFailed p.ready row).1)
          (r.tally.count .outboxPublishFailures) hrow (fun row' h => ?_)
          fun p' row' h => by cases h
        · rw [← hr] at h1 ⊢
          exact h1
        · exact hrows row' (mem_of_ready (List.mem_of_mem_drop h))
      | hanging =>
        rw [publishNext_hanging hp hn hs]
        refine Or.inr ?_
        have h1 := Step.publishes (.hanging p.ready row)
          r.tally hrow (fun row' h => ?_) fun p' row' h => by cases h
        · rw [← hr] at h1 ⊢
          exact h1
        · rcases List.mem_cons.1 h with rfl | h
          · exact hrow
          · exact hrows row' (mem_of_ready h)
  | idle =>
    refine Or.inl ?_
    unfold publishNext
    rw [hp]
  | hanging p row =>
    refine Or.inl ?_
    unfold publishNext
    rw [hp]
  | confirmed p row =>
    refine Or.inl ?_
    unfold publishNext
    rw [hp]

theorem step_giveUp (o : Operation) : o.giveUp = o ∨ o.Step o.giveUp := by
  unfold giveUp
  split
  · next p row hp =>
    refine Or.inr (.polls (o.relay.sendFailed p row).2.tally (fun row' h => Or.inl ?_)
      fun _ _ h => by cases h)
    rw [hp]
    exact List.mem_cons_of_mem _ (List.mem_of_mem_drop h)
  · exact Or.inl rfl

theorem step_markPublished (o : Operation) :
    o.markPublished = o ∨ o.Step o.markPublished := by
  unfold markPublished
  split
  · next p row hp =>
    split
    · next p' l hc =>
      obtain ⟨l', hl, h1⟩ := bind_ok hc
      cases h1
      refine Or.inr (.marks hp (fun row' h => ?_) hl)
      rw [hp]
      exact List.mem_cons_of_mem _ (List.mem_of_mem_drop h)
    · exact Or.inr (.polls o.relay.tally (fun _ h => by cases h) fun _ _ h => by cases h)
  · exact Or.inl rfl

/-- The first message on a queue is handled, if the queue has an owner and handling ends. -/
theorem deliver_cases (o : Operation) (q : String) :
    o.deliver q = o ∨ ∃ m bus r, o.relay.bus.take q = some (m, bus) ∧
      o.relay.Delivery q m bus r (o.relay.receipt? q m) ∧ o.deliver q =
        { o with relay := r, receipts := o.receipts ++ (o.relay.receipt? q m).toList } := by
  unfold deliver
  split
  · exact Or.inl rfl
  · next ho =>
    split
    · next m result r hd =>
      obtain ⟨bus, ht, h1⟩ := Relay.delivery ho hd
      exact Or.inr ⟨m, bus, r, ht, h1, rfl⟩
    · exact Or.inl rfl

theorem step_deliver (o : Operation) (q : String) : o.deliver q = o ∨ o.Step (o.deliver q) := by
  rcases o.deliver_cases q with h | ⟨m, bus, r, ht, hd, h⟩
  · exact Or.inl h
  · rw [h]
    exact Or.inr (.delivers ht hd)

theorem step_purge (o : Operation) (cutoff : Stamp) :
    o.purge cutoff = o ∨ o.Step (o.purge cutoff) := by
  unfold purge
  split
  · next hp => exact Or.inr (.purges hp)
  · exact Or.inl rfl

/-- **What a step of a relay can do.** -/
theorem step_act (o : Operation) (a : Action) : o.act a = o ∨ o.Step (o.act a) := by
  cases a with
  | submit c => exact o.step_submit c
  | beginPass n => exact o.step_beginPass n
  | publishNext => exact o.step_publishNext
  | giveUp => exact o.step_giveUp
  | markPublished => exact o.step_markPublished
  | stopPass =>
    exact Or.inr (.polls o.relay.tally (fun _ h => by cases h) fun _ _ h => by cases h)
  | deliver q => exact o.step_deliver q
  | duplicate q i j =>
    exact Or.inr (.moves o.relay.modes o.relay.now
      (fun h => Bus.steady_duplicate h i j) fun _ _ _ _ => Bus.carries_duplicate i j)
  | moveTo time =>
    exact Or.inr (.moves o.relay.modes _ (fun h => Bus.steady_release h _)
      fun h _ _ _ => Bus.carries_release h _)
  | purge cutoff => exact o.step_purge cutoff
  | setLedger available fault => exact Or.inr (.flags available fault)
  | setBus available =>
    exact Or.inr (.moves o.relay.modes o.relay.now (fun h => h)
      fun _ _ _ _ => Iff.rfl)
  | setMode route mode =>
    exact Or.inr (.moves _ o.relay.now (fun h => h) fun _ _ _ _ => Iff.rfl)
  | declare q =>
    exact Or.inr (.moves o.relay.modes o.relay.now
      (fun h => Bus.steady_declare h) fun _ _ _ _ => Bus.carries_declare)
  | failCommits s n =>
    exact Or.inr (.disturbs s (fun _ => rfl) (fun _ => rfl) fun _ _ h => h)
  | mount s disk =>
    exact Or.inr (.disturbs s (fun _ => rfl) (fun x => Store.table_mount _ disk) fun _ _ h => h)
  | forget s id =>
    exact Or.inr (.disturbs s (fun _ => rfl) (fun _ => rfl) fun _ _ h => (List.mem_filter.1 h).1)

/-- What every step preserves holds after any run. -/
theorem run_induction {P : Operation → Prop} (hs : ∀ o o', P o → Step o o' → P o')
    (actions : List Action) (ho : P o) : P (o.run actions) := by
  induction actions generalizing o with
  | nil => exact ho
  | cons a actions ih =>
    rw [run_cons]
    refine ih ?_
    rcases o.step_act a with h | h
    · rwa [h]
    · exact hs o _ ho h

end Operation

end ZoneRelay
