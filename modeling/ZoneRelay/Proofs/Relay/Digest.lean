import ZoneRelay.Proofs.Resolver.History
import ZoneRelay.Relay.Receiver

/-!
# What a receiver makes of a message

* `Receiver.Digests`: the ways in which a receiver can handle a message.
* `Receiver.Settled`: a change, or a newer one to its zone or rule, has been applied.
* `Receiver.Keeps`: a receiver's store and memory are those of the changes committed to it.
* `Receiver.keeps_digest`, `Receiver.settled_digest`: what handling a message preserves.
-/

namespace ZoneRelay.Receiver

/-- The table of a receiver's resolver. -/
abbrev table (x : Receiver) : Table :=
  x.resolver.store.table

/-- What a receiver can make of a message. -/
inductive Digests (x : Receiver) (m : Message) :
    ReceiptOutcome → Except HandlerError ChangeId → Receiver → Prop
  | poison (hd : Change.decode? m.payload = none) :
      Digests x m .poison (.error (.nonRetryable .undecodable)) x
  | duplicate {c : Change} (hd : Change.decode? m.payload = some c) (hk : c.id ∈ x.memory.ids) :
      Digests x m .duplicate (.ok c.id) x
  | applied {c : Change} {y : Receiver} (hd : Change.decode? m.payload = some c)
      (hs : y.serverId = x.serverId) (ht : x.table.commit? c = some y.table)
      (hm : ∀ id ∈ y.memory.ids, id ∈ x.memory.ids ∨ id = c.id) :
      Digests x m .applied (.ok c.id) y
  | stale {c : Change} {y : Receiver} {last : ChangeId} (hd : Change.decode? m.payload = some c)
      (hs : y.serverId = x.serverId) (hp : x.table.plan c = .ok (.stale last))
      (ht : y.table = x.table) (hm : ∀ id ∈ y.memory.ids, id ∈ x.memory.ids ∨ id = c.id) :
      Digests x m .stale (.ok c.id) y
  | retry {c : Change} {y : Receiver} {e : HandlerCause} (hd : Change.decode? m.payload = some c)
      (hs : y.serverId = x.serverId) (ht : y.table = x.table) (hm : y.memory = x.memory) :
      Digests x m .retry (.error (.retryable e)) y
  | rejected {c : Change} {y : Receiver} {e : HandlerCause}
      (hd : Change.decode? m.payload = some c) (hs : y.serverId = x.serverId)
      (ht : y.table = x.table) (hm : y.memory = x.memory) :
      Digests x m .rejected (.error (.nonRetryable e)) y

variable {x y : Receiver} {m : Message} {c : Change} {cs all : List Change}
  {out : ReceiptOutcome} {res : Except HandlerError ChangeId}

theorem mem_note {r : Recall} {id i : ChangeId} (h : i ∈ (r.note id).ids) :
    i ∈ r.ids ∨ i = id := by
  unfold Recall.note at h
  split at h
  · exact Or.inl h
  · rcases List.mem_append.1 h with h | h
    · unfold Recall.trim at h
      split at h
      · exact Or.inl (List.mem_of_mem_take h)
      · exact Or.inl h
    · exact Or.inr (List.mem_singleton.1 h)

theorem digests (x : Receiver) (m : Message) :
    x.Digests m (x.digest m).1 (x.digest m).2.1 (x.digest m).2.2 := by
  unfold digest
  split
  · next hd => exact .poison hd
  · next c hd =>
    unfold absorb
    by_cases hk : x.memory.contains c.id = true
    · simp only [hk, if_true]
      exact .duplicate hd (by simpa [Recall.contains] using hk)
    · simp only [hk, Bool.false_eq_true, if_false]
      rcases x.resolver.apply_cases c with ⟨ops, edit, hp, h1, h2, -⟩ |
        ⟨⟨e, h1⟩ | ⟨l, hp, h1⟩, h2, -⟩
      · simp only [h1]
        refine .applied hd rfl ?_ fun id => mem_note
        rw [Table.commit?_of_plan hp]
        exact congrArg some h2.symm
      · simp only [h1]
        split
        · exact .retry hd rfl h2 rfl
        · exact .rejected hd rfl h2 rfl
      · simp only [h1]
        exact .stale hd rfl hp h2 fun id => mem_note

theorem serverId_digests (h : x.Digests m out res y) : y.serverId = x.serverId := by
  cases h with
  | poison => rfl
  | duplicate => rfl
  | applied _ hs => exact hs
  | stale _ hs => exact hs
  | retry _ hs => exact hs
  | rejected _ hs => exact hs

/-- Whether a change, or a newer one to its zone or rule, has been applied. -/
def Settled (x : Receiver) (c : Change) : Prop :=
  ∃ s last, c.scope? = some s ∧ x.table.lastApplied s = .ok (some last) ∧ c.id ≤ last

/-- A receiver's store and memory are those of the changes `cs` committed to it. -/
structure Keeps (x : Receiver) (cs all : List Change) : Prop where
  history : Table.History cs x.table
  known : ∀ c ∈ cs, c ∈ all
  memory : ∀ id ∈ x.memory.ids, ∃ c ∈ all, c.id = id ∧ x.Settled c

theorem settled_of_table (ht : y.table = x.table) (h : x.Settled c) : y.Settled c := by
  obtain ⟨s, last, hs, hl, hle⟩ := h
  exact ⟨s, last, hs, by rw [ht, hl], hle⟩

/-- What is settled stays so when a change is committed. -/
theorem settled_commit {d : Change} (hx : x.table.Sound) (ht : x.table.commit? d = some y.table)
    (h : x.Settled c) : y.Settled c := by
  obtain ⟨s, last, hs, hl, hle⟩ := h
  obtain ⟨v, last', hv, hl', hn, hnew, hf⟩ := Table.lastApplied_commit hx ht
  by_cases hsv : s = v
  · subst hsv
    cases Except.ok.inj (hl.symm.trans hl')
    exact ⟨s, d.id, hs, hnew, UInt64.le_trans hle (UInt64.le_of_lt (hn last rfl))⟩
  · exact ⟨s, last, hs, by rw [hf c s hs hsv, hl], hle⟩

theorem settled_of_commit (hx : x.table.Sound) (ht : x.table.commit? c = some y.table) :
    y.Settled c := by
  obtain ⟨s, -, hs, -, -, hnew, -⟩ := Table.lastApplied_commit hx ht
  exact ⟨s, c.id, hs, hnew, UInt64.le_refl _⟩

theorem settled_of_stale {last : ChangeId} (hp : x.table.plan c = .ok (.stale last)) :
    x.Settled c := by
  obtain ⟨s, hs, hl, hle⟩ := Table.plan_stale hp
  exact ⟨s, last, hs, hl, hle⟩

/-- A settled change, or a newer one to its zone or rule, was committed. -/
theorem Keeps.committed_of_settled (hx : x.Keeps cs all) (h : x.Settled c) :
    ∃ s d, c.scope? = some s ∧ x.table.lastApplied s = .ok (some d.id) ∧ c.id ≤ d.id ∧
      d ∈ cs ∧ d.scope? = some s := by
  obtain ⟨s, last, hs, hl, hle⟩ := h
  rcases hx.history.lastApplied hs with ⟨h1, -⟩ | ⟨d, h1, h2, h3, -⟩
  · cases h1.symm.trans hl
  · cases h3.symm.trans hl
    exact ⟨s, d, hs, h3, hle, h1, h2⟩

/-- **Handling a message unsettles nothing.** -/
theorem settled_digest (hx : x.table.Sound) (h : x.Digests m out res y) (hc : x.Settled c) :
    y.Settled c := by
  cases h with
  | poison => exact hc
  | duplicate => exact hc
  | applied _ _ ht => exact settled_commit hx ht hc
  | stale _ _ _ ht => exact settled_of_table ht hc
  | retry _ _ ht => exact settled_of_table ht hc
  | rejected _ _ ht => exact settled_of_table ht hc

/-- **What is to be acknowledged is settled.** -/
theorem settled_of_ok (hx : x.Keeps cs all) (ha : all.Pairwise (·.id < ·.id))
    (hm : ∀ c, Change.decode? m.payload = some c → c ∈ all) {id : ChangeId}
    (h : x.Digests m out (.ok id) y) :
    ∃ c, Change.decode? m.payload = some c ∧ c.id = id ∧ y.Settled c := by
  cases h with
  | @duplicate c hd hk =>
    obtain ⟨d, h1, h2, h3⟩ := hx.memory _ hk
    rw [Table.History.eq_of_id_eq ha h1 (hm c hd) h2] at h3
    exact ⟨c, hd, rfl, h3⟩
  | applied hd _ ht _ => exact ⟨_, hd, rfl, settled_of_commit hx.history.sound ht⟩
  | stale hd _ hp ht _ =>
    exact ⟨_, hd, rfl, settled_of_table ht (settled_of_stale hp)⟩

/-- The change that a message adds to those committed. -/
def commits (m : Message) (out : ReceiptOutcome) : List Change :=
  if out = .applied then (Change.decode? m.payload).toList else []

/-- **Handling a message keeps store and memory** those of the changes committed. -/
theorem keeps_digest (hx : x.Keeps cs all) (hm : ∀ c, Change.decode? m.payload = some c → c ∈ all)
    (h : x.Digests m out res y) : y.Keeps (cs ++ commits m out) all := by
  -- three kinds of cases: nothing new, a change remembered, and a change committed
  have same : y.table = x.table → commits m out = [] → (∀ id ∈ y.memory.ids, ∃ c ∈ all,
      c.id = id ∧ y.Settled c) → y.Keeps (cs ++ commits m out) all := by
    intro ht hc hmem
    rw [hc, List.append_nil]
    exact ⟨by rw [ht]; exact hx.history, hx.known, hmem⟩
  have memory : ∀ {c}, Change.decode? m.payload = some c → y.Settled c →
      (∀ d, x.Settled d → y.Settled d) → (∀ id ∈ y.memory.ids, id ∈ x.memory.ids ∨ id = c.id) →
      ∀ id ∈ y.memory.ids, ∃ c ∈ all, c.id = id ∧ y.Settled c := by
    intro c hd hc hmono hids id hid
    rcases hids id hid with h1 | rfl
    · obtain ⟨d, h2, h3, h4⟩ := hx.memory id h1
      exact ⟨d, h2, h3, hmono d h4⟩
    · exact ⟨c, hm c hd, rfl, hc⟩
  have old : y.table = x.table → y.memory = x.memory →
      ∀ id ∈ y.memory.ids, ∃ c ∈ all, c.id = id ∧ y.Settled c := by
    intro ht he id hid
    rw [he] at hid
    obtain ⟨d, h2, h3, h4⟩ := hx.memory id hid
    exact ⟨d, h2, h3, settled_of_table ht h4⟩
  cases h with
  | poison => exact same rfl rfl (old rfl rfl)
  | duplicate => exact same rfl rfl (old rfl rfl)
  | @applied c _ hd hs ht hids =>
    have h1 : commits m .applied = [c] := by
      unfold commits
      rw [if_pos rfl, hd]
      rfl
    rw [h1]
    refine ⟨.commit hx.history ht, fun d hdm => ?_, ?_⟩
    · rcases List.mem_append.1 hdm with h2 | h2
      · exact hx.known d h2
      · rw [List.mem_singleton.1 h2]
        exact hm c hd
    · exact memory hd (settled_of_commit hx.history.sound ht)
        (fun d => settled_commit hx.history.sound ht) hids
  | @stale c _ last hd hs hp ht hids =>
    exact same ht rfl (memory hd (settled_of_table ht (settled_of_stale hp))
      (fun d => settled_of_table ht) hids)
  | retry _ _ ht he => exact same ht rfl (old ht he)
  | rejected _ _ ht he => exact same ht rfl (old ht he)

end ZoneRelay.Receiver
