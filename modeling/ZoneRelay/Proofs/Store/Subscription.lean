import ZoneRelay.Proofs.Store.Commit
import ZoneRelay.Proofs.Store.Table
import ZoneRelay.Store.Subscription

/-!
# A subscriber's copy

A subscriber that puts together what it gets has the entries it asked for, or is told that it has
not.

* `Table.replay`, `Table.replay_run`: the events of writes do what the writes did.
* `Feed`: a store, one of its subscribers and what the subscriber got so far.
* `Feed.Faithful`, `Feed.faithful_act`: what the subscriber got and what it will get make a copy.
* `Feed.copies`: a subscriber that got everything has a copy, and nothing follows the notice that it
  missed something.
-/

namespace ZoneRelay

/-! ## Events -/

/-- The write that does what an event tells of. -/
def Event.op : Event → Op
  | put k v => .put k v
  | delete k => .delete k

/-- Whether an event is about a key that starts so. -/
def Event.concerns (start : String) (e : Event) : Bool :=
  Text.startsWith start e.key

namespace Table

variable {t : Table} {q start : String}

/-- A table after what an event tells of. -/
def follow (t : Table) : Event → Table
  | .put k v => t.put k v
  | .delete k => t.erase k

/-- A table after what events tell of, in order. -/
def replay (t : Table) (events : List Event) : Table :=
  events.foldl follow t

/-- The table of the entries whose keys start so. -/
def restrict (start : String) (t : Table) : Table :=
  t.filter fun e => Text.startsWith start e.1

theorem replay_append (t : Table) (events more : List Event) :
    t.replay (events ++ more) = (t.replay events).replay more :=
  List.foldl_append

theorem get?_follow (e : Event) : (t.follow e).get? q = e.op.act q (t.get? q) := by
  cases e with
  | put k v => exact get?_step (.put k v)
  | delete k => exact get?_step (.delete k)

theorem get?_replay (events : List Event) :
    (t.replay events).get? q = Op.after q (events.map Event.op) (t.get? q) := by
  induction events generalizing t with
  | nil => rfl
  | cons e events ih =>
    show ((t.follow e).replay events).get? q = _
    rw [ih, get?_follow, List.map_cons, Op.after_cons]

theorem get?_restrict (start : String) (t : Table) (q : String) :
    (t.restrict start).get? q = if Text.startsWith start q then t.get? q else none := by
  unfold restrict
  split
  · next h => exact get?_filter _ fun _ => h
  · next h => exact get?_filter_none _ fun _ => by simpa using h

/-- The events of one write do to a key what the write does. -/
theorem after_step (t : Table) (q : String) (op : Op) :
    Op.after q ((t.step op).2.map Event.op) (t.get? q) = op.act q (t.get? q) := by
  cases op with
  | put k v => rfl
  | delete k =>
    by_cases hk : t.contains k = true
    · rw [step, if_pos hk]
      rfl
    · -- a key that is not there is as good as deleted
      rw [step, if_neg hk]
      rw [contains_iff, not_exists] at hk
      have h1 : t.get? k = none := Option.eq_none_iff_forall_ne_some.2 hk
      by_cases hq : q = k
      · subst hq
        rw [h1]
        simp [Op.act]
      · exact (Op.act_of_untouched (by simpa [Op.touches] using hq)).symm
  | deletePrefix s =>
    have h1 : (t.step (.deletePrefix s)).2.map Event.op = ((t.scan s).map (·.1)).map Op.delete := by
      rw [step, List.map_map, List.map_map]
      rfl
    rw [h1, Op.after_deletes]
    by_cases hs : Text.startsWith s q = true
    · have h2 : (Op.deletePrefix s).act q (t.get? q) = none := by
        rw [Op.act, Op.touches, if_pos hs]
      rw [h2]
      split
      · rfl
      · next hq =>
        refine Option.eq_none_iff_forall_ne_some.2 fun v hv => hq ?_
        exact List.mem_map.2 ⟨(q, v), mem_scan.2 ⟨hv, hs⟩, rfl⟩
    · have hq : q ∉ (t.scan s).map (·.1) := by
        intro h2
        obtain ⟨⟨k, v⟩, h3, rfl⟩ := List.mem_map.1 h2
        exact hs (mem_scan.1 h3).2
      rw [if_neg hq, Op.act_of_untouched (by simpa [Op.touches] using hs)]

/-- **The events of writes do what the writes did.** -/
theorem replay_run (t : Table) (ops : List Op) : t.replay (t.run ops).2 = (t.run ops).1 := by
  refine ext_get? fun q => ?_
  rw [get?_replay, get?_run]
  induction ops generalizing t with
  | nil => rfl
  | cons op ops ih =>
    have h1 : (t.run (op :: ops)).2 = (t.step op).2 ++ ((t.step op).1.run ops).2 := rfl
    rw [h1, List.map_append, Op.after_append, after_step, ← get?_step, ih, get?_step, Op.after_cons]

theorem op_untouched {e : Event} (h : q ≠ e.key) : e.op.touches q = false := by
  cases e with
  | put k v => exact beq_eq_false_iff_ne.2 h
  | delete k => exact beq_eq_false_iff_ne.2 h

/-- An event on another key does nothing to the entries whose keys start so. -/
theorem restrict_follow (start : String) (t : Table) (e : Event) :
    (t.follow e).restrict start =
      if e.concerns start then (t.restrict start).follow e else t.restrict start := by
  refine ext_get? fun q => ?_
  rw [get?_restrict, get?_follow]
  by_cases he : e.concerns start = true
  · rw [if_pos he, get?_follow, get?_restrict]
    split
    · rfl
    · next hs =>
      have hq : q ≠ e.key := fun h => hs (by rw [h]; exact he)
      rw [Op.act_of_untouched (op_untouched hq)]
  · rw [if_neg he, get?_restrict]
    split
    · next hs =>
      have hq : q ≠ e.key := fun h => he (by rw [h] at hs; exact hs)
      rw [Op.act_of_untouched (op_untouched hq)]
    · rfl

theorem restrict_replay (start : String) (t : Table) (events : List Event) :
    (t.replay events).restrict start =
      (t.restrict start).replay (events.filter (Event.concerns start)) := by
  induction events generalizing t with
  | nil => rfl
  | cons e events ih =>
    show ((t.follow e).replay events).restrict start = _
    rw [ih, restrict_follow, List.filter_cons]
    split <;> rfl

/-- The entries of a table, told one by one, make the table. -/
theorem replay_entries (t : Table) :
    empty.replay (t.entries.map fun e => .put e.1 e.2) = t := by
  rw [replay, List.foldl_map]
  exact ofList_entries t

end Table

/-! ## Commits -/

/-- A commit tells of what it did: if it failed, of nothing. -/
theorem Store.commit_events (s : Store) (ops : List Op) : ∃ events : List Event,
    (s.commit ops).2.log = s.log ++ events.toArray ∧
      (s.commit ops).2.table = s.table.replay events := by
  rcases h : s.commit ops with ⟨e | _, s'⟩
  · obtain ⟨htable, hlog, -⟩ := commit_error h
    exact ⟨[], by simp [hlog], htable⟩
  · obtain ⟨htable, hlog⟩ := commit_ok h
    exact ⟨_, hlog, htable.trans (Table.replay_run s.table ops).symm⟩

/-! ## What a subscriber is still to get -/

namespace Subscription

variable {log : Array Event} {s : Subscription}

/-- The events that the subscriber has not looked at and that are about its keys. -/
def unread (log : Array Event) (s : Subscription) : List Event :=
  (log.toList.drop s.next).filter (Event.concerns s.start)

/-- What the subscriber is still to get: first the entries found at the start. -/
def due (log : Array Event) (s : Subscription) : List Event :=
  s.waiting.map (fun e => .put e.1 e.2) ++ s.unread log

/-- Whether the subscriber gets nothing any more. -/
def Closed (s : Subscription) : Prop :=
  s.waiting = [] ∧ s.phase ≠ .live

/-- The first event that a search finds is the first one that the subscriber has not got. -/
theorem seek_spec (start : String) (log : Array Event) (i : ℕ) (hi : i ≤ log.size) :
    match seek start log i with
    | none => (log.toList.drop i).filter (Event.concerns start) = []
    | some (e, n) => n ≤ log.size ∧ (log.toList.drop i).filter (Event.concerns start) =
        e :: (log.toList.drop n).filter (Event.concerns start) := by
  have drop_lt : ∀ (i : ℕ) (hlt : i < log.size),
      log.toList.drop i = log[i] :: log.toList.drop (i + 1) :=
    fun i hlt => List.drop_eq_getElem_cons (by simpa using hlt)
  fun_induction seek start log i with
  | case1 i hlt hs =>
    have hs : log[i].concerns start = true := hs
    refine ⟨hlt, ?_⟩
    rw [drop_lt i hlt, List.filter_cons_of_pos hs]
  | case2 i hlt hs ih =>
    have hs : ¬ log[i].concerns start = true := hs
    rw [drop_lt i hlt, List.filter_cons_of_neg hs]
    exact ih hlt
  | case3 i hge =>
    have hdrop : log.toList.drop i = [] := List.drop_eq_nil_of_le (by simpa using hge)
    rw [hdrop]
    rfl

/-- **A subscriber that has not fallen behind** reads the first thing that it is still to get. -/
theorem read_live (hlive : s.phase = .live) (hnext : s.next ≤ log.size)
    (hkept : s.waiting = [] → log.size ≤ s.next + capacity) :
    (s.read log).2.phase = .live ∧ (s.read log).2.start = s.start ∧
      (s.read log).2.next ≤ log.size ∧ ∃ got : Option Event,
        (s.read log).1 = got.map .event ∧ s.due log = got.toList ++ (s.read log).2.due log := by
  obtain ⟨start, waiting, next, phase⟩ := s
  subst hlive
  cases waiting with
  | cons e rest => exact ⟨rfl, rfl, hnext, some (.put e.1 e.2), rfl, rfl⟩
  | nil =>
    have h1 : ¬ next + capacity < log.size := Nat.not_lt.2 (hkept rfl)
    have h3 := seek_spec start log next hnext
    unfold read readLive
    simp only [if_neg h1]
    cases hseek : seek start log next with
    | none =>
      rw [hseek] at h3
      refine ⟨rfl, rfl, le_rfl, none, rfl, ?_⟩
      have h4 : log.toList.drop log.size = [] := List.drop_eq_nil_of_le (by simp)
      simp only [due, unread, h3, h4]
      rfl
    | some found =>
      obtain ⟨e, n⟩ := found
      rw [hseek] at h3
      refine ⟨rfl, rfl, h3.1, some e, rfl, ?_⟩
      simp only [due, unread, h3.2]
      rfl

/-- **A subscriber that has fallen behind** is told how many events it missed. -/
theorem read_missed (hlive : s.phase = .live) (hwaiting : s.waiting = [])
    (hlost : s.next + capacity < log.size) :
    (s.read log).1 = some (.missed (log.size - s.next - capacity)) ∧ (s.read log).2.Closed := by
  unfold read readLive
  simp only [hwaiting, hlive, if_pos hlost]
  exact ⟨by rw [Nat.sub_right_comm], rfl, by simp⟩

theorem read_closed (log : Array Event) (h : s.Closed) :
    (s.read log).1 = none ∧ (s.read log).2.Closed := by
  obtain ⟨start, waiting, next, phase⟩ := s
  obtain ⟨h1, h2⟩ := h
  subst h1
  unfold read readLive
  cases phase with
  | live => exact absurd rfl h2
  | ended => exact ⟨rfl, rfl, h2⟩
  | lagged =>
    simp only
    split
    · exact ⟨rfl, rfl, by simp⟩
    · split
      · exact ⟨rfl, rfl, by simp⟩
      · exact ⟨rfl, rfl, by simp⟩

end Subscription

/-! ## A subscriber and its store -/

/-- The event that a notice brings. -/
def Notice.event? : Notice → Option Event
  | event e => some e
  | missed _ => none

/-- A store, one of its subscribers, and what the subscriber got so far. -/
structure Feed where
  store : Store
  subscription : Subscription
  delivered : List Notice

namespace Feed

/-- What can happen to a store and a subscriber. -/
inductive Turn
  | commit (ops : List Op)
  /-- The next commits are made to fail. -/
  | failCommits (n : Nat)
  /-- Others change the directory with the store's file. -/
  | mount (disk : Disk)
  | read

/-- A new subscriber. -/
def subscribe (s : Store) (start : String) : Feed :=
  ⟨s, s.subscribe start, []⟩

/-- What a turn does. -/
def act (f : Feed) : Turn → Feed
  | .commit ops => { f with store := (f.store.commit ops).2 }
  | .failCommits n => { f with store := { f.store with failing := n } }
  | .mount disk => { f with store := f.store.mount disk }
  | .read =>
    { f with
      subscription := (f.subscription.read f.store.log).2
      delivered := f.delivered ++ (f.subscription.read f.store.log).1.toList }

/-- What turns do, in order. -/
def run (f : Feed) (turns : List Turn) : Feed :=
  turns.foldl act f

/-- What the subscriber makes of the events it got. -/
def copy (f : Feed) : Table :=
  Table.empty.replay (f.delivered.filterMap Notice.event?)

/-- What the subscriber is still to get. -/
def due (f : Feed) : List Event :=
  f.subscription.due f.store.log

/-- Whether the subscriber was told that it missed events. -/
def Lagged (f : Feed) : Prop :=
  ∃ n, .missed n ∈ f.delivered

/-- What the subscriber got and what it is still to get make up the entries it asked for. -/
structure Faithful (f : Feed) (start : String) : Prop where
  keys : f.subscription.start = start
  live : f.subscription.phase = .live
  next : f.subscription.next ≤ f.store.log.size
  copy : f.copy.replay f.due = f.store.table.restrict start

variable {f : Feed} {start : String}

theorem faithful_subscribe (s : Store) (start : String) : (subscribe s start).Faithful start where
  keys := rfl
  live := rfl
  next := le_rfl
  copy := by
    have h1 : (subscribe s start).due = (s.table.restrict start).entries.map fun e =>
        .put e.1 e.2 := by
      have h2 : s.log.toList.drop s.log.size = [] := List.drop_eq_nil_of_le (by simp)
      have h3 : (s.table.restrict start).entries = s.table.scan start :=
        (Table.scan_eq_filter s.table start).symm
      unfold due subscribe Subscription.due Subscription.unread Store.subscribe
      simp only [h2, h3, List.filter_nil, List.append_nil]
    rw [h1]
    exact Table.replay_entries _

/-- A commit adds what it tells of to what the subscriber is still to get. -/
theorem faithful_commit (h : f.Faithful start) (ops : List Op) :
    (f.act (.commit ops)).Faithful start := by
  obtain ⟨events, hlog, htable⟩ := f.store.commit_events ops
  have hsize : (f.store.commit ops).2.log.size = f.store.log.size + events.length := by
    rw [hlog]
    simp
  refine ⟨h.keys, h.live, ?_, ?_⟩
  · have h1 := h.next
    show f.subscription.next ≤ (f.store.commit ops).2.log.size
    omega
  · have hdue : (f.act (.commit ops)).due = f.due ++ events.filter (Event.concerns start) := by
      show f.subscription.due (f.store.commit ops).2.log = _
      have h1 : f.subscription.next ≤ f.store.log.toList.length := by simpa using h.next
      unfold due Subscription.due Subscription.unread
      rw [hlog, Array.toList_append, List.drop_append_of_le_length h1, List.filter_append, h.keys,
        List.append_assoc]
    show f.copy.replay _ = (f.store.commit ops).2.table.restrict start
    rw [hdue, Table.replay_append, h.copy, htable, Table.restrict_replay]

/-- What the subscriber gets is no longer due. -/
theorem faithful_read (h : f.Faithful start)
    (hkept : f.subscription.waiting = [] →
      f.store.log.size ≤ f.subscription.next + Subscription.capacity) :
    (f.act .read).Faithful start := by
  obtain ⟨h1, h2, h3, got, h4, h5⟩ := Subscription.read_live h.live h.next hkept
  refine ⟨h2.trans h.keys, h1, h3, ?_⟩
  have hgot : got.toList.filterMap (fun e => Notice.event? (.event e)) = got.toList := by
    cases got <;> rfl
  have hcopy : (f.act .read).copy = f.copy.replay got.toList := by
    unfold copy act
    simp only [h4, List.filterMap_append, Table.replay_append, Option.toList_map,
      List.filterMap_map]
    exact congrArg _ hgot
  rw [hcopy, ← Table.replay_append]
  exact (congrArg _ h5.symm).trans h.copy

theorem closed_act (h : f.subscription.Closed) (turn : Turn) :
    (f.act turn).subscription.Closed ∧ (f.act turn).delivered = f.delivered := by
  cases turn with
  | commit ops => exact ⟨h, rfl⟩
  | failCommits n => exact ⟨h, rfl⟩
  | mount disk => exact ⟨h, rfl⟩
  | read =>
    obtain ⟨h1, h2⟩ := Subscription.read_closed f.store.log h
    refine ⟨h2, ?_⟩
    show f.delivered ++ (f.subscription.read f.store.log).1.toList = _
    rw [h1]
    exact List.append_nil _

theorem closed_run (h : f.subscription.Closed) (turns : List Turn) :
    (f.run turns).subscription.Closed ∧ (f.run turns).delivered = f.delivered := by
  induction turns generalizing f with
  | nil => exact ⟨h, rfl⟩
  | cons turn turns ih =>
    obtain ⟨h1, h2⟩ := closed_act h turn
    obtain ⟨h3, h4⟩ := ih h1
    exact ⟨h3, h4.trans h2⟩

/-- A read of a subscriber that has fallen behind. -/
theorem missed_read (h : f.Faithful start) (hwaiting : f.subscription.waiting = [])
    (hlost : f.subscription.next + Subscription.capacity < f.store.log.size) :
    (f.act .read).subscription.Closed ∧ (f.act .read).delivered = f.delivered ++
      [.missed (f.store.log.size - f.subscription.next - Subscription.capacity)] := by
  obtain ⟨h1, h2⟩ := Subscription.read_missed h.live hwaiting hlost
  refine ⟨h2, ?_⟩
  show f.delivered ++ (f.subscription.read f.store.log).1.toList = _
  rw [h1]
  rfl

/-- **Whatever happens**, the subscriber stays faithful to the store or is told that it cannot. -/
theorem faithful_act (h : f.Faithful start) (turn : Turn) :
    (f.act turn).Faithful start ∨ (f.act turn).Lagged ∧ (f.act turn).subscription.Closed := by
  cases turn with
  | commit ops => exact Or.inl (faithful_commit h ops)
  | failCommits n => exact Or.inl ⟨h.keys, h.live, h.next, h.copy⟩
  | mount disk =>
    have h1 : (f.store.mount disk).log = f.store.log ∧
        (f.store.mount disk).table = f.store.table := by
      unfold Store.mount
      split <;> exact ⟨rfl, rfl⟩
    refine Or.inl ⟨h.keys, h.live, ?_, ?_⟩
    · show f.subscription.next ≤ (f.store.mount disk).log.size
      rw [h1.1]
      exact h.next
    · show f.copy.replay (f.subscription.due (f.store.mount disk).log) =
        (f.store.mount disk).table.restrict start
      rw [h1.1, h1.2]
      exact h.copy
  | read =>
    by_cases hlost : f.subscription.waiting = [] ∧
        f.subscription.next + Subscription.capacity < f.store.log.size
    · obtain ⟨h1, h2⟩ := missed_read h hlost.1 hlost.2
      refine Or.inr ⟨⟨f.store.log.size - f.subscription.next - Subscription.capacity, ?_⟩, h1⟩
      rw [h2]
      exact List.mem_append_right _ List.mem_cons_self
    · refine Or.inl (faithful_read h fun hw => ?_)
      by_contra h1
      exact hlost ⟨hw, by omega⟩

theorem faithful_run (h : f.Faithful start) (turns : List Turn) :
    (f.run turns).Faithful start ∨ (f.run turns).Lagged := by
  induction turns generalizing f with
  | nil => exact Or.inl h
  | cons turn turns ih =>
    rcases faithful_act h turn with h1 | ⟨⟨n, h1⟩, h2⟩
    · exact ih h1
    · refine Or.inr ⟨n, ?_⟩
      show _ ∈ ((f.act turn).run turns).delivered
      rw [(closed_run h2 turns).2]
      exact h1

/-- **A subscriber that is not told otherwise has a copy**: once it got everything, it has the
entries that a scan of the store finds. If more events than the store keeps are unread when it has
got the entries found at first, the next thing it gets is how many it missed, and the last. -/
theorem copies (s : Store) (start : String) (turns : List Turn)
    (hkept : ¬ ((subscribe s start).run turns).Lagged) :
    (((subscribe s start).run turns).due = [] → ((subscribe s start).run turns).copy.entries =
      ((subscribe s start).run turns).store.table.scan start) ∧
    (((subscribe s start).run turns).subscription.waiting = [] →
      ((subscribe s start).run turns).subscription.next + Subscription.capacity <
        ((subscribe s start).run turns).store.log.size →
      ∀ more, (((subscribe s start).run turns).run (.read :: more)).delivered =
        ((subscribe s start).run turns).delivered ++
          [.missed (((subscribe s start).run turns).store.log.size -
            ((subscribe s start).run turns).subscription.next - Subscription.capacity)]) := by
  have hf : ((subscribe s start).run turns).Faithful start :=
    (faithful_run (faithful_subscribe s start) turns).resolve_right hkept
  refine ⟨fun hdue => ?_, fun hwaiting hlost more => ?_⟩
  · have h1 := hf.copy
    rw [hdue] at h1
    rw [Table.scan_eq_filter]
    exact congrArg Table.entries h1
  · obtain ⟨h1, h2⟩ := missed_read hf hwaiting hlost
    exact (closed_run h1 more).2.trans h2

/-- Reads between commits that write, that fail, and that delete what is there, what is not, and the
same twice. -/
def gossip : List Turn :=
  [.commit [.put "a/1" [1], .delete "a/0", .delete "a/0"], .read, .failCommits 1,
    .commit [.put "a/3" [3]], .commit [.deletePrefix "a/1", .deletePrefix "a/", .put "a/2" [2],
      .put "b" [4]], .read, .read, .read, .read, .read]

/-- A key of no interest is written so many times. -/
def flood (n : Nat) : List Turn :=
  [.commit (List.replicate n (.put "b" []))]

theorem size_flood (n : ℕ) : ((subscribe .inMemory "a/").run (flood n)).store.log.size = n := by
  have key : ∀ t : Table, (t.run (List.replicate n (.put "b" []))).2.length = n := by
    induction n with
    | zero => exact fun _ => rfl
    | succ n ih => exact fun t => congrArg Nat.succ (ih (t.put "b" []))
  show (#[] ++ (Table.empty.run (List.replicate n (.put "b" []))).2.toArray).size = n
  rw [Array.size_append, List.size_toArray, List.size_toArray, key]
  exact Nat.zero_add n

/-- One subscriber has its copy, the other is told that it missed an event. -/
theorem copies_gossip_not_flood :
    (((subscribe .inMemory "a/").run gossip).due = [] ∧
      ((subscribe .inMemory "a/").run gossip).copy.entries =
        ((subscribe .inMemory "a/").run gossip).store.table.scan "a/" ∧
      ((subscribe .inMemory "a/").run gossip).store.table.scan "a/" = [("a/2", [2])]) ∧
    (((subscribe .inMemory "a/").run (flood 1025)).run
      [.read, .commit [.put "a/1" []], .read]).delivered = [.missed 1] := by
  have h1 : ¬ ((subscribe .inMemory "a/").run gossip).Lagged := by
    rintro ⟨n, hn⟩
    have h2 : ((subscribe .inMemory "a/").run gossip).delivered.all (·.event?.isSome) = true := by
      decide +kernel
    cases List.all_eq_true.1 h2 _ hn
  have h3 : ¬ ((subscribe .inMemory "a/").run (flood 1025)).Lagged := by
    rintro ⟨n, hn⟩
    cases hn
  have h4 : ((subscribe .inMemory "a/").run gossip).due = [] := by decide +kernel
  have h5 := size_flood 1025
  have h6 : ((subscribe .inMemory "a/").run (flood 1025)).subscription.next = 0 := rfl
  have h7 : ((subscribe .inMemory "a/").run (flood 1025)).delivered = [] := rfl
  refine ⟨⟨h4, (copies .inMemory "a/" gossip h1).1 h4, by decide +kernel⟩, ?_⟩
  rw [(copies .inMemory "a/" (flood 1025) h3).2 rfl (by rw [h5, h6]; decide), h5, h6, h7]
  rfl

end Feed

end ZoneRelay
