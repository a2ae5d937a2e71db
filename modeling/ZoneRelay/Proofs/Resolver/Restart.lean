import ZoneRelay.Proofs.Resolver.Answer
import ZoneRelay.Proofs.Resolver.Isolation
import ZoneRelay.Proofs.Store.Snapshot

/-!
# Restarts

A resolver that opens its file again goes on as if nothing had happened.

* `Resolver.Turn`: what can happen to a resolver whose file nobody else writes.
* `Resolver.reopen`: the resolver after a restart.
* `Resolver.Alike`: two resolvers that nobody can tell apart.
* `Resolver.kept_turn`, `Resolver.apply_failed`: the file always holds the table of the store, and a
  change that fails changes neither.
* `Resolver.restarts`: a restart is not noticed.
-/

namespace ZoneRelay

/-! ## The tries of a table -/

namespace Index

theorem policy_foldl_insert (zones : List String) (t : Trie String) :
    (zones.foldl (fun z zone => z.insert zone zone) t).policy = t.policy := by
  induction zones generalizing t with
  | nil => rfl
  | cons zone zones ih => rw [List.foldl_cons, ih, Trie.policy_insert]

theorem policy_foldl_addRule (rules : List StoredRule) (t : Trie RuleId) :
    (rules.foldl (fun r s => addRule r s.rule.id s.rule.normalizedDomains) t).policy =
      t.policy := by
  induction rules generalizing t with
  | nil => rfl
  | cons r rules ih => rw [List.foldl_cons, ih, policy_addRule]

theorem standard_ofTable {t : Table} {i : Index} (h : ofTable t = .ok i) : i.Standard := by
  obtain ⟨rules, -, h1⟩ := bind_ok h
  cases h1
  exact ⟨policy_foldl_insert _ _, policy_foldl_addRule _ _⟩

end Index

namespace Resolver

/-! ## Turns -/

/-- What can happen to a resolver with a file that nobody else writes. -/
inductive Turn
  | apply (c : Change)
  /-- Something else than the resolver writes to its store. -/
  | commit (ops : List Op)
  /-- The next commits are made to fail. -/
  | failCommits (n : Nat)
  /-- Others change the directory with the store's file, but not the file. -/
  | others (disk : Disk)
  | restart

/-- The resolver after a restart: without a file, it has nothing left. -/
def reopen (r : Resolver) : Except StoreError Resolver :=
  match r.store.backing with
  | .memory => load .inMemory
  | .file path disk => do load (← Store.open disk path)

/-- The resolver after a turn. If it cannot be started again, it stays as it is. -/
def turn (r : Resolver) : Turn → Resolver
  | .apply c => (r.apply c).2
  | .commit ops => { r with store := (r.store.commit ops).2 }
  | .failCommits n => { r with store := { r.store with failing := n } }
  | .others disk => { r with store := r.store.besides disk }
  | .restart =>
    match r.reopen with
    | .ok r' => r'
    | .error _ => r

/-- The resolver after turns in order. -/
def turns (r : Resolver) (l : List Turn) : Resolver :=
  l.foldl turn r

/-! ## What can be observed -/

/-- What came of the commit for a change, if there was one. -/
def commitResult? (r : Resolver) (c : Change) : Option (Except StoreError Unit) :=
  match r.store.table.plan c with
  | .ok (.write ops _) => some (r.store.commit ops).1
  | .ok (.stale _) | .error _ => none

/-- A change, and what the store is like when it comes. -/
structure Trial where
  change : Change
  failing : Nat
  backing : Backing

/-- What came of a change and of its commit, if there was one. -/
structure Attempt where
  commit : Option (Except StoreError Unit)
  outcome : Except ApplyError ApplyOutcome

/-- The resolver when a change comes. -/
def under (r : Resolver) (x : Trial) : Resolver :=
  { r with store := { r.store with failing := x.failing, backing := x.backing } }

/-- What comes of changes in order. -/
def attempts (r : Resolver) : List Trial → List Attempt
  | [] => []
  | x :: l =>
    ⟨(r.under x).commitResult? x.change, ((r.under x).apply x.change).1⟩ ::
      ((r.under x).apply x.change).2.attempts l

/-- Two resolvers that nobody can tell apart: they give the same answers, and they do the same with
all further changes as long as their commits have the same results. -/
structure Alike (r r' : Resolver) : Prop where
  query : ∀ order qname qtype, r'.query order qname qtype = r.query order qname qtype
  outcomes : ∀ l l', l.map Trial.change = l'.map Trial.change →
    (r.attempts l).filterMap Attempt.commit = (r'.attempts l').filterMap Attempt.commit →
    (r'.attempts l').map Attempt.outcome = (r.attempts l).map Attempt.outcome

variable {r r' : Resolver} {path : String}

/-! ## The file -/

/-- Applying a change is at most one commit. -/
theorem store_apply (r : Resolver) (c : Change) :
    (r.apply c).2.store = r.store ∨ ∃ ops, (r.apply c).2.store = (r.store.commit ops).2 := by
  rcases r.apply_outcomes c with ⟨e, -, h⟩ | ⟨l, -, h⟩ |
    ⟨ops, edit, -, ⟨store, hc, h⟩ | ⟨e, store, hc, h⟩⟩
  · exact Or.inl (by rw [h])
  · exact Or.inl (by rw [h])
  · exact Or.inr ⟨ops, by rw [h, hc]⟩
  · exact Or.inr ⟨ops, by rw [h, hc]⟩

/-- **A change that fails changes neither the table nor the file**, nor the tries. -/
theorem apply_failed (hp : ¬ ".tmp".toList <:+ path.toList) (hr : r.store.Kept path) {c : Change}
    {e : ApplyError} (h : (r.apply c).1 = .error e) :
    (r.apply c).2.store.table = r.store.table ∧ (r.apply c).2.store.file? = r.store.file? ∧
      (r.apply c).2.index = r.index := by
  rcases r.apply_outcomes c with ⟨e', -, h1⟩ | ⟨l, -, h1⟩ |
    ⟨ops, edit, -, ⟨store, -, h1⟩ | ⟨e', store, hcommit, h1⟩⟩
  · rw [h1]
    exact ⟨rfl, rfl, rfl⟩
  · rw [h1] at h
    cases h
  · rw [h1] at h
    cases h
  · obtain ⟨htable, hfile, -⟩ := Store.commit_failed hp hr (congrArg Prod.fst hcommit)
    rw [hcommit] at htable hfile
    rw [h1]
    exact ⟨htable, hfile, rfl⟩

/-- What opens again is a resolver over the same table, with the same file. -/
theorem reopen_kept (hr : r.store.Kept path) :
    ∃ s : Store, s.Kept path ∧ s.table = r.store.table ∧ r.reopen = load s := by
  obtain ⟨disk, hb, hload⟩ := hr
  have hopen : Store.open disk path = .ok ⟨r.store.table, .file path disk, 0, #[]⟩ := by
    unfold Store.open
    rw [hload]
    rfl
  refine ⟨_, Store.kept_open hopen, rfl, ?_⟩
  unfold reopen
  simp only [hb, hopen]
  rfl

theorem store_load {s : Store} (h : load s = .ok r) : r.store = s := by
  obtain ⟨index, -, h1⟩ := bind_ok h
  cases h1
  rfl

/-- **The file holds the table after every turn.** -/
theorem kept_turn (hp : ¬ ".tmp".toList <:+ path.toList) (hr : r.store.Kept path) (x : Turn) :
    (r.turn x).store.Kept path := by
  cases x with
  | apply c =>
    show (r.apply c).2.store.Kept path
    rcases store_apply r c with h1 | ⟨ops, h1⟩
    · rwa [h1]
    · rw [h1]
      exact Store.kept_commit hp hr ops
  | commit ops => exact Store.kept_commit hp hr ops
  | failCommits n => exact hr
  | others disk => exact Store.kept_besides hr disk
  | restart =>
    obtain ⟨s, h1, -, h2⟩ := reopen_kept hr
    unfold turn
    simp only
    split
    · next r' h3 =>
      rw [h2] at h3
      rwa [store_load h3]
    · exact hr

theorem kept_turns (hp : ¬ ".tmp".toList <:+ path.toList) (hr : r.store.Kept path)
    (l : List Turn) : (r.turns l).store.Kept path := by
  induction l generalizing r with
  | nil => exact hr
  | cons x l ih => exact ih (kept_turn hp hr x)

/-! ## The resolver -/

/-- A table that is sound and proper can be loaded. -/
theorem intact_load {s : Store} (hs : s.table.Sound) (hp : s.table.Proper) :
    ∃ r, load s = .ok r ∧ r.store = s ∧ r.Intact := by
  obtain ⟨i, h1, h2⟩ := Index.mirrors_ofTable hs
  have h3 : load s = .ok ⟨s, i⟩ := by
    unfold load
    rw [h1]
    rfl
  exact ⟨⟨s, i⟩, h3, rfl, ⟨hs, h2⟩, hp, Index.standard_ofTable h1⟩

/-- **A resolver that is intact can be started again**, and is then intact with the same table. -/
theorem reopen_intact (hr : r.store.Kept path) (h : r.Intact) :
    ∃ r', r.reopen = .ok r' ∧ r'.store.table = r.store.table ∧ r'.Intact := by
  obtain ⟨s, -, h1, h2⟩ := reopen_kept hr
  obtain ⟨r', h3, h4, h5⟩ := intact_load (s := s) (h1 ▸ h.consistent.sound) (h1 ▸ h.proper)
  exact ⟨r', h2.trans h3, by rw [h4, h1], h5⟩

/-- A resolver stays intact as long as only it writes to its store. -/
theorem intact_turn (hr : r.store.Kept path) (h : r.Intact) {x : Turn}
    (hx : ∀ ops, x ≠ .commit ops) : (r.turn x).Intact := by
  cases x with
  | apply c => exact intact_act h (.apply c)
  | commit ops => exact absurd rfl (hx ops)
  | failCommits n => exact intact_act h (.failCommits n)
  | others disk =>
    have h1 := Store.table_besides r.store disk
    exact ⟨⟨h1 ▸ h.consistent.sound, h1 ▸ h.consistent.mirrors⟩, h1 ▸ h.proper, h.standard⟩
  | restart =>
    obtain ⟨r', h1, -, h2⟩ := reopen_intact hr h
    unfold turn
    simp only [h1]
    exact h2

theorem intact_turns (hp : ¬ ".tmp".toList <:+ path.toList) (hr : r.store.Kept path)
    (h : r.Intact) {l : List Turn} (hl : ∀ ops, Turn.commit ops ∉ l) : (r.turns l).Intact := by
  induction l generalizing r with
  | nil => exact h
  | cons x l ih =>
    have hx : ∀ ops, x ≠ .commit ops := fun ops hx => hl ops (hx ▸ List.mem_cons_self)
    exact ih (kept_turn hp hr x) (intact_turn hr h hx)
      fun ops hops => hl ops (List.mem_cons_of_mem _ hops)

/-! ## Resolvers with the same table -/

/-- **Intact resolvers with the same table give the same answers**, whatever the order in which
rules came to be under one domain. -/
theorem query_congr (h : r.Intact) (h' : r'.Intact) (ht : r'.store.table = r.store.table)
    (order : FirewallOrder) (qname : String) (qtype : RecordType) :
    r'.query order qname qtype = r.query order qname qtype := by
  obtain ⟨x, h1, h2⟩ :=
    Table.resolve_answers h.proper h.consistent.mirrors h.standard order qname qtype
  obtain ⟨y, h3, h4⟩ :=
    Table.resolve_answers h'.proper h'.consistent.mirrors h'.standard order qname qtype
  rw [ht] at h4
  have hxy : y = x := h4.unique (Name.normalize_normalize qname) h2
  unfold query
  rw [h1, h3, hxy]

/-- Whether there is a commit for a change is a matter of the table. -/
theorem isSome_commitResult? (ht : r'.store.table = r.store.table) (c : Change) :
    (r'.commitResult? c).isSome = (r.commitResult? c).isSome := by
  unfold commitResult?
  rw [ht]
  split <;> rfl

/-- **What comes of a change** is a matter of the table and of what comes of the commit. -/
theorem apply_congr (ht : r'.store.table = r.store.table) {c : Change}
    (hc : r'.commitResult? c = r.commitResult? c) :
    (r'.apply c).1 = (r.apply c).1 ∧ (r'.apply c).2.store.table = (r.apply c).2.store.table := by
  unfold commitResult? at hc
  rw [ht] at hc
  unfold apply
  rw [ht]
  split
  · exact ⟨rfl, ht⟩
  · exact ⟨rfl, ht⟩
  · next ops edit hplan =>
    rw [hplan] at hc
    have h1 : (r'.store.commit ops).1 = (r.store.commit ops).1 := Option.some.inj hc
    -- one commit does what the other does: all of it, or nothing
    have h2 : (r'.store.commit ops).2.table = (r.store.commit ops).2.table := by
      rw [Store.table_commit, Store.table_commit, h1, ht]
    cases hcommit : r.store.commit ops with
    | mk result store =>
      cases hcommit' : r'.store.commit ops with
      | mk result' store' =>
        rw [hcommit, hcommit'] at h1 h2
        obtain rfl : result' = result := h1
        cases result' with
        | ok u => exact ⟨rfl, h2⟩
        | error e => exact ⟨rfl, h2⟩

/-- **What comes of changes** is a matter of the table and of what comes of their commits. -/
theorem attempts_congr (ht : r'.store.table = r.store.table) {l l' : List Trial}
    (hl : l.map Trial.change = l'.map Trial.change)
    (hc : (r.attempts l).filterMap Attempt.commit = (r'.attempts l').filterMap Attempt.commit) :
    (r'.attempts l').map Attempt.outcome = (r.attempts l).map Attempt.outcome := by
  induction l generalizing r r' l' with
  | nil =>
    obtain rfl : l' = [] := List.map_eq_nil_iff.1 hl.symm
    rfl
  | cons x l ih =>
    cases l' with
    | nil => cases hl
    | cons x' l' =>
      obtain ⟨hx, hl⟩ := List.cons.inj hl
      have ht' : (r'.under x').store.table = (r.under x).store.table := ht
      have hsome := isSome_commitResult? ht' x.change
      unfold attempts at hc ⊢
      simp only [List.filterMap_cons, List.map_cons, ← hx] at hc ⊢
      -- there is a commit in both runs or in none, so the results pair up
      obtain ⟨hfirst, hrest⟩ : (r'.under x').commitResult? x.change =
          (r.under x).commitResult? x.change ∧
          (((r.under x).apply x.change).2.attempts l).filterMap Attempt.commit =
            (((r'.under x').apply x.change).2.attempts l').filterMap Attempt.commit := by
        cases h1 : (r.under x).commitResult? x.change with
        | none =>
          have h2 : (r'.under x').commitResult? x.change = none := by simpa [h1] using hsome
          rw [h1, h2] at hc
          exact ⟨h2, hc⟩
        | some v =>
          rw [h1] at hsome hc
          obtain ⟨v', h2⟩ := Option.isSome_iff_exists.1 hsome
          rw [h2] at hc
          obtain ⟨h3, h4⟩ := List.cons.inj hc
          exact ⟨by rw [h2, h3], h4⟩
      obtain ⟨h5, h6⟩ := apply_congr ht' hfirst
      rw [h5, ih h6 hl hrest]

theorem alike_of_table (h : r.Intact) (h' : r'.Intact) (ht : r'.store.table = r.store.table) :
    r.Alike r' :=
  ⟨query_congr h h' ht, fun _ _ hl hc => attempts_congr ht hl hc⟩

/-- **A restart is not noticed.** Open a store over a file that only it writes, and let its resolver
apply changes, others write to it, commits fail, the directory change and the resolver restart. Then
the file always holds the table, and a change or another commit that fails changes neither. If the
store was empty and only the resolver wrote to it, then the resolver can be started again at any
time, and nobody can tell it apart from the one that goes on. -/
theorem restarts {disk : Disk} {path : String} {s : Store} (hp : ¬ ".tmp".toList <:+ path.toList)
    (ho : Store.open disk path = .ok s) (index : Index) (l : List Turn) :
    (turns ⟨s, index⟩ l).store.Kept path ∧
      (∀ c e, ((turns ⟨s, index⟩ l).apply c).1 = .error e →
        ((turns ⟨s, index⟩ l).apply c).2.store.table = (turns ⟨s, index⟩ l).store.table ∧
          ((turns ⟨s, index⟩ l).apply c).2.store.file? = (turns ⟨s, index⟩ l).store.file?) ∧
      (∀ ops e, ((turns ⟨s, index⟩ l).store.commit ops).1 = .error e →
        ((turns ⟨s, index⟩ l).store.commit ops).2.table = (turns ⟨s, index⟩ l).store.table ∧
          ((turns ⟨s, index⟩ l).store.commit ops).2.file? = (turns ⟨s, index⟩ l).store.file?) ∧
      (s.table = .empty → load s = .ok ⟨s, index⟩ → (∀ ops, Turn.commit ops ∉ l) →
        ∃ r, (turns ⟨s, index⟩ l).reopen = .ok r ∧ (turns ⟨s, index⟩ l).Alike r) := by
  have hopen : (⟨s, index⟩ : Resolver).store.Kept path := Store.kept_open ho
  have hkept := kept_turns hp hopen l
  refine ⟨hkept, fun c e he => ?_, fun ops e he => ?_, fun hempty hload hl => ?_⟩
  · obtain ⟨h1, h2, -⟩ := apply_failed hp hkept he
    exact ⟨h1, h2⟩
  · obtain ⟨h1, h2, -⟩ := Store.commit_failed hp hkept he
    exact ⟨h1, h2⟩
  · have hstart : (⟨s, index⟩ : Resolver).Intact := by
      obtain ⟨r, h1, -, h2⟩ := intact_load (s := s) (hempty ▸ Table.sound_empty)
        (hempty ▸ Table.proper_empty)
      rw [hload] at h1
      rwa [Except.ok.inj h1]
    have h := intact_turns hp hopen hstart hl
    obtain ⟨r, h1, h2, h3⟩ := reopen_intact hkept h
    exact ⟨r, h1, alike_of_table h h3 h2⟩

/-- A store over a file that is not there yet. -/
def unwritten : Store :=
  ⟨.empty, .file "snapshot.json" .empty, 0, #[]⟩

/-- Two zones, the second at the second attempt: a commit fails, and so does a write. -/
def interrupted : List Turn :=
  [.apply (founding 1 "example.com."), .failCommits 1, .apply (founding 2 "example.org."),
    .others { Disk.empty with canWrite := false }, .apply (founding 2 "example.org."), .restart,
    .others .empty, .apply (founding 2 "example.org.")]

theorem restarts_interrupted :
    Store.open .empty "snapshot.json" = .ok unwritten ∧
      load unwritten = .ok ⟨unwritten, .empty⟩ ∧
      (turns ⟨unwritten, .empty⟩ interrupted).store.Kept "snapshot.json" ∧
      ∃ r, (turns ⟨unwritten, .empty⟩ interrupted).reopen = .ok r ∧
        (turns ⟨unwritten, .empty⟩ interrupted).Alike r := by
  have hp : ¬ ".tmp".toList <:+ "snapshot.json".toList := by decide
  have ho : Store.open .empty "snapshot.json" = .ok unwritten := rfl
  have hload : load unwritten = .ok ⟨unwritten, .empty⟩ := rfl
  have hl : ∀ ops, Turn.commit ops ∉ interrupted := by
    intro ops h
    simp [interrupted] at h
  obtain ⟨h1, -, -, h2⟩ := restarts hp ho .empty interrupted
  exact ⟨ho, hload, h1, h2 rfl hload hl⟩

end Resolver

end ZoneRelay
