import ZoneRelay.Proofs.Resolver.History

/-!
# Changes to rules in any order

Changes to rules may come in any order, as often as they like and with commits that fail in between.
Once each has been answered, the store and the trie of rules are the same whatever the order was.

* `Change.Acceptable`: a change that a resolver over an empty store applies.
* `Resolver.committed`, `Resolver.history_run`: the changes committed while events happen.
* `Resolver.answered`, `Resolver.HandsOver`: events in which each of some changes is answered.
* `Newest`: the change to a rule that is in force in the end; `Resolver.newest_or_none`.
* `Resolver.rules_converge`: the store and the trie depend on the changes alone.
-/

namespace ZoneRelay

variable {c d : Change} {cs changes : List Change} {id : RuleId} {k : String} {t : Table}

/-! ## Changes that can be applied -/

/-- Whether a resolver over an empty store applies the change. -/
def Change.Acceptable (c : Change) : Prop :=
  (Resolver.inMemory.apply c).1 = .ok .applied

theorem Change.acceptable_iff : c.Acceptable ↔ c.writes ≠ [] := by
  have ht : Resolver.inMemory.store.table = Table.empty := rfl
  rw [Table.writes_ne_nil_iff]
  unfold Acceptable Resolver.apply
  rw [ht]
  constructor
  · intro h
    cases hp : Table.empty.plan c with
    | error e =>
      rw [hp] at h
      cases h
    | ok p =>
      cases p with
      | stale l =>
        rw [hp] at h
        cases h
      | write ops edit => exact ⟨ops, edit, rfl⟩
  · rintro ⟨ops, edit, hp⟩
    rw [hp]
    rfl

/-- What a change leaves under the key of its rule: the rule that it puts in place, if any. -/
theorem Change.leaves_rule (hc : c.Acceptable) (hs : c.scope? = some (.rule id)) :
    c.leaves (Key.rule id) = c.newRule?.map encodeRule ∧ ∀ r ∈ c.newRule?, r.rule.id = id := by
  obtain ⟨ops, edit, hp⟩ := Table.writes_ne_nil_iff.1 (acceptable_iff.1 hc)
  obtain ⟨-, -, -, -, -, hw⟩ := Table.plan_write hp
  rw [leaves, Table.writes_of_plan hp]
  cases hw with
  | edit creates hs' => cases hs.symm.trans hs'
  | deleteZone hs' => cases hs.symm.trans hs'
  | @putRule stored previous hs' hr hp' =>
    cases hs.symm.trans hs'
    have h1 := Table.moves_putRule Table.sound_empty hs hr hp'
    rw [hr]
    exact ⟨by rw [← h1.becomes, Table.get?_run, Table.get?_empty], h1.newId⟩
  | @deleteRule rid f previous hs' hf ha hp' =>
    cases hs.symm.trans hs'
    have h1 := Table.moves_deleteRule Table.sound_empty hs hf ha hp'
    rw [newRule?_of_delete hf ha]
    exact ⟨by rw [← h1.becomes, Table.get?_run, Table.get?_empty], h1.newId⟩

namespace Table.History

/-- A key of a rule has what the newest change to the rule left there. -/
theorem get?_newest (h : History cs t) (hc : c ∈ cs) (hs : c.scope? = some (.rule id))
    (hmax : ∀ d ∈ cs, d.scope? = some (.rule id) → d.id ≤ c.id) (hk : (Scope.rule id).owns k) :
    t.get? k = c.leaves k := by
  have hd : c.Decides k := (decides_rule hs).2 ⟨h.writes_ne_nil c hc, hk⟩
  rcases h.get?_last k with ⟨-, h1⟩ | ⟨l, d, r, rfl, h1, h2, h3⟩
  · exact absurd hd (h1 c hc)
  · obtain ⟨s, h4, h5⟩ := owns_of_decides h1
    have h6 : s = .rule id := rule_owner_unique hk h5
    rcases List.mem_append.1 hc with h7 | h7
    · -- `d` came after `c`, so it would be newer
      obtain ⟨-, -, h8⟩ := List.pairwise_append.1 h.rising
      have h9 : c.id < d.id := h8 c h7 d List.mem_cons_self (by rw [hs, h4, h6])
      have h10 : d.id ≤ c.id := hmax d (by simp) (by rw [h4, h6])
      exact absurd (UInt64.lt_of_lt_of_le h9 h10) (UInt64.lt_irrefl _)
    · rcases List.mem_cons.1 h7 with rfl | h7
      · exact h2
      · exact absurd hd (h3 c h7)

/-- A key that no rule owns has no entry if all changes are to rules. -/
theorem get?_unowned (h : History cs t) (hf : ∀ c ∈ cs, c.type = .firewall)
    (hk : ∀ id, ¬ (Scope.rule id).owns k) : t.get? k = none := by
  rcases h.get?_last k with ⟨h1, -⟩ | ⟨l, c, r, rfl, h1, -, -⟩
  · exact h1
  · obtain ⟨s, h2, h3⟩ := owns_of_decides h1
    have h4 := hf c (by simp)
    cases s with
    | zone z =>
      obtain ⟨-, h5, -⟩ := Change.zone_of_scope? h2
      rw [h4] at h5
      cases h5
    | rule id => exact absurd h3 (hk id)

end Table.History

/-! ## The changes committed -/

namespace Resolver

variable {r : Resolver} {e : Event} {events more : List Event}

/-- The change that an event commits, if any. -/
def commits (r : Resolver) : Event → List Change
  | .apply c =>
    match (r.apply c).1 with
    | .ok .applied => [c]
    | _ => []
  | .failCommits _ | .mount _ => []

/-- The changes committed while events happen. -/
def committed (r : Resolver) : List Event → List Change
  | [] => []
  | e :: events => r.commits e ++ (r.act e).committed events

theorem run_append (r : Resolver) (events more : List Event) :
    r.run (events ++ more) = (r.run events).run more :=
  List.foldl_append ..

theorem committed_append (r : Resolver) (events more : List Event) :
    r.committed (events ++ more) = r.committed events ++ (r.run events).committed more := by
  induction events generalizing r with
  | nil => rfl
  | cons e events ih =>
    have h1 : r.run (e :: events) = (r.act e).run events := rfl
    rw [List.cons_append, committed, committed, ih, h1, List.append_assoc]

theorem mem_commits (h : c ∈ r.commits e) : e = .apply c := by
  unfold commits at h
  split at h
  · split at h
    · rw [List.mem_singleton.1 h]
    · cases h
  · cases h
  · cases h

theorem mem_committed (h : c ∈ r.committed events) : .apply c ∈ events := by
  induction events generalizing r with
  | nil => cases h
  | cons e events ih =>
    rcases List.mem_append.1 h with h | h
    · rw [mem_commits h]
      exact List.mem_cons_self
    · exact List.mem_cons_of_mem _ (ih h)

/-- An event adds to the history what it commits. -/
theorem history_act (h : Table.History cs r.store.table) (e : Event) :
    Table.History (cs ++ r.commits e) (r.act e).store.table := by
  cases e with
  | apply c =>
    have ht : (r.act (.apply c)).store.table = (r.apply c).2.store.table := rfl
    rw [ht]
    simp only [commits]
    rcases r.apply_cases c with ⟨ops, edit, hp, h1, h2, -⟩ | ⟨h1, h2, -⟩
    · rw [h1, h2]
      exact h.commit (Table.commit?_of_plan hp)
    · -- nothing was applied, so nothing is added
      rw [h2]
      rcases h1 with ⟨e, h1⟩ | ⟨l, -, h1⟩
      · simpa [h1] using h
      · simpa [h1] using h
  | failCommits n => simpa [commits, act] using h
  | mount disk => simpa [commits, act, Store.table_mount] using h

theorem history_run (h : Table.History cs r.store.table) (events : List Event) :
    Table.History (cs ++ r.committed events) (r.run events).store.table := by
  induction events generalizing r cs with
  | nil => simpa [committed, run] using h
  | cons e events ih =>
    have h1 := ih (history_act h e)
    rwa [List.append_assoc] at h1

theorem history_blank (s : Store) (events : List Event) :
    Table.History ((blank s).committed events) ((blank s).run events).store.table := by
  have h1 := history_run (r := blank s) Table.History.empty events
  rwa [List.nil_append] at h1

/-! ## Changes that are answered -/

/-- The change that an event hands over and that is answered with something other than a failure of
the store, if any. -/
def answers (r : Resolver) : Event → List Change
  | .apply c =>
    match (r.apply c).1 with
    | .error (.store _) => []
    | _ => [c]
  | .failCommits _ | .mount _ => []

/-- The changes answered while events happen. -/
def answered (r : Resolver) : List Event → List Change
  | [] => []
  | e :: events => r.answers e ++ (r.act e).answered events

/-- Each of the changes is handed to the resolver until it is answered, and no other change is. -/
structure HandsOver (r : Resolver) (events : List Event) (changes : List Change) : Prop where
  only : ∀ c, .apply c ∈ events → c ∈ changes
  each : ∀ c ∈ changes, c ∈ r.answered events

theorem mem_answers (h : c ∈ r.answers e) :
    e = .apply c ∧ ∀ cause, (r.apply c).1 ≠ .error (.store cause) := by
  unfold answers at h
  split at h
  · split at h
    · cases h
    · next h1 =>
      rw [List.mem_singleton.1 h]
      exact ⟨rfl, h1⟩
  · cases h
  · cases h

/-- A change is answered at some event. -/
theorem mem_answered (h : c ∈ r.answered events) :
    ∃ before after, events = before ++ .apply c :: after ∧
      ∀ cause, ((r.run before).apply c).1 ≠ .error (.store cause) := by
  induction events generalizing r with
  | nil => cases h
  | cons e events ih =>
    rcases List.mem_append.1 h with h | h
    · obtain ⟨rfl, h1⟩ := mem_answers h
      exact ⟨[], events, rfl, h1⟩
    · obtain ⟨before, after, rfl, h1⟩ := ih h
      exact ⟨e :: before, after, rfl, h1⟩

/-- An acceptable change that is answered is committed, unless a newer one was. -/
theorem committed_of_answered (h : Table.History cs r.store.table) (hc : c.Acceptable)
    (ha : ∀ e, (r.apply c).1 ≠ .error (.store e)) :
    ∃ d ∈ cs ++ r.commits (.apply c), d.scope? = c.scope? ∧ c.id ≤ d.id := by
  rcases h.plan_or_stale (Change.acceptable_iff.1 hc) with ⟨d, hd, hds, hle, -⟩ |
    ⟨-, ops, edit, hp⟩
  · exact ⟨d, List.mem_append_left _ hd, hds, hle⟩
  · rcases apply_of_plan hp with happ | ⟨e, he, -⟩
    · refine ⟨c, List.mem_append_right _ ?_, rfl, UInt64.le_refl _⟩
      simp [commits, happ]
    · exact absurd he (ha e)

/-- Of each acceptable change that is answered, it or a newer one was committed. -/
theorem HandsOver.covers {s : Store} (h : (blank s).HandsOver events changes) (hc : c ∈ changes)
    (ha : c.Acceptable) :
    ∃ d ∈ (blank s).committed events, d.scope? = c.scope? ∧ c.id ≤ d.id := by
  obtain ⟨before, after, rfl, h1⟩ := mem_answered (h.each c hc)
  obtain ⟨d, h2, h3, h4⟩ := committed_of_answered (history_blank s before) ha h1
  refine ⟨d, ?_, h3, h4⟩
  rw [committed_append, committed, ← List.append_assoc]
  exact List.mem_append_left _ h2

end Resolver

/-! ## The changes in force -/

/-- The newest change to a rule among those that can be applied at all. -/
structure Newest (changes : List Change) (id : RuleId) (c : Change) : Prop where
  mem : c ∈ changes
  subject : c.scope? = some (.rule id)
  acceptable : c.Acceptable
  newest : ∀ d ∈ changes, d.scope? = some (.rule id) → d.Acceptable → d.id ≤ c.id

theorem Newest.unique (hid : (changes.map (·.id)).Nodup) (h : Newest changes id c)
    (h' : Newest changes id d) : c = d := by
  have h1 : d.id ≤ c.id := h.newest d h'.mem h'.subject h'.acceptable
  have h2 : c.id ≤ d.id := h'.newest c h.mem h.subject h.acceptable
  exact List.inj_on_of_nodup_map hid h.mem h'.mem (UInt64.le_antisymm h2 h1)

/-- The rules of a table are those that the newest acceptable changes put in place. -/
structure Table.InForce (t : Table) (changes : List Change) : Prop where
  /-- A rule that the newest change puts in place is stored. -/
  upsert : ∀ id c f, Newest changes id c → c.firewall = some f → f.action = .upsert →
    ∃ stored, f.rule.compile = .ok stored ∧ t.rule id = .ok (some stored)
  /-- A rule that the newest change deletes is not there. -/
  delete : ∀ id c f, Newest changes id c → c.firewall = some f → f.action = .delete →
    t.rule id = .ok none
  /-- A rule that no acceptable change is about is not there. -/
  absent : ∀ id, (∀ c ∈ changes, c.scope? = some (.rule id) → ¬ c.Acceptable) →
    t.rule id = .ok none

namespace Resolver

variable {events more : List Event} {s u : Store}

/-- **The newest acceptable change to a rule decides about all keys of the rule.** -/
theorem newest_or_none (h : (blank s).HandsOver events changes) (id : RuleId) :
    ((∀ c ∈ changes, c.scope? = some (.rule id) → ¬ c.Acceptable) ∧
        ∀ k, (Scope.rule id).owns k → ((blank s).run events).store.table.get? k = none) ∨
      ∃ c, Newest changes id c ∧
        ∀ k, (Scope.rule id).owns k → ((blank s).run events).store.table.get? k = c.leaves k := by
  have hh := history_blank s events
  have hmem : ∀ c ∈ (blank s).committed events, c ∈ changes := fun c hc =>
    h.only c (mem_committed hc)
  by_cases hex : ∃ c ∈ (blank s).committed events, c.scope? = some (.rule id)
  · obtain ⟨b, hb, hbs⟩ := hex
    rcases hh.lastApplied hbs with ⟨-, h1⟩ | ⟨c, hc, hcs, -, hmax⟩
    · exact absurd hbs (h1 b hb)
    · refine Or.inr ⟨c, ⟨hmem c hc, hcs, ?_, fun d hd hds hda => ?_⟩, fun k hk => ?_⟩
      · exact Change.acceptable_iff.2 (hh.writes_ne_nil c hc)
      · -- in place of `d` a newer change was committed, which is no newer than `c`
        obtain ⟨a, ha, has, hle⟩ := h.covers hd hda
        exact UInt64.le_trans hle (hmax a ha (has.trans hds))
      · exact hh.get?_newest hc hcs hmax hk
  · refine Or.inl ⟨fun c hc hcs hca => ?_, fun k hk => ?_⟩
    · obtain ⟨a, ha, has, -⟩ := h.covers hc hca
      exact hex ⟨a, ha, has.trans hcs⟩
    · rcases hh.get?_last k with ⟨h1, -⟩ | ⟨l, c, r, hl, h1, -, -⟩
      · exact h1
      · obtain ⟨v, h2, h3⟩ := Table.History.owns_of_decides h1
        rw [Table.History.rule_owner_unique hk h3] at h2
        exact absurd ⟨c, by rw [hl]; simp, h2⟩ hex

/-- The stores have the same entries. -/
theorem table_eq (hf : ∀ c ∈ changes, c.type = .firewall) (hid : (changes.map (·.id)).Nodup)
    (h : (blank s).HandsOver events changes) (h' : (blank u).HandsOver more changes) :
    ((blank s).run events).store.table = ((blank u).run more).store.table := by
  refine Table.ext_get? fun k => ?_
  by_cases hk : ∃ id, (Scope.rule id).owns k
  · obtain ⟨id, hk⟩ := hk
    rcases newest_or_none h id with ⟨h1, h2⟩ | ⟨c, h1, h2⟩
    · rcases newest_or_none h' id with ⟨-, h4⟩ | ⟨d, h3, -⟩
      · rw [h2 k hk, h4 k hk]
      · exact absurd h3.acceptable (h1 d h3.mem h3.subject)
    · rcases newest_or_none h' id with ⟨h3, -⟩ | ⟨d, h3, h4⟩
      · exact absurd h1.acceptable (h3 c h1.mem h1.subject)
      · rw [h2 k hk, h4 k hk, h1.unique hid h3]
  · have hnone : ∀ id, ¬ (Scope.rule id).owns k := fun id h1 => hk ⟨id, h1⟩
    have h1 := (history_blank s events).get?_unowned
      (fun c hc => hf c (h.only c (mem_committed hc))) hnone
    have h2 := (history_blank u more).get?_unowned
      (fun c hc => hf c (h'.only c (mem_committed hc))) hnone
    rw [h1, h2]

/-- The rules are those that the newest acceptable changes put in place. -/
theorem inForce (hid : (changes.map (·.id)).Nodup) (h : (blank s).HandsOver events changes) :
    ((blank s).run events).store.table.InForce changes := by
  have hsound := (history_blank s events).sound
  have hown : ∀ id, (Scope.rule id).owns (Key.rule id) := fun id => Or.inl rfl
  -- what the newest change leaves under the key of the rule is what is read
  have read : ∀ {id c}, Newest changes id c →
      ((blank s).run events).store.table.rule id = .ok c.newRule? := by
    intro id c hc
    have hget : ((blank s).run events).store.table.get? (Key.rule id) =
        c.newRule?.map encodeRule := by
      rw [← (Change.leaves_rule hc.acceptable hc.subject).1]
      rcases newest_or_none h id with ⟨h1, -⟩ | ⟨d, h1, h2⟩
      · exact absurd hc.acceptable (h1 c hc.mem hc.subject)
      · rw [h2 _ (hown id), h1.unique hid hc]
    cases hr : c.newRule? with
    | none =>
      rw [hr] at hget
      rcases hsound.rule_ok id with ⟨h1, -⟩ | ⟨p, -, h1, rfl⟩
      · exact h1
      · rw [h1] at hget
        cases hget
    | some stored =>
      rw [hr] at hget
      obtain rfl := (Change.leaves_rule hc.acceptable hc.subject).2 stored hr
      exact Table.rule_of_stores hget
  refine ⟨fun id c f hc hcf hact => ?_, fun id c f hc hcf hact => ?_, fun id hnone => ?_⟩
  · obtain ⟨ops, edit, hp⟩ := Table.writes_ne_nil_iff.1 (Change.acceptable_iff.1 hc.acceptable)
    obtain ⟨-, htype, -, -⟩ := Change.rule_of_scope? hc.subject
    obtain ⟨-, stored, hst⟩ := Table.plan_upsert hp htype hcf hact
    refine ⟨stored, hst, ?_⟩
    rw [read hc, Change.newRule?, hcf]
    simp only [hact, if_true, hst]
    rfl
  · rw [read hc, Change.newRule?, hcf]
    simp [hact]
  · rcases newest_or_none h id with ⟨-, h1⟩ | ⟨c, h1, -⟩
    · rcases hsound.rule_ok id with ⟨h2, -⟩ | ⟨p, -, h2, rfl⟩
      · exact h2
      · unfold Table.Stores at h2
        rw [h1 _ (hown _)] at h2
        cases h2
    · exact absurd h1.acceptable (hnone c h1.mem h1.subject)

/-- **Changes to rules converge.** Hand the same changes to two resolvers over empty stores, in any
orders, any number of times and with commits failing, until each has been answered. Then the stores
have the same entries and the tries the same rules under each name, and these are the rules that the
newest acceptable changes put in place. -/
theorem rules_converge (hf : ∀ c ∈ changes, c.type = .firewall)
    (hid : (changes.map (·.id)).Nodup) (h : (blank s).HandsOver events changes)
    (h' : (blank u).HandsOver more changes) :
    ((blank s).run events).store.table = ((blank u).run more).store.table ∧
      (∀ name, (((blank s).run events).index.rules.get name).Perm
        (((blank u).run more).index.rules.get name)) ∧
      ((blank s).run events).store.table.InForce changes := by
  have ht := table_eq hf hid h h'
  have hm := (consistent_run (consistent_blank s) events).mirrors.rules
  have hm' := (consistent_run (consistent_blank u) more).mirrors.rules
  refine ⟨ht, fun name => ?_, inForce hid h⟩
  rw [← ht] at hm'
  exact hm.get_perm hm' name

/-- A change to the rule with this identity, which names these domains. -/
def ruleChange (id : ChangeId) (action : FirewallAction) (rule : RuleId) (domains : List String) :
    Change :=
  { id, type := .firewall, zone := none
    firewall := some ⟨action, ⟨rule, 10, domains, .nxDomain⟩⟩
    submittedAt := ⟨⟨2024, 1, 2, 0, 0, 0, 0⟩, by decide⟩, status := .pending }

/-- Two rules share a domain, and one of them is deleted. -/
def sharing : List Change :=
  [ruleChange 1 .upsert 7 ["ads.example.", "Example"], ruleChange 2 .upsert 8 ["ads.example."],
    ruleChange 3 .delete 7 []]

/-- The newest change comes first, after a commit that fails, and another one comes twice. -/
def reversed : List Event :=
  [.failCommits 1, .apply (ruleChange 3 .delete 7 []), .apply (ruleChange 3 .delete 7 []),
    .apply (ruleChange 1 .upsert 7 ["ads.example.", "Example"]),
    .apply (ruleChange 2 .upsert 8 ["ads.example."]),
    .apply (ruleChange 2 .upsert 8 ["ads.example."])]

theorem handsOver_inOrder : inMemory.HandsOver (sharing.map .apply) sharing :=
  ⟨fun c hc => by simpa using hc, by decide +kernel⟩

theorem handsOver_reversed : inMemory.HandsOver reversed sharing := by
  refine ⟨fun c hc => ?_, by decide +kernel⟩
  simp only [reversed, List.mem_cons, Event.apply.injEq, reduceCtorEq, List.not_mem_nil,
    or_false, false_or] at hc
  rcases hc with rfl | rfl | rfl | rfl | rfl <;> decide +kernel

/-- In both orders the rule that is left is the one that was not deleted. -/
theorem converged_reversed :
    inMemory.HandsOver (sharing.map .apply) sharing ∧ inMemory.HandsOver reversed sharing ∧
      (inMemory.run (sharing.map .apply)).store.table = (inMemory.run reversed).store.table ∧
      (inMemory.run (sharing.map .apply)).store.table.InForce sharing := by
  have hf : ∀ c ∈ sharing, c.type = .firewall := by decide +kernel
  have hid : (sharing.map (·.id)).Nodup := by decide +kernel
  obtain ⟨h1, -, h2⟩ := rules_converge (s := .inMemory) (u := .inMemory) hf hid
    handsOver_inOrder handsOver_reversed
  exact ⟨handsOver_inOrder, handsOver_reversed, h1, h2⟩

end Resolver

end ZoneRelay
