import ZoneRelay.Proofs.Resolver.ReadBack
import ZoneRelay.Proofs.Resolver.RecordSets

/-!
# All or nothing

A change is decided on before anything is written, and what it writes goes into one commit. So a
change that fails, wherever in it the fault is, leaves no trace.

* `Table.ZoneDeleted`, `Table.RulePut`, `Table.RuleDeleted`: a table next to the one from before, as
  is `Table.Edited` where a zone was created or updated.
* `Change.Effect`: what a change makes of a table, one case for each action.
* `Table.effect_writes`: this is what the writes of a change do.
* `Resolver.Untouched`: nothing that can be read from a resolver has changed.
* `Resolver.InOneCommit`: a change is in a resolver through one commit.
* `Resolver.apply_atomic`: a change that fails or is stale is the former, one that is applied the
  latter.
-/

namespace ZoneRelay

variable {t : Table} {zone : String} {previous : Option StoredRule}

namespace Table

/-- What a table `u` is like after change `id` has deleted zone `zone`, next to the table `t` from
before. -/
structure ZoneDeleted (t u : Table) (id : ChangeId) (zone : String) : Prop where
  gone : u.zoneExists zone = false
  /-- Nothing is left below the zone. -/
  emptied : ∀ k, Text.startsWith (Key.zoneRecordSets zone) k → u.get? k = none
  applied : u.lastAppliedToZone zone = .ok (some id)
  others : ∀ k, k ≠ Key.appliedZone zone → k ≠ Key.zoneMarker zone →
    ¬ Text.startsWith (Key.zoneRecordSets zone) k → u.get? k = t.get? k

/-- What a table `u` is like after change `id` has put rule `new` in the place of `previous`, next
to the table `t` from before. -/
structure RulePut (t u : Table) (id : ChangeId) (previous : Option StoredRule) (new : StoredRule) :
    Prop where
  previously : t.rule new.rule.id = .ok previous
  kept : u.rule new.rule.id = .ok (some new)
  named : ∀ d ∈ new.rule.domains, u.get? (Key.domain d new.rule.id) = some []
  /-- A domain that is no longer named is forgotten. -/
  dropped : ∀ p ∈ previous, ∀ d ∈ p.rule.domains,
    (∀ e ∈ new.rule.domains, Name.normalize e ≠ Name.normalize d) →
      u.get? (Key.domain d p.rule.id) = none
  applied : u.lastAppliedToRule new.rule.id = .ok (some id)
  others : ∀ k, k ≠ Key.appliedRule new.rule.id → k ≠ Key.rule new.rule.id →
    (∀ d ∈ new.rule.domains, k ≠ Key.domain d new.rule.id) →
    (∀ p ∈ previous, ∀ d ∈ p.rule.domains, k ≠ Key.domain d p.rule.id) → u.get? k = t.get? k

/-- What a table `u` is like after change `id` has deleted rule `rule`, which was `previous`, next
to the table `t` from before. -/
structure RuleDeleted (t u : Table) (id : ChangeId) (rule : RuleId)
    (previous : Option StoredRule) : Prop where
  previously : t.rule rule = .ok previous
  gone : u.rule rule = .ok none
  dropped : ∀ p ∈ previous, ∀ d ∈ p.rule.domains, u.get? (Key.domain d rule) = none
  applied : u.lastAppliedToRule rule = .ok (some id)
  others : ∀ k, k ≠ Key.appliedRule rule → k ≠ Key.rule rule →
    (∀ p ∈ previous, ∀ d ∈ p.rule.domains, k ≠ Key.domain d rule) → u.get? k = t.get? k

end Table

/-- **The effect of a change** on a table, `t` before it and `u` afterwards. -/
inductive Change.Effect (c : Change) (t u : Table) : Prop
  | edited {z : ZoneChange} (hc : c.type = .zone) (hz : c.zone = some z)
      (ha : z.action = .create ∨ z.action = .update)
      (h : t.Edited u c.id (Name.normalize z.zoneName) z)
  | zoneDeleted {z : ZoneChange} (hc : c.type = .zone) (hz : c.zone = some z)
      (ha : z.action = .delete) (h : t.ZoneDeleted u c.id (Name.normalize z.zoneName))
  | rulePut {f : FirewallChange} {previous : Option StoredRule} {new : StoredRule}
      (hc : c.type = .firewall) (hf : c.firewall = some f) (ha : f.action = .upsert)
      (hr : f.rule.compile = .ok new) (h : t.RulePut u c.id previous new)
  | ruleDeleted {f : FirewallChange} {previous : Option StoredRule} (hc : c.type = .firewall)
      (hf : c.firewall = some f) (ha : f.action = .delete)
      (h : t.RuleDeleted u c.id f.rule.id previous)

namespace Table

theorem zoneDeleted_run (hn : Name.normalize zone = zone) (id : ChangeId) :
    t.ZoneDeleted (t.run (Op.deleteZone zone id)).1 id zone := by
  constructor
  case gone =>
    rw [Bool.eq_false_iff]
    intro h
    exact ((Index.zoneExists_of_delete hn id zone).1 h).1 hn
  case emptied =>
    intro k hk
    have hne : k ≠ Key.appliedZone zone :=
      Key.ne_of_family (Key.has_of_zoneRecordSets hk) (Key.has_appliedZone zone) (by decide)
    rw [get?_run, after_deleteZone, if_neg hne, if_pos hk]
  case applied =>
    exact lastApplied_run (s := .zone zone) ((after_deleteZone zone id).trans (if_pos rfl))
  case others =>
    intro k ha hm hk
    rw [get?_run, after_deleteZone, if_neg ha, if_neg hk, if_neg hm]

theorem mem_domainKeys {s : StoredRule} {k : String} :
    k ∈ domainKeys s ↔ ∃ d ∈ s.rule.domains, k = Key.domain d s.rule.id := by
  simp [domainKeys, Rule.normalizedDomains, eq_comm]

theorem rulePut_run {new : StoredRule} (hp : t.rule new.rule.id = .ok previous) (id : ChangeId) :
    t.RulePut (t.run (Op.putRule previous new id)).1 id previous new := by
  have apart : ∀ d i, Key.domain d i ≠ Key.appliedRule new.rule.id ∧
      Key.domain d i ≠ Key.rule new.rule.id := fun d i =>
    ⟨Key.ne_of_family (Key.has_domain d i) (Key.has_appliedRule _) (by decide),
      Key.ne_of_family (Key.has_domain d i) (Key.has_rule _) (by decide)⟩
  constructor
  case previously => exact hp
  case kept => exact t.rule_putRule previous new id
  case named =>
    intro d hd
    rw [get?_run, after_putRule, if_neg (apart d _).1, if_pos (mem_domainKeys.2 ⟨d, hd, rfl⟩)]
  case dropped =>
    intro p hpp d hd hnew
    -- the domains of the new rule are put after those of the old one have been deleted
    have hkeep : Key.domain d p.rule.id ∉ domainKeys new := by
      intro h
      obtain ⟨e, he, h1⟩ := mem_domainKeys.1 h
      exact hnew e he (Key.domain_inj.1 h1).1.symm
    have hold : Key.domain d p.rule.id ∈ previous.toList.flatMap domainKeys :=
      List.mem_flatMap.2 ⟨p, Option.mem_toList.2 hpp, mem_domainKeys.2 ⟨d, hd, rfl⟩⟩
    rw [get?_run, after_putRule, if_neg (apart d _).1, if_neg hkeep, if_neg (apart d _).2,
      if_pos hold]
  case applied =>
    exact lastApplied_run (s := .rule new.rule.id)
      ((after_putRule previous new id).trans (if_pos rfl))
  case others =>
    intro k ha hr hnew hold
    -- the keys of both versions are those of their domains, however these are spelled
    have h1 : k ∉ domainKeys new := by
      intro h
      obtain ⟨d, hd, rfl⟩ := mem_domainKeys.1 h
      exact hnew d hd rfl
    have h2 : k ∉ previous.toList.flatMap domainKeys := by
      intro h
      obtain ⟨p, hpp, h3⟩ := List.mem_flatMap.1 h
      obtain ⟨d, hd, rfl⟩ := mem_domainKeys.1 h3
      exact hold p (Option.mem_toList.1 hpp) d hd rfl
    rw [get?_run, after_putRule, if_neg ha, if_neg h1, if_neg hr, if_neg h2]

theorem mem_domainsOf {rule : RuleId} {k : String} :
    (k ∈ (domainsOf previous).map fun d => Key.domain d rule) ↔
      ∃ p ∈ previous, ∃ d ∈ p.rule.domains, k = Key.domain d rule := by
  cases previous with
  | none => simp [domainsOf]
  | some p => simp [domainsOf, Rule.normalizedDomains, eq_comm]

theorem ruleDeleted_run {rule : RuleId} (hp : t.rule rule = .ok previous) (id : ChangeId) :
    t.RuleDeleted (t.run (Op.deleteRule previous rule id)).1 id rule previous := by
  have apart : Key.rule rule ≠ Key.appliedRule rule :=
    Key.ne_of_family (Key.has_rule _) (Key.has_appliedRule _) (by decide)
  constructor
  case previously => exact hp
  case gone =>
    -- without a rule from before nothing is deleted, and there is nothing to delete
    have hno : Key.rule rule ∉ (domainsOf previous).map fun d => Key.domain d rule := by
      intro h
      obtain ⟨p, -, d, -, h1⟩ := mem_domainsOf.1 h
      exact Key.ne_of_family (Key.has_rule _) (Key.has_domain d _) (by decide) h1
    refine rule_eq_none_iff.2 ?_
    rw [get?_run, after_deleteRule, if_neg apart, if_neg hno]
    cases previous with
    | none =>
      rw [if_neg (by simp)]
      exact rule_eq_none_iff.1 hp
    | some p => exact if_pos ⟨rfl, rfl⟩
  case dropped =>
    intro p hpp d hd
    have hne := Key.ne_of_family (Key.has_domain d rule) (Key.has_appliedRule rule) (by decide)
    rw [get?_run, after_deleteRule, if_neg hne, if_pos (mem_domainsOf.2 ⟨p, hpp, d, hd, rfl⟩)]
  case applied =>
    exact lastApplied_run (s := .rule rule)
      ((after_deleteRule previous rule id).trans (if_pos rfl))
  case others =>
    intro k ha hr hold
    have h1 : k ∉ (domainsOf previous).map fun d => Key.domain d rule := by
      intro h
      obtain ⟨p, hpp, d, hd, h1⟩ := mem_domainsOf.1 h
      exact hold p hpp d hd h1
    rw [get?_run, after_deleteRule, if_neg ha, if_neg h1, if_neg fun h => hr h.1]

/-- **The writes of a change have its effect.** -/
theorem effect_writes {c : Change} {ops : List Op} {edit : IndexEdit} (hw : t.Writes c ops edit) :
    c.Effect t (t.run ops).1 := by
  cases hw with
  | edit creates hs hn hsteps hz ha =>
    obtain ⟨z, hc, hz', rfl⟩ := Change.zone_of_scope? hs
    cases hz.symm.trans hz'
    refine .edited hc hz ?_ (edited_run hn (creates_iff ha) hsteps c.id)
    cases creates with
    | true => exact Or.inl ha
    | false => exact Or.inr ha
  | deleteZone hs hn hz ha =>
    obtain ⟨z, hc, hz', rfl⟩ := Change.zone_of_scope? hs
    cases hz.symm.trans hz'
    exact .zoneDeleted hc hz ha (zoneDeleted_run hn c.id)
  | putRule hs hr hp =>
    -- that there is a new rule says that the action is to put it in place
    obtain ⟨f, hc, hf, -⟩ := Change.rule_of_scope? hs
    obtain ⟨ha, hcompile⟩ := Change.newRule?_eq_some hf hr
    exact .rulePut hc hf ha hcompile (rulePut_run hp c.id)
  | deleteRule hs hf ha hp =>
    obtain ⟨f, hc, hf', rfl⟩ := Change.rule_of_scope? hs
    cases hf.symm.trans hf'
    exact .ruleDeleted hc hf ha (ruleDeleted_run hp c.id)

end Table

namespace Resolver

variable {r r' : Resolver} {c : Change}

/-- Whether `r'` has the table and the tries of `r`, and no event more. -/
structure Untouched (r r' : Resolver) : Prop where
  table : r'.store.table = r.store.table
  index : r'.index = r.index
  log : r'.store.log = r.store.log

/-- Whether `r'` is `r` after one commit of all that change `c` about `s` writes: that commit has
the effect of the change, and its identity is that of the last one applied. -/
structure InOneCommit (r r' : Resolver) (c : Change) (s : Scope) (ops : List Op)
    (edit : IndexEdit) : Prop where
  scope : c.scope? = some s
  writes : r.store.table.Writes c ops edit
  identity : .put s.appliedKey (encodeChangeId c.id) ∈ ops
  commit : r.store.commit ops = (.ok (), r'.store)
  table : r'.store.table = (r.store.table.run ops).1
  effect : c.Effect r.store.table r'.store.table
  log : r'.store.log = r.store.log ++ (r.store.table.run ops).2.toArray
  applied : r'.store.table.lastApplied s = .ok (some c.id)
  index : r'.index = r.index.edit edit

/-- What is planned and committed is in the resolver through one commit. -/
theorem inOneCommit_of_commit {ops : List Op} {edit : IndexEdit} {store : Store}
    (hp : r.store.table.plan c = .ok (.write ops edit))
    (hc : r.store.commit ops = (.ok (), store)) :
    ∃ s, r.InOneCommit ⟨store, r.index.edit edit⟩ c s ops edit := by
  obtain ⟨s, last, hs, -, -, hw⟩ := Table.plan_write hp
  obtain ⟨htable, hlog⟩ := Store.commit_ok hc
  refine ⟨s, hs, hw, Table.applied_mem_of_writes hw hs, hc, htable, ?_, hlog, ?_, rfl⟩
  · rw [htable]
    exact Table.effect_writes hw
  have happlied : store.table.get? s.appliedKey = some (encodeChangeId c.id) := by
    rw [htable]
    exact Table.writes_applied hw hs
  exact Table.lastApplied_of_get? happlied

/-- **Applying a change is atomic**, whatever the resolver: if it fails, then nothing has changed,
if the change is stale, then the resolver is the same, and if it is applied, then its effect and its
identity were written by one commit. -/
theorem apply_atomic (r : Resolver) (c : Change) :
    (∀ e, (r.apply c).1 = .error e → r.Untouched (r.apply c).2) ∧
      (∀ l, (r.apply c).1 = .ok (.stale l) → (r.apply c).2 = r) ∧
      ((r.apply c).1 = .ok .applied →
        ∃ s ops edit, r.InOneCommit (r.apply c).2 c s ops edit) := by
  rcases r.apply_outcomes c with ⟨e, -, h⟩ | ⟨l, -, h⟩ |
    ⟨ops, edit, hp, ⟨store, hc, h⟩ | ⟨e, store, hc, h⟩⟩
  · -- the plan found a fault before anything was written
    rw [h]
    exact ⟨fun _ _ => ⟨rfl, rfl, rfl⟩, by simp, by simp⟩
  · rw [h]
    exact ⟨by simp, fun _ _ => rfl, by simp⟩
  · rw [h]
    obtain ⟨s, hone⟩ := inOneCommit_of_commit hp hc
    exact ⟨by simp, by simp, fun _ => ⟨s, ops, edit, hone⟩⟩
  · -- the commit failed: the store is another one, but not what can be read from it
    rw [h]
    obtain ⟨htable, hlog, -⟩ := Store.commit_error hc
    exact ⟨fun _ _ => ⟨htable, rfl, hlog⟩, by simp, by simp⟩

/-- A change to a zone whose second step is about a name outside of the zone. -/
def straying : Change :=
  { id := 2, type := .zone, firewall := none
    zone := some ⟨"example.com.", .update,
      [⟨.create, ⟨"www.example.com.", .a, 300, ["192.0.2.1"]⟩⟩,
        ⟨.create, ⟨"www.example.org.", .a, 300, ["192.0.2.1"]⟩⟩]⟩
    submittedAt := ⟨⟨2024, 1, 3, 0, 0, 0, 0⟩, by decide⟩, status := .pending }

/-- The same change without its second step. -/
def staying : Change :=
  { straying with
    zone := some ⟨"example.com.", .update,
      [⟨.create, ⟨"www.example.com.", .a, 300, ["192.0.2.1"]⟩⟩]⟩ }

/-- The change that strays leaves nothing of its first step, the other is applied at once, and is
stale when it comes again. -/
theorem apply_atomic_straying :
    let after := (inMemory.apply staying).2
    (inMemory.apply straying).1 = .error (.outOfZone "www.example.org." "example.com.") ∧
      inMemory.Untouched (inMemory.apply straying).2 ∧
      (inMemory.apply staying).1 = .ok .applied ∧
      (∃ s ops edit, inMemory.InOneCommit after staying s ops edit) ∧
      (after.apply staying).1 = .ok (.stale 2) ∧ (after.apply staying).2 = after := by
  intro after
  have hfault : (inMemory.apply straying).1 =
      .error (.outOfZone "www.example.org." "example.com.") := by decide +kernel
  have happlied : (inMemory.apply staying).1 = .ok .applied := by decide +kernel
  have hstale : (after.apply staying).1 = .ok (.stale 2) := by decide +kernel
  exact ⟨hfault, (apply_atomic inMemory straying).1 _ hfault, happlied,
    (apply_atomic inMemory staying).2.2 happlied, hstale,
    (apply_atomic after staying).2.1 2 hstale⟩

end Resolver

end ZoneRelay
