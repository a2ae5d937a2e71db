import ZoneRelay.Proofs.Store.Commit
import ZoneRelay.Proofs.Store.Contents
import ZoneRelay.Proofs.Store.Key
import ZoneRelay.Proofs.Store.Table
import ZoneRelay.Proofs.Success
import ZoneRelay.Store.Writes

/-!
# Entries and rules listed

A scan begins where a text would be among the keys and goes on as long as keys start with it. What
it finds is all that starts so, since such keys lie together; and the rules come by ascending
identity, since their keys do.

* `Table.Finds`: what a scan has to find.
* `Table.KeepsRules`: only rules are kept among the rules, each under its own key;
  `Store.keepsRules_does` says that all writes of zones and rules leave it so.
* `Table.KeepsRules.lists`: then the rules can be listed, by ascending identity.
* `Table.scan_exact`: what scans, deletions by a scan and listings give.
-/

namespace ZoneRelay

variable {t : Table} {s : Store} {k : String} {v : Octets}

namespace Table

/-- What is found by a scan: exactly the entries whose keys start so, by ascending key. -/
structure Finds (t : Table) (start : String) (found : List Entry) : Prop where
  exact : ∀ k v, (k, v) ∈ found ↔ t.get? k = some v ∧ Text.startsWith start k
  ascending : found.Pairwise fun a b => a.1 < b.1

/-- Whether all that is kept among the rules is a rule under its own key. -/
def KeepsRules (t : Table) : Prop :=
  ∀ k v, t.get? k = some v → Key.Family.rule.has k →
    ∃ r, decodeRule? v = some r ∧ k = Key.rule r.rule.id

/-- These are the rules by ascending identity: just those that their identities give. -/
structure ListsRules (t : Table) (rules : List StoredRule) : Prop where
  listed : t.rules = .ok rules
  ascending : rules.Pairwise fun a b => a.rule.id < b.rule.id
  mem : ∀ r, r ∈ rules ↔ t.rule r.rule.id = .ok (some r)

theorem rule_eq_some {id : RuleId} {r : StoredRule} :
    t.rule id = .ok (some r) ↔ ∃ v, t.get? (Key.rule id) = some v ∧ decodeRule? v = some r := by
  unfold rule read
  cases hg : t.get? (Key.rule id) with
  | none => simp
  | some v => cases hd : decodeRule? v <;> simp [hd]

/-- **Rules that are kept under their own keys** are listed by ascending identity. -/
theorem KeepsRules.lists (h : t.KeepsRules) : ∃ rules, t.ListsRules rules := by
  obtain ⟨rules, hr⟩ := exists_forall₂ (l := t.scan Key.rulePrefix)
    (R := fun e r => decodeRule? e.2 = some r ∧ e.1 = Key.rule r.rule.id) fun e he =>
      h e.1 e.2 (mem_scan.1 he).1 (mem_scan.1 he).2
  have hread : List.Forall₂ (fun e r => ruleOfEntry e = .ok r) (t.scan Key.rulePrefix) rules := by
    refine hr.imp fun e r he => ?_
    unfold ruleOfEntry
    rw [he.1]
  -- the keys found are those of the rules, and they are in order
  have hkeys : (t.scan Key.rulePrefix).map (·.1) = rules.map fun r => Key.rule r.rule.id := by
    rw [← List.forall₂_eq_eq_eq, List.forall₂_map_left_iff, List.forall₂_map_right_iff]
    exact hr.imp fun _ _ he => he.2
  have hordered := List.pairwise_map.2 (t.scan_ordered Key.rulePrefix)
  rw [hkeys, List.pairwise_map] at hordered
  refine ⟨rules, mapM_ok_iff.2 hread, hordered.imp Key.rule_lt_iff.1, fun r => ?_⟩
  rw [rule_eq_some]
  constructor
  · intro hmem
    obtain ⟨e, he, hd, hk⟩ := exists_of_forall₂ hr hmem
    exact ⟨e.2, hk ▸ (mem_scan.1 he).1, hd⟩
  · rintro ⟨v, hv, hd⟩
    obtain ⟨q, hq, hd', -⟩ :=
      exists_of_forall₂ hr.flip (mem_scan.2 ⟨hv, Key.has_rule r.rule.id⟩)
    obtain rfl : r = q := Option.some.inj (hd.symm.trans hd')
    exact hq

end Table

/-! ## Writes that keep rules -/

/-- Whether a write puts nothing among the rules but a rule under its own key. -/
def Op.KeepsRules : Op → Prop
  | put k v => Key.Family.rule.has k → ∃ r, decodeRule? v = some r ∧ k = Key.rule r.rule.id
  | delete _ | deletePrefix _ => True

namespace Op

theorem keepsRules_put {f : Key.Family} (hk : f.has k) (hf : f ≠ .rule) (v : Octets) :
    (put k v).KeepsRules :=
  fun h => absurd (Key.Family.eq_of_starts hk h) hf

end Op

theorem ZoneStep.keepsRules_op (zone : String) (step : ZoneStep) : (step.op zone).KeepsRules := by
  cases step with
  | marker => exact Op.keepsRules_put (Key.has_zoneMarker zone) (by decide) _
  | put name type records =>
    exact Op.keepsRules_put (Key.has_of_zoneRecordSets (Key.startsWith_recordSet zone name type))
      (by decide) _
  | delete name type => trivial
  | applied id => exact Op.keepsRules_put (Key.has_appliedZone zone) (by decide) _

namespace Op

theorem keepsRules_deleteZone (zone : String) (change : ChangeId) :
    ∀ op ∈ deleteZone zone change, op.KeepsRules := by
  have hput := keepsRules_put (Key.has_appliedZone zone) (by decide) (encodeChangeId change)
  exact List.forall_mem_cons.2 ⟨trivial, List.forall_mem_cons.2 ⟨trivial,
    List.forall_mem_singleton.2 hput⟩⟩

theorem keepsRules_putRule (previous : Option StoredRule) (r : StoredRule) (change : ChangeId) :
    ∀ op ∈ putRule previous r change, op.KeepsRules := by
  refine List.forall_mem_append.2 ⟨fun op h => ?_, List.forall_mem_cons.2 ⟨fun _ => ?_,
    List.forall_mem_append.2 ⟨fun op h => ?_, List.forall_mem_singleton.2 ?_⟩⟩⟩
  · obtain ⟨p, -, h1⟩ := List.mem_flatMap.1 h
    obtain ⟨d, -, rfl⟩ := List.mem_map.1 h1
    trivial
  · exact ⟨r, decodeRule?_encodeRule r, rfl⟩
  · obtain ⟨d, -, rfl⟩ := List.mem_map.1 h
    exact keepsRules_put (Key.has_domain d _) (by decide) _
  · exact keepsRules_put (Key.has_appliedRule _) (by decide) _

theorem keepsRules_deleteRule (previous : Option StoredRule) (id : RuleId) (change : ChangeId) :
    ∀ op ∈ deleteRule previous id change, op.KeepsRules := by
  have hput := keepsRules_put (Key.has_appliedRule id) (by decide) (encodeChangeId change)
  refine List.forall_mem_append.2 ⟨fun op h => ?_, List.forall_mem_singleton.2 hput⟩
  cases previous with
  | none => cases h
  | some p =>
    rcases List.mem_cons.1 h with rfl | h
    · trivial
    · obtain ⟨d, -, rfl⟩ := List.mem_map.1 h
      trivial

end Op

theorem Table.keepsRules_run (h : t.KeepsRules) {ops : List Op} (hops : ∀ op ∈ ops, op.KeepsRules) :
    (t.run ops).1.KeepsRules := by
  intro k v hv hk
  rw [get?_run] at hv
  rcases Op.mem_of_after hv with h1 | h1
  · exact h k v h1 hk
  · exact hops _ h1 hk

namespace Store

/-- What can be done to a store. A batch of its own may put rules under their own keys only. -/
inductive Write
  | editZone (zone : String) (steps : List ZoneStep)
  | deleteZone (zone : String) (change : ChangeId)
  | putRule (rule : StoredRule) (change : ChangeId)
  | deleteRule (id : RuleId) (change : ChangeId)
  | batch (ops : List Op) (keeps : ∀ op ∈ ops, op.KeepsRules)
  /-- The next `n` commits are made to fail. -/
  | failCommits (n : ℕ)
  /-- Others change the directory with the store's file. -/
  | mount (disk : Disk)

/-- The store after a write, whether it succeeds or fails. -/
def does (s : Store) : Write → Store
  | .editZone zone steps => (s.editZone zone steps).2
  | .deleteZone zone change => (s.deleteZone zone change).2
  | .putRule rule change => (s.putRule rule change).2
  | .deleteRule id change => (s.deleteRule id change).2
  | .batch ops _ => (s.commit ops).2
  | .failCommits n => { s with failing := n }
  | .mount disk => s.mount disk

theorem keepsRules_commit (h : s.table.KeepsRules) {ops : List Op}
    (hops : ∀ op ∈ ops, op.KeepsRules) : (s.commit ops).2.table.KeepsRules := by
  rw [table_commit]
  split
  · exact Table.keepsRules_run h hops
  · exact h

/-- **Writes of zones and rules** keep nothing but rules among the rules. -/
theorem keepsRules_does (h : s.table.KeepsRules) (w : Write) : (s.does w).table.KeepsRules := by
  cases w with
  | editZone zone steps =>
    refine keepsRules_commit h fun op hop => ?_
    obtain ⟨step, -, rfl⟩ := List.mem_map.1 hop
    exact step.keepsRules_op zone
  | deleteZone zone change => exact keepsRules_commit h (Op.keepsRules_deleteZone zone change)
  | putRule rule change =>
    show (s.putRule rule change).2.table.KeepsRules
    unfold putRule
    split
    · exact h
    · next previous _ => exact keepsRules_commit h (Op.keepsRules_putRule previous rule change)
  | deleteRule id change =>
    show (s.deleteRule id change).2.table.KeepsRules
    unfold deleteRule
    split
    · exact h
    · next previous _ => exact keepsRules_commit h (Op.keepsRules_deleteRule previous id change)
  | batch ops keeps => exact keepsRules_commit h keeps
  | failCommits n => exact h
  | mount disk =>
    show (s.mount disk).table.KeepsRules
    rwa [table_mount]

theorem keepsRules_writes (h : s.table.KeepsRules) (writes : List Write) :
    (writes.foldl does s).table.KeepsRules := by
  induction writes generalizing s with
  | nil => exact h
  | cons w writes ih => exact ih (keepsRules_does h w)

end Store

namespace Table

theorem finds_scan (t : Table) (start : String) : t.Finds start (t.scan start) :=
  ⟨fun _ _ => mem_scan, t.scan_ordered start⟩

/-- Deleting by a scan removes the keys found, and tells of each of them. -/
theorem step_deletePrefix (t : Table) (start k : String) :
    (t.step (.deletePrefix start)).1.get? k =
      if k ∈ (t.scan start).map (·.1) then none else t.get? k :=
  get?_foldl_erase _

theorem keepsRules_empty : empty.KeepsRules :=
  fun _ _ h => nomatch h

/-- **A scan is exact.** It finds the entries whose keys start so, each once and by ascending key.
Deleting all that start so removes just the keys found, with one event for each. And the rules are
listed by ascending identity if nothing else is kept among them, as after any writes of zones and
rules from an empty table on. -/
theorem scan_exact (t : Table) (start : String) (s : Store) (writes : List Store.Write) :
    t.Finds start (t.scan start) ∧
      (∀ k, (t.step (.deletePrefix start)).1.get? k =
        if k ∈ (t.scan start).map (·.1) then none else t.get? k) ∧
      (t.step (.deletePrefix start)).2 = (t.scan start).map (fun e => .delete e.1) ∧
      (∀ i j, Key.rule i < Key.rule j ↔ i < j) ∧
      (t.KeepsRules → ∃ rules, t.ListsRules rules) ∧
      ∃ rules, (writes.foldl Store.does { s with table := .empty }).table.ListsRules rules := by
  refine ⟨finds_scan t start, step_deletePrefix t start, rfl, fun _ _ => Key.rule_lt_iff,
    KeepsRules.lists, ?_⟩
  exact (Store.keepsRules_writes keepsRules_empty writes).lists

/-- A rule without domains, for which nothing is answered. -/
def silent (id : RuleId) : StoredRule :=
  ⟨⟨id, 0, [], .noData⟩, []⟩

/-- A table of three rules and a zone, the greatest identity first. -/
def threeRules : Table :=
  (empty.run (Op.putRule none (silent 18446744073709551615) 1 ++ Op.putRule none (silent 10) 2 ++
    Op.putRule none (silent 9) 3 ++ [.put (Key.zoneMarker "fw.") []])).1

theorem keepsRules_threeRules : threeRules.KeepsRules := by
  refine keepsRules_run keepsRules_empty fun op h => ?_
  simp only [List.mem_append, List.mem_singleton] at h
  rcases h with ((h | h) | h) | rfl
  · exact Op.keepsRules_putRule _ _ _ op h
  · exact Op.keepsRules_putRule _ _ _ op h
  · exact Op.keepsRules_putRule _ _ _ op h
  · exact Op.keepsRules_put (Key.has_zoneMarker _) (by decide) _

/-- Nine comes before ten, and the greatest identity comes last. -/
theorem scan_exact_threeRules : threeRules.KeepsRules ∧
    ∃ rules, threeRules.ListsRules rules ∧
      rules.map (·.rule.id) = [9, 10, 18446744073709551615] := by
  obtain ⟨-, -, -, -, lists, -⟩ := scan_exact threeRules "fw/" .inMemory []
  obtain ⟨rules, h⟩ := lists keepsRules_threeRules
  have hrules : threeRules.rules =
      .ok [silent 9, silent 10, silent 18446744073709551615] := by decide +kernel
  obtain rfl := Except.ok.inj (h.listed.symm.trans hrules)
  exact ⟨keepsRules_threeRules, _, h, rfl⟩

end Table

end ZoneRelay
