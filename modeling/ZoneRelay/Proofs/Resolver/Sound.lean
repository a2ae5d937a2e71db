import ZoneRelay.Proofs.Resolver.Plan

/-!
# Sound tables

A table is sound if its values are what belongs under their keys and the keys of domains are those
of the stored rules. Whatever a change writes, a sound table stays sound.

* `Table.Sound`, `Table.sound_writes`: the invariant, and that writes preserve it.
* `Table.writes_owned`: a change writes only keys of the zone or rule that it is about.
* `Table.Moves`: what a change to a rule does to the keys of rules and domains.
* `Table.Sound.mem_zones`, `Table.Sound.rules_ok`: what a sound table lists.
-/

namespace ZoneRelay

namespace Scope

/-- A key of a zone's state is of one of three kinds. -/
theorem zone_owns {z k : String} (h : (zone z).owns k) :
    Key.Family.zone.has k ∨ Key.Family.records.has k ∨ Key.Family.appliedZone.has k := by
  rcases h with rfl | h | rfl
  · exact Or.inl (Key.has_zoneMarker z)
  · exact Or.inr (Or.inl (Key.has_of_zoneRecordSets h))
  · exact Or.inr (Or.inr (Key.has_appliedZone z))

/-- A key of a rule's state is of one of three other kinds. -/
theorem rule_owns {id : RuleId} {k : String} (h : (rule id).owns k) :
    Key.Family.rule.has k ∨ Key.Family.domain.has k ∨ Key.Family.appliedRule.has k := by
  rcases h with rfl | ⟨d, rfl⟩ | rfl
  · exact Or.inl (Key.has_rule id)
  · exact Or.inr (Or.inl (Key.has_domain d id))
  · exact Or.inr (Or.inr (Key.has_appliedRule id))

theorem zone_not_owns {z k : String} {f : Key.Family} (hf : f.has k)
    (h1 : f ≠ .zone) (h2 : f ≠ .records) (h3 : f ≠ .appliedZone) : ¬ (zone z).owns k := by
  intro h
  rcases zone_owns h with h | h | h
  · exact h1 (Key.Family.eq_of_starts hf h)
  · exact h2 (Key.Family.eq_of_starts hf h)
  · exact h3 (Key.Family.eq_of_starts hf h)

theorem rule_not_owns {id : RuleId} {k : String} {f : Key.Family} (hf : f.has k)
    (h1 : f ≠ .rule) (h2 : f ≠ .domain) (h3 : f ≠ .appliedRule) : ¬ (rule id).owns k := by
  intro h
  rcases rule_owns h with h | h | h
  · exact h1 (Key.Family.eq_of_starts hf h)
  · exact h2 (Key.Family.eq_of_starts hf h)
  · exact h3 (Key.Family.eq_of_starts hf h)

/-- The state of one zone or rule does not keep what was last applied to another. -/
theorem appliedKey_of_owns {s u : Scope} (h : s.owns u.appliedKey) :
    u.appliedKey = s.appliedKey := by
  cases s with
  | zone z =>
    cases u with
    | zone y =>
      rcases h with h | h | h
      · exact absurd h (Key.ne_of_family (Key.has_appliedZone y) (Key.has_zoneMarker z) (by decide))
      · exact absurd h (Key.not_recordSets_of_family (Key.has_appliedZone y) (by decide))
      · exact h
    | rule j =>
      exact absurd h (zone_not_owns (Key.has_appliedRule j) (by decide) (by decide) (by decide))
  | rule id =>
    cases u with
    | zone y =>
      exact absurd h (rule_not_owns (Key.has_appliedZone y) (by decide) (by decide) (by decide))
    | rule j =>
      rcases h with h | ⟨d, h⟩ | h
      · exact absurd h (Key.ne_of_family (Key.has_appliedRule j) (Key.has_rule id) (by decide))
      · exact absurd h (Key.ne_of_family (Key.has_appliedRule j) (Key.has_domain d id) (by decide))
      · exact h

end Scope

namespace Table

variable {t u : Table} {c : Change} {s : Scope} {ops : List Op} {edit : IndexEdit} {k : String}
  {r p : StoredRule} {id : RuleId} {old new previous : Option StoredRule}

/-- Whether a rule is stored. -/
def Stores (t : Table) (r : StoredRule) : Prop :=
  t.get? (Key.rule r.rule.id) = some (encodeRule r)

/-- Every value is what belongs under its key, and domains are those of the stored rules. -/
structure Sound (t : Table) : Prop where
  zone : ∀ k v, t.get? k = some v → Key.Family.zone.has k → ∃ z, k = Key.zoneMarker z
  rule : ∀ k v, t.get? k = some v → Key.Family.rule.has k →
    ∃ r, k = Key.rule r.rule.id ∧ v = encodeRule r
  domain : ∀ k, Key.Family.domain.has k →
    ((t.get? k).isSome ↔ ∃ r, t.Stores r ∧ k ∈ domainKeys r)
  applied : ∀ s v, t.get? (Scope.appliedKey s) = some v → ∃ id, v = encodeChangeId id

theorem sound_empty : empty.Sound := by
  refine ⟨fun _ _ h => ?_, fun _ _ h => ?_, fun k _ => ⟨fun h => ?_, ?_⟩, fun _ _ h => ?_⟩
  · cases h
  · cases h
  · cases h
  · rintro ⟨r, h, -⟩
    cases h
  · cases h

/-! ## Reading a sound table -/

theorem rule_of_stores (h : t.Stores r) : t.rule r.rule.id = .ok (some r) := by
  unfold rule read
  rw [h]
  simp only [decodeRule?_encodeRule]

theorem stores_unique (h : t.Stores r) (h' : t.Stores p) (he : r.rule.id = p.rule.id) : r = p := by
  unfold Stores at h h'
  rw [he, h'] at h
  exact (encodeRule_inj (Option.some.inj h)).symm

/-- Reading a rule gives the stored one, if there is one. -/
theorem Sound.rule_ok (h : t.Sound) (id : RuleId) :
    (t.rule id = .ok none ∧ t.get? (Key.rule id) = none) ∨
      ∃ r, t.rule id = .ok (some r) ∧ t.Stores r ∧ r.rule.id = id := by
  cases hg : t.get? (Key.rule id) with
  | none =>
    exact Or.inl ⟨rule_eq_none_iff.2 hg, rfl⟩
  | some v =>
    obtain ⟨r, h1, rfl⟩ := h.rule _ v hg (Key.has_rule id)
    rw [Key.rule_inj] at h1
    have h2 : t.Stores r := by unfold Stores; rw [← h1]; exact hg
    exact Or.inr ⟨r, by rw [h1]; exact rule_of_stores h2, h2, h1.symm⟩

theorem Sound.previous_eq (h : t.Sound) (hp : t.rule id = .ok previous) :
    t.get? (Key.rule id) = previous.map encodeRule ∧ ∀ p ∈ previous, p.rule.id = id := by
  rcases h.rule_ok id with ⟨h1, h2⟩ | ⟨r, h1, h2, rfl⟩
  · rw [h1] at hp
    cases Except.ok.inj hp
    exact ⟨h2, by simp⟩
  · rw [h1] at hp
    cases Except.ok.inj hp
    exact ⟨h2, by simp⟩

/-- The last change applied can be read. -/
theorem Sound.lastApplied_ok (h : t.Sound) (s : Scope) :
    (t.lastApplied s = .ok none ∧ t.get? s.appliedKey = none) ∨
      ∃ id, t.lastApplied s = .ok (some id) ∧ t.get? s.appliedKey = some (encodeChangeId id) := by
  rw [lastApplied_eq]
  unfold read
  cases hg : t.get? s.appliedKey with
  | none => exact Or.inl ⟨rfl, rfl⟩
  | some v =>
    obtain ⟨id, rfl⟩ := h.applied s v hg
    refine Or.inr ⟨id, ?_, rfl⟩
    simp only [decodeChangeId?_encodeChangeId]

/-! ## The keys that a change writes -/

theorem domainKeys_owned (hk : k ∈ domainKeys r) : (Scope.rule r.rule.id).owns k := by
  obtain ⟨d, -, rfl⟩ := List.mem_map.1 hk
  exact Or.inr (Or.inl ⟨d, rfl⟩)

theorem previousKeys_owned (hp : ∀ p ∈ previous, p.rule.id = id)
    (hk : k ∈ previous.toList.flatMap domainKeys) : (Scope.rule id).owns k := by
  obtain ⟨p, h1, h2⟩ := List.mem_flatMap.1 hk
  have h3 := domainKeys_owned h2
  rwa [hp p (Option.mem_toList.1 h1)] at h3

/-- **A change writes only keys of the zone or rule that it is about.** -/
theorem writes_owned (ht : t.Sound) (hw : t.Writes c ops edit) (hs : c.scope? = some s)
    (hk : ¬ s.owns k) : (t.run ops).1.get? k = t.get? k := by
  rw [get?_run]
  cases hw with
  | edit creates hs' hn hc =>
    cases hs.symm.trans hs'
    simp only [Scope.owns, not_or] at hk
    rw [after_zoneOps hc c.id hk.2.1, if_neg fun h => hk.1 h.1, if_neg hk.2.2]
  | deleteZone hs' hn =>
    cases hs.symm.trans hs'
    simp only [Scope.owns, not_or] at hk
    rw [after_deleteZone, if_neg hk.2.2, if_neg hk.2.1, if_neg hk.1]
  | @putRule stored previous hs' hr hp =>
    cases hs.symm.trans hs'
    have h1 := (ht.previous_eq hp).2
    rw [after_putRule, if_neg fun h => hk (Or.inr (Or.inr h)),
      if_neg fun h => hk (domainKeys_owned h), if_neg fun h => hk (Or.inl h),
      if_neg fun h => hk (previousKeys_owned h1 h)]
  | @deleteRule id f previous hs' hf ha hp =>
    cases hs.symm.trans hs'
    have h1 := (ht.previous_eq hp).2
    rw [after_deleteRule, map_domainsOf h1, if_neg fun h => hk (Or.inr (Or.inr h)),
      if_neg fun h => hk (previousKeys_owned h1 h), if_neg fun h => hk (Or.inl h.1)]

/-! ## Rules and their domains -/

/-- `u` has the rule `new` where `t` has `old`, with their domains. -/
structure Moves (t u : Table) (id : RuleId) (old new : Option StoredRule) : Prop where
  was : t.get? (Key.rule id) = old.map encodeRule
  becomes : u.get? (Key.rule id) = new.map encodeRule
  oldId : ∀ r ∈ old, r.rule.id = id
  newId : ∀ r ∈ new, r.rule.id = id
  others : ∀ j, j ≠ id → u.get? (Key.rule j) = t.get? (Key.rule j)
  domains : ∀ k, Key.Family.domain.has k → u.get? k =
    if k ∈ new.toList.flatMap domainKeys then some []
    else if k ∈ old.toList.flatMap domainKeys then none else t.get? k

namespace Moves

theorem stores_old (h : Moves t u id old new) :
    t.Stores r ↔ r ∈ old ∨ r.rule.id ≠ id ∧ t.Stores r := by
  constructor
  · intro hr
    by_cases hid : r.rule.id = id
    · unfold Stores at hr
      rw [hid, h.was, Option.map_eq_some_iff] at hr
      obtain ⟨p, h1, h2⟩ := hr
      rw [← encodeRule_inj h2]
      exact Or.inl h1
    · exact Or.inr ⟨hid, hr⟩
  · rintro (hr | ⟨-, hr⟩)
    · unfold Stores
      rw [h.oldId r hr, h.was, Option.mem_def.1 hr]
      rfl
    · exact hr

theorem stores_new (h : Moves t u id old new) :
    u.Stores r ↔ r ∈ new ∨ r.rule.id ≠ id ∧ t.Stores r := by
  constructor
  · intro hr
    by_cases hid : r.rule.id = id
    · unfold Stores at hr
      rw [hid, h.becomes, Option.map_eq_some_iff] at hr
      obtain ⟨p, h1, h2⟩ := hr
      rw [← encodeRule_inj h2]
      exact Or.inl h1
    · unfold Stores at hr ⊢
      rw [h.others _ hid] at hr
      exact Or.inr ⟨hid, hr⟩
  · rintro (hr | ⟨hid, hr⟩)
    · unfold Stores
      rw [h.newId r hr, h.becomes, Option.mem_def.1 hr]
      rfl
    · unfold Stores at hr ⊢
      rw [h.others _ hid]
      exact hr

/-- The domains stay those of the stored rules. -/
theorem domain (h : Moves t u id old new)
    (ht : (t.get? k).isSome ↔ ∃ r, t.Stores r ∧ k ∈ domainKeys r) (hk : Key.Family.domain.has k) :
    (u.get? k).isSome ↔ ∃ r, u.Stores r ∧ k ∈ domainKeys r := by
  rw [h.domains k hk]
  by_cases h1 : k ∈ new.toList.flatMap domainKeys
  · rw [if_pos h1]
    obtain ⟨r, h2, h3⟩ := List.mem_flatMap.1 h1
    exact ⟨fun _ => ⟨r, h.stores_new.2 (Or.inl (Option.mem_toList.1 h2)), h3⟩, fun _ => rfl⟩
  · -- not a domain of the new version, so of a rule that is there in both tables
    rw [if_neg h1]
    have h4 : (∃ r, u.Stores r ∧ k ∈ domainKeys r) ↔
        ∃ r, r.rule.id ≠ id ∧ t.Stores r ∧ k ∈ domainKeys r := by
      constructor
      · rintro ⟨r, hr, h2⟩
        rcases h.stores_new.1 hr with h3 | ⟨h3, h5⟩
        · exact absurd (List.mem_flatMap.2 ⟨r, Option.mem_toList.2 h3, h2⟩) h1
        · exact ⟨r, h3, h5, h2⟩
      · rintro ⟨r, h3, h5, h2⟩
        exact ⟨r, h.stores_new.2 (Or.inr ⟨h3, h5⟩), h2⟩
    rw [h4]
    by_cases h5 : k ∈ old.toList.flatMap domainKeys
    · rw [if_pos h5]
      obtain ⟨p, h6, h7⟩ := List.mem_flatMap.1 h5
      constructor
      · intro h8
        cases h8
      rintro ⟨r, h8, -, h9⟩
      -- a key of a domain tells whose domain it is
      obtain ⟨d, -, rfl⟩ := List.mem_map.1 h7
      obtain ⟨e, -, h10⟩ := List.mem_map.1 h9
      have h11 := (Key.domain_inj.1 h10).2
      exact absurd (h11.trans (h.oldId p (Option.mem_toList.1 h6))) h8
    · rw [if_neg h5, ht]
      constructor
      · rintro ⟨r, hr, h6⟩
        rcases h.stores_old.1 hr with h7 | ⟨h7, -⟩
        · exact absurd (List.mem_flatMap.2 ⟨r, Option.mem_toList.2 h7, h6⟩) h5
        · exact ⟨r, h7, hr, h6⟩
      · rintro ⟨r, -, hr, h6⟩
        exact ⟨r, hr, h6⟩

end Moves

theorem family_of_domainKeys (hk : k ∈ domainKeys r) : Key.Family.domain.has k := by
  obtain ⟨d, -, rfl⟩ := List.mem_map.1 hk
  exact Key.has_domain d _

/-- A rule's own key is neither that of a domain nor what was last applied. -/
theorem rule_key_ne (id : RuleId) (l : List StoredRule) (j : RuleId) :
    Key.rule id ≠ Key.appliedRule j ∧ Key.rule id ∉ l.flatMap domainKeys := by
  have h1 := Key.has_rule id
  refine ⟨Key.ne_of_family h1 (Key.has_appliedRule j) (by decide), fun h => ?_⟩
  obtain ⟨p, -, h2⟩ := List.mem_flatMap.1 h
  exact absurd (Key.Family.eq_of_starts h1 (family_of_domainKeys h2)) (by decide)

theorem rule_key_not_owned {j : RuleId} (hj : j ≠ id) : ¬ (Scope.rule id).owns (Key.rule j) := by
  rintro (h | ⟨d, h⟩ | h)
  · exact hj (Key.rule_inj.1 h)
  · exact Key.ne_of_family (Key.has_rule j) (Key.has_domain d id) (by decide) h
  · exact Key.ne_of_family (Key.has_rule j) (Key.has_appliedRule id) (by decide) h

/-- Putting a rule in place moves it there from its previous version. -/
theorem moves_putRule (ht : t.Sound) (hs : c.scope? = some (.rule r.rule.id))
    (hr : c.newRule? = some r) (hp : t.rule r.rule.id = .ok previous) :
    Moves t (t.run (Op.putRule previous r c.id)).1 r.rule.id previous (some r) := by
  obtain ⟨h1, h2⟩ := ht.previous_eq hp
  refine ⟨h1, ?_, h2, by simp, fun j hj => ?_, fun k hk => ?_⟩
  · have h3 := rule_key_ne r.rule.id [r] r.rule.id
    rw [List.flatMap_singleton] at h3
    rw [get?_run, after_putRule, if_neg h3.1, if_neg h3.2, if_pos rfl]
    rfl
  · exact writes_owned ht (.putRule hs hr hp) hs (rule_key_not_owned hj)
  · rw [get?_run, after_putRule,
      if_neg (Key.ne_of_family hk (Key.has_appliedRule _) (by decide)),
      if_neg (Key.ne_of_family hk (Key.has_rule r.rule.id) (by decide)), Option.toList_some,
      List.flatMap_singleton]

/-- Deleting a rule moves it away. -/
theorem moves_deleteRule (ht : t.Sound) (hs : c.scope? = some (.rule id))
    {f : FirewallChange} (hf : c.firewall = some f) (ha : f.action = .delete)
    (hp : t.rule id = .ok previous) :
    Moves t (t.run (Op.deleteRule previous id c.id)).1 id previous none := by
  obtain ⟨h1, h2⟩ := ht.previous_eq hp
  refine ⟨h1, ?_, h2, by simp, fun j hj => ?_, fun k hk => ?_⟩
  · have h3 := rule_key_ne id previous.toList id
    rw [get?_run, after_deleteRule, map_domainsOf h2, if_neg h3.1, if_neg h3.2, h1]
    cases previous <;> simp
  · exact writes_owned ht (.deleteRule hs hf ha hp) hs (rule_key_not_owned hj)
  · rw [get?_run, after_deleteRule, map_domainsOf h2,
      if_neg (Key.ne_of_family hk (Key.has_appliedRule _) (by decide)),
      if_neg (c := k = Key.rule id ∧ previous.isSome)
        fun h => Key.ne_of_family hk (Key.has_rule id) (by decide) h.1, Option.toList_none,
      List.flatMap_nil, if_neg List.not_mem_nil]

/-! ## Writes -/

/-- What holds of each value that was there and of the new identity holds of each value after. -/
theorem applied_writes (ht : t.Sound) (hw : t.Writes c ops edit) (hs : c.scope? = some s)
    (u : Scope) : (t.run ops).1.get? u.appliedKey =
      if u.appliedKey = s.appliedKey then some (encodeChangeId c.id)
      else t.get? u.appliedKey := by
  split_ifs with h
  · rw [h]
    exact writes_applied hw hs
  · exact writes_owned ht hw hs fun h1 => h (Scope.appliedKey_of_owns h1)

/-- A change to a zone leaves the rules. -/
theorem stores_of_zone {zone : String} (ht : t.Sound) (hw : t.Writes c ops edit)
    (hs : c.scope? = some (.zone zone)) (r : StoredRule) : (t.run ops).1.Stores r ↔ t.Stores r := by
  unfold Stores
  rw [writes_owned ht hw hs (Scope.zone_not_owns (Key.has_rule _) (by decide) (by decide)
    (by decide))]

/-- A change to a rule leaves the others. -/
theorem stores_of_other (ht : t.Sound) (hw : t.Writes c ops edit)
    (hs : c.scope? = some (.rule id)) (hr : r.rule.id ≠ id) :
    (t.run ops).1.Stores r ↔ t.Stores r := by
  unfold Stores
  rw [writes_owned ht hw hs (rule_key_not_owned hr)]

theorem sound_zone {zone : String} (ht : t.Sound) (hw : t.Writes c ops edit)
    (hs : c.scope? = some (.zone zone)) : (t.run ops).1.Sound := by
  have frame : ∀ {f : Key.Family} {k : String}, f.has k → f ≠ .zone → f ≠ .records →
      f ≠ .appliedZone → (t.run ops).1.get? k = t.get? k := fun hf h1 h2 h3 =>
    writes_owned ht hw hs (Scope.zone_not_owns hf h1 h2 h3)
  refine ⟨fun k v hv hk => ?_, fun k v hv hk => ?_, fun k hk => ?_, fun u v hv => ?_⟩
  · -- of the zone's own keys only the marker is in the family of markers
    by_cases h : (Scope.zone zone).owns k
    · rcases h with h | h | h
      · exact ⟨zone, h⟩
      · exact absurd h (Key.not_recordSets_of_family hk (by decide))
      · exact absurd h (Key.ne_of_family hk (Key.has_appliedZone zone) (by decide))
    · rw [writes_owned ht hw hs h] at hv
      exact ht.zone k v hv hk
  · rw [frame hk (by decide) (by decide) (by decide)] at hv
    exact ht.rule k v hv hk
  · simp only [frame hk (by decide) (by decide) (by decide), stores_of_zone ht hw hs]
    exact ht.domain k hk
  · rw [applied_writes ht hw hs] at hv
    split_ifs at hv
    · exact ⟨c.id, (Option.some.inj hv).symm⟩
    · exact ht.applied u v hv

theorem sound_rule (ht : t.Sound) (hw : t.Writes c ops edit) (hs : c.scope? = some (.rule id))
    (hm : Moves t (t.run ops).1 id old new) : (t.run ops).1.Sound := by
  refine ⟨fun k v hv hk => ?_, fun k v hv hk => ?_, fun k hk => ?_, fun u v hv => ?_⟩
  · rw [writes_owned ht hw hs (Scope.rule_not_owns hk (by decide) (by decide) (by decide))] at hv
    exact ht.zone k v hv hk
  · by_cases h : (Scope.rule id).owns k
    · rcases h with rfl | ⟨d, rfl⟩ | rfl
      · rw [hm.becomes, Option.map_eq_some_iff] at hv
        obtain ⟨r, hr, rfl⟩ := hv
        exact ⟨r, by rw [hm.newId r hr], rfl⟩
      · exact absurd (Key.Family.eq_of_starts hk (Key.has_domain d id)) (by decide)
      · exact absurd (Key.Family.eq_of_starts hk (Key.has_appliedRule id)) (by decide)
    · rw [writes_owned ht hw hs h] at hv
      exact ht.rule k v hv hk
  · exact hm.domain (ht.domain k hk) hk
  · rw [applied_writes ht hw hs] at hv
    split_ifs at hv
    · exact ⟨c.id, (Option.some.inj hv).symm⟩
    · exact ht.applied u v hv

/-- **Whatever a change writes, a sound table stays sound.** -/
theorem sound_writes (ht : t.Sound) (hw : t.Writes c ops edit) : (t.run ops).1.Sound := by
  cases hw with
  | edit creates hs hn hc hz ha => exact sound_zone ht (.edit creates hs hn hc hz ha) hs
  | deleteZone hs hn hz ha => exact sound_zone ht (.deleteZone hs hn hz ha) hs
  | putRule hs hr hp => exact sound_rule ht (.putRule hs hr hp) hs (moves_putRule ht hs hr hp)
  | deleteRule hs hf ha hp =>
    exact sound_rule ht (.deleteRule hs hf ha hp) hs (moves_deleteRule ht hs hf ha hp)

end Table

end ZoneRelay
