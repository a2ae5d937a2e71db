import Mathlib.Data.List.Nodup
import ZoneRelay.Proofs.Resolver.Mirror

/-!
# Histories of a table

The history of a table is the list of changes committed to it, one after the other. What a change
leaves at a key does not depend on the table, so each key has what was left there by the last change
to decide about it.

* `Change.writes`, `Change.Decides`, `Change.leaves`: the keys a change decides about, and what it
  leaves there.
* `Table.commit?`, `Table.get?_commit`: a change committed to a table.
* `Table.History`: the changes committed to a table; `History.lastApplied`, `History.rising`: those
  to one zone or rule have ascending identities.
* `History.owns_of_decides`, `History.rule_owner_unique`: whose keys a change decides about.
-/

namespace ZoneRelay

/-- The writes of a change to the table without entries, if it can be applied. -/
def Change.writes (c : Change) : List Op :=
  match Table.empty.plan c with
  | .ok (.write ops _) => ops
  | _ => []

/-- Whether a change decides what a key has. A change to a rule decides about all keys of the
rule. -/
def Change.Decides (c : Change) (k : String) : Prop :=
  match c.scope? with
  | some (.rule id) => c.writes ≠ [] ∧ (Scope.rule id).owns k
  | _ => ∃ op ∈ c.writes, op.touches k = true

/-- What a change leaves at a key that it decides about. -/
def Change.leaves (c : Change) (k : String) : Option Octets :=
  Op.after k c.writes none

namespace Table

/-- The table after a change, if the change is applied to it. -/
def commit? (t : Table) (c : Change) : Option Table :=
  match t.plan c with
  | .ok (.write ops _) => some (t.run ops).1
  | _ => none

variable {t u : Table} {c d : Change} {cs : List Change} {s : Scope} {ops : List Op}
  {edit : IndexEdit} {k : String} {id : RuleId} {last : Option ChangeId}

theorem commit?_eq_some (h : t.commit? c = some u) :
    ∃ ops edit, t.plan c = .ok (.write ops edit) ∧ u = (t.run ops).1 := by
  unfold commit? at h
  split at h
  · next ops edit hp => exact ⟨ops, edit, hp, (Option.some.inj h).symm⟩
  · cases h

theorem commit?_of_plan (h : t.plan c = .ok (.write ops edit)) :
    t.commit? c = some (t.run ops).1 := by
  unfold commit?
  rw [h]

theorem writes_of_plan (h : empty.plan c = .ok (.write ops edit)) : c.writes = ops := by
  unfold Change.writes
  rw [h]

/-- A change has writes if and only if it can be applied to the table without entries. -/
theorem writes_ne_nil_iff :
    c.writes ≠ [] ↔ ∃ ops edit, empty.plan c = .ok (.write ops edit) := by
  constructor
  · intro h
    unfold Change.writes at h
    split at h
    · next ops edit hp => exact ⟨ops, edit, hp⟩
    · exact absurd rfl h
  · rintro ⟨ops, edit, h⟩
    rw [writes_of_plan h]
    obtain ⟨-, -, -, -, -, hw⟩ := plan_write h
    cases hw <;> simp [Op.deleteZone, Op.putRule, Op.deleteRule]

/-! ## Plans for different tables -/

theorem unlessStale_of_newer {i : ChangeId} {p : Except ApplyError Plan} (h : ∀ l ∈ last, l < i) :
    unlessStale i last p = p := by
  unfold unlessStale
  cases last with
  | none => rfl
  | some l =>
    have h1 := h l rfl
    exact if_neg (by simpa using h1)

/-- A change to a zone that is newer than the last one is planned the same for every table. -/
theorem planZone_of_newer {i : ChangeId} {z : ZoneChange}
    (hl : t.lastAppliedToZone (Name.normalize z.zoneName) = .ok last) (hn : ∀ l ∈ last, l < i) :
    t.planZone i z = empty.planZone i z := by
  unfold planZone
  cases hv : Name.validate z.zoneName with
  | error e => rfl
  | ok zone =>
    rw [← Name.validate_ok hv] at hl
    have h1 : empty.lastAppliedToZone zone = .ok none := rfl
    simp only [liftRecord, liftStore, Except.mapError, bind, Except.bind, hl, h1]
    exact (unlessStale_of_newer hn).trans (unlessStale_of_newer (by simp)).symm

theorem planPut_of_sound (ht : t.Sound) {i : ChangeId} {r : Rule} :
    (∃ p, t.planPut i r = .ok p) ↔ ∃ p, empty.planPut i r = .ok p := by
  -- what decides is the same for all sound tables, as their stored rules can be read
  have key : ∀ {t : Table}, t.Sound → ((∃ p, t.planPut i r = .ok p) ↔ r.action ≠ .unspecified ∧
      (∃ ds, r.domains.mapM (fun d => liftRecord (Name.validate d)) = .ok ds) ∧
      ∃ stored, liftRecord r.compile = .ok stored) := by
    intro t ht
    constructor
    · rintro ⟨p, hp⟩
      unfold planPut at hp
      split at hp
      · cases hp
      · next ha =>
        obtain ⟨ds, h1, h2⟩ := bind_ok hp
        obtain ⟨stored, h3, -⟩ := bind_ok h2
        exact ⟨ha, ⟨ds, h1⟩, stored, h3⟩
    · rintro ⟨ha, ⟨ds, h1⟩, stored, h2⟩
      unfold planPut
      rw [if_neg ha, h1, h2]
      rcases ht.rule_ok r.id with ⟨h3, -⟩ | ⟨p, h3, -⟩
      · exact ⟨_, by rw [h3]; rfl⟩
      · exact ⟨_, by rw [h3]; rfl⟩
  rw [key ht, key sound_empty]

theorem planFirewall_of_newer (ht : t.Sound) {i : ChangeId} {f : FirewallChange}
    (hl : t.lastAppliedToRule f.rule.id = .ok last) (hn : ∀ l ∈ last, l < i) :
    (∃ p, t.planFirewall i f = .ok p) ↔ ∃ p, empty.planFirewall i f = .ok p := by
  have key : ∀ {t : Table} {last : Option ChangeId}, t.Sound →
      t.lastAppliedToRule f.rule.id = .ok last → (∀ l ∈ last, l < i) →
      ((∃ p, t.planFirewall i f = .ok p) ↔ f.action = .delete ∨
        f.action = .upsert ∧ ∃ p, t.planPut i f.rule = .ok p) := by
    intro t last ht hl hn
    unfold planFirewall
    rw [hl]
    show (∃ p, unlessStale i last _ = .ok p) ↔ _
    rw [unlessStale_of_newer hn]
    cases f.action with
    | upsert => simp
    | delete =>
      simp only [true_or, iff_true]
      rcases ht.rule_ok f.rule.id with ⟨h3, -⟩ | ⟨p, h3, -⟩
      · exact ⟨_, by rw [h3]; rfl⟩
      · exact ⟨_, by rw [h3]; rfl⟩
    | unspecified => simp
  have h0 : empty.lastAppliedToRule f.rule.id = .ok none := rfl
  rw [key ht hl hn, key sound_empty h0 (by simp), planPut_of_sound ht]

theorem plan_zone {z : String} (hs : c.scope? = some (.zone z))
    (hl : t.lastApplied (.zone z) = .ok last) (hn : ∀ l ∈ last, l < c.id) :
    t.plan c = empty.plan c := by
  obtain ⟨zc, h1, h2, rfl⟩ := Change.zone_of_scope? hs
  unfold plan
  simp only [h1, h2]
  exact planZone_of_newer hl hn

/-- Whether a change that is newer than the last one can be applied does not depend on the table. -/
theorem plan_iff (ht : t.Sound) (hs : c.scope? = some s) (hl : t.lastApplied s = .ok last)
    (hn : ∀ l ∈ last, l < c.id) :
    (∃ ops edit, t.plan c = .ok (.write ops edit)) ↔ c.writes ≠ [] := by
  have ok_iff : ∀ {t : Table} {last : Option ChangeId}, t.lastApplied s = .ok last →
      (∀ l ∈ last, l < c.id) →
      ((∃ ops edit, t.plan c = .ok (.write ops edit)) ↔ ∃ p, t.plan c = .ok p) := by
    intro t last hl hn
    refine ⟨fun ⟨ops, edit, h⟩ => ⟨_, h⟩, fun ⟨p, h⟩ => ?_⟩
    obtain ⟨s', last', h1, h2, ⟨l, rfl, h3, -⟩ | ⟨-, ops, edit, rfl, -⟩⟩ := plan_ok h
    · cases hs.symm.trans h1
      cases Except.ok.inj (hl.symm.trans h2)
      exact absurd h3 (by simpa using hn l rfl)
    · exact ⟨ops, edit, h⟩
  have h1 : empty.lastApplied s = .ok none := by
    cases s <;> rfl
  rw [writes_ne_nil_iff, ok_iff hl hn, ok_iff h1 (by simp)]
  cases s with
  | zone z => rw [plan_zone hs hl hn]
  | rule id =>
    obtain ⟨f, h3, h4, rfl⟩ := Change.rule_of_scope? hs
    unfold plan
    simp only [h3, h4]
    exact planFirewall_of_newer ht hl hn

/-- A change that was planned for some table is stale once one is applied that is no older. -/
theorem plan_of_older {l : ChangeId} {p : Plan} (hu : u.plan c = .ok p) (hs : c.scope? = some s)
    (hl : t.lastApplied s = .ok (some l)) (hle : c.id ≤ l) : t.plan c = .ok (.stale l) := by
  have stale : ∀ p, unlessStale c.id (some l) p = .ok (.stale l) := fun p => if_pos hle
  cases s with
  | zone z =>
    obtain ⟨zc, h1, h2, rfl⟩ := Change.zone_of_scope? hs
    unfold plan at hu ⊢
    simp only [h1, h2] at hu ⊢
    -- the name of the zone was found legal before anything was read
    obtain ⟨zone, h4, -⟩ := bind_ok hu
    have h5 : t.lastAppliedToZone zone = .ok (some l) := by
      rw [Name.validate_ok (liftRecord_ok h4)]
      exact hl
    unfold planZone
    rw [h4]
    show (liftStore (t.lastAppliedToZone zone) >>= _) = _
    rw [h5]
    exact stale _
  | rule id =>
    obtain ⟨f, h1, h2, rfl⟩ := Change.rule_of_scope? hs
    have h3 : t.lastAppliedToRule f.rule.id = .ok (some l) := hl
    unfold plan
    simp only [h1, h2]
    unfold planFirewall
    rw [h3]
    exact stale _

theorem commit?_iff (ht : t.Sound) (hs : c.scope? = some s) (hl : t.lastApplied s = .ok last)
    (hn : ∀ l ∈ last, l < c.id) : (∃ u, t.commit? c = some u) ↔ c.writes ≠ [] := by
  rw [← plan_iff ht hs hl hn]
  constructor
  · rintro ⟨u, h⟩
    obtain ⟨ops, edit, h1, -⟩ := commit?_eq_some h
    exact ⟨ops, edit, h1⟩
  · rintro ⟨ops, edit, h⟩
    exact ⟨_, commit?_of_plan h⟩

/-! ## What a change leaves -/

theorem after_of_touched {ops : List Op} (h : ∃ op ∈ ops, op.touches k = true)
    (old old' : Option Octets) : Op.after k ops old = Op.after k ops old' := by
  induction ops generalizing old old' with
  | nil =>
    obtain ⟨op, h1, -⟩ := h
    cases h1
  | cons op ops ih =>
    by_cases h1 : op.touches k = true
    · exact Op.after_eq_of_touched h1 old'
    · obtain ⟨op', h2, h3⟩ := h
      rcases List.mem_cons.1 h2 with rfl | h2
      · exact absurd h3 h1
      · rw [Op.after_cons, Op.after_cons]
        exact ih ⟨op', h2, h3⟩ _ _

/-- A domain that the stored rule does not name is not kept. -/
theorem Sound.domain_eq_none (ht : t.Sound) {previous : Option StoredRule}
    (hp : t.rule id = .ok previous) (d : String)
    (hk : Key.domain d id ∉ previous.toList.flatMap domainKeys) :
    t.get? (Key.domain d id) = none := by
  by_contra h
  obtain ⟨r, h1, h2⟩ := (ht.domain _ (Key.has_domain d id)).1 (Option.isSome_iff_ne_none.2 h)
  obtain ⟨e, -, h3⟩ := List.mem_map.1 h2
  -- the rule that has the domain is the stored one
  have h4 := rule_of_stores h1
  rw [(Key.domain_inj.1 h3).2, hp] at h4
  rw [Except.ok.inj h4] at hk
  exact hk (List.mem_flatMap.2 ⟨r, List.mem_singleton.2 rfl, h2⟩)

theorem decides_zone {z : String} (hs : c.scope? = some (.zone z)) :
    c.Decides k ↔ ∃ op ∈ c.writes, op.touches k = true := by
  unfold Change.Decides
  rw [hs]

theorem decides_rule (hs : c.scope? = some (.rule id)) :
    c.Decides k ↔ c.writes ≠ [] ∧ (Scope.rule id).owns k := by
  unfold Change.Decides
  rw [hs]

theorem get?_putRule {r : StoredRule} {previous : Option StoredRule} (ht : t.Sound)
    (hp : t.rule r.rule.id = .ok previous) (i : ChangeId) (hk : (Scope.rule r.rule.id).owns k) :
    Op.after k (Op.putRule previous r i) (t.get? k) = Op.after k (Op.putRule none r i) none := by
  rw [after_putRule, after_putRule]
  split_ifs with h1 h2 h3 h4 h5 h6
  · rfl
  · rfl
  · rfl
  · cases h5
  · rfl
  · cases h6
  · rcases hk with rfl | ⟨d, rfl⟩ | rfl
    · exact absurd rfl h3
    · exact ht.domain_eq_none hp d h4
    · exact absurd rfl h1

theorem get?_deleteRule {previous : Option StoredRule} (ht : t.Sound)
    (hp : t.rule id = .ok previous) (i : ChangeId) (hk : (Scope.rule id).owns k) :
    Op.after k (Op.deleteRule previous id i) (t.get? k) =
      Op.after k (Op.deleteRule none id i) none := by
  obtain ⟨h1, h2⟩ := ht.previous_eq hp
  rw [after_deleteRule, after_deleteRule none, map_domainsOf h2, map_domainsOf (by simp)]
  simp only [Option.toList_none, List.flatMap_nil, List.not_mem_nil, if_false, Option.isSome_none,
    Bool.false_eq_true, and_false]
  split_ifs with h3 h4 h5
  · rfl
  · rfl
  · rfl
  · rcases hk with rfl | ⟨d, rfl⟩ | rfl
    · cases previous with
      | none => exact h1
      | some p => exact absurd ⟨rfl, rfl⟩ h5
    · exact ht.domain_eq_none hp d h4
    · exact absurd rfl h3

/-- **What a change leaves does not depend on the table**: a key it decides about has afterwards
what the change alone would leave there, and another key has what it had before. -/
theorem get?_commit (ht : t.Sound) (h : t.commit? c = some u) :
    (c.Decides k → u.get? k = c.leaves k) ∧ (¬ c.Decides k → u.get? k = t.get? k) := by
  obtain ⟨ops, edit, hp, rfl⟩ := commit?_eq_some h
  obtain ⟨s, last, hs, hl, hn, hw⟩ := plan_write hp
  have hne : c.writes ≠ [] := (plan_iff ht hs hl hn).1 ⟨ops, edit, hp⟩
  cases s with
  | zone z =>
    rw [plan_zone hs hl hn] at hp
    rw [decides_zone hs, get?_run, Change.leaves, writes_of_plan hp]
    exact ⟨fun hd => after_of_touched hd _ _, fun hd => Op.after_of_untouched (by simpa using hd)⟩
  | rule id =>
    rw [decides_rule hs]
    refine ⟨fun hd => ?_, fun hd => writes_owned ht hw hs fun hk => hd ⟨hne, hk⟩⟩
    have h0 : empty.lastApplied (.rule id) = .ok none := rfl
    obtain ⟨ops', edit', hp'⟩ := (plan_iff sound_empty hs h0 (by simp)).2 hne
    obtain ⟨-, -, -, -, -, hw'⟩ := plan_write hp'
    rw [get?_run, Change.leaves, writes_of_plan hp']
    cases hw with
    | edit creates hs' => cases hs.symm.trans hs'
    | deleteZone hs' => cases hs.symm.trans hs'
    | @putRule stored previous hs' hr hp1 =>
      cases hs.symm.trans hs'
      cases hw' with
      | edit creates hs' => cases hs.symm.trans hs'
      | deleteZone hs' => cases hs.symm.trans hs'
      | putRule hs'' hr' hp2 =>
        cases hr.symm.trans hr'
        cases hp2
        exact get?_putRule ht hp1 c.id hd.2
      | deleteRule hs'' hf ha => cases hr.symm.trans (Change.newRule?_of_delete hf ha)
    | @deleteRule id f previous hs' hf ha hp1 =>
      cases hs.symm.trans hs'
      cases hw' with
      | edit creates hs' => cases hs.symm.trans hs'
      | deleteZone hs' => cases hs.symm.trans hs'
      | putRule hs'' hr' => cases hr'.symm.trans (Change.newRule?_of_delete hf ha)
      | deleteRule hs'' hf' ha' hp2 =>
        cases hs.symm.trans hs''
        cases hp2
        exact get?_deleteRule ht hp1 c.id hd.2

/-! ## Histories -/

/-- These changes have been committed to the table, one after the other, and no other. -/
inductive History : List Change → Table → Prop
  | empty : History [] Table.empty
  | commit {cs : List Change} {t u : Table} {c : Change} (h : History cs t)
      (hc : t.commit? c = some u) : History (cs ++ [c]) u

theorem sound_commit (ht : t.Sound) (h : t.commit? c = some u) : u.Sound := by
  obtain ⟨ops, edit, hp, rfl⟩ := commit?_eq_some h
  obtain ⟨-, -, -, -, -, hw⟩ := plan_write hp
  exact sound_writes ht hw

/-- The scopes of changes are told apart by what was last applied to them. -/
theorem appliedKey_inj {v : Scope} (hc : c.scope? = some s) (hd : d.scope? = some v) :
    s.appliedKey = v.appliedKey ↔ s = v := by
  refine ⟨fun h => ?_, fun h => h ▸ rfl⟩
  cases s with
  | zone y =>
    cases v with
    | zone z =>
      obtain ⟨yc, -, -, rfl⟩ := Change.zone_of_scope? hc
      obtain ⟨zc, -, -, rfl⟩ := Change.zone_of_scope? hd
      have h1 := Key.appliedZone_inj.1 h
      rw [Name.normalize_normalize, Name.normalize_normalize] at h1
      rw [h1]
    | rule j => exact absurd h (Key.ne_of_family (Key.has_appliedZone y) (Key.has_appliedRule j)
        (by decide))
  | rule i =>
    cases v with
    | zone z => exact absurd h (Key.ne_of_family (Key.has_appliedRule i) (Key.has_appliedZone z)
        (by decide))
    | rule j => exact congrArg Scope.rule (Key.appliedRule_inj.1 h)

theorem lastApplied_congr (h : u.get? s.appliedKey = t.get? s.appliedKey) :
    u.lastApplied s = t.lastApplied s := by
  rw [lastApplied_eq, lastApplied_eq]
  unfold read
  rw [h]

/-- **A commit moves what was last applied to the change's own scope forward**, and no other. -/
theorem lastApplied_commit (ht : t.Sound) (h : t.commit? c = some u) :
    ∃ s last, c.scope? = some s ∧ t.lastApplied s = .ok last ∧ (∀ l ∈ last, l < c.id) ∧
      u.lastApplied s = .ok (some c.id) ∧
      ∀ d v, Change.scope? d = some v → v ≠ s → u.lastApplied v = t.lastApplied v := by
  obtain ⟨ops, edit, hp, rfl⟩ := commit?_eq_some h
  obtain ⟨s, last, hs, hl, hn, hw⟩ := plan_write hp
  refine ⟨s, last, hs, hl, hn, ?_, fun d v hd hv => ?_⟩
  · exact lastApplied_of_get? (writes_applied hw hs)
  · refine lastApplied_congr ?_
    rw [applied_writes ht hw hs, if_neg fun h1 => hv ((appliedKey_inj hd hs).1 h1)]

namespace History

theorem sound (h : History cs t) : t.Sound := by
  induction h with
  | empty => exact sound_empty
  | commit _ hc ih => exact sound_commit ih hc

/-- What was last applied to a scope is the newest change to it in the history. -/
theorem lastApplied (h : History cs t) (hd : d.scope? = some s) :
    (t.lastApplied s = .ok none ∧ ∀ c ∈ cs, c.scope? ≠ some s) ∨
      ∃ c ∈ cs, c.scope? = some s ∧ t.lastApplied s = .ok (some c.id) ∧
        ∀ b ∈ cs, b.scope? = some s → b.id ≤ c.id := by
  induction h with
  | empty => exact Or.inl ⟨by cases s <;> rfl, by simp⟩
  | @commit cs t u c h hc ih =>
    obtain ⟨v, last, hs, hl, hn, hu, hf⟩ := lastApplied_commit h.sound hc
    by_cases hv : s = v
    · subst hv
      refine Or.inr ⟨c, by simp, hs, hu, fun b hb hbs => ?_⟩
      rcases List.mem_append.1 hb with hb | hb
      · rcases ih with ⟨-, h1⟩ | ⟨a, -, -, h1, h2⟩
        · exact absurd hbs (h1 b hb)
        · have h3 := hn a.id (by rw [← Except.ok.inj (h1.symm.trans hl)]; rfl)
          have h4 := h2 b hb hbs
          exact UInt64.le_of_lt (UInt64.lt_of_le_of_lt h4 h3)
      · rw [List.mem_singleton.1 hb]
        exact UInt64.le_refl _
    · have hcs : c.scope? ≠ some s := fun h1 => hv (Option.some.inj (h1.symm.trans hs))
      rw [hf d s hd hv]
      rcases ih with ⟨h1, h2⟩ | ⟨a, h1, h2, h3, h4⟩
      · refine Or.inl ⟨h1, fun b hb => ?_⟩
        rcases List.mem_append.1 hb with hb | hb
        · exact h2 b hb
        · rwa [List.mem_singleton.1 hb]
      · refine Or.inr ⟨a, List.mem_append_left _ h1, h2, h3, fun b hb hbs => ?_⟩
        rcases List.mem_append.1 hb with hb | hb
        · exact h4 b hb hbs
        · rw [List.mem_singleton.1 hb] at hbs
          exact absurd hbs hcs

/-- **A change that can be applied is planned**, unless one that is no older was committed. -/
theorem plan_or_stale (h : History cs t) (hw : d.writes ≠ []) :
    (∃ c ∈ cs, c.scope? = d.scope? ∧ d.id ≤ c.id ∧ t.plan d = .ok (.stale c.id)) ∨
      (∀ c ∈ cs, c.scope? = d.scope? → c.id < d.id) ∧
        ∃ ops edit, t.plan d = .ok (.write ops edit) := by
  obtain ⟨ops, edit, hp⟩ := writes_ne_nil_iff.1 hw
  obtain ⟨s, -, hs, -⟩ := plan_write hp
  rcases h.lastApplied hs with ⟨hl, hnone⟩ | ⟨b, hb, hbs, hl, hmax⟩
  · refine Or.inr ⟨fun c hc hcd => ?_, (plan_iff h.sound hs hl (by simp)).2 hw⟩
    exact absurd (hcd.trans hs) (hnone c hc)
  · by_cases hle : d.id ≤ b.id
    · exact Or.inl ⟨b, hb, hbs.trans hs.symm, hle, plan_of_older hp hs hl hle⟩
    · have hnew : b.id < d.id := UInt64.not_le.1 hle
      refine Or.inr ⟨fun c hc hcd => ?_, (plan_iff h.sound hs hl (by simpa using hnew)).2 hw⟩
      exact UInt64.lt_of_le_of_lt (hmax c hc (hcd.trans hs)) hnew

/-- **The changes to one zone or rule were committed in order.** -/
theorem rising (h : History cs t) : cs.Pairwise fun a b => a.scope? = b.scope? → a.id < b.id := by
  induction h with
  | empty => exact List.Pairwise.nil
  | @commit cs t u c h hc ih =>
    refine List.pairwise_append.2 ⟨ih, List.pairwise_singleton _ _, fun a ha b hb hab => ?_⟩
    rw [List.mem_singleton.1 hb] at hab ⊢
    obtain ⟨s, last, hs, hl, hn, -⟩ := lastApplied_commit h.sound hc
    rw [hs] at hab
    rcases h.lastApplied hs with ⟨-, h1⟩ | ⟨x, -, -, h1, h2⟩
    · exact absurd hab (h1 a ha)
    · -- the newest one before `c` is the one that the table has as the last
      have h3 := hn x.id (by rw [← Except.ok.inj (h1.symm.trans hl)]; rfl)
      exact UInt64.lt_of_le_of_lt (h2 a ha hab) h3

theorem writes_ne_nil (h : History cs t) : ∀ c ∈ cs, c.writes ≠ [] := by
  induction h with
  | empty => simp
  | @commit cs t u c h hc ih =>
    intro a ha
    rcases List.mem_append.1 ha with ha | ha
    · exact ih a ha
    · rw [List.mem_singleton.1 ha]
      obtain ⟨s, last, hs, hl, hn, -⟩ := lastApplied_commit h.sound hc
      exact (commit?_iff h.sound hs hl hn).1 ⟨u, hc⟩

/-- **A key has what the last change to decide about it left there**, if there is one. -/
theorem get?_last (h : History cs t) (k : String) :
    (t.get? k = none ∧ ∀ c ∈ cs, ¬ c.Decides k) ∨
      ∃ l c r, cs = l ++ c :: r ∧ c.Decides k ∧ t.get? k = c.leaves k ∧ ∀ d ∈ r, ¬ d.Decides k := by
  induction h with
  | empty => exact Or.inl ⟨rfl, by simp⟩
  | @commit cs t u c h hc ih =>
    obtain ⟨h1, h2⟩ := get?_commit (k := k) h.sound hc
    by_cases hd : c.Decides k
    · exact Or.inr ⟨cs, c, [], rfl, hd, h1 hd, by simp⟩
    · rw [h2 hd]
      rcases ih with ⟨h3, h4⟩ | ⟨l, a, r, rfl, h3, h4, h5⟩
      · refine Or.inl ⟨h3, fun a ha => ?_⟩
        rcases List.mem_append.1 ha with ha | ha
        · exact h4 a ha
        · rwa [List.mem_singleton.1 ha]
      · refine Or.inr ⟨l, a, r ++ [c], by simp, h3, h4, fun b hb => ?_⟩
        rcases List.mem_append.1 hb with hb | hb
        · exact h5 b hb
        · rwa [List.mem_singleton.1 hb]

/-! ## What changes have in common -/

variable {all : List Change}

theorem writes_ne_nil_of_decides (h : c.Decides k) : c.writes ≠ [] := by
  unfold Change.Decides at h
  split at h
  · exact h.1
  · obtain ⟨op, h1, -⟩ := h
    exact List.ne_nil_of_mem h1

/-- Identities tell changes apart. -/
theorem eq_of_id_eq {a b : Change} (ha : all.Pairwise (·.id < ·.id)) (h : a ∈ all) (h' : b ∈ all)
    (he : a.id = b.id) : a = b := by
  have h1 : (all.map (·.id)).Nodup := by
    rw [List.Nodup, List.pairwise_map]
    exact ha.imp fun h2 => UInt64.ne_of_lt h2
  exact List.inj_on_of_nodup_map h1 h h' he

/-- A change decides only about keys of the zone or rule that it is about. -/
theorem owns_of_decides (h : c.Decides k) : ∃ s, c.scope? = some s ∧ s.owns k := by
  obtain ⟨ops, edit, hp⟩ := writes_ne_nil_iff.1 (writes_ne_nil_of_decides h)
  obtain ⟨s, -, hs, -, -, hw⟩ := plan_write hp
  refine ⟨s, hs, ?_⟩
  cases s with
  | rule id => exact ((decides_rule hs).1 h).2
  | zone z =>
    obtain ⟨op, h1, h2⟩ := (decides_zone hs).1 h
    rw [writes_of_plan hp] at h1
    cases hw with
    | @edit zone creates z steps hs' hn hc =>
      cases hs.symm.trans hs'
      rcases List.mem_cons.1 h1 with rfl | h1
      · exact Or.inr (Or.inr (beq_iff_eq.1 h2))
      · rcases List.mem_append.1 h1 with h1 | h1
        · cases creates with
          | false => cases h1
          | true =>
            rw [List.mem_singleton.1 h1] at h2
            exact Or.inl (beq_iff_eq.1 h2)
        · by_contra h3
          have h4 := steps_untouched hc (fun h5 => h3 (Or.inr (Or.inl h5))) op h1
          rw [h2] at h4
          cases h4
    | deleteZone hs' hn =>
      cases hs.symm.trans hs'
      unfold Op.deleteZone at h1
      simp only [List.mem_cons, List.not_mem_nil, or_false] at h1
      rcases h1 with rfl | rfl | rfl
      · exact Or.inl (beq_iff_eq.1 h2)
      · exact Or.inr (Or.inl h2)
      · exact Or.inr (Or.inr (beq_iff_eq.1 h2))
    | putRule hs' => cases hs.symm.trans hs'
    | deleteRule hs' => cases hs.symm.trans hs'

/-- No two rules share a key. -/
theorem rule_owner_unique {s : Scope} {id : RuleId} (h : (Scope.rule id).owns k) (h' : s.owns k) :
    s = .rule id := by
  cases s with
  | zone z =>
    rcases Scope.rule_owns h with h1 | h1 | h1
    · exact absurd h' (Scope.zone_not_owns h1 (by decide) (by decide) (by decide))
    · exact absurd h' (Scope.zone_not_owns h1 (by decide) (by decide) (by decide))
    · exact absurd h' (Scope.zone_not_owns h1 (by decide) (by decide) (by decide))
  | rule j =>
    rcases h with rfl | ⟨d, rfl⟩ | rfl
    · by_contra hne
      exact rule_key_not_owned (fun h1 : id = j => hne (by rw [h1])) h'
    · rcases h' with h1 | ⟨e, h1⟩ | h1
      · exact absurd h1 (Key.ne_of_family (Key.has_domain d id) (Key.has_rule j) (by decide))
      · rw [(Key.domain_inj.1 h1).2]
      · exact absurd h1 (Key.ne_of_family (Key.has_domain d id) (Key.has_appliedRule j) (by decide))
    · rw [← Key.appliedRule_inj.1 (Scope.appliedKey_of_owns (u := .rule id) h')]

end History

end Table

end ZoneRelay
