import ZoneRelay.Proofs.Resolver.Proper
import ZoneRelay.Proofs.Trie.Longest
import ZoneRelay.Resolver.Query

/-!
# What a query is answered

A resolver answers from its tries and its store. What it answers is a matter of the store alone: of
the zone that encloses the name most closely, and of the rule that wins among those that list the
most specific domain matching the name.

* `Table.Leads`, `Table.Wins`, `Table.Intercepts`: the domain and the rule that decide about a name,
  and what the rule answers.
* `Table.Encloses`, `Table.ZoneAnswers`: the zone of a name, and what it answers.
* `Table.Answers`: the answer, with the rules before or after the zone.
* `Table.ZoneAnswersOver`, `Table.WinsOver`: zone and rule, if the tries are those of one table and
  what is read is another one.
* `Rule.winner?_cases`: the rule that wins is the least one.
* `Resolver.query_answers`: every query has this answer.
-/

namespace ZoneRelay

/-- Whether `r` comes no later than `s`: by priority, then by identity. -/
def Rule.NoLater (r s : Rule) : Prop :=
  r.priority < s.priority ∨ (r.priority = s.priority ∧ r.id ≤ s.id)

/-! ## The answer, from the table alone -/

namespace Table

/-- The domain that decides about a name: the most specific one of a stored rule that matches. -/
structure Leads (t : Table) (qname domain : String) : Prop where
  listed : ∃ r, t.Stores r ∧ domain ∈ r.rule.normalizedDomains
  matching : Name.Matches true domain qname
  first : ∀ r d, t.Stores r → d ∈ r.rule.normalizedDomains → Name.Matches true d qname →
    d = domain ∨ Name.Precedes qname domain d

/-- The rule that decides about a name: the one with the least priority, and of those the one with
the least identity, among all stored rules that list the domain that decides. -/
def Wins (t : Table) (qname : String) (r : StoredRule) : Prop :=
  ∃ d, t.Leads qname d ∧ t.Stores r ∧ d ∈ r.rule.normalizedDomains ∧
    ∀ s, t.Stores s → d ∈ s.rule.normalizedDomains → r.rule.NoLater s.rule

/-- What the rule that decides about a name answers. -/
inductive Intercepts (t : Table) (qname : String) (qtype : RecordType) : Resolution → Prop
  /-- Its records of the type asked for, under the name asked for. -/
  | override {r : StoredRule} {records : List RecordSet} (h : t.Wins qname r)
      (ha : r.rule.action = .override records) :
      Intercepts t qname qtype
        { answer := (r.answer.filter (·.type == qtype)).map fun w => { w with name := qname }
          authority := [], rcode := .noError, matched := true, firewallRule := some r.rule.id }
  | noData {r : StoredRule} (h : t.Wins qname r) (ha : r.rule.action = .noData) :
      Intercepts t qname qtype
        { answer := [], authority := [], rcode := .noError, matched := true
          firewallRule := some r.rule.id }
  | nxDomain {r : StoredRule} (h : t.Wins qname r) (ha : r.rule.action = .nxDomain) :
      Intercepts t qname qtype
        { answer := [], authority := [], rcode := .nxDomain, matched := true
          firewallRule := some r.rule.id }

/-- The zone that encloses a name most closely. -/
structure Encloses (t : Table) (qname zone : String) : Prop where
  normal : Name.normalize zone = zone
  marked : t.zoneExists zone
  within : Name.isWithin qname zone
  closest : ∀ z, t.zoneExists z → Name.isWithin qname z →
    (Name.path z).length ≤ (Name.path zone).length

/-- What the zone that encloses a name most closely answers. -/
inductive ZoneAnswers (t : Table) (qname : String) (qtype : RecordType) : Resolution → Prop
  /-- No zone encloses the name. -/
  | outside (h : ∀ z, t.zoneExists z → ¬ Name.isWithin qname z) :
      ZoneAnswers t qname qtype
        { answer := [], authority := [], rcode := .noError, matched := false
          firewallRule := none }
  /-- The whole record set of the type asked for. -/
  | found {zone : String} {records : List WireRecord} (h : t.Encloses qname zone)
      (hr : t.recordSet zone qname qtype = .ok (some records)) :
      ZoneAnswers t qname qtype
        { answer := records, authority := [], rcode := .noError, matched := true
          firewallRule := none }
  /-- There is no such record set; the authority is that of the zone, if it has one. -/
  | missing {zone : String} {authority : Option (List WireRecord)} (h : t.Encloses qname zone)
      (hr : t.recordSet zone qname qtype = .ok none)
      (ha : t.recordSet zone zone .soa = .ok authority) :
      ZoneAnswers t qname qtype
        { answer := [], authority := authority.getD [], rcode := .nxDomain, matched := true
          firewallRule := none }

/-- **The answer to a query.** -/
inductive Answers (t : Table) (qname : String) (qtype : RecordType) :
    FirewallOrder → Resolution → Prop
  | rule {x : Resolution} (h : t.Intercepts qname qtype x) : Answers t qname qtype .beforeZone x
  | noRule {x : Resolution} (h : ∀ y, ¬ t.Intercepts qname qtype y)
      (hz : t.ZoneAnswers qname qtype x) : Answers t qname qtype .beforeZone x
  | zone {x : Resolution} (hz : t.ZoneAnswers qname qtype x)
      (ha : x.matched = true ∧ x.rcode = .noError ∧ x.answer ≠ []) :
      Answers t qname qtype .afterZone x
  | ruleAfter {x y : Resolution} (hz : t.ZoneAnswers qname qtype y)
      (ha : ¬ (y.matched = true ∧ y.rcode = .noError ∧ y.answer ≠ []))
      (h : t.Intercepts qname qtype x) : Answers t qname qtype .afterZone x
  | noRuleAfter {x : Resolution} (hz : t.ZoneAnswers qname qtype x)
      (ha : ¬ (x.matched = true ∧ x.rcode = .noError ∧ x.answer ≠ []))
      (h : ∀ y, ¬ t.Intercepts qname qtype y) : Answers t qname qtype .afterZone x

/-! ## The tries of one table over another -/

/-- What the zone that encloses a name most closely in `t` answers from the record sets of `u`. -/
inductive ZoneAnswersOver (t u : Table) (qname : String) (qtype : RecordType) : Resolution → Prop
  | outside (h : ∀ z, t.zoneExists z → ¬ Name.isWithin qname z) :
      ZoneAnswersOver t u qname qtype
        { answer := [], authority := [], rcode := .noError, matched := false
          firewallRule := none }
  | found {zone : String} {records : List WireRecord} (h : t.Encloses qname zone)
      (hr : u.recordSet zone qname qtype = .ok (some records)) :
      ZoneAnswersOver t u qname qtype
        { answer := records, authority := [], rcode := .noError, matched := true
          firewallRule := none }
  | missing {zone : String} {authority : Option (List WireRecord)} (h : t.Encloses qname zone)
      (hr : u.recordSet zone qname qtype = .ok none)
      (ha : u.recordSet zone zone .soa = .ok authority) :
      ZoneAnswersOver t u qname qtype
        { answer := [], authority := authority.getD [], rcode := .nxDomain, matched := true
          firewallRule := none }

/-- The rule of `u` that wins among those that `t` has under the domain that decides in `t`. -/
def WinsOver (t u : Table) (qname : String) (r : StoredRule) : Prop :=
  ∃ d, t.Leads qname d ∧ u.Stores r ∧ Index.Names t d r.rule.id ∧
    ∀ s, u.Stores s → Index.Names t d s.rule.id → r.rule.NoLater s.rule

end Table

/-! ## The rule that wins -/

namespace Rule

variable {α : Type} {r s u : Rule}

theorem noLater_iff : r.NoLater s ↔ s.before r = false := by
  unfold NoLater before
  simp only [Bool.or_eq_false_iff, decide_eq_false_iff_not, Bool.and_eq_false_iff,
    beq_eq_false_iff_ne, ne_eq, ← UInt32.toNat_inj, UInt32.lt_iff_toNat_lt, UInt64.lt_iff_toNat_lt,
    UInt64.le_iff_toNat_le]
  omega

theorem NoLater.refl (r : Rule) : r.NoLater r :=
  Or.inr ⟨rfl, UInt64.le_refl _⟩

theorem NoLater.trans (h : r.NoLater s) (h' : s.NoLater u) : r.NoLater u := by
  unfold NoLater at h h' ⊢
  simp only [← UInt32.toNat_inj, UInt32.lt_iff_toNat_lt, UInt64.le_iff_toNat_le] at h h' ⊢
  omega

/-- Two rules that come no later than each other have one identity. -/
theorem NoLater.antisymm (h : r.NoLater s) (h' : s.NoLater r) : r.id = s.id := by
  unfold NoLater at h h'
  simp only [← UInt32.toNat_inj, UInt32.lt_iff_toNat_lt, UInt64.le_iff_toNat_le] at h h'
  rw [← UInt64.toNat_inj]
  omega

theorem noLater_of_before (h : r.before s = true) : r.NoLater s := by
  unfold before at h
  unfold NoLater
  simp only [Bool.or_eq_true, decide_eq_true_eq, Bool.and_eq_true, beq_iff_eq,
    ← UInt32.toNat_inj, UInt32.lt_iff_toNat_lt, UInt64.lt_iff_toNat_lt,
    UInt64.le_iff_toNat_le] at h ⊢
  omega

/-- **The rule that wins comes no later than any other.** -/
theorem winner?_cases (rule : α → Rule) (l : List α) :
    (l = [] ∧ winner? rule l = none) ∨
      ∃ x ∈ l, winner? rule l = some x ∧ ∀ y ∈ l, (rule x).NoLater (rule y) := by
  induction l with
  | nil => exact Or.inl ⟨rfl, rfl⟩
  | cons x l ih =>
    right
    rcases ih with ⟨rfl, h1⟩ | ⟨y, hy, h1, h2⟩
    · refine ⟨x, List.mem_cons_self, by rw [winner?, h1], fun z hz => ?_⟩
      rw [List.mem_singleton.1 hz]
      exact NoLater.refl _
    · by_cases hyx : (rule y).before (rule x) = true
      · refine ⟨y, List.mem_cons_of_mem _ hy, by simp [winner?, h1, hyx], fun z hz => ?_⟩
        rcases List.mem_cons.1 hz with rfl | hz
        · exact noLater_of_before hyx
        · exact h2 z hz
      · have hxy : (rule x).NoLater (rule y) := noLater_iff.2 (by simpa using hyx)
        refine ⟨x, List.mem_cons_self, by simp [winner?, h1, hyx], fun z hz => ?_⟩
        rcases List.mem_cons.1 hz with rfl | hz
        · exact NoLater.refl _
        · exact hxy.trans (h2 z hz)

end Rule

/-! ## Tries that match by their policies -/

namespace Index

/-- The trie of zones matches exactly, that of rules by wildcards too. -/
structure Standard (i : Index) : Prop where
  zones : i.zones.policy = ⟨false, false⟩
  rules : i.rules.policy = ⟨true, true⟩

theorem policy_addRule (rules : Trie RuleId) (id : RuleId) (ds : List String) :
    (addRule rules id ds).policy = rules.policy := by
  induction ds generalizing rules with
  | nil => rfl
  | cons d ds ih => rw [addRule_cons, ih, Trie.policy_insert]

theorem policy_dropRule (rules : Trie RuleId) (id : RuleId) (ds : List String) :
    (dropRule rules id ds).policy = rules.policy := by
  induction ds generalizing rules with
  | nil => rfl
  | cons d ds ih => rw [dropRule_cons, ih, Trie.removeValue_snd, Trie.policy_alter]

theorem standard_edit {i : Index} (h : i.Standard) (e : IndexEdit) : (i.edit e).Standard := by
  cases e with
  | keep => exact h
  | addZone zone =>
    rw [edit_addZone]
    refine ⟨?_, h.rules⟩
    rw [Trie.policy_insert]
    exact h.zones
  | dropZone zone =>
    rw [edit_dropZone]
    refine ⟨?_, h.rules⟩
    rw [Trie.remove_snd, Trie.policy_alter]
    exact h.zones
  | moveRule id old new =>
    rw [edit_moveRule]
    refine ⟨h.zones, ?_⟩
    rw [policy_addRule, policy_dropRule]
    exact h.rules

end Index

namespace Resolver

theorem standard_run {r : Resolver} (h : r.index.Standard) (events : List Event) :
    (r.run events).index.Standard := by
  induction events generalizing r with
  | nil => exact h
  | cons e events ih =>
    refine ih ?_
    cases e with
    | apply c =>
      rcases r.apply_cases c with ⟨ops, edit, -, -, -, h1⟩ | ⟨-, -, h1⟩
      · show (r.apply c).2.index.Standard
        rw [h1]
        exact Index.standard_edit h edit
      · show (r.apply c).2.index.Standard
        rwa [h1]
    | failCommits n => exact h
    | mount disk => exact h

/-- The tries are those of the table, and the table can be read. -/
structure Intact (r : Resolver) : Prop where
  consistent : r.Consistent
  proper : r.store.table.Proper
  standard : r.index.Standard

theorem intact_act {r : Resolver} (h : r.Intact) (e : Event) : (r.act e).Intact :=
  ⟨consistent_act h.consistent e, proper_act h.consistent h.proper e, standard_run h.standard [e]⟩

theorem intact_run (s : Store) (events : List Event) : ((blank s).run events).Intact :=
  ⟨consistent_run (consistent_blank s) events,
    proper_run (consistent_blank s) Table.proper_empty events, standard_run ⟨rfl, rfl⟩ events⟩

end Resolver

namespace Table

variable {t u : Table} {i : Index} {qname d e : String} {r s : StoredRule} {x y : Resolution}
  {qtype : RecordType}

/-! ## The zone -/

theorem Encloses.unique {z w : String} (h : t.Encloses qname z) (h' : t.Encloses qname w) :
    z = w := by
  have h1 := h.closest w h'.marked h'.within
  have h2 := h'.closest z h.marked h.within
  have h3 : Name.path z <+: Name.path w :=
    List.prefix_of_prefix_length_le (Name.isWithin_iff.1 h.within) (Name.isWithin_iff.1 h'.within) h2
  have h4 := Name.path_inj (h3.eq_of_length (by omega))
  rwa [h.normal, h'.normal] at h4

/-- The zone found in the trie is the one that encloses the name most closely. -/
theorem find_zone (hi : i.zones.Holds fun n => t.zoneExists n) (hp : i.zones.policy = ⟨false, false⟩)
    (qname : String) :
    (i.zones.find qname = [] ∧ ∀ z, t.zoneExists z → ¬ Name.isWithin qname z) ∨
      ∃ z, i.zones.find qname = [z] ∧ t.Encloses qname z := by
  have matching : ∀ z, Name.Matches i.zones.policy.wildcard z qname ↔ Name.isWithin qname z := by
    intro z
    rw [hp]
    simp [Name.Matches]
  have kept : ∀ z, t.zoneExists z → i.zones.get z = [Name.normalize z] := by
    intro z hz
    exact hi.own z (by rwa [zoneExists_normalize])
  rcases Trie.find_cases hi.tidy qname with ⟨h1, h2⟩ | ⟨z, h1, h2, h3, h4⟩
  · refine Or.inl ⟨h1, fun z hz hw => ?_⟩
    have h5 := h2 z ((matching z).2 hw)
    rw [kept z hz] at h5
    cases h5
  · have hz : t.zoneExists z := by
      by_contra h5
      exact h2 (hi.none z (by rwa [zoneExists_normalize]))
    refine Or.inr ⟨Name.normalize z, by rw [h3, kept z hz], Name.normalize_normalize z, ?_, ?_, ?_⟩
    · rwa [zoneExists_normalize]
    · rw [Name.isWithin_iff, Name.path_normalize]
      exact Name.isWithin_iff.1 ((matching z).1 h1)
    · intro w hw hwithin
      rw [Name.path_normalize]
      rcases h4 w ((matching w).2 hwithin) (by rw [kept w hw]; simp) with h5 | h5 | ⟨h5, -, -⟩
      · rw [Name.path_eq_iff.2 h5]
      · omega
      · omega

theorem zoneAnswersOver_self :
    t.ZoneAnswersOver t qname qtype x ↔ t.ZoneAnswers qname qtype x := by
  constructor
  · intro h
    cases h with
    | outside h => exact .outside h
    | found h hr => exact .found h hr
    | missing h hr ha => exact .missing h hr ha
  · intro h
    cases h with
    | outside h => exact .outside h
    | found h hr => exact .found h hr
    | missing h hr ha => exact .missing h hr ha

/-- The answer of the zone found in the trie, from any table. -/
theorem authoritative_over (hu : u.Proper) (hi : i.zones.Holds fun n => t.zoneExists n)
    (hp : i.zones.policy = ⟨false, false⟩) (qname : String) (qtype : RecordType) :
    ∃ x, authoritative u i.zones qname qtype = .ok x ∧ t.ZoneAnswersOver u qname qtype x := by
  unfold authoritative
  rcases find_zone hi hp qname with ⟨h1, h2⟩ | ⟨z, h1, h2⟩
  · rw [h1]
    exact ⟨.notAuthoritative, rfl, .outside h2⟩
  · obtain ⟨records, h3⟩ := hu.recordSet_ok z qname qtype
    obtain ⟨soa, h4⟩ := hu.recordSet_ok z z .soa
    rw [h1, List.head?_cons]
    simp only [h3, h4, bind, Except.bind]
    cases records with
    | some records => exact ⟨_, rfl, .found h2 h3⟩
    | none => exact ⟨_, rfl, .missing h2 h3 h4⟩

/-- The answer of the zone found in the trie. -/
theorem authoritative_cases (ht : t.Proper) (hi : i.zones.Holds fun n => t.zoneExists n)
    (hp : i.zones.policy = ⟨false, false⟩) (qname : String) (qtype : RecordType) :
    ∃ x, authoritative t i.zones qname qtype = .ok x ∧ t.ZoneAnswers qname qtype x := by
  obtain ⟨x, h1, h2⟩ := authoritative_over ht hi hp qname qtype
  exact ⟨x, h1, zoneAnswersOver_self.1 h2⟩

theorem ZoneAnswersOver.unique (h : t.ZoneAnswersOver u qname qtype x)
    (h' : t.ZoneAnswersOver u qname qtype y) : x = y := by
  cases h with
  | outside h =>
    cases h' with
    | outside h' => rfl
    | found h' => exact absurd h'.within (h _ h'.marked)
    | missing h' => exact absurd h'.within (h _ h'.marked)
  | found h hr =>
    cases h' with
    | outside h' => exact absurd h.within (h' _ h.marked)
    | found h' hr' =>
      rw [h.unique h', hr'] at hr
      cases hr
      rfl
    | missing h' hr' =>
      rw [h.unique h', hr'] at hr
      cases hr
  | missing h hr ha =>
    cases h' with
    | outside h' => exact absurd h.within (h' _ h.marked)
    | found h' hr' =>
      rw [h.unique h', hr'] at hr
      cases hr
    | missing h' hr' ha' =>
      rw [h.unique h', ha'] at ha
      cases ha
      rfl

/-- The zone has one answer. -/
theorem ZoneAnswers.unique (h : t.ZoneAnswers qname qtype x) (h' : t.ZoneAnswers qname qtype y) :
    x = y :=
  (zoneAnswersOver_self.2 h).unique (zoneAnswersOver_self.2 h')

/-! ## The rule -/

theorem Leads.unique (h : t.Leads qname d) (h' : t.Leads qname e) : d = e := by
  obtain ⟨r, hr, hd⟩ := h.listed
  obtain ⟨s, hs, he⟩ := h'.listed
  rcases h.first s e hs he h'.matching with h1 | h1
  · exact h1.symm
  · rcases h'.first r d hr hd h.matching with h2 | h2
    · exact h2
    · exact absurd h2 h1.asymm

/-- A stored rule is under the domains that it lists. -/
theorem names_iff (hr : t.Stores r) :
    Index.Names t d r.rule.id ↔ d ∈ r.rule.normalizedDomains := by
  refine ⟨?_, fun h => ⟨r, hr, rfl, h⟩⟩
  rintro ⟨s, hs, he, hd⟩
  rwa [← stores_unique hs hr he]

theorem winsOver_self : t.WinsOver t qname r ↔ t.Wins qname r := by
  constructor
  · rintro ⟨d, h1, h2, h3, h4⟩
    exact ⟨d, h1, h2, (names_iff h2).1 h3, fun s hs hd => h4 s hs ((names_iff hs).2 hd)⟩
  · rintro ⟨d, h1, h2, h3, h4⟩
    exact ⟨d, h1, h2, (names_iff h2).2 h3, fun s hs hd => h4 s hs ((names_iff hs).1 hd)⟩

theorem WinsOver.unique (h : t.WinsOver u qname r) (h' : t.WinsOver u qname s) : r = s := by
  obtain ⟨d, h1, h2, h3, h4⟩ := h
  obtain ⟨e, h1', h2', h3', h4'⟩ := h'
  obtain rfl := h1.unique h1'
  exact stores_unique h2 h2' ((h4 s h2' h3').antisymm (h4' r h2 h3))

theorem Wins.unique (h : t.Wins qname r) (h' : t.Wins qname s) : r = s :=
  (winsOver_self.2 h).unique (winsOver_self.2 h')

/-- What the deciding rule answers is its response. -/
theorem intercepts_iff (hq : Name.normalize qname = qname) :
    t.Intercepts qname qtype x ↔ ∃ r, t.Wins qname r ∧ r.response? qname qtype = some x := by
  constructor
  · intro h
    cases h with
    | @override r records h ha =>
      refine ⟨r, h, ?_⟩
      unfold StoredRule.response? overrideAnswer
      simp only [ha, hq]
    | @noData r h ha => exact ⟨r, h, by simp only [StoredRule.response?, ha]⟩
    | @nxDomain r h ha => exact ⟨r, h, by simp only [StoredRule.response?, ha]⟩
  · rintro ⟨r, h, hr⟩
    unfold StoredRule.response? overrideAnswer at hr
    rw [hq] at hr
    split at hr
    · next records ha =>
      rw [← Option.some.inj hr]
      exact .override h ha
    · next ha =>
      rw [← Option.some.inj hr]
      exact .noData h ha
    · next ha =>
      rw [← Option.some.inj hr]
      exact .nxDomain h ha
    · cases hr

theorem Intercepts.unique (hq : Name.normalize qname = qname) (h : t.Intercepts qname qtype x)
    (h' : t.Intercepts qname qtype y) : x = y := by
  obtain ⟨r, h1, h2⟩ := (intercepts_iff hq).1 h
  obtain ⟨s, h3, h4⟩ := (intercepts_iff hq).1 h'
  rw [h1.unique h3, h4] at h2
  exact (Option.some.inj h2).symm

theorem normalize_of_mem (h : d ∈ r.rule.normalizedDomains) : Name.normalize d = d := by
  obtain ⟨x, -, rfl⟩ := List.mem_map.1 h
  exact Name.normalize_normalize x

/-- The rules found in the trie are those that list the domain that decides. -/
theorem find_rules (hi : i.rules.Lists (Index.Names t)) (hp : i.rules.policy = ⟨true, true⟩)
    (qname : String) :
    (i.rules.find qname = [] ∧
        ∀ r d, t.Stores r → d ∈ r.rule.normalizedDomains → ¬ Name.Matches true d qname) ∨
      ∃ d, t.Leads qname d ∧ ∀ id, id ∈ i.rules.find qname ↔ Index.Names t d id := by
  have kept : ∀ r d, t.Stores r → d ∈ r.rule.normalizedDomains → i.rules.get d ≠ [] := by
    intro r d hr hd
    have h1 : r.rule.id ∈ i.rules.get d := by
      rw [hi.mem, normalize_of_mem hd]
      exact ⟨r, hr, rfl, hd⟩
    exact List.ne_nil_of_mem h1
  have hcases := Trie.find_cases hi.tidy qname
  rw [hp] at hcases
  rcases hcases with ⟨h1, h2⟩ | ⟨a, h1, h2, h3, h4⟩
  · exact Or.inl ⟨h1, fun r d hr hd hm => kept r d hr hd (h2 d hm)⟩
  · refine Or.inr ⟨Name.normalize a, ⟨?_, Name.matches_normalize.2 h1, ?_⟩, fun id => ?_⟩
    · obtain ⟨id, hid⟩ := List.exists_mem_of_ne_nil _ h2
      obtain ⟨r, hr, -, hd⟩ := (hi.mem a id).1 hid
      exact ⟨r, hr, hd⟩
    · intro r e hr he hm
      rcases h4 e hm (kept r e hr he) with h5 | h5
      · exact Or.inl (by rw [← h5, normalize_of_mem he])
      · exact Or.inr (Name.precedes_normalize.2 h5)
    · rw [h3]
      exact hi.mem a id

/-- Whether there is a rule of this identity can be read. -/
def Readable (t : Table) (id : RuleId) : Prop :=
  (t.rule id = .ok none ∧ ∀ r, t.Stores r → r.rule.id ≠ id) ∨ ∃ r, t.Stores r ∧ r.rule.id = id

/-- Reading the rules with some identities gives those of them that are stored. -/
theorem mapM_rule {ids : List RuleId} (h : ∀ id ∈ ids, t.Readable id) :
    ∃ found, ids.mapM t.rule = .ok found ∧
      ∀ r, r ∈ found.filterMap (fun s => s) ↔ t.Stores r ∧ r.rule.id ∈ ids := by
  induction ids with
  | nil => exact ⟨[], rfl, by simp⟩
  | cons id ids ih =>
    obtain ⟨found, h1, h2⟩ := ih fun j hj => h j (List.mem_cons_of_mem _ hj)
    rcases h id List.mem_cons_self with ⟨h3, h4⟩ | ⟨r, hr, rfl⟩
    · refine ⟨none :: found, by rw [List.mapM_cons, h3, h1]; rfl, fun s => ?_⟩
      rw [List.filterMap_cons_none rfl, h2, List.mem_cons]
      exact and_congr_right fun hs => (or_iff_right (h4 s hs)).symm
    · refine ⟨some r :: found, by rw [List.mapM_cons, rule_of_stores hr, h1]; rfl, fun s => ?_⟩
      rw [List.filterMap_cons_some (f := fun s : Option StoredRule => s) rfl, List.mem_cons, h2,
        List.mem_cons]
      constructor
      · rintro (rfl | ⟨h3, h4⟩)
        · exact ⟨hr, Or.inl rfl⟩
        · exact ⟨h3, Or.inr h4⟩
      · rintro ⟨h3, h4 | h4⟩
        · exact Or.inl (stores_unique h3 hr h4)
        · exact Or.inr ⟨h3, h4⟩

/-- A proper rule has a response. -/
theorem response?_of_proper (h : r.Proper) (qname : String) (qtype : RecordType) :
    ∃ x, r.response? qname qtype = some x := by
  unfold StoredRule.response?
  split
  · exact ⟨_, rfl⟩
  · exact ⟨_, rfl⟩
  · exact ⟨_, rfl⟩
  · next ha => exact absurd ha h.known

/-- The rule that wins among those found in the trie, from any table. -/
theorem intercept_over (hu : u.Proper) (hi : i.rules.Lists (Index.Names t))
    (hp : i.rules.policy = ⟨true, true⟩) (hr : ∀ d id, Index.Names t d id → u.Readable id)
    (qname : String) (qtype : RecordType) :
    (intercept u i.rules qname qtype = .ok none ∧
        ∀ d r, t.Leads qname d → u.Stores r → ¬ Index.Names t d r.rule.id) ∨
      ∃ r x, intercept u i.rules qname qtype = .ok (some x) ∧ t.WinsOver u qname r ∧
        r.response? qname qtype = some x := by
  unfold intercept
  rcases find_rules hi hp qname with ⟨h1, h2⟩ | ⟨d, h1, h2⟩
  · rw [h1]
    refine Or.inl ⟨rfl, fun d r hd _ _ => ?_⟩
    obtain ⟨s, hs, hds⟩ := hd.listed
    exact h2 s d hs hds hd.matching
  · obtain ⟨found, h3, h4⟩ := mapM_rule fun id hid => hr d id ((h2 id).1 hid)
    -- the rules read are those that the trie has under the domain
    have hlist : ∀ s, s ∈ found.filterMap (fun s => s) ↔
        u.Stores s ∧ Index.Names t d s.rule.id := fun s => (h4 s).trans (by rw [h2])
    rw [h3]
    rcases Rule.winner?_cases StoredRule.rule (found.filterMap fun s => s) with
      ⟨h5, h6⟩ | ⟨r, h5, h6, h7⟩
    · refine Or.inl ⟨by simp only [bind, Except.bind, h6, Option.bind_none], fun e s he hs hn => ?_⟩
      have h8 := (hlist s).2 ⟨hs, h1.unique he ▸ hn⟩
      rw [h5] at h8
      cases h8
    · have hr := (hlist r).1 h5
      obtain ⟨x, hx⟩ := response?_of_proper (hu.rules r hr.1) qname qtype
      refine Or.inr ⟨r, x, by simp only [bind, Except.bind, h6, Option.bind_some, hx], ?_, hx⟩
      exact ⟨d, h1, hr.1, hr.2, fun s hs hd => h7 s ((hlist s).2 ⟨hs, hd⟩)⟩

/-- The rule that wins among those found in the trie is the deciding one. -/
theorem intercept_cases (ht : t.Proper) (hi : i.rules.Lists (Index.Names t))
    (hp : i.rules.policy = ⟨true, true⟩) (hq : Name.normalize qname = qname)
    (qtype : RecordType) :
    (intercept t i.rules qname qtype = .ok none ∧
        ∀ r d, t.Stores r → d ∈ r.rule.normalizedDomains → ¬ Name.Matches true d qname) ∨
      ∃ x, intercept t i.rules qname qtype = .ok (some x) ∧ t.Intercepts qname qtype x := by
  have hread : ∀ d id, Index.Names t d id → t.Readable id := by
    rintro d id ⟨r, hr, rfl, -⟩
    exact Or.inr ⟨r, hr, rfl⟩
  rcases intercept_over ht hi hp hread qname qtype with ⟨h1, h2⟩ | ⟨r, x, h1, h2, h3⟩
  · rcases find_rules hi hp qname with ⟨-, h3⟩ | ⟨d, h3, -⟩
    · exact Or.inl ⟨h1, h3⟩
    · obtain ⟨r, hr, hd⟩ := h3.listed
      exact absurd ⟨r, hr, rfl, hd⟩ (h2 d r h3 hr)
  · exact Or.inr ⟨x, h1, (intercepts_iff hq).2 ⟨r, winsOver_self.1 h2, h3⟩⟩

/-! ## The answer -/

theorem not_intercepts
    (h : ∀ r d, t.Stores r → d ∈ r.rule.normalizedDomains → ¬ Name.Matches true d qname)
    (x : Resolution) (hq : Name.normalize qname = qname) : ¬ t.Intercepts qname qtype x := by
  intro hx
  obtain ⟨r, ⟨d, h1, h2, h3, -⟩, -⟩ := (intercepts_iff hq).1 hx
  exact h r d h2 h3 h1.matching

/-- A query has one answer. -/
theorem Answers.unique {order : FirewallOrder} (hq : Name.normalize qname = qname)
    (h : t.Answers qname qtype order x) (h' : t.Answers qname qtype order y) : x = y := by
  cases h with
  | rule h =>
    cases h' with
    | rule h' => exact h.unique hq h'
    | noRule h' => exact absurd h (h' x)
  | noRule h hz =>
    cases h' with
    | rule h' => exact absurd h' (h y)
    | noRule h' hz' => exact hz.unique hz'
  | zone hz ha =>
    cases h' with
    | zone hz' ha' => exact hz.unique hz'
    | ruleAfter hz' ha' h' => exact absurd (hz.unique hz' ▸ ha) ha'
    | noRuleAfter hz' ha' h' => exact absurd (hz.unique hz' ▸ ha) ha'
  | ruleAfter hz ha h =>
    cases h' with
    | zone hz' ha' => exact absurd (hz'.unique hz ▸ ha') ha
    | ruleAfter hz' ha' h' => exact h.unique hq h'
    | noRuleAfter hz' ha' h' => exact absurd h (h' x)
  | noRuleAfter hz ha h =>
    cases h' with
    | zone hz' ha' => exact absurd (hz'.unique hz ▸ ha') ha
    | ruleAfter hz' ha' h' => exact absurd h' (h y)
    | noRuleAfter hz' ha' h' => exact hz.unique hz'

theorem hasAnswer_iff (x : Resolution) :
    x.hasAnswer = true ↔ x.matched = true ∧ x.rcode = .noError ∧ x.answer ≠ [] := by
  unfold Resolution.hasAnswer
  simp [and_assoc]

/-- A resolution gives the answer. -/
theorem resolve_answers (ht : t.Proper) (hi : i.Mirrors t) (hp : i.Standard)
    (order : FirewallOrder) (qname : String) (qtype : RecordType) :
    ∃ x, resolve t i order qname qtype = .ok x ∧
      t.Answers (Name.normalize qname) qtype order x := by
  have hq := Name.normalize_normalize qname
  obtain ⟨z, h1, h2⟩ := authoritative_cases ht hi.zones hp.zones (Name.normalize qname) qtype
  have hrule := intercept_cases ht hi.rules hp.rules hq qtype
  cases order with
  | beforeZone =>
    rcases hrule with ⟨h3, h4⟩ | ⟨x, h3, h4⟩
    · refine ⟨z, ?_, .noRule (fun y => not_intercepts h4 y hq) h2⟩
      simp only [resolve, h3, h1, bind, Except.bind]
    · refine ⟨x, ?_, .rule h4⟩
      simp only [resolve, h3, bind, Except.bind]
  | afterZone =>
    by_cases ha : z.hasAnswer = true
    · refine ⟨z, ?_, .zone h2 ((hasAnswer_iff z).1 ha)⟩
      simp only [resolve, h1, bind, Except.bind, ha, if_true]
    · have hno : ¬ (z.matched = true ∧ z.rcode = .noError ∧ z.answer ≠ []) := fun h =>
        ha ((hasAnswer_iff z).2 h)
      rcases hrule with ⟨h3, h4⟩ | ⟨x, h3, h4⟩
      · refine ⟨z, ?_, .noRuleAfter h2 hno fun y => not_intercepts h4 y hq⟩
        simp only [resolve, h1, h3, bind, Except.bind, ha, if_false, Option.getD_none,
          Bool.false_eq_true]
      · refine ⟨x, ?_, .ruleAfter h2 hno h4⟩
        simp only [resolve, h1, h3, bind, Except.bind, ha, if_false, Option.getD_some,
          Bool.false_eq_true]

/-- A rule answers if and only if a domain of a stored rule matches. -/
theorem intercepts_iff_matches (ht : t.Proper) (hi : i.Mirrors t) (hp : i.Standard)
    (hq : Name.normalize qname = qname) (qtype : RecordType) :
    (∃ x, t.Intercepts qname qtype x) ↔
      ∃ r d, t.Stores r ∧ d ∈ r.rule.normalizedDomains ∧ Name.Matches true d qname := by
  constructor
  · rintro ⟨x, hx⟩
    obtain ⟨r, ⟨d, h1, h2, h3, -⟩, -⟩ := (intercepts_iff hq).1 hx
    exact ⟨r, d, h2, h3, h1.matching⟩
  · rintro ⟨r, d, h1, h2, h3⟩
    rcases intercept_cases ht hi.rules hp.rules hq qtype with ⟨-, h4⟩ | ⟨x, -, h4⟩
    · exact absurd h3 (h4 r d h1 h2)
    · exact ⟨x, h4⟩

end Table

namespace Resolver

/-- **What a query is answered.** Whatever changes were applied to a resolver over an empty store
and whatever commits failed, every query has an answer, it is the one that the store alone
determines, and a rule has its say if and only if a domain of a stored rule matches the name. -/
theorem query_answers (s : Store) (events : List Event) (order : FirewallOrder) (qname : String)
    (qtype : RecordType) :
    ∃ x, ((blank s).run events).query order qname qtype = .ok x ∧
      (∀ y, ((blank s).run events).store.table.Answers (Name.normalize qname) qtype order y ↔
        y = x) ∧
      ((∃ y, ((blank s).run events).store.table.Intercepts (Name.normalize qname) qtype y) ↔
        ∃ r d, ((blank s).run events).store.table.Stores r ∧ d ∈ r.rule.normalizedDomains ∧
          Name.Matches true d (Name.normalize qname)) := by
  have hr := consistent_run (consistent_blank s) events
  have ht := proper_run (consistent_blank s) Table.proper_empty events
  have hp : ((blank s).run events).index.Standard := standard_run ⟨rfl, rfl⟩ events
  have hq := Name.normalize_normalize qname
  obtain ⟨x, h1, h2⟩ := Table.resolve_answers ht hr.mirrors hp order qname qtype
  refine ⟨x, h1, fun y => ⟨fun h => h.unique hq h2, ?_⟩,
    Table.intercepts_iff_matches ht hr.mirrors hp hq qtype⟩
  rintro rfl
  exact h2

end Resolver

end ZoneRelay
