import ZoneRelay.Proofs.Resolver.Answer
import ZoneRelay.Proofs.Resolver.Isolation

/-!
# Queries between the commit and the tries

A change is committed to the store first, and the tries follow. A query that comes in between reads
the new store over the old tries. It should be answered as before the change or as after it.

* `Resolution.settle`, `Table.Reads`: what the answers of a zone and of a rule make together, and what
  old tries read from a new table.
* `Resolver.window`: the resolver in between, and `Resolver.Torn`: an answer that belongs to neither
  side.
* `Table.Exposes`: when an answer is torn, in terms of the table before and the table after.
* `Resolver.torn_iff_exposes`: exactly these answers are torn.
-/

namespace ZoneRelay

variable {order : FirewallOrder} {t u : Table} {qname : String} {qtype : RecordType}
  {m x y z a b : Resolution} {p q : Option Resolution}

/-! ## The two parts of an answer -/

namespace Resolution

/-- The answer of a zone, or that of a rule where it goes before. -/
def settle (order : FirewallOrder) (z : Resolution) (p : Option Resolution) : Resolution :=
  match order with
  | .beforeZone => p.getD z
  | .afterZone => if z.hasAnswer then z else p.getD z

theorem getD_ne (hm : m.firewallRule = none) (hx : x.firewallRule = none)
    (hp : ∀ a, p = some a → a.firewallRule ≠ none) (hq : ∀ a, q = some a → a.firewallRule ≠ none) :
    p.getD m ≠ q.getD x ↔ p ≠ q ∨ p = none ∧ m ≠ x := by
  -- an answer says whether a rule gave it
  cases p with
  | none =>
    cases q with
    | none => simp
    | some b =>
      have h1 : m ≠ b := by
        rintro rfl
        exact hq m rfl hm
      simpa using h1
  | some a =>
    cases q with
    | none =>
      have h1 : a ≠ x := by
        rintro rfl
        exact hp a rfl hx
      simpa using h1
    | some b => simp

/-- When it shows that the zone answers otherwise: a rule must not hide it. -/
theorem settle_ne_of_zone (hm : m.firewallRule = none) (hx : x.firewallRule = none)
    (hp : ∀ a, p = some a → a.firewallRule ≠ none) :
    settle order m p ≠ settle order x p ↔
      m ≠ x ∧ (p = none ∨ order = .afterZone ∧ (m.hasAnswer ∨ x.hasAnswer)) := by
  have hget : p.getD m ≠ p.getD x ↔ p = none ∧ m ≠ x := by
    rw [getD_ne hm hx hp hp]
    simp
  cases order with
  | beforeZone =>
    show p.getD m ≠ p.getD x ↔ _
    rw [hget]
    simp [and_comm]
  | afterZone =>
    have hne : ∀ {v w : Resolution}, v.firewallRule = none → w.firewallRule = none →
        w.hasAnswer = false → (v ≠ p.getD w ↔ v ≠ w ∨ p ≠ none) := by
      intro v w hv hw hans
      have h1 := getD_ne (p := none) hv hw (by simp) hp
      rw [Option.getD_none] at h1
      rw [h1]
      cases p <;> simp
    unfold settle
    by_cases h1 : m.hasAnswer = true
    · by_cases h2 : x.hasAnswer = true
      · simp [h1, h2]
      · have h3 : x.hasAnswer = false := by simpa using h2
        have h4 : m ≠ x := by
          rintro rfl
          exact h2 h1
        simp [h1, h3, hne hm hx h3, h4]
    · have h3 : m.hasAnswer = false := by simpa using h1
      by_cases h2 : x.hasAnswer = true
      · have h4 : m ≠ x := by
          rintro rfl
          exact h1 h2
        have h5 : p.getD m ≠ x := by
          rw [ne_comm, hne hx hm h3]
          exact Or.inl h4.symm
        simp [h3, h2, h4, h5]
      · have h4 : x.hasAnswer = false := by simpa using h2
        simp only [h3, h4, Bool.false_eq_true, if_false, or_self, and_false, or_false]
        rw [hget, and_comm]

/-- When it shows that the rules answer otherwise: the zone must not go before. -/
theorem settle_ne_of_rule (hz : z.firewallRule = none)
    (hp : ∀ a, p = some a → a.firewallRule ≠ none) (hq : ∀ a, q = some a → a.firewallRule ≠ none) :
    settle order z p ≠ settle order z q ↔ p ≠ q ∧ (order = .afterZone → z.hasAnswer = false) := by
  have hget : p.getD z ≠ q.getD z ↔ p ≠ q := by
    rw [getD_ne hz hz hp hq]
    simp
  cases order with
  | beforeZone =>
    show p.getD z ≠ q.getD z ↔ _
    rw [hget]
    simp
  | afterZone =>
    unfold settle
    cases h1 : z.hasAnswer with
    | true => simp
    | false =>
      simp only [Bool.false_eq_true, if_false]
      rw [hget]
      simp

end Resolution

namespace Table

/-- What the rules answer if the tries are those of `t` and the rules are read from `u`. -/
def InterceptsOver (t u : Table) (qname : String) (qtype : RecordType) (x : Resolution) : Prop :=
  ∃ r, t.WinsOver u qname r ∧ r.response? qname qtype = some x

theorem interceptsOver_self (hq : Name.normalize qname = qname) :
    t.InterceptsOver t qname qtype x ↔ t.Intercepts qname qtype x := by
  rw [intercepts_iff hq]
  unfold InterceptsOver
  simp only [winsOver_self]

/-- What tries of `t` read from `u`: the answer of the zone, and that of the rules. -/
structure Reads (t u : Table) (qname : String) (qtype : RecordType) (z : Resolution)
    (p : Option Resolution) : Prop where
  zone : t.ZoneAnswersOver u qname qtype z
  rule : ∀ x, t.InterceptsOver u qname qtype x ↔ p = some x

theorem ZoneAnswersOver.firewallRule (h : t.ZoneAnswersOver u qname qtype x) :
    x.firewallRule = none := by
  cases h <;> rfl

theorem InterceptsOver.firewallRule (h : t.InterceptsOver u qname qtype x) :
    x.firewallRule ≠ none := by
  obtain ⟨r, -, hx⟩ := h
  unfold StoredRule.response? at hx
  split at hx
  · rw [← Option.some.inj hx]
    simp
  · rw [← Option.some.inj hx]
    simp
  · rw [← Option.some.inj hx]
    simp
  · cases hx

theorem InterceptsOver.unique (h : t.InterceptsOver u qname qtype x)
    (h' : t.InterceptsOver u qname qtype y) : x = y := by
  obtain ⟨r, h1, h2⟩ := h
  obtain ⟨s, h3, h4⟩ := h'
  rw [h1.unique h3, h4] at h2
  exact (Option.some.inj h2).symm

theorem InterceptsOver.leads (h : t.InterceptsOver u qname qtype x) : ∃ d, t.Leads qname d := by
  obtain ⟨r, ⟨d, hd, -⟩, -⟩ := h
  exact ⟨d, hd⟩

theorem Reads.ofRule (h : t.Reads u qname qtype z p) : ∀ a, p = some a → a.firewallRule ≠ none :=
  fun a ha => ((h.rule a).2 ha).firewallRule

/-- What a table's own tries read from it. -/
theorem Reads.own (hq : Name.normalize qname = qname) (h : t.Reads t qname qtype z p) :
    t.ZoneAnswers qname qtype z ∧ ∀ x, t.Intercepts qname qtype x ↔ p = some x := by
  refine ⟨zoneAnswersOver_self.1 h.zone, fun x => ?_⟩
  rw [← interceptsOver_self hq, h.rule]

theorem Sound.readable (h : u.Sound) (id : RuleId) : u.Readable id := by
  rcases h.rule_ok id with ⟨h1, h2⟩ | ⟨r, -, hr, he⟩
  · refine Or.inl ⟨h1, fun r hr he => ?_⟩
    unfold Stores at hr
    rw [he, h2] at hr
    cases hr
  · exact Or.inr ⟨r, hr, he⟩

/-- A resolution settles what the tries read. -/
theorem resolve_over {i : Index} (hs : u.Sound) (hu : u.Proper) (hi : i.Mirrors t)
    (hp : i.Standard) (order : FirewallOrder) (qname : String) (qtype : RecordType) :
    ∃ z p, t.Reads u (Name.normalize qname) qtype z p ∧
      resolve u i order qname qtype = .ok (.settle order z p) := by
  obtain ⟨z, h1, hz⟩ := authoritative_over hu hi.zones hp.zones (Name.normalize qname) qtype
  have hrules : ∃ p, intercept u i.rules (Name.normalize qname) qtype = .ok p ∧
      ∀ x, t.InterceptsOver u (Name.normalize qname) qtype x ↔ p = some x := by
    rcases intercept_over hu hi.rules hp.rules (fun _ id _ => hs.readable id)
      (Name.normalize qname) qtype with ⟨h2, h3⟩ | ⟨r, x, h2, h3, h4⟩
    · refine ⟨none, h2, fun x => ⟨?_, by simp⟩⟩
      rintro ⟨r, ⟨d, hd, hr, hn, -⟩, -⟩
      exact absurd hn (h3 d r hd hr)
    · refine ⟨some x, h2, fun y => ⟨fun hy => ?_, ?_⟩⟩
      · rw [InterceptsOver.unique ⟨r, h3, h4⟩ hy]
      · rintro ⟨⟩
        exact ⟨r, h3, h4⟩
  obtain ⟨p, h2, hr⟩ := hrules
  refine ⟨z, p, ⟨hz, hr⟩, ?_⟩
  unfold resolve
  cases order with
  | beforeZone => cases p <;> simp [h1, h2, bind, Except.bind, Resolution.settle]
  | afterZone =>
    simp only [h1, h2, bind, Except.bind, Resolution.settle]
    split <;> rfl

/-! ## When an answer is torn -/

/-- **When an answer is torn**, if `t` is the table before a change and `u` the table after it. -/
inductive Exposes (t u : Table) (qname : String) (qtype : RecordType) : FirewallOrder → Prop
  /-- The zone of the old trie has in the new table neither the answer that it had nor the one that
  follows, and no rule hides it. -/
  | zone {order : FirewallOrder} {m x y : Resolution} (hm : t.ZoneAnswersOver u qname qtype m)
      (hx : t.ZoneAnswers qname qtype x) (hy : u.ZoneAnswers qname qtype y)
      (hne : m ≠ x ∧ m ≠ y)
      (ho : (∀ a, ¬ u.Intercepts qname qtype a) ∨
        order = .afterZone ∧ (m.hasAnswer ∨ x.hasAnswer ∧ y.hasAnswer)) :
      Exposes t u qname qtype order
  /-- The rules under the old domain answer in the new table what they answer neither before nor
  after, and no zone goes before. -/
  | moved {order : FirewallOrder} {a z : Resolution} (h : t.InterceptsOver u qname qtype a)
      (ht : ¬ t.Intercepts qname qtype a) (hu : ¬ u.Intercepts qname qtype a)
      (hz : u.ZoneAnswers qname qtype z) (ho : order = .afterZone → z.hasAnswer = false) :
      Exposes t u qname qtype order
  /-- There is no rule under the old domain any more, but another one is to follow, and no zone goes
  before. -/
  | dropped {order : FirewallOrder} {a b z : Resolution}
      (h : ∀ c, ¬ t.InterceptsOver u qname qtype c) (ht : t.Intercepts qname qtype a)
      (hu : u.Intercepts qname qtype b) (hz : u.ZoneAnswers qname qtype z)
      (ho : order = .afterZone → z.hasAnswer = false) :
      Exposes t u qname qtype order

/-- The zone answers the same from two tables that have the same record sets in it. -/
theorem ZoneAnswersOver.records (hx : t.ZoneAnswersOver u qname qtype x)
    (h : ∀ z, t.Encloses qname z → ∀ name type, u.recordSet z name type = t.recordSet z name type) :
    t.ZoneAnswersOver t qname qtype x := by
  cases hx with
  | outside hx => exact .outside hx
  | @found zone _ hx hr => exact .found hx ((h zone hx _ _).symm.trans hr)
  | @missing zone _ hx hr ha =>
    exact .missing hx ((h zone hx _ _).symm.trans hr) ((h zone hx _ _).symm.trans ha)

/-- The zone answers the same over two tries that find it for the name. -/
theorem ZoneAnswersOver.same {zone : String} (hx : t.ZoneAnswersOver u qname qtype x)
    (ht : t.Encloses qname zone) (hu : u.Encloses qname zone) :
    u.ZoneAnswersOver u qname qtype x := by
  cases hx with
  | outside hx => exact absurd ht.within (hx zone ht.marked)
  | found hx hr => exact .found (hx.unique ht ▸ hu) hr
  | missing hx hr ha => exact .missing (hx.unique ht ▸ hu) hr ha

/-- Two tables with the same rules. -/
def SameRules (t u : Table) : Prop :=
  ∀ r, u.Stores r ↔ t.Stores r

/-- Two tables with the same zones and the same record sets in them. -/
structure SameZones (t u : Table) : Prop where
  markers : ∀ z, u.zoneExists z = t.zoneExists z
  records : ∀ z name type, u.recordSet z name type = t.recordSet z name type

namespace SameRules

theorem names (h : SameRules t u) (d : String) (id : RuleId) :
    Index.Names u d id ↔ Index.Names t d id := by
  unfold Index.Names
  simp only [h _]

theorem leads (h : SameRules t u) (d : String) : u.Leads qname d ↔ t.Leads qname d := by
  have key : ∀ {v w : Table}, (∀ r, w.Stores r ↔ v.Stores r) → w.Leads qname d →
      v.Leads qname d := by
    intro v w hvw hw
    obtain ⟨r, hr, hd⟩ := hw.listed
    exact ⟨⟨r, (hvw r).1 hr, hd⟩, hw.matching, fun r e hr => hw.first r e ((hvw r).2 hr)⟩
  exact ⟨key h, key fun r => (h r).symm⟩

/-- The rules answer the same from both tables and over both tries. -/
theorem interceptsOver (h : SameRules t u) :
    (t.InterceptsOver u qname qtype x ↔ t.InterceptsOver t qname qtype x) ∧
      (u.InterceptsOver u qname qtype x ↔ t.InterceptsOver t qname qtype x) := by
  unfold InterceptsOver WinsOver
  simp only [h _, h.names, h.leads, and_self]

end SameRules

namespace SameZones

theorem encloses (h : ∀ z, u.zoneExists z = t.zoneExists z) (z : String) :
    u.Encloses qname z ↔ t.Encloses qname z := by
  constructor
  · intro hz
    exact ⟨hz.normal, h z ▸ hz.marked, hz.within, fun w hw => hz.closest w (by rwa [h w])⟩
  · intro hz
    exact ⟨hz.normal, (h z).symm ▸ hz.marked, hz.within, fun w hw => hz.closest w (by rwa [← h w])⟩

/-- Tables with the same markers have the same tries of zones. -/
theorem zoneAnswersOver (h : ∀ z, u.zoneExists z = t.zoneExists z)
    (hx : t.ZoneAnswersOver u qname qtype x) : u.ZoneAnswersOver u qname qtype x := by
  cases hx with
  | outside hx => exact .outside fun z hz => hx z (by rwa [← h z])
  | found hx hr => exact .found ((encloses h _).2 hx) hr
  | missing hx hr ha => exact .missing ((encloses h _).2 hx) hr ha

end SameZones

section Torn

variable (hq : Name.normalize qname = qname)
include hq

/-- If the rules stay, an answer is torn if the zone's answer is and no rule hides it. -/
theorem torn_of_sameRules (h : SameRules t u) (hx : t.Reads t qname qtype x p)
    (hm : t.Reads u qname qtype m q) {o : Option Resolution} (hy : u.Reads u qname qtype y o) :
    (Resolution.settle order m q ≠ .settle order x p ∧
      Resolution.settle order m q ≠ .settle order y o) ↔ Exposes t u qname qtype order := by
  -- the rules give the same all three times
  have hsame : ∀ {v w : Option Resolution}, (∀ a, v = some a ↔ w = some a) → v = w := by
    intro v w hvw
    exact Option.ext hvw
  have hqp : q = p := hsame fun a => by rw [← hm.rule, ← hx.rule, h.interceptsOver.1]
  have hop : o = p := hsame fun a => by rw [← hy.rule, ← hx.rule, h.interceptsOver.2]
  subst hqp hop
  obtain ⟨hx', -⟩ := hx.own hq
  obtain ⟨hy', hrule⟩ := hy.own hq
  have hnone : o = none ↔ ∀ a, ¬ u.Intercepts qname qtype a := by
    simp only [hrule]
    exact Option.eq_none_iff_forall_ne_some
  rw [Resolution.settle_ne_of_zone hm.zone.firewallRule hx.zone.firewallRule hx.ofRule,
    Resolution.settle_ne_of_zone hm.zone.firewallRule hy.zone.firewallRule hx.ofRule]
  constructor
  · rintro ⟨⟨h1, h2⟩, h3, h4⟩
    refine .zone hm.zone hx' hy' ⟨h1, h3⟩ ?_
    rw [← hnone]
    rcases h2 with h2 | ⟨ho, h2⟩
    · exact Or.inl h2
    · rcases h4 with h4 | ⟨-, h4⟩
      · exact Or.inl h4
      · refine Or.inr ⟨ho, ?_⟩
        rcases h2 with h2 | h2
        · exact Or.inl h2
        · rcases h4 with h4 | h4
          · exact Or.inl h4
          · exact Or.inr ⟨h2, h4⟩
  · intro he
    cases he with
    | zone hm' hx'' hy'' hne ho =>
      obtain rfl := hm.zone.unique hm'
      obtain rfl := hx'.unique hx''
      obtain rfl := hy'.unique hy''
      rw [← hnone] at ho
      refine ⟨⟨hne.1, ?_⟩, hne.2, ?_⟩
      · rcases ho with ho | ⟨ho, h1 | h1⟩
        · exact Or.inl ho
        · exact Or.inr ⟨ho, Or.inl h1⟩
        · exact Or.inr ⟨ho, Or.inr h1.1⟩
      · rcases ho with ho | ⟨ho, h1 | h1⟩
        · exact Or.inl ho
        · exact Or.inr ⟨ho, Or.inl h1⟩
        · exact Or.inr ⟨ho, Or.inr h1.2⟩
    | moved ha hta =>
      rw [h.interceptsOver.1, interceptsOver_self hq] at ha
      exact absurd ha hta
    | @dropped a b z hno ha =>
      refine absurd ?_ (hno a)
      rwa [h.interceptsOver.1, interceptsOver_self hq]

/-- If the zones stay, an answer is torn if that of the rules is and no zone goes before. -/
theorem torn_of_sameZones (h : SameZones t u) (hx : t.Reads t qname qtype x p)
    (hm : t.Reads u qname qtype m q) {o : Option Resolution} (hy : u.Reads u qname qtype y o) :
    (Resolution.settle order m q ≠ .settle order x p ∧
      Resolution.settle order m q ≠ .settle order y o) ↔ Exposes t u qname qtype order := by
  -- the zone gives the same all three times
  obtain rfl : m = y := (SameZones.zoneAnswersOver h.markers hm.zone).unique hy.zone
  obtain rfl : m = x := (hm.zone.records fun z _ => h.records z).unique hx.zone
  obtain ⟨-, hp⟩ := hx.own hq
  obtain ⟨hz, ho⟩ := hy.own hq
  rw [Resolution.settle_ne_of_rule hm.zone.firewallRule hm.ofRule hx.ofRule,
    Resolution.settle_ne_of_rule hm.zone.firewallRule hm.ofRule hy.ofRule]
  constructor
  · rintro ⟨⟨h1, h2⟩, h3, -⟩
    cases q with
    | some a =>
      refine .moved ((hm.rule a).2 rfl) ?_ ?_ hz h2
      · rw [hp]
        exact h1.symm
      · rw [ho]
        exact h3.symm
    | none =>
      obtain ⟨a, ha⟩ := Option.ne_none_iff_exists'.1 h1.symm
      obtain ⟨b, hb⟩ := Option.ne_none_iff_exists'.1 h3.symm
      refine .dropped (fun c hc => ?_) ((hp a).2 ha) ((ho b).2 hb) hz h2
      cases (hm.rule c).1 hc
  · intro he
    cases he with
    | zone hm' hx' hy' hne =>
      obtain rfl := hm.zone.unique hm'
      exact absurd (hz.unique hy') hne.2
    | @moved a z ha hta hua hz' hfirst =>
      obtain rfl := hz.unique hz'
      rw [hp] at hta
      rw [ho] at hua
      have hqa := (hm.rule a).1 ha
      refine ⟨⟨?_, hfirst⟩, ?_, hfirst⟩
      · rintro rfl
        exact hta hqa
      · rintro rfl
        exact hua hqa
    | @dropped a b z hno hta hub hz' hfirst =>
      obtain rfl := hz.unique hz'
      have hqn : q = none := by
        refine Option.eq_none_iff_forall_ne_some.2 fun c hc => ?_
        exact hno c ((hm.rule c).2 hc)
      subst hqn
      rw [(hp a).1 hta, (ho b).1 hub]
      exact ⟨⟨by simp, hfirst⟩, by simp, hfirst⟩

end Torn

/-- A change to a rule leaves the zones. -/
theorem sameZones_of_rule {c : Change} {id : RuleId} {ops : List Op} {edit : IndexEdit}
    (ht : t.Sound) (hw : t.Writes c ops edit) (hs : c.scope? = some (.rule id)) :
    SameZones t (t.run ops).1 := by
  refine ⟨Index.zoneExists_of_rule ht hw hs, fun z name type => ?_⟩
  have hk : Key.Family.records.has (Key.recordSet z name type) :=
    Key.has_of_zoneRecordSets (Key.startsWith_recordSet z name type)
  unfold recordSet read
  rw [writes_owned ht hw hs (Scope.rule_not_owns hk (by decide) (by decide) (by decide))]

end Table

/-! ## Resolvers -/

namespace Resolver

variable {r : Resolver} {c : Change}

/-- The resolver after the store has committed a change, and before the tries follow. -/
def window (r : Resolver) (c : Change) : Resolver :=
  { r with store := (r.apply c).2.store }

/-- Whether a query in between is answered neither as before the change nor as after it. -/
def Torn (r : Resolver) (c : Change) (order : FirewallOrder) (qname : String)
    (qtype : RecordType) : Prop :=
  (r.window c).query order qname qtype ≠ r.query order qname qtype ∧
    (r.window c).query order qname qtype ≠ (r.apply c).2.query order qname qtype

instance (r : Resolver) (c : Change) (order : FirewallOrder) (qname : String)
    (qtype : RecordType) : Decidable (Torn r c order qname qtype) :=
  inferInstanceAs (Decidable (_ ∧ _))

theorem Reached.intact (h : r.Reached) : r.Intact := by
  obtain ⟨s, events, rfl⟩ := h
  exact intact_run s events

/-- What is read before the change, in between, and after it. -/
theorem reads_window (h : r.Intact) (c : Change) (order : FirewallOrder) (qname : String)
    (qtype : RecordType) :
    (∃ x p, r.store.table.Reads r.store.table (Name.normalize qname) qtype x p ∧
      r.query order qname qtype = .ok (.settle order x p)) ∧
    (∃ m q, r.store.table.Reads (r.apply c).2.store.table (Name.normalize qname) qtype m q ∧
      (r.window c).query order qname qtype = .ok (.settle order m q)) ∧
    ∃ y o, (r.apply c).2.store.table.Reads (r.apply c).2.store.table (Name.normalize qname) qtype
        y o ∧
      (r.apply c).2.query order qname qtype = .ok (.settle order y o) := by
  have h' : (r.apply c).2.Intact := intact_act h (.apply c)
  exact ⟨Table.resolve_over h.consistent.sound h.proper h.consistent.mirrors h.standard ..,
    Table.resolve_over h'.consistent.sound h'.proper h.consistent.mirrors h.standard ..,
    Table.resolve_over h'.consistent.sound h'.proper h'.consistent.mirrors h'.standard ..⟩

/-- Whether an answer is torn, in terms of what is read. -/
theorem torn_iff_settle {x y m : Resolution} {p q o : Option Resolution}
    (h1 : r.query order qname qtype = .ok (.settle order x p))
    (h2 : (r.window c).query order qname qtype = .ok (.settle order m q))
    (h3 : (r.apply c).2.query order qname qtype = .ok (.settle order y o)) :
    Torn r c order qname qtype ↔ (Resolution.settle order m q ≠ .settle order x p ∧
      Resolution.settle order m q ≠ .settle order y o) := by
  unfold Torn
  rw [h1, h2, h3]
  simp

theorem torn_iff_exposes (h : r.Reached) : Torn r c order qname qtype ↔
    r.store.table.Exposes (r.apply c).2.store.table (Name.normalize qname) qtype order := by
  have hq := Name.normalize_normalize qname
  have hsound := h.consistent.sound
  obtain ⟨⟨x, p, hx, h1⟩, ⟨m, q, hm, h2⟩, y, o, hy, h3⟩ :=
    reads_window h.intact c order qname qtype
  rw [torn_iff_settle h1 h2 h3]
  rcases r.apply_cases c with ⟨ops, edit, hplan, -, ht, -⟩ | ⟨-, ht, -⟩
  · obtain ⟨s, -, hs, -, -, hw⟩ := Table.plan_write hplan
    rw [ht] at hm hy ⊢
    cases s with
    | zone zone => exact Table.torn_of_sameRules hq (Table.stores_of_zone hsound hw hs) hx hm hy
    | rule id => exact Table.torn_of_sameZones hq (Table.sameZones_of_rule hsound hw hs) hx hm hy
  · -- nothing was committed
    rw [ht] at hm hy ⊢
    exact Table.torn_of_sameRules hq (fun _ => Iff.rfl) hx hm hy

end Resolver

end ZoneRelay
