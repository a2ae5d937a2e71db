import ZoneRelay.Proofs.Resolver.Confluence
import ZoneRelay.Proofs.Resolver.Window

/-!
# Changes that tear an answer

Most changes are seen all at once: an update of a zone, a new zone with an ordinary name, a rule
that keeps its domains. Deleting a zone is not. Until the trie follows, the zone is still found, but
it has no records any more.

* `Table.Tears`: which changes tear an answer.
* `Table.tears_zone`, `Table.tears_rule`: no other change does.
* `Resolver.whole_of_kept`, `Resolver.whole_of_created`, `Resolver.whole_of_domains`: changes that
  never do.
* `Resolver.torn_iff`: which answers are torn, and by what.
-/

namespace ZoneRelay

variable {order : FirewallOrder} {t u : Table} {qname : String} {qtype : RecordType}
  {m x y : Resolution}

namespace Table

/-! ## What tears an answer -/

/-- **What a change does that tears an answer.** -/
inductive Tears (t u : Table) (c : Change) (qname : String) (qtype : RecordType) : Prop
  /-- It deletes the zone of the name. Until the trie follows, the zone denies every name and has
  no authority to show. -/
  | deleted {zone : String} (hs : c.scope? = some (.zone zone)) (ht : t.Encloses qname zone)
      (hu : ¬ u.zoneExists zone)
      (hm : t.ZoneAnswersOver u qname qtype
        { answer := [], authority := [], rcode := .nxDomain, matched := true
          firewallRule := none }) :
      Tears t u c qname qtype
  /-- It creates a zone that is to answer in place of another one, and that can have a key in common
  with it. -/
  | created {zone w : String} (hs : c.scope? = some (.zone zone)) (ht : ¬ t.zoneExists zone)
      (hu : u.Encloses qname zone) (hw : t.Encloses qname w) (ho : Key.Overlaps zone w) :
      Tears t u c qname qtype
  /-- It takes a rule away from the domain that decides, or has another domain decide. -/
  | rule {old : StoredRule} {d : String} (hs : c.scope? = some (.rule old.rule.id))
      (ht : t.Stores old) (hl : t.Leads qname d) (hd : d ∈ old.rule.normalizedDomains)
      (hu : ∀ new, u.Stores new → new.rule.id = old.rule.id →
        d ∈ new.rule.normalizedDomains → ¬ u.Leads qname d) :
      Tears t u c qname qtype

section Zone

variable {zone : String} {c : Change}

/-- A zone is created, and the answer is torn. -/
theorem tears_created (hn : Name.normalize zone = zone) (hs : c.scope? = some (.zone zone))
    (hz : ∀ n, u.zoneExists n ↔ Name.normalize n = zone ∨ t.zoneExists n)
    (hk : ∀ w, Name.normalize w = w → zone ≠ w → ¬ Key.Overlaps zone w →
      ∀ name type, u.recordSet w name type = t.recordSet w name type)
    (hm : t.ZoneAnswersOver u qname qtype m) (hx : t.ZoneAnswersOver t qname qtype x)
    (hy : u.ZoneAnswersOver u qname qtype y) (hne : m ≠ x ∧ m ≠ y) :
    t.Tears u c qname qtype := by
  -- the old zone has other records than before
  have hold : ∃ w, t.Encloses qname w ∧
      ¬ ∀ name type, u.recordSet w name type = t.recordSet w name type := by
    by_contra hno
    push Not at hno
    exact hne.1 ((hm.records hno).unique hx)
  obtain ⟨w, hw, hrec⟩ := hold
  have hnew : ¬ u.Encloses qname w := fun h => hne.2 ((hm.same hw h).unique hy)
  -- so the new zone is closer to the name than the old one is
  have hcloser : ∃ z, Name.normalize z = zone ∧ Name.isWithin qname z = true ∧
      (Name.path w).length < (Name.path z).length := by
    by_contra hno
    push Not at hno
    refine hnew ⟨hw.normal, (hz w).2 (Or.inr hw.marked), hw.within, fun v hv hvq => ?_⟩
    rcases (hz v).1 hv with h1 | h1
    · exact hno v h1 hvq
    · exact hw.closest v h1 hvq
  obtain ⟨z, rfl, hwithin, hlt⟩ := hcloser
  have hwithin' : Name.isWithin qname (Name.normalize z) = true := by
    unfold Name.isWithin at hwithin ⊢
    rwa [Name.path_normalize]
  have ht : ¬ t.zoneExists (Name.normalize z) = true := by
    intro h1
    have h2 := hw.closest _ h1 hwithin'
    rw [Name.path_normalize] at h2
    omega
  have hu : u.Encloses qname (Name.normalize z) := by
    refine ⟨hn, (hz _).2 (Or.inl hn), hwithin', fun v hv hvq => ?_⟩
    rw [Name.path_normalize]
    rcases (hz v).1 hv with h1 | h1
    · rw [Name.path_eq_iff.2 h1]
    · have h2 := hw.closest v h1 hvq
      omega
  refine .created hs ht hu hw ?_
  by_contra ho
  refine hrec (hk w hw.normal ?_ ho)
  rintro rfl
  exact ht hw.marked

/-- A zone is deleted, and the answer is torn. -/
theorem tears_deleted (hn : Name.normalize zone = zone) (hs : c.scope? = some (.zone zone))
    (hz : ∀ n, u.zoneExists n ↔ Name.normalize n ≠ zone ∧ t.zoneExists n)
    (hk : ∀ name type, u.recordSet zone name type = .ok none)
    (hm : t.ZoneAnswersOver u qname qtype m) (hy : u.ZoneAnswersOver u qname qtype y)
    (hne : m ≠ y) : t.Tears u c qname qtype := by
  -- the name was in a zone before, and that zone is gone
  have hin : ∃ w, t.Encloses qname w := by
    by_contra hno
    push Not at hno
    cases hm with
    | outside h => exact hne ((ZoneAnswersOver.outside fun z h1 => h z ((hz z).1 h1).2).unique hy)
    | found h => exact hno _ h
    | missing h => exact hno _ h
  obtain ⟨w, hw⟩ := hin
  have hgone : ¬ u.Encloses qname w := fun h => hne ((hm.same hw h).unique hy)
  have hwz : w = zone := by
    by_contra hwz
    refine hgone ⟨hw.normal, (hz w).2 ⟨by rwa [hw.normal], hw.marked⟩, hw.within, fun v hv => ?_⟩
    exact hw.closest v ((hz v).1 hv).2
  subst hwz
  refine .deleted hs hw (fun h => ?_) (.missing hw (hk _ _) (hk _ _))
  exact ((hz w).1 h).1 hn

/-- What a change to a zone does if the answer is torn. -/
theorem tears_zone {ops : List Op} {edit : IndexEdit} (ht : t.Sound) (hw : t.Writes c ops edit)
    (hs : c.scope? = some (.zone zone)) (hm : t.ZoneAnswersOver (t.run ops).1 qname qtype m)
    (hx : t.ZoneAnswersOver t qname qtype x)
    (hy : (t.run ops).1.ZoneAnswersOver (t.run ops).1 qname qtype y) (hne : m ≠ x ∧ m ≠ y) :
    t.Tears (t.run ops).1 c qname qtype := by
  have hkept : ∀ w, Name.normalize zone = zone → Name.normalize w = w → zone ≠ w →
      ¬ Key.Overlaps zone w → ∀ name type,
        (t.run ops).1.recordSet w name type = t.recordSet w name type := by
    intro w hzn hwn hzw ho name type
    unfold recordSet read
    rw [writes_owned ht hw hs (Resolver.not_owns_recordSet hzn hwn hzw ho name type)]
  cases hw with
  | @edit z creates edited steps hs' hn hc =>
    cases hs.symm.trans hs'
    have hz := Index.zoneExists_of_edit (t := t) creates hn hc c.id
    cases creates with
    | true => exact tears_created hn hs (by simpa using hz) (fun w => hkept w hn) hm hx hy hne
    | false =>
      -- an update leaves the trie as it is, so it follows at once
      have hsame : ∀ n, _ = t.zoneExists n := fun n => Bool.eq_iff_iff.2 ((hz n).trans (by simp))
      exact absurd ((SameZones.zoneAnswersOver hsame hm).unique hy) hne.2
  | @deleteZone z deleted hs' hn =>
    cases hs.symm.trans hs'
    refine tears_deleted hn hs (Index.zoneExists_of_delete hn c.id) (fun name type => ?_) hm hy
      hne.2
    have hk := Key.startsWith_recordSet zone name type
    have hka : Key.recordSet zone name type ≠ Key.appliedZone zone :=
      Key.ne_of_family (Key.has_of_zoneRecordSets hk) (Key.has_appliedZone zone) (by decide)
    refine recordSet_of_none ?_
    rw [get?_run, after_deleteZone, if_neg hka, if_pos hk]
  | putRule hs' => cases hs.symm.trans hs'
  | deleteRule hs' => cases hs.symm.trans hs'

end Zone

section Rule

variable {c : Change} {id : RuleId} {d : String} {old new : Option StoredRule}

/-- The rules under the old domain answer as before if they are the same. -/
theorem interceptsOver_before
    (h : ∀ d, t.Leads qname d → ∀ r, Index.Names t d r.rule.id → (u.Stores r ↔ t.Stores r)) :
    t.InterceptsOver u qname qtype x ↔ t.InterceptsOver t qname qtype x := by
  have key : ∀ r, t.WinsOver u qname r ↔ t.WinsOver t qname r := by
    intro r
    refine exists_congr fun d => and_congr_right fun hd => ?_
    have hstores := h d hd
    constructor
    · rintro ⟨h1, h2, h3⟩
      exact ⟨(hstores r h2).1 h1, h2, fun s hs hn => h3 s ((hstores s hn).2 hs) hn⟩
    · rintro ⟨h1, h2, h3⟩
      exact ⟨(hstores r h2).2 h1, h2, fun s hs hn => h3 s ((hstores s hn).1 hs) hn⟩
  unfold InterceptsOver
  simp only [key]

/-- The rules under the old domain answer as after if that domain still decides about them. -/
theorem interceptsOver_after (ht : t.Leads qname d) (hu : u.Leads qname d)
    (h : ∀ r, u.Stores r → (Index.Names t d r.rule.id ↔ Index.Names u d r.rule.id)) :
    t.InterceptsOver u qname qtype x ↔ u.InterceptsOver u qname qtype x := by
  have key : ∀ r, t.WinsOver u qname r ↔ u.WinsOver u qname r := by
    intro r
    constructor
    · rintro ⟨e, h1, h2, h3, h4⟩
      obtain rfl := ht.unique h1
      exact ⟨d, hu, h2, (h r h2).1 h3, fun s hs hn => h4 s hs ((h s hs).2 hn)⟩
    · rintro ⟨e, h1, h2, h3, h4⟩
      obtain rfl := hu.unique h1
      exact ⟨d, ht, h2, (h r h2).2 h3, fun s hs hn => h4 s hs ((h s hs).1 hn)⟩
  unfold InterceptsOver
  simp only [key]

/-- What a change to a rule does if the answer is torn. -/
theorem tears_rule (hm : Moves t u id old new) (hs : c.scope? = some (.rule id))
    (hl : t.Leads qname d)
    (hb : ¬ ∀ x, t.InterceptsOver u qname qtype x ↔ t.InterceptsOver t qname qtype x)
    (ha : ¬ ∀ x, t.InterceptsOver u qname qtype x ↔ u.InterceptsOver u qname qtype x) :
    t.Tears u c qname qtype := by
  -- the other rules are where they were
  have hothers : ∀ r, r.rule.id ≠ id → (u.Stores r ↔ t.Stores r) := by
    intro r hr
    unfold Stores
    rw [hm.others _ hr]
  -- so the rule that moves was under the domain that decides
  have hnamed : Index.Names t d id := by
    by_contra hno
    refine hb fun x => interceptsOver_before fun e he r hn => hothers r ?_
    rintro rfl
    obtain rfl := hl.unique he
    exact hno hn
  obtain ⟨p, hp, rfl, hd⟩ := hnamed
  refine .rule hs hp hl hd fun q hq hid hqd hu => ha fun x => ?_
  refine interceptsOver_after hl hu fun r hr => ?_
  by_cases he : r.rule.id = p.rule.id
  · rw [he]
    exact ⟨fun _ => ⟨q, hq, hid, hqd⟩, fun _ => ⟨p, hp, rfl, hd⟩⟩
  · rw [names_iff ((hothers r he).1 hr), names_iff hr]

end Rule

section Writes

variable {c : Change} {id : RuleId} {ops : List Op} {edit : IndexEdit}

theorem moves_of_writes (ht : t.Sound) (hw : t.Writes c ops edit)
    (hs : c.scope? = some (.rule id)) : ∃ old new, Moves t (t.run ops).1 id old new := by
  cases hw with
  | edit creates hs' => cases hs.symm.trans hs'
  | deleteZone hs' => cases hs.symm.trans hs'
  | putRule hs' hr hp =>
    cases hs.symm.trans hs'
    exact ⟨_, _, moves_putRule ht hs hr hp⟩
  | deleteRule hs' hf ha hp =>
    cases hs.symm.trans hs'
    exact ⟨_, _, moves_deleteRule ht hs hf ha hp⟩

/-- **What tears an answer**: a zone that goes away, a zone that comes and shares a key, or a rule
that changes its domains. -/
theorem tears_of_exposes (hq : Name.normalize qname = qname) (ht : t.Sound)
    (hw : t.Writes c ops edit) (he : Exposes t (t.run ops).1 qname qtype order) :
    t.Tears (t.run ops).1 c qname qtype := by
  have hscope : (∃ zone, c.scope? = some (.zone zone)) ∨ ∃ id, c.scope? = some (.rule id) := by
    cases hw with
    | edit creates hs => exact Or.inl ⟨_, hs⟩
    | deleteZone hs => exact Or.inl ⟨_, hs⟩
    | putRule hs => exact Or.inr ⟨_, hs⟩
    | deleteRule hs => exact Or.inr ⟨_, hs⟩
  rcases hscope with ⟨zone, hs⟩ | ⟨id, hs⟩
  · have hrules : SameRules t (t.run ops).1 := stores_of_zone ht hw hs
    cases he with
    | zone hm hx hy hne =>
      exact tears_zone ht hw hs hm (zoneAnswersOver_self.2 hx) (zoneAnswersOver_self.2 hy) hne
    | moved ha hta =>
      rw [hrules.interceptsOver.1, interceptsOver_self hq] at ha
      exact absurd ha hta
    | @dropped a b z hno hta =>
      rw [← interceptsOver_self hq, ← hrules.interceptsOver.1] at hta
      exact absurd hta (hno a)
  · have hzones := sameZones_of_rule ht hw hs
    obtain ⟨old, new, hmoves⟩ := moves_of_writes ht hw hs
    cases he with
    | zone hm hx hy hne =>
      have h1 := SameZones.zoneAnswersOver hzones.markers hm
      exact absurd (h1.unique (zoneAnswersOver_self.2 hy)) hne.2
    | @moved a z ha hta hua =>
      rw [← interceptsOver_self hq] at hta hua
      obtain ⟨d, hl⟩ := ha.leads
      exact tears_rule hmoves hs hl (fun h => hta ((h a).1 ha)) fun h => hua ((h a).1 ha)
    | @dropped a b z hno hta hub =>
      rw [← interceptsOver_self hq] at hta hub
      obtain ⟨d, hl⟩ := hta.leads
      exact tears_rule hmoves hs hl (fun h => hno a ((h a).2 hta)) fun h => hno b ((h b).2 hub)

end Writes

end Table

namespace Resolver

variable {r : Resolver} {c : Change}

/-- **Only such a change tears an answer.** -/
theorem tears_of_torn (h : r.Reached) (htorn : Torn r c order qname qtype) :
    r.store.table.Tears (r.apply c).2.store.table c (Name.normalize qname) qtype := by
  have hq := Name.normalize_normalize qname
  have he := (torn_iff_exposes h).1 htorn
  rcases r.apply_cases c with ⟨ops, edit, hplan, -, ht, -⟩ | ⟨-, ht, hi⟩
  · obtain ⟨s, -, hs, -, -, hw⟩ := Table.plan_write hplan
    rw [ht] at he ⊢
    exact Table.tears_of_exposes hq h.consistent.sound hw he
  · -- nothing was committed, so the query is answered as before
    refine absurd ?_ htorn.1
    show resolve (r.apply c).2.store.table r.index order qname qtype = _
    rw [ht]
    rfl

/-! ## Changes that never show -/

/-- A change that leaves a zone in place, or away, is seen all at once. -/
theorem whole_of_kept {zone : String} (h : r.Reached) (hs : c.scope? = some (.zone zone))
    (hz : (r.apply c).2.store.table.zoneExists zone = r.store.table.zoneExists zone) :
    ¬ Torn r c order qname qtype := by
  intro htorn
  cases tears_of_torn h htorn with
  | deleted hs' ht hu =>
    cases hs.symm.trans hs'
    rw [hz] at hu
    exact hu ht.marked
  | created hs' ht hu =>
    cases hs.symm.trans hs'
    rw [← hz] at ht
    exact ht hu.marked
  | rule hs' => cases hs.symm.trans hs'

/-- A zone that is created is seen all at once if it can share no key with another one. -/
theorem whole_of_created {zone : String} (h : r.Reached) (hs : c.scope? = some (.zone zone))
    (hz : (r.apply c).2.store.table.zoneExists zone)
    (ho : ∀ w, r.store.table.zoneExists w → ¬ Key.Overlaps zone w) :
    ¬ Torn r c order qname qtype := by
  intro htorn
  cases tears_of_torn h htorn with
  | deleted hs' ht hu =>
    cases hs.symm.trans hs'
    exact hu hz
  | created hs' ht hu hw hov =>
    cases hs.symm.trans hs'
    exact ho _ hw.marked hov
  | rule hs' => cases hs.symm.trans hs'

/-- A rule that keeps its domains is seen all at once, whatever else of it changes. -/
theorem whole_of_domains {old new : StoredRule} (h : r.Reached)
    (hs : c.scope? = some (.rule old.rule.id)) (hold : r.store.table.Stores old)
    (hnew : (r.apply c).2.store.table.Stores new) (hid : new.rule.id = old.rule.id)
    (hd : ∀ d, d ∈ new.rule.normalizedDomains ↔ d ∈ old.rule.normalizedDomains) :
    ¬ Torn r c order qname qtype := by
  intro htorn
  have hothers : ∀ s, s.rule.id ≠ old.rule.id → (r.apply c).2.store.table.Stores s →
      r.store.table.Stores s := by
    intro s hne hsu
    rcases r.apply_cases c with ⟨ops, edit, hplan, -, ht, -⟩ | ⟨-, ht, -⟩
    · obtain ⟨-, -, -, -, -, hw⟩ := Table.plan_write hplan
      rw [ht] at hsu
      exact (Table.stores_of_other h.consistent.sound hw hs hne).1 hsu
    · rwa [ht] at hsu
  cases tears_of_torn h htorn with
  | deleted hs' => cases hs.symm.trans hs'
  | created hs' => cases hs.symm.trans hs'
  | @rule p d hs' ht hl hdp hu =>
    have hid' : p.rule.id = old.rule.id := Scope.rule.inj (Option.some.inj (hs'.symm.trans hs))
    obtain rfl := Table.stores_unique ht hold hid'
    -- the same domains are listed, so the same one decides
    refine hu new hnew hid ((hd d).2 hdp) ⟨⟨new, hnew, (hd d).2 hdp⟩, hl.matching, ?_⟩
    intro s e hse he
    by_cases hsid : s.rule.id = p.rule.id
    · obtain rfl := Table.stores_unique hse hnew (hsid.trans hid.symm)
      exact hl.first p e ht ((hd e).1 he)
    · exact hl.first s e (hothers s hsid hse) he

/-! ## Answers that are torn -/

/-- **Which answers are torn.** A query between the commit of a change and the edit of the tries is
always answered. The answer belongs to neither side exactly if the zone or the rules that the old
tries find say something else in the new table than they did, and something else than what follows.
Only some changes do that: those that delete the zone of the name, those that create a zone which
shares a key with the old one, and those that take a rule from the domain that decides. -/
theorem torn_iff (h : r.Reached) (c : Change) (order : FirewallOrder) (qname : String)
    (qtype : RecordType) :
    (∃ x, (r.window c).query order qname qtype = .ok x) ∧
      (Torn r c order qname qtype ↔ r.store.table.Exposes (r.apply c).2.store.table
        (Name.normalize qname) qtype order) ∧
      (Torn r c order qname qtype → r.store.table.Tears (r.apply c).2.store.table c
        (Name.normalize qname) qtype) := by
  obtain ⟨-, ⟨m, q, -, hm⟩, -⟩ := reads_window h.intact c order qname qtype
  exact ⟨⟨_, hm⟩, torn_iff_exposes h, tears_of_torn h⟩

/-- Deleting a rule lets a name through that a rule with a wider domain is to deny. -/
example : Torn
    (replay [ruleChange 1 .upsert 7 ["ads.example."], ruleChange 2 .upsert 8 ["example."]])
    (ruleChange 3 .delete 7 []) .beforeZone "ads.example." .a := by
  decide +kernel

/-- A resolver with one zone, which has an address under its name. -/
def founded : Resolver :=
  replay [founding 1 "example.com."]

/-- While the zone is deleted, it answers for its name with no records and no authority. -/
theorem exposed_deletion : Reached founded ∧
    (∃ x, (founded.window (zoned 2 "example.com." .delete [])).query .beforeZone "example.com." .a =
      .ok x) ∧
    founded.store.table.Exposes
      (founded.apply (zoned 2 "example.com." .delete [])).2.store.table
      (Name.normalize "example.com.") .a .beforeZone ∧
    founded.store.table.Tears (founded.apply (zoned 2 "example.com." .delete [])).2.store.table
      (zoned 2 "example.com." .delete []) (Name.normalize "example.com.") .a := by
  have hr : Reached founded := reached_replay _
  have htorn : Torn founded (zoned 2 "example.com." .delete []) .beforeZone "example.com." .a := by
    decide +kernel
  have h := torn_iff hr (zoned 2 "example.com." .delete []) .beforeZone "example.com." .a
  exact ⟨hr, h.1, h.2.1.1 htorn, h.2.2 htorn⟩

/-- The answer while the zone is deleted is neither its address nor the one that follows: that
nobody is responsible for the name. -/
theorem torn_deletion :
    Reached founded ∧ (founded.apply (zoned 2 "example.com." .delete [])).1 = .ok .applied ∧
      Torn founded (zoned 2 "example.com." .delete []) .beforeZone "example.com." .a :=
  ⟨reached_replay _, by decide +kernel, by decide +kernel⟩

end Resolver

end ZoneRelay
