import ZoneRelay.Proofs.Resolver.Answer

/-!
# Answers fit their questions

What a query is answered is about the name and the type asked for, as long as no zone has a slash in
its name: keys are put together with slashes, and without them the key of a record set tells zone,
name and type apart.

* `Resolution.Fits`: what fits a question.
* `Change.Plain`: a change that names no zone with a slash in it.
* `Table.Plain`, `Table.plain_writes`: every record set was encoded from one given for the zone, name
  and type of its key, and a planned change preserves that.
* `Resolver.plain_run`: it holds after every run.
* `Table.Plain.encodes`: what is read for a zone, a name and a type was encoded from a set for these.
* `Resolver.query_fits`: every query has an answer that fits.
-/

namespace ZoneRelay

/-- What fits a question for a type at a name. -/
structure Resolution.Fits (x : Resolution) (qname : String) (qtype : RecordType) : Prop where
  /-- The answer is about the name and the type asked for. -/
  answer : ∀ w ∈ x.answer, w.name = Name.normalize qname ∧ w.type = qtype
  /-- What a zone answers without an error is a whole record set. -/
  found : x.matched = true → x.rcode = .noError → x.firewallRule = none →
    x.answer ≠ [] ∧ (∃ ttl, ∀ w ∈ x.answer, w.ttl = ttl) ∧ (qtype = .cname → x.answer.length = 1)
  /-- Only a zone that does not have the name gives an authority. -/
  missing : x.authority ≠ [] → x.rcode = .nxDomain ∧ x.firewallRule = none
  /-- The authority is that of a zone around the name. -/
  authority : ∀ w ∈ x.authority, w.type = .soa ∧ Name.isWithin (Name.normalize qname) w.name
  unmatched : x.matched = false → x.answer = [] ∧ x.authority = []

namespace Change

variable {c : Change}

/-- A change to a zone without a slash in its name, or to a rule. -/
def Plain (c : Change) : Prop :=
  ∀ zone, c.scope? = some (.zone zone) → '/' ∉ (Name.normalize zone).toList

theorem plain_of_zoneName (h : ∀ z ∈ c.zone, '/' ∉ z.zoneName.toList) : c.Plain := by
  intro zone hs
  obtain ⟨z, -, hz, rfl⟩ := zone_of_scope? hs
  rw [Name.normalize_normalize]
  exact Name.slash_normalize (h z hz)

end Change

namespace Table

variable {t : Table} {c : Change} {ops : List Op} {edit : IndexEdit} {qname zone name : String}
  {type qtype : RecordType} {records : List WireRecord} {x : Resolution}

/-! ## Tables without slashes in the names of zones -/

/-- No zone has a slash in its name, and every record set was encoded from one given for the zone,
the name and the type of its key. -/
structure Plain (t : Table) : Prop where
  zones : ∀ z, t.zoneExists z → '/' ∉ (Name.normalize z).toList
  records : ∀ k v, t.get? k = some v → Key.Family.records.has k →
    ∃ zone set records, '/' ∉ (Name.normalize zone).toList ∧
      k = Key.recordSet zone set.name set.type ∧ RecordSet.encode set = .ok records ∧
      v = encodeRecords records

theorem plain_empty : empty.Plain :=
  ⟨fun z h => (by cases h), fun k v h => (by cases h)⟩

/-- A zone was there before, or the change is about it. -/
theorem zoneExists_writes (ht : t.Sound) (hp : t.plan c = .ok (.write ops edit)) {z : String}
    (hz : (t.run ops).1.zoneExists z) :
    t.zoneExists z ∨ c.scope? = some (.zone (Name.normalize z)) := by
  obtain ⟨s, -, hs, -, -, hw⟩ := plan_write hp
  cases s with
  | zone y =>
    cases hw with
    | edit creates hs' hn hc =>
      rcases (Index.zoneExists_of_edit creates hn hc c.id z).1 hz with ⟨rfl, -⟩ | h1
      · exact Or.inr hs'
      · exact Or.inl h1
    | deleteZone hs' hn => exact Or.inl ((Index.zoneExists_of_delete hn c.id z).1 hz).2
    | putRule hs' => cases hs.symm.trans hs'
    | deleteRule hs' => cases hs.symm.trans hs'
  | rule id =>
    rw [Index.zoneExists_of_rule ht hw hs] at hz
    exact Or.inl hz

/-- **A change without a slash in the name of its zone keeps a table plain.** -/
theorem plain_writes (ht : t.Sound) (h : t.Plain) (hc : c.Plain)
    (hp : t.plan c = .ok (.write ops edit)) : (t.run ops).1.Plain := by
  refine ⟨fun z hz => ?_, fun k v hv hk => ?_⟩
  · rcases zoneExists_writes ht hp hz with h1 | h1
    · exact h.zones z h1
    · rw [← Name.normalize_normalize]
      exact hc _ h1
  · rcases records_writes ht hp hv hk with h1 | ⟨zone, set, records, hs, h1⟩
    · exact h.records k v h1 hk
    · exact ⟨zone, set, records, hc zone hs, h1⟩

/-- **What is read for a zone, a name and a type** was encoded from a set for that name and type. -/
theorem Plain.encodes (h : t.Plain) (hz : t.zoneExists zone)
    (hr : t.recordSet zone name type = .ok (some records)) :
    ∃ set : RecordSet, Name.normalize set.name = Name.normalize name ∧ set.type = type ∧
      set.Encodes records := by
  have hk : Key.Family.records.has (Key.recordSet zone name type) :=
    Key.has_of_zoneRecordSets (Key.startsWith_recordSet zone name type)
  cases hv : t.get? (Key.recordSet zone name type) with
  | none =>
    rw [recordSet_of_none hv] at hr
    cases hr
  | some v =>
    obtain ⟨y, set, records', hy, hkey, he, rfl⟩ := h.records _ v hv hk
    rw [recordSet_of_some hv] at hr
    obtain rfl : records' = records := Option.some.inj (Except.ok.inj hr)
    obtain ⟨-, h1, h2⟩ := (Key.recordSet_inj_of_plain (h.zones zone hz) hy).1 hkey
    exact ⟨set, h1.symm, h2.symm, RecordSet.encode_eq_ok_iff.1 he⟩

/-! ## Answers -/

/-- An answer without records fits, unless it is that of a zone without an error. -/
theorem fits_of_empty (ha : x.answer = []) (hn : x.authority = [])
    (hx : x.matched = true → x.firewallRule ≠ none) : x.Fits qname qtype where
  answer w hw := by rw [ha] at hw; cases hw
  found hm _ hr := absurd hr (hx hm)
  missing h := absurd hn h
  authority w hw := by rw [hn] at hw; cases hw
  unmatched _ := ⟨ha, hn⟩

/-- What a zone answers fits. -/
theorem ZoneAnswers.fits (h : t.Plain) (hx : t.ZoneAnswers (Name.normalize qname) qtype x) :
    x.Fits qname qtype := by
  cases hx with
  | outside => exact fits_of_empty rfl rfl (by simp)
  | @found zone records hz hr =>
    obtain ⟨set, hname, htype, hset⟩ := h.encodes hz.marked hr
    rw [Name.normalize_normalize] at hname
    have hhead : ∀ w ∈ records, w.name = Name.normalize qname ∧ w.type = qtype ∧ w.ttl = set.ttl := by
      rw [← hname, ← htype]
      exact hset.head
    have hsingle : qtype = .cname → records.length = 1 := by
      intro hc
      rw [← hset.records.length_eq]
      exact hset.single (htype.trans hc)
    exact {
      answer w hw := ⟨(hhead w hw).1, (hhead w hw).2.1⟩
      found _ _ _ := ⟨hset.ne_nil, ⟨set.ttl, fun w hw => (hhead w hw).2.2⟩, hsingle⟩
      missing h := absurd rfl h
      authority w hw := by cases hw
      unmatched h := by cases h }
  | @missing zone authority hz hr ha =>
    have hstart : ∀ w ∈ authority.getD [], w.type = .soa ∧
        Name.isWithin (Name.normalize qname) w.name := by
      intro w hw
      cases authority with
      | none => cases hw
      | some soa =>
        obtain ⟨set, hname, htype, hset⟩ := h.encodes hz.marked ha
        obtain ⟨h1, h2, -⟩ := hset.head w hw
        refine ⟨h2.trans htype, ?_⟩
        rw [h1, hname, hz.normal]
        exact hz.within
    exact {
      answer w hw := by cases hw
      found _ hcode := by cases hcode
      missing _ := ⟨rfl, rfl⟩
      authority := hstart
      unmatched h := by cases h }

/-- What a rule answers fits, for it is put under the name asked for. -/
theorem Intercepts.fits (hx : t.Intercepts (Name.normalize qname) qtype x) : x.Fits qname qtype := by
  cases hx with
  | @override r records _ _ =>
    have hrenamed : ∀ w ∈ (r.answer.filter (·.type == qtype)).map fun w =>
        { w with name := Name.normalize qname },
        w.name = Name.normalize qname ∧ w.type = qtype := by
      intro w hw
      obtain ⟨v, hv, rfl⟩ := List.mem_map.1 hw
      exact ⟨rfl, by simpa using (List.mem_filter.1 hv).2⟩
    exact {
      answer := hrenamed
      found _ _ hrule := by cases hrule
      missing h := absurd rfl h
      authority w hw := by cases hw
      unmatched h := by cases h }
  | noData => exact fits_of_empty rfl rfl (by simp)
  | nxDomain => exact fits_of_empty rfl rfl (by simp)

theorem Answers.fits {order : FirewallOrder} (h : t.Plain)
    (hx : t.Answers (Name.normalize qname) qtype order x) : x.Fits qname qtype := by
  cases hx with
  | rule hi => exact hi.fits
  | noRule _ hz => exact hz.fits h
  | zone hz _ => exact hz.fits h
  | ruleAfter _ _ hi => exact hi.fits
  | noRuleAfter hz _ _ => exact hz.fits h

end Table

namespace Resolver

variable {events : List Event}

/-- **A table stays plain** while only changes without a slash in the names of zones are applied. -/
theorem plain_run {r : Resolver} (hr : r.Consistent) (h : r.store.table.Plain)
    (hc : ∀ c, .apply c ∈ events → c.Plain) : (r.run events).store.table.Plain :=
  table_run hr h fun c hm _ _ _ ht hplain hp => Table.plain_writes ht hplain (hc c hm) hp

/-- **Answers fit their questions.** Whatever changes were applied to a resolver over an empty store
and whatever commits failed, as long as no change names a zone with a slash in it, every query has
an answer, and it fits: its records are of the type asked for, under the name asked for; what a zone
answers without an error is a whole record set; only where a zone does not have the name is there an
authority, of a zone around the name; and where no zone or rule covers the name, there is nothing at
all. -/
theorem query_fits (s : Store) (hc : ∀ c, .apply c ∈ events → ∀ z ∈ c.zone, '/' ∉ z.zoneName.toList)
    (order : FirewallOrder) (qname : String) (qtype : RecordType) :
    ∃ x, ((blank s).run events).query order qname qtype = .ok x ∧ x.Fits qname qtype := by
  have hintact := intact_run s events
  have hplain := plain_run (consistent_blank s) Table.plain_empty fun c hm =>
    Change.plain_of_zoneName (hc c hm)
  obtain ⟨x, h1, h2⟩ := Table.resolve_answers hintact.proper hintact.consistent.mirrors
    hintact.standard order qname qtype
  exact ⟨x, h1, h2.fits hplain⟩

/-- A zone that has a start and one address. -/
def sampleZone : ZoneChange :=
  { zoneName := "Example.COM", action := .create
    changes := [
      ⟨.create, ⟨"example.com", .soa, 3600, ["ns1.example.com. admin.example.com. 1 2 3 4 5"]⟩⟩,
      ⟨.create, ⟨"www.example.com", .a, 60, ["192.0.2.1", "192.0.2.2"]⟩⟩] }

/-- For a name that the zone does not have, the authority is its start. -/
theorem query_fits_missing :
    let c : Change := { id := 7, type := .zone, zone := some sampleZone, firewall := none
                        submittedAt := ⟨⟨2024, 1, 3, 0, 0, 0, 0⟩, by decide⟩, status := .pending }
    (∀ d, .apply d ∈ [Event.apply c] → ∀ z ∈ d.zone, '/' ∉ z.zoneName.toList) ∧
      ∃ x, ((blank .inMemory).run [.apply c]).query .afterZone "FTP.example.com" .a = .ok x ∧
        x.Fits "FTP.example.com" .a ∧ x.rcode = .nxDomain ∧ x.authority.length = 1 := by
  intro c
  have hplain : ∀ d, .apply d ∈ [Event.apply c] → ∀ z ∈ d.zone, '/' ∉ z.zoneName.toList := by
    intro d hd z hz
    obtain rfl : d = c := Event.apply.inj (List.mem_singleton.1 hd)
    obtain rfl : sampleZone = z := Option.some.inj hz
    decide
  obtain ⟨x, hx, hfits⟩ := query_fits .inMemory hplain .afterZone "FTP.example.com" .a
  refine ⟨hplain, x, hx, hfits, ?_⟩
  have hanswer : ((blank .inMemory).run [.apply c]).query .afterZone "FTP.example.com" .a =
      .ok { answer := [], authority := [⟨"example.com.", .soa, 3600,
              "ns1.example.com. admin.example.com. 1 2 3 4 5"⟩]
            rcode := .nxDomain, matched := true, firewallRule := none } := by
    decide +kernel
  rw [hanswer] at hx
  rw [← Except.ok.inj hx]
  exact ⟨rfl, rfl⟩

end Resolver

end ZoneRelay
