import ZoneRelay.Proofs.Resolver.Replay

/-!
# Zones apart from each other

A change to one zone leaves the marker of every other zone and the last change applied to it as they
were. With record sets it is not so: a key is put together with slashes between zone, name and type,
and a slash may stand in a name as well, so that two zones can have a key in common.

* `Key.Overlaps`: when a zone's changes can reach the record sets of another.
* `Key.overlaps_of_startsWith`: zones that have a key in common overlap.
* `Resolver.Isolates`: changes to one zone leave the state of another as it is.
* `Resolver.isolates_iff`: that is so if and only if the names do not overlap.
-/

namespace ZoneRelay

/-! ## Keys in common -/

namespace Key

variable {y z a b r name : String} {type : RecordType}

/-- Whether a record set of zone `z` can be under a key that starts like those of zone `y`: either
`z` goes on after `y` and a slash, or `y` goes on after `z` and a slash with something that a name
can start with. Both are in normal form. -/
def Overlaps (y z : String) : Prop :=
  Text.startsWith (y ++ "/") z ∨
    ∃ w ∈ Text.strip? (z ++ "/") y, ∀ c ∈ w.toList.head?, Text.isBlank c = false

instance (y z : String) : Decidable (Overlaps y z) :=
  inferInstanceAs (Decidable (_ ∨ ∃ w ∈ Text.strip? (z ++ "/") y, _))

/-- What follows a text and a slash ends with a slash if the whole does. -/
theorem slash_cases (h : a ++ "/" = b ++ "/" ++ r) :
    a = b ∨ ∃ u, r = u ++ "/" ∧ a = b ++ "/" ++ u := by
  have h1 := congrArg String.toList h
  simp only [String.toList_append] at h1
  rcases List.eq_nil_or_concat r.toList with h2 | ⟨l, c, h2⟩
  · rw [h2, List.append_nil] at h1
    exact Or.inl (Text.append_inj_left (p := "/") (String.toList_inj.1 (by simpa using h1)))
  · rw [h2, List.concat_eq_append, ← List.append_assoc] at h1
    obtain ⟨h3, h4⟩ := List.append_inj' h1 rfl
    refine Or.inr ⟨String.ofList l, String.toList_inj.1 ?_, String.toList_inj.1 ?_⟩
    · simp [h2, ← h4]
    · simp [h3]

/-- **Zones that have a key in common overlap.** -/
theorem overlaps_of_startsWith (hy : Name.normalize y = y) (hz : Name.normalize z = z)
    (hne : y ≠ z) (h : Text.startsWith (zoneRecordSets y) (recordSet z name type)) :
    Overlaps y z := by
  obtain ⟨t, ht⟩ := Text.startsWith_iff_append.1 h
  unfold recordSet zoneRecordSets at ht
  rw [hy, hz] at ht
  -- without what all keys of record sets start with
  have h1 : z ++ "/" ++ (Name.normalize name ++ "/" ++ type.mnemonic) = y ++ "/" ++ t := by
    refine Text.append_inj_right (p := "rrset/") ?_
    simpa [String.append_assoc] using ht
  have h2 := Text.startsWith_append (z ++ "/") (Name.normalize name ++ "/" ++ type.mnemonic)
  have h3 := Text.startsWith_append (y ++ "/") t
  rw [h1] at h2
  rcases Text.startsWith_total h3 h2 with h4 | h4
  · obtain ⟨r, hr⟩ := Text.startsWith_iff_append.1 h4
    rcases slash_cases hr with h5 | ⟨u, -, h5⟩
    · exact absurd h5.symm hne
    · exact Or.inl (Text.startsWith_iff_append.2 ⟨u, h5⟩)
  · obtain ⟨r, hr⟩ := Text.startsWith_iff_append.1 h4
    rcases slash_cases hr with h5 | ⟨w, rfl, h5⟩
    · exact absurd h5 hne
    · refine Or.inr ⟨w, ?_, fun c hc => ?_⟩
      · rw [h5]
        exact Text.strip?_append _ _
      · -- what follows is the start of the name, which starts with no blank
        have h6 : (Name.normalize name).toList ++ ("/" ++ type.mnemonic).toList =
            w.toList ++ ("/" ++ t).toList := by
          rw [hr] at h1
          simp only [← String.toList_append]
          refine congrArg String.toList (Text.append_inj_right (p := z ++ "/") ?_)
          simpa [String.append_assoc] using h1
        have h7 : (Name.normalize name).toList ≠ [] := by
          simpa using Name.normalize_ne_empty name
        refine Name.head_normalize (s := name) c ?_
        rw [← List.head?_append_of_ne_nil _ h7, h6, List.head?_append, Option.mem_def.1 hc]
        rfl

/-- Names without a slash do not overlap. -/
theorem not_overlaps_of_no_slash (hy : '/' ∉ y.toList) (hz : '/' ∉ z.toList) : ¬ Overlaps y z := by
  have key : ∀ {a b : String}, '/' ∉ b.toList → ¬ Text.startsWith (a ++ "/") b := by
    intro a b hb h
    obtain ⟨t, rfl⟩ := Text.startsWith_iff_append.1 h
    exact hb (by simp)
  rintro (h | ⟨w, h, -⟩)
  · exact key hz h
  · unfold Text.strip? at h
    split at h
    · next h1 => exact key hy h1
    · cases h

end Key

/-! ## What a change to another zone leaves -/

/-- `u` has of a zone what `t` has of it. -/
structure Table.SameZone (t u : Table) (z : String) : Prop where
  marker : u.zoneExists z = t.zoneExists z
  applied : u.lastAppliedToZone z = t.lastAppliedToZone z
  records : ∀ name type, u.recordSet z name type = t.recordSet z name type

namespace Resolver

variable {r : Resolver} {c : Change} {a b y z k : String}

/-- Whether a resolver has come from one over an empty store. -/
def Reached (r : Resolver) : Prop :=
  ∃ s events, r = (blank s).run events

/-- Whether changes to zone `y` leave the state of zone `z` as it is. -/
def Isolates (y z : String) : Prop :=
  ∀ r c, Reached r → c.scope? = some (.zone y) →
    r.store.table.SameZone (r.apply c).2.store.table z

theorem Reached.consistent (h : r.Reached) : r.Consistent := by
  obtain ⟨s, events, rfl⟩ := h
  exact consistent_run (consistent_blank s) events

theorem reached_replay (cs : List Change) : (replay cs).Reached :=
  ⟨.inMemory, cs.map .apply, rfl⟩

/-- A change writes no key but those of its own zone, whether it is applied or not. -/
theorem get?_apply_unowned (h : r.Consistent) (hc : c.scope? = some (.zone y))
    (hk : ¬ (Scope.zone y).owns k) : (r.apply c).2.store.table.get? k = r.store.table.get? k := by
  rcases r.apply_cases c with ⟨ops, edit, hp, -, ht, -⟩ | ⟨-, ht, -⟩
  · obtain ⟨s, -, -, -, -, hw⟩ := Table.plan_write hp
    rw [ht]
    exact Table.writes_owned h.sound hw hc hk
  · rw [ht]

theorem not_owns_marker (hne : Name.normalize y ≠ Name.normalize z) :
    ¬ (Scope.zone y).owns (Key.zoneMarker z) := by
  obtain ⟨h1, h2⟩ := Index.marker_other z y
  rintro (h | h | h)
  · exact hne (Key.zoneMarker_inj.1 h).symm
  · exact h1 h
  · exact h2 h

theorem not_owns_applied (hne : Name.normalize y ≠ Name.normalize z) :
    ¬ (Scope.zone y).owns (Key.appliedZone z) := by
  intro h
  have h1 : Key.appliedZone z = Key.appliedZone y := Scope.appliedKey_of_owns (u := .zone z) h
  exact hne (Key.appliedZone_inj.1 h1).symm

/-- A key of a record set belongs to another zone only if their names overlap. -/
theorem not_owns_recordSet (hy : Name.normalize y = y) (hz : Name.normalize z = z) (hne : y ≠ z)
    (ho : ¬ Key.Overlaps y z) (name : String) (type : RecordType) :
    ¬ (Scope.zone y).owns (Key.recordSet z name type) := by
  have hf : Key.Family.records.has (Key.recordSet z name type) :=
    Key.has_of_zoneRecordSets (Key.startsWith_recordSet z name type)
  rintro (h | h | h)
  · exact Key.ne_of_family hf (Key.has_zoneMarker y) (by decide) h
  · exact ho (Key.overlaps_of_startsWith hy hz hne h)
  · exact Key.ne_of_family hf (Key.has_appliedZone y) (by decide) h

/-- **Changes to one zone leave the marker of another one and what was last applied to it.** -/
theorem marker_apply (h : r.Consistent) (hc : c.scope? = some (.zone y))
    (hne : Name.normalize y ≠ Name.normalize z) :
    (r.apply c).2.store.table.zoneExists z = r.store.table.zoneExists z ∧
      (r.apply c).2.store.table.lastAppliedToZone z = r.store.table.lastAppliedToZone z := by
  constructor
  · unfold Table.zoneExists Table.contains
    rw [get?_apply_unowned h hc (not_owns_marker hne)]
  · unfold Table.lastAppliedToZone Table.read
    rw [get?_apply_unowned h hc (not_owns_applied hne)]

theorem isolates_of_not_overlaps (hy : Name.normalize y = y) (hz : Name.normalize z = z)
    (hne : y ≠ z) (ho : ¬ Key.Overlaps y z) : Isolates y z := by
  intro r c hr hc
  obtain ⟨h1, h2⟩ := marker_apply hr.consistent hc (z := z) (by rwa [hy, hz])
  refine ⟨h1, h2, fun name type => ?_⟩
  unfold Table.recordSet Table.read
  rw [get?_apply_unowned hr.consistent hc (not_owns_recordSet hy hz hne ho name type)]

/-- Zones whose names hold no slash leave each other alone. -/
theorem isolates_of_no_slash (hy : Name.normalize y = y) (hz : Name.normalize z = z) (hne : y ≠ z)
    (hy' : '/' ∉ y.toList) (hz' : '/' ∉ z.toList) : Isolates y z :=
  isolates_of_not_overlaps hy hz hne (Key.not_overlaps_of_no_slash hy' hz')

/-! ## Zones that overlap -/

/-- The last change of a replay leaves what it decides about. -/
theorem get?_replay_last (cs : List Change) (ha : (cs ++ [c]).Pairwise (·.id < ·.id)) (hd : c.Decides k) :
    (replay (cs ++ [c])).store.table.get? k = c.leaves k := by
  have hc : c ∈ cs ++ [c] := by simp
  rcases Table.History.replay_newest ha k with ⟨-, h1⟩ | ⟨d, h1, -, h2, h3⟩
  · exact absurd hd (h1 c hc)
  · rw [h2]
    rcases List.mem_append.1 h1 with h4 | h4
    · -- the last one is newer than any before it
      have h5 : d.id < c.id := (List.pairwise_append.1 ha).2.2 d h4 c (by simp)
      exact absurd (UInt64.lt_of_lt_of_le h5 (h3 c hc hd)) (UInt64.lt_irrefl _)
    · rw [List.mem_singleton.1 h4]

/-- A change to a zone with these steps. -/
def zoned (id : ChangeId) (zone : String) (action : ZoneAction) (changes : List RecordSetChange) :
    Change :=
  { id, type := .zone, zone := some ⟨zone, action, changes⟩, firewall := none
    submittedAt := ⟨⟨2024, 1, 3, 0, 0, 0, 0⟩, Eq.refl true⟩, status := .pending }

/-- A change that creates a zone with an address under the name of the zone. -/
def founding (id : ChangeId) (zone : String) : Change :=
  zoned id zone .create [⟨.create, ⟨zone, .a, 300, ["192.0.2.1"]⟩⟩]

theorem op_founding (hz : Name.validate? z = some z) :
    RecordSetChange.op z ⟨.create, ⟨z, .a, 300, ["192.0.2.1"]⟩⟩ =
      .ok (.put (Key.recordSet z z .a) (encodeRecords [⟨z, .a, 300, "192.0.2.1"⟩])) := by
  have hn : Name.validate z = .ok z := by
    unfold Name.validate
    rw [hz]
  have hw : Name.isWithin z z = true := by
    unfold Name.isWithin
    exact List.isPrefixOf_iff_prefix.2 (List.prefix_refl _)
  have hd : RecordData.canonical .a "192.0.2.1" = .ok "192.0.2.1" := by decide
  have he : RecordSet.encode ⟨z, .a, 300, ["192.0.2.1"]⟩ = .ok [⟨z, .a, 300, "192.0.2.1"⟩] := by
    unfold RecordSet.encode
    rw [hn]
    simp [bind, Except.bind, RecordSet.encodeNamed, RecordSet.encodeValue, hd, pure, Except.pure]
  unfold RecordSetChange.op
  rw [hn]
  simp only [liftRecord, Except.mapError, bind, Except.bind, hw, he, Bool.not_true,
    Bool.false_eq_true, if_false]

/-- The writes of the change that founds a zone. -/
def foundingOps (id : ChangeId) (zone : String) : List Op :=
  [.put (Key.appliedZone zone) (encodeChangeId id), .put (Key.zoneMarker zone) [],
    .put (Key.recordSet zone zone .a) (encodeRecords [⟨zone, .a, 300, "192.0.2.1"⟩])]

theorem writes_founding (hz : Name.validate? z = some z) (id : ChangeId) :
    (founding id z).writes = foundingOps id z := by
  have hn : Name.validate z = .ok z := by
    unfold Name.validate
    rw [hz]
  have h1 : Table.zoneOps id z true [⟨.create, ⟨z, .a, 300, ["192.0.2.1"]⟩⟩] =
      .ok (foundingOps id z) := by
    unfold Table.zoneOps
    rw [List.mapM_cons, op_founding hz]
    rfl
  have h2 : Table.empty.lastAppliedToZone z = .ok none := rfl
  have h3 : Table.empty.plan (founding id z) = .ok (.write (foundingOps id z) (.addZone z)) := by
    unfold Table.plan founding zoned Table.planZone
    simp only [hn, liftRecord, liftStore, Except.mapError, bind, Except.bind, h2, h1]
    rfl
  exact Table.writes_of_plan h3

theorem writes_dropping (hz : Name.validate? z = some z) (id : ChangeId) :
    (zoned id z .delete []).writes = Op.deleteZone z id := by
  have hn : Name.validate z = .ok z := by
    unfold Name.validate
    rw [hz]
  have h1 : Table.empty.lastAppliedToZone z = .ok none := rfl
  have h2 : Table.empty.plan (zoned id z .delete []) =
      .ok (.write (Op.deleteZone z id) (.dropZone z)) := by
    unfold Table.plan zoned Table.planZone
    simp only [hn, liftRecord, liftStore, Except.mapError, bind, Except.bind, h1]
    rfl
  exact Table.writes_of_plan h2

theorem scope?_zoned (id : ChangeId) (hz : Name.normalize z = z) (action : ZoneAction)
    (changes : List RecordSetChange) : (zoned id z action changes).scope? = some (.zone z) := by
  unfold Change.scope? zoned
  simp only [hz]

/-- A zone that is founded has its record set. -/
theorem founding_leaves (hz : Name.validate? z = some z) (id : ChangeId) :
    (founding id z).Decides (Key.recordSet z z .a) ∧
      (founding id z).leaves (Key.recordSet z z .a) =
        some (encodeRecords [⟨z, .a, 300, "192.0.2.1"⟩]) := by
  have hs := scope?_zoned id (Name.validate?_eq_some hz).symm .create
    [⟨.create, ⟨z, .a, 300, ["192.0.2.1"]⟩⟩]
  constructor
  · refine (Table.decides_zone hs).2 ⟨.put (Key.recordSet z z .a)
      (encodeRecords [⟨z, .a, 300, "192.0.2.1"⟩]), ?_, beq_self_eq_true _⟩
    rw [← founding, writes_founding hz]
    simp [foundingOps]
  · unfold Change.leaves
    rw [writes_founding hz]
    simp [foundingOps, Op.after, Op.act, Op.touches]

/-- A zone that is deleted leaves no key that starts like those of its record sets. -/
theorem dropping_leaves (hz : Name.validate? z = some z) (id : ChangeId)
    (hk : Text.startsWith (Key.zoneRecordSets z) k) :
    (zoned id z .delete []).Decides k ∧ (zoned id z .delete []).leaves k = none := by
  have hs := scope?_zoned id (Name.validate?_eq_some hz).symm .delete []
  have hne : k ≠ Key.appliedZone z :=
    Key.ne_of_family (Key.has_of_zoneRecordSets hk) (Key.has_appliedZone z) (by decide)
  constructor
  · refine (Table.decides_zone hs).2 ⟨.deletePrefix (Key.zoneRecordSets z), ?_, hk⟩
    rw [writes_dropping hz]
    simp [Op.deleteZone]
  · unfold Change.leaves
    rw [writes_dropping hz, Table.after_deleteZone, if_neg hne, if_pos hk]

/-- If `z` goes on after `y` and a slash, then deleting `y` takes the record sets of `z` away. -/
theorem not_isolates_of_startsWith (hy : Name.validate? y = some y) (hz : Name.validate? z = some z)
    (h : Text.startsWith (y ++ "/") z) : ¬ Isolates y z := by
  intro hi
  have hyn : Name.normalize y = y := (Name.validate?_eq_some hy).symm
  have hzn : Name.normalize z = z := (Name.validate?_eq_some hz).symm
  have hk : Text.startsWith (Key.zoneRecordSets y) (Key.recordSet z z .a) := by
    obtain ⟨t, rfl⟩ := Text.startsWith_iff_append.1 h
    unfold Key.recordSet Key.zoneRecordSets
    rw [hyn, hzn]
    exact Text.startsWith_iff_append.2 ⟨t ++ "/" ++ (y ++ "/" ++ t) ++ "/" ++ RecordType.a.mnemonic,
      by simp [String.append_assoc]⟩
  obtain ⟨h1, h2⟩ := founding_leaves hz 1
  obtain ⟨h3, h4⟩ := dropping_leaves hy 2 hk
  have before := get?_replay_last [] (by simp) h1
  have after := get?_replay_last [founding 1 z] (by simp [founding, zoned]) h3
  rw [h2, List.nil_append] at before
  rw [h4, replay_append] at after
  have hsame := (hi _ _ (reached_replay [founding 1 z]) (scope?_zoned 2 hyn .delete [])).records z .a
  rw [Table.recordSet_of_none after, Table.recordSet_of_some before] at hsame
  cases hsame

/-- If `y` goes on after `z` and a slash, then creating `y` gives `z` a record set. -/
theorem not_isolates_of_strip? (hy : Name.validate? y = some y) (hz : Name.validate? z = some z)
    {w : String} (h : Text.strip? (z ++ "/") y = some w)
    (hw : ∀ c ∈ w.toList.head?, Text.isBlank c = false) : ¬ Isolates y z := by
  intro hi
  have hyn : Name.normalize y = y := (Name.validate?_eq_some hy).symm
  have hzn : Name.normalize z = z := (Name.validate?_eq_some hz).symm
  have hyw : y = z ++ "/" ++ w := Text.strip?_eq_some h
  have hlow : ∀ c ∈ w.toList, c.toLower = c := by
    intro c hc
    refine Name.lower_normalize (s := y) c ?_
    rw [hyn, hyw]
    simp [hc]
  have hk : Key.recordSet y y .a = Key.recordSet z (w ++ "/" ++ y) .a := by
    unfold Key.recordSet Key.zoneRecordSets
    rw [Name.normalize_join hw hlow hyn, hyn, hzn, hyw]
    simp [String.append_assoc]
  obtain ⟨h1, h2⟩ := founding_leaves hy 1
  have after := get?_replay_last [] (by simp) h1
  rw [h2, hk, replay_append] at after
  have hsame := (hi _ (founding 1 y) (reached_replay []) (scope?_zoned 1 hyn .create _)).records
    (w ++ "/" ++ y) .a
  have before : (replay []).store.table.recordSet z (w ++ "/" ++ y) .a = .ok none :=
    Table.recordSet_of_none Table.get?_empty
  rw [before] at hsame
  cases (Table.recordSet_of_some after).symm.trans hsame

theorem not_isolates_of_overlaps (hy : Name.validate? y = some y) (hz : Name.validate? z = some z)
    (ho : Key.Overlaps y z) : ¬ Isolates y z := by
  rcases ho with h | ⟨w, h, hw⟩
  · exact not_isolates_of_startsWith hy hz h
  · exact not_isolates_of_strip? hy hz h hw

/-! ## When zones are apart -/

/-- **When a zone's changes leave another zone alone.** Marker and last change applied of the other
zone always stay as they are, and its record sets do if and only if the names do not overlap. -/
theorem isolates_iff (hy : Name.validate? a = some y) (hz : Name.validate? b = some z)
    (hne : y ≠ z) :
    (∀ r c, Reached r → c.scope? = some (.zone y) →
      (r.apply c).2.store.table.zoneExists z = r.store.table.zoneExists z ∧
        (r.apply c).2.store.table.lastAppliedToZone z = r.store.table.lastAppliedToZone z) ∧
    (Isolates y z ↔ ¬ Key.Overlaps y z) := by
  have hy' := Name.validate?_normal hy
  have hz' := Name.validate?_normal hz
  have hyn : Name.normalize y = y := (Name.validate?_eq_some hy').symm
  have hzn : Name.normalize z = z := (Name.validate?_eq_some hz').symm
  refine ⟨fun r c hr hc => marker_apply hr.consistent hc (by rwa [hyn, hzn]), ?_, ?_⟩
  · intro hi ho
    exact not_isolates_of_overlaps hy' hz' ho hi
  · exact isolates_of_not_overlaps hyn hzn hne

/-- A zone and one below it, with ordinary names. -/
theorem isolates_subzone : Name.validate? "Example.com" = some "example.com." ∧
    Name.validate? "sub.example.com" = some "sub.example.com." ∧
    Isolates "example.com." "sub.example.com." := by
  have hy : Name.validate? "Example.com" = some "example.com." := by decide +kernel
  have hz : Name.validate? "sub.example.com" = some "sub.example.com." := by decide +kernel
  exact ⟨hy, hz, (isolates_iff hy hz (by decide)).2.2 (by decide)⟩

/-- Two zones, each with an address under its own name. One name goes on after the other and a
slash. -/
def neighbours : Resolver :=
  replay [founding 1 "a.", founding 2 "a./b."]

/-- Deleting the one zone takes the other one's address away. -/
theorem not_isolated_neighbours :
    Name.validate? "a." = some "a." ∧ Name.validate? "a./b." = some "a./b." ∧
      (neighbours.apply (zoned 3 "a." .delete [])).1 = .ok .applied ∧
      ¬ neighbours.store.table.SameZone (neighbours.apply (zoned 3 "a." .delete [])).2.store.table
        "a./b." := by
  refine ⟨by decide +kernel, by decide +kernel, by decide +kernel, fun h => ?_⟩
  have before : neighbours.store.table.recordSet "a./b." "a./b." .a =
      .ok (some [⟨"a./b.", .a, 300, "192.0.2.1"⟩]) := by decide +kernel
  have after : (neighbours.apply (zoned 3 "a." .delete [])).2.store.table.recordSet "a./b." "a./b."
      .a = .ok none := by decide +kernel
  have hsame := h.records "a./b." .a
  rw [before, after] at hsame
  cases hsame

end Resolver

end ZoneRelay
