import ZoneRelay.Proofs.Resolver.Index
import ZoneRelay.Proofs.Resolver.Sound
import ZoneRelay.Proofs.Store.Listing

/-!
# Tries mirror the store

A resolver's tries are edited change by change, while its store is written. Whatever changes come
and whatever commits fail, the tries say what the store says.

* `Index.Mirrors`: the invariant; `Index.mirrors_writes` is its step.
* `Resolver.act`, `Resolver.run`: what can happen to a resolver.
* `Resolver.Mirrored`: what the tries and the keys of domains have to do with zones and rules.
* `Resolver.mirrored_run`: it holds after every run.
-/

namespace ZoneRelay

namespace Table

variable {t : Table} {name : String}

/-! ## What a sound table lists -/

theorem zoneExists_iff : t.zoneExists name ↔ ∃ v, t.get? (Key.zoneMarker name) = some v :=
  contains_iff

theorem zoneExists_normalize (t : Table) (name : String) :
    t.zoneExists (Name.normalize name) = t.zoneExists name := by
  unfold zoneExists
  rw [Key.zoneMarker_normalize]

theorem markedZone?_eq_some {k z : String} (h : Key.markedZone? k = some z) :
    k = Key.zonePrefix ++ z := by
  unfold Key.markedZone? at h
  split at h
  · next w hw =>
    split at h
    · cases h
    · rw [← Option.some.inj h]
      exact Text.strip?_eq_some hw
  · cases h

/-- The zones listed are those with a marker. -/
theorem Sound.mem_zones (h : t.Sound) :
    name ∈ t.zones ↔ Name.normalize name = name ∧ t.zoneExists name := by
  unfold zones
  rw [List.mem_filterMap]
  constructor
  · rintro ⟨⟨k, v⟩, hk, hm⟩
    obtain ⟨h1, h2⟩ := mem_scan.1 hk
    obtain ⟨z, rfl⟩ := h.zone k v h1 h2
    rw [Key.markedZone?_zoneMarker] at hm
    rw [← Option.some.inj hm, zoneExists_normalize, zoneExists_iff]
    exact ⟨Name.normalize_normalize z, v, h1⟩
  · rintro ⟨h1, h2⟩
    obtain ⟨v, hv⟩ := zoneExists_iff.1 h2
    refine ⟨(Key.zoneMarker name, v), mem_scan.2 ⟨hv, Key.has_zoneMarker name⟩, ?_⟩
    rw [Key.markedZone?_zoneMarker, h1]

theorem zones_ordered (t : Table) : t.zones.Pairwise fun a b => a < b := by
  unfold zones
  rw [List.pairwise_filterMap]
  refine (t.scan_ordered Key.zonePrefix).imp fun hab z hz w hw => ?_
  rw [markedZone?_eq_some hz, markedZone?_eq_some hw] at hab
  exact Text.append_lt_append_iff.1 hab

theorem Sound.keepsRules (h : t.Sound) : t.KeepsRules := by
  intro k v hv hk
  obtain ⟨r, h1, rfl⟩ := h.rule k v hv hk
  exact ⟨r, decodeRule?_encodeRule r, h1⟩

/-- The rules listed are those that are stored. -/
theorem Sound.rules_ok (h : t.Sound) :
    ∃ rules, t.rules = .ok rules ∧ ∀ r, r ∈ rules ↔ t.Stores r := by
  obtain ⟨rules, hl⟩ := h.keepsRules.lists
  refine ⟨rules, hl.listed, fun r => (hl.mem r).trans ⟨fun hr => ?_, rule_of_stores⟩⟩
  rcases h.rule_ok r.rule.id with ⟨h1, -⟩ | ⟨p, h1, h2, -⟩
  · cases Except.ok.inj (h1.symm.trans hr)
  · obtain rfl : p = r := Option.some.inj (Except.ok.inj (h1.symm.trans hr))
    exact h2

end Table

/-! ## The invariant -/

namespace Index

variable {i : Index} {t u : Table} {c : Change} {ops : List Op} {e : IndexEdit} {id : RuleId}
  {old new : Option StoredRule}

/-- Whether a stored rule of this identity names the domain. -/
def Names (t : Table) (domain : String) (id : RuleId) : Prop :=
  ∃ r, t.Stores r ∧ r.rule.id = id ∧ domain ∈ r.rule.normalizedDomains

/-- The tries say what a table says. -/
structure Mirrors (i : Index) (t : Table) : Prop where
  zones : i.zones.Holds fun n => t.zoneExists n
  rules : i.rules.Lists (Names t)

theorem zones_congr {zones : Trie String} {P : String → Prop} (h : zones.Holds P)
    (hP : ∀ name, t.zoneExists (Name.normalize name) ↔ P (Name.normalize name)) :
    zones.Holds fun n => t.zoneExists n :=
  h.congr fun name => (hP name).symm

theorem mirrors_mk {zones : Trie String} {rules : Trie RuleId}
    (hz : zones.Holds fun n => t.zoneExists n) (hr : rules.Lists (Names t)) :
    Mirrors ⟨zones, rules⟩ t :=
  ⟨hz, hr⟩

theorem mirrors_empty : empty.Mirrors .empty := by
  refine ⟨Trie.Holds.empty.congr fun _ => ?_, Trie.Lists.empty.congr fun _ _ => ?_⟩
  · rw [Table.zoneExists_iff]
    simp
  · constructor
    · exact False.elim
    · rintro ⟨r, h, -⟩
      cases h

theorem mem_map_domainsOf {n : String} {o : Option StoredRule} :
    n ∈ (Table.domainsOf o).map Name.normalize ↔ ∃ r ∈ o, n ∈ r.rule.normalizedDomains := by
  cases o with
  | none => simp [Table.domainsOf]
  | some r => simp [Table.domainsOf, Rule.normalizedDomains]

/-- Moving a rule in the trie does what moving it in the table does. -/
theorem lists_moves (hm : Table.Moves t u id old new) {rules : Trie RuleId}
    (h : rules.Lists (Names t)) (ds : List String) (hd : ds = Table.domainsOf new) :
    (addRule (dropRule rules id (Table.domainsOf old)) id ds).Lists (Names u) := by
  subst hd
  refine (addRule_lists (dropRule_lists h id _) id _).congr fun name a => ?_
  rw [mem_map_domainsOf, mem_map_domainsOf]
  constructor
  · rintro (⟨⟨r, h1, h2⟩, rfl⟩ | ⟨⟨r, h1, rfl, h2⟩, h3⟩)
    · exact ⟨r, hm.stores_new.2 (Or.inl h1), hm.newId r h1, h2⟩
    · rcases hm.stores_old.1 h1 with h4 | ⟨h4, h5⟩
      -- the old version was dropped from all of its names
      · exact absurd ⟨⟨r, h4, h2⟩, hm.oldId r h4⟩ h3
      · exact ⟨r, hm.stores_new.2 (Or.inr ⟨h4, h5⟩), rfl, h2⟩
  · rintro ⟨r, h1, rfl, h2⟩
    rcases hm.stores_new.1 h1 with h3 | ⟨h3, h4⟩
    · exact Or.inl ⟨⟨r, h3, h2⟩, hm.newId r h3⟩
    · exact Or.inr ⟨⟨r, h4, rfl, h2⟩, fun h5 => h3 h5.2⟩

/-- What a change to a zone leaves of the rules. -/
theorem names_of_zone {zone : String} (id : RuleId) (ht : t.Sound) (hw : t.Writes c ops e)
    (hs : c.scope? = some (.zone zone)) {n : String} :
    Names (t.run ops).1 n id ↔ Names t n id := by
  unfold Names
  simp only [Table.stores_of_zone ht hw hs]

/-- What a change to a rule leaves of the zones. -/
theorem zoneExists_of_rule (ht : t.Sound) (hw : t.Writes c ops e)
    (hs : c.scope? = some (.rule id)) (n : String) :
    (t.run ops).1.zoneExists n = t.zoneExists n := by
  unfold Table.zoneExists Table.contains
  rw [Table.writes_owned ht hw hs (Scope.rule_not_owns (Key.has_zoneMarker n) (by decide)
    (by decide) (by decide))]

/-- A marker's key is none of the zone's other keys. -/
theorem marker_other (n zone : String) :
    ¬ Text.startsWith (Key.zoneRecordSets zone) (Key.zoneMarker n) ∧
      Key.zoneMarker n ≠ Key.appliedZone zone := by
  have h1 := Key.has_zoneMarker n
  exact ⟨Key.not_recordSets_of_family h1 (by decide),
    Key.ne_of_family h1 (Key.has_appliedZone zone) (by decide)⟩

/-- Creating a zone makes it exist, and updating it leaves that as it was. -/
theorem zoneExists_of_edit {zone : String} (creates : Bool) {changes : List RecordSetChange}
    {steps : List Op} (hn : Name.normalize zone = zone)
    (hc : changes.mapM (RecordSetChange.op zone) = .ok steps) (cid : ChangeId) (n : String) :
    (t.run (.put (Key.appliedZone zone) (encodeChangeId cid) ::
        ((if creates then [.put (Key.zoneMarker zone) []] else []) ++ steps))).1.zoneExists n ↔
      (Name.normalize n = zone ∧ creates) ∨ t.zoneExists n := by
  obtain ⟨h1, h2⟩ := marker_other n zone
  have h3 : (Key.zoneMarker n = Key.zoneMarker zone) = (Name.normalize n = zone) := by
    rw [Key.zoneMarker_inj, hn]
  unfold Table.zoneExists Table.contains
  rw [Table.get?_run, Table.after_zoneOps hc cid h1, if_neg h2]
  simp only [h3]
  split_ifs with h4 <;> simp [h4]

theorem zoneExists_of_delete {zone : String} (hn : Name.normalize zone = zone) (cid : ChangeId)
    (n : String) : (t.run (Op.deleteZone zone cid)).1.zoneExists n ↔
      Name.normalize n ≠ zone ∧ t.zoneExists n := by
  obtain ⟨h1, h2⟩ := marker_other n zone
  have h3 : (Key.zoneMarker n = Key.zoneMarker zone) = (Name.normalize n = zone) := by
    rw [Key.zoneMarker_inj, hn]
  unfold Table.zoneExists Table.contains
  rw [Table.get?_run, Table.after_deleteZone, if_neg h2, if_neg h1]
  simp only [h3]
  split_ifs with h4 <;> simp [h4]

theorem edit_addZone (i : Index) (zone : String) :
    i.edit (.addZone zone) = ⟨i.zones.insert zone zone, i.rules⟩ := by
  simp only [edit]

theorem edit_dropZone (i : Index) (zone : String) :
    i.edit (.dropZone zone) = ⟨(i.zones.remove zone).2, i.rules⟩ := by
  simp only [edit]

theorem edit_moveRule (i : Index) (id : RuleId) (old new : List String) :
    i.edit (.moveRule id old new) = ⟨i.zones, addRule (dropRule i.rules id old) id new⟩ := by
  simp only [edit]

/-- **What a change writes and how it edits the tries go together.** -/
theorem mirrors_writes (ht : t.Sound) (hw : t.Writes c ops e) (hi : i.Mirrors t) :
    (i.edit e).Mirrors (t.run ops).1 := by
  cases hw with
  | @edit zone creates z steps hs hn hc hz ha =>
    have hw := Table.Writes.edit (t := t) creates hs hn hc hz ha
    have hr := hi.rules.congr fun name a => (names_of_zone a ht hw hs).symm
    have hz := zoneExists_of_edit (t := t) creates hn hc c.id
    cases creates with
    | false =>
      -- the trie keeps its zones, as does the table
      have h1 := zones_congr hi.zones fun name => (hz (Name.normalize name)).trans (by simp)
      rw [if_neg (by simp)]
      exact mirrors_mk h1 hr
    | true =>
      have h1 := zones_congr (hi.zones.insert hn)
        fun name => (hz (Name.normalize name)).trans (by simp)
      rw [if_pos rfl, edit_addZone]
      exact mirrors_mk h1 hr
  | @deleteZone zone z hs hn hz ha =>
    have hw := Table.Writes.deleteZone (t := t) hs hn hz ha
    have hr := hi.rules.congr fun name a => (names_of_zone a ht hw hs).symm
    have hz := zoneExists_of_delete (t := t) hn c.id
    have h1 := zones_congr (hi.zones.remove hn)
      fun name => (hz (Name.normalize name)).trans (by simp)
    rw [edit_dropZone]
    exact mirrors_mk h1 hr
  | @putRule stored previous hs hn hp =>
    have hm := Table.moves_putRule ht hs hn hp
    have hz := zoneExists_of_rule ht (.putRule hs hn hp) hs
    have h1 := zones_congr hi.zones fun name => iff_of_eq (congrArg (· = true) (hz _))
    have h2 := lists_moves hm hi.rules stored.rule.normalizedDomains rfl
    rw [edit_moveRule]
    exact mirrors_mk h1 h2
  | @deleteRule id f previous hs hf ha hp =>
    have hm := Table.moves_deleteRule ht hs hf ha hp
    have hz := zoneExists_of_rule ht (.deleteRule hs hf ha hp) hs
    have h1 := zones_congr hi.zones fun name => iff_of_eq (congrArg (· = true) (hz _))
    have h2 := lists_moves hm hi.rules [] rfl
    rw [edit_moveRule]
    exact mirrors_mk h1 h2

/-! ## Loading -/

theorem foldl_insert_holds {t : Trie String} {P : String → Prop} (h : t.Holds P)
    {zones : List String} (hz : ∀ z ∈ zones, Name.normalize z = z) :
    (zones.foldl (fun t zone => t.insert zone zone) t).Holds fun n => n ∈ zones ∨ P n := by
  induction zones generalizing t P with
  | nil => exact h.congr fun _ => by simp
  | cons z zones ih =>
    rw [List.foldl_cons]
    refine (ih (h.insert (hz z List.mem_cons_self))
      fun x hx => hz x (List.mem_cons_of_mem _ hx)).congr fun name => ?_
    rw [List.mem_cons, or_left_comm, or_assoc]

theorem foldl_addRule_lists {t : Trie RuleId} {R : String → RuleId → Prop} (h : t.Lists R)
    (rules : List StoredRule) :
    (rules.foldl (fun t r => addRule t r.rule.id r.rule.normalizedDomains) t).Lists fun n a =>
      (∃ r ∈ rules, r.rule.id = a ∧ n ∈ r.rule.normalizedDomains) ∨ R n a := by
  induction rules generalizing t R with
  | nil => exact h.congr fun _ _ => by simp
  | cons r rules ih =>
    rw [List.foldl_cons]
    refine (ih (addRule_lists h r.rule.id r.rule.normalizedDomains)).congr fun name a => ?_
    have h1 : r.rule.normalizedDomains.map Name.normalize = r.rule.normalizedDomains := by
      simp [Rule.normalizedDomains]
    rw [h1]
    constructor
    · rintro (⟨q, h2, h3⟩ | ⟨h2, rfl⟩ | h2)
      · exact Or.inl ⟨q, List.mem_cons_of_mem _ h2, h3⟩
      · exact Or.inl ⟨r, List.mem_cons_self, rfl, h2⟩
      · exact Or.inr h2
    · rintro (⟨q, h2, h3, h4⟩ | h2)
      · rcases List.mem_cons.1 h2 with rfl | h2
        · exact Or.inr (Or.inl ⟨h4, h3.symm⟩)
        · exact Or.inl ⟨q, h2, h3, h4⟩
      · exact Or.inr (Or.inr h2)

/-- **The tries built from a sound table say what it says.** -/
theorem mirrors_ofTable (ht : t.Sound) : ∃ i, ofTable t = .ok i ∧ i.Mirrors t := by
  obtain ⟨rules, h1, h2⟩ := ht.rules_ok
  refine ⟨_, by unfold ofTable; rw [h1]; rfl, ?_, ?_⟩
  · refine (foldl_insert_holds Trie.Holds.empty fun z hz => (ht.mem_zones.1 hz).1).congr
      fun name => ?_
    rw [ht.mem_zones, Name.normalize_normalize]
    simp
  · refine (foldl_addRule_lists Trie.Lists.empty rules).congr fun name a => ?_
    unfold Names
    simp only [h2, or_false]

end Index

/-! ## Runs -/

namespace Resolver

/-- What can happen to a resolver. -/
inductive Event
  | apply (c : Change)
  /-- The next `n` commits are made to fail. -/
  | failCommits (n : ℕ)
  /-- Others change the directory with the store's file, so that it may not be written any more. -/
  | mount (disk : Disk)

/-- The resolver after an event. -/
def act (r : Resolver) : Event → Resolver
  | .apply c => (r.apply c).2
  | .failCommits n => { r with store := { r.store with failing := n } }
  | .mount disk => { r with store := r.store.mount disk }

/-- The resolver after events in order. -/
def run (r : Resolver) (events : List Event) : Resolver :=
  events.foldl act r

/-- A resolver over an empty store, which may have a file and may be about to fail. -/
def blank (s : Store) : Resolver :=
  { store := { s with table := .empty }, index := .empty }

/-- The store is sound and the tries say what it says. -/
structure Consistent (r : Resolver) : Prop where
  sound : r.store.table.Sound
  mirrors : r.index.Mirrors r.store.table

theorem consistent_apply {r : Resolver} (h : r.Consistent) (c : Change) :
    (r.apply c).2.Consistent := by
  rcases r.apply_cases c with ⟨ops, edit, hp, -, h1, h2⟩ | ⟨-, h1, h2⟩
  · obtain ⟨s, last, hs, -, -, hw⟩ := Table.plan_write hp
    refine ⟨?_, ?_⟩
    · rw [h1]
      exact Table.sound_writes h.sound hw
    · rw [h1, h2]
      exact Index.mirrors_writes h.sound hw h.mirrors
  · refine ⟨?_, ?_⟩
    · rw [h1]
      exact h.sound
    · rw [h1, h2]
      exact h.mirrors

theorem consistent_act {r : Resolver} (h : r.Consistent) (e : Event) : (r.act e).Consistent := by
  cases e with
  | apply c => exact consistent_apply h c
  | failCommits n => exact ⟨h.sound, h.mirrors⟩
  | mount disk =>
    have h1 := r.store.table_mount disk
    exact ⟨h1 ▸ h.sound, h1 ▸ h.mirrors⟩

theorem consistent_run {r : Resolver} (h : r.Consistent) (events : List Event) :
    (r.run events).Consistent := by
  induction events generalizing r with
  | nil => exact h
  | cons e events ih => exact ih (consistent_act h e)

/-- What a resolver's tries and the keys of domains have to do with its zones and rules, which are
`rules`. -/
structure Mirrored (r : Resolver) (rules : List StoredRule) : Prop where
  /-- These are the stored rules. -/
  stored : r.store.table.rules = .ok rules
  /-- The names in the trie of zones are the zones that exist. -/
  zoneNames : r.index.zones.names = r.store.table.zones
  /-- Each zone is kept under itself, and nothing else is kept. -/
  zoneTrie : ∀ name, r.index.zones.get name =
    if r.store.table.zoneExists name then [Name.normalize name] else []
  /-- No rule is kept twice under one name. -/
  nodup : ∀ name, (r.index.rules.get name).Nodup
  /-- Under each name are kept the rules that name it. -/
  ruleTrie : ∀ name id, id ∈ r.index.rules.get name ↔
    ∃ s ∈ rules, s.rule.id = id ∧ Name.normalize name ∈ s.rule.normalizedDomains
  /-- The keys of domains are the domains of the rules. -/
  domains : ∀ k, (r.store.table.contains k ∧ Text.startsWith "fw/domain/" k) ↔
    ∃ s ∈ rules, ∃ d ∈ s.rule.normalizedDomains, k = Key.domain d s.rule.id

/-- `r` and `l` keep the same, up to the order of the rules under one name. -/
structure SameTries (r l : Resolver) : Prop where
  zoneNames : l.index.zones.names = r.index.zones.names
  zones : ∀ name, l.index.zones.get name = r.index.zones.get name
  ruleNames : l.index.rules.names = r.index.rules.names
  rules : ∀ name, (l.index.rules.get name).Perm (r.index.rules.get name)

theorem mirrored_of_consistent {r : Resolver} (h : r.Consistent) :
    ∃ rules, r.Mirrored rules := by
  obtain ⟨rules, h1, h2⟩ := h.sound.rules_ok
  refine ⟨rules, h1, ?_, fun name => ?_, h.mirrors.rules.nodup, fun name id => ?_, fun k => ?_⟩
  · -- both lists are in order, so having the same members makes them equal
    have h3 : r.store.table.zones.Nodup := by
      refine (Table.zones_ordered _).imp ?_
      rintro a b hab rfl
      exact String.lt_irrefl a hab
    have h4 : r.store.table.zones.Pairwise fun a b => ¬ b < a :=
      (Table.zones_ordered _).imp fun hab hba => String.lt_irrefl _ (String.lt_trans hab hba)
    refine Trie.names_eq_of h.mirrors.zones.tidy h3 h4 fun name => ?_
    rw [h.mirrors.zones.mem_names, h.sound.mem_zones]
  · split_ifs with h3
    · exact h.mirrors.zones.own name (by rwa [Table.zoneExists_normalize])
    · exact h.mirrors.zones.none name (by rwa [Table.zoneExists_normalize])
  · rw [h.mirrors.rules.mem]
    unfold Index.Names
    simp only [h2]
  · constructor
    · rintro ⟨h3, h4⟩
      obtain ⟨s, h5, h6⟩ := (h.sound.domain k h4).1 h3
      obtain ⟨d, h7, rfl⟩ := List.mem_map.1 h6
      exact ⟨s, (h2 s).2 h5, d, h7, rfl⟩
    · rintro ⟨s, h5, d, h7, rfl⟩
      have h4 := Key.has_domain d s.rule.id
      exact ⟨(h.sound.domain _ h4).2 ⟨s, (h2 s).1 h5, List.mem_map_of_mem h7⟩, h4⟩

theorem load_of_consistent {r : Resolver} (h : r.Consistent) :
    ∃ l, load r.store = .ok l ∧ SameTries r l := by
  obtain ⟨i, h1, h2⟩ := Index.mirrors_ofTable h.sound
  have h3 : load r.store = .ok ⟨r.store, i⟩ := by
    unfold load
    rw [h1]
    rfl
  refine ⟨⟨r.store, i⟩, h3, ?_, ?_, ?_, ?_⟩
  · exact h2.zones.names_eq h.mirrors.zones
  · exact h2.zones.get_eq h.mirrors.zones
  · exact h2.rules.names_eq h.mirrors.rules
  · exact h2.rules.get_perm h.mirrors.rules

theorem consistent_blank (s : Store) : (blank s).Consistent :=
  ⟨Table.sound_empty, Index.mirrors_empty⟩

/-- **The tries of a resolver mirror its store.** Start from an empty store, in memory or with a
file, and let changes of any kind come in any order and as often as they like, while commits fail as
they may. Then the tries and the keys of domains are those of the zones and rules in the store, and
so loading the store gives the same tries. -/
theorem mirrored_run (s : Store) (events : List Event) :
    ∃ rules l, ((blank s).run events).Mirrored rules ∧
      load ((blank s).run events).store = .ok l ∧ SameTries ((blank s).run events) l := by
  have h := consistent_run (consistent_blank s) events
  obtain ⟨rules, h1⟩ := mirrored_of_consistent h
  obtain ⟨l, h2, h3⟩ := load_of_consistent h
  exact ⟨rules, l, h1, h2, h3⟩

end Resolver

end ZoneRelay
