import ZoneRelay.Proofs.Name
import ZoneRelay.Proofs.Text.Numeral
import ZoneRelay.Proofs.Text.Start
import ZoneRelay.Store.Key

/-!
# Keys told apart

* `Family`: the six kinds of keys. A key is of one of them at most: `Family.eq_of_starts`.
* `zoneMarker_inj`, `rule_inj`, `domain_inj`: a key names its zone, its rule, its domain.
* `rule_lt_iff`: the order of the keys of rules is that of their identities.
* `recordSet_inj`, `recordSet_inj_of_plain`: and, within a zone, the name and the type of its record
  set; the zone too, if no zone has a slash in its name.
* `markedZone?_zoneMarker`, `rule?_rule`: and they can be read from it.
-/

namespace ZoneRelay.Key

open Text

/-! ## Identities -/

theorem length_idDigits (id : UInt64) : (idDigits id).toList.length = 20 := by
  have h := id.toNat_lt
  unfold idDigits idWidth
  rw [String.toList_ofList, length_padded (by decide) (by omega)]

theorem idDigits_inj {i j : UInt64} (h : idDigits i = idDigits j) : i = j := by
  have h1 := congrArg String.toList h
  unfold idDigits at h1
  rw [String.toList_ofList, String.toList_ofList] at h1
  exact UInt64.toNat_inj.1 (padded_inj h1)

/-! ## Families -/

/-- The kinds of keys. -/
inductive Family
  | zone
  | records
  | rule
  | domain
  | appliedZone
  | appliedRule
  deriving DecidableEq

/-- What all keys of a kind start with. -/
def Family.start : Family → String
  | zone => zonePrefix
  | records => "rrset/"
  | rule => rulePrefix
  | domain => "fw/domain/"
  | appliedZone => "applied/zone/"
  | appliedRule => "applied/rule/"

/-- Whether a key is of a kind. -/
def Family.has (f : Family) (k : String) : Prop :=
  startsWith f.start k

/-- **A key is of one kind at most.** -/
theorem Family.eq_of_starts {f g : Family} {k : String} (hf : f.has k) (hg : g.has k) : f = g := by
  have h1 : ∀ f g : Family, startsWith f.start g.start → f = g := by
    intro f g
    cases f <;> cases g <;> decide
  rcases startsWith_total hf hg with h | h
  · exact h1 f g h
  · exact (h1 g f h).symm

theorem ne_of_family {f g : Family} {k l : String} (hf : f.has k) (hg : g.has l) (h : f ≠ g) :
    k ≠ l := by
  rintro rfl
  exact h (Family.eq_of_starts hf hg)

theorem has_zoneMarker (z : String) : Family.zone.has (zoneMarker z) :=
  startsWith_append _ _

theorem has_of_zoneRecordSets {z k : String} (h : startsWith (zoneRecordSets z) k) :
    Family.records.has k := by
  obtain ⟨t, rfl⟩ := startsWith_iff_append.1 h
  unfold zoneRecordSets
  rw [String.append_assoc, String.append_assoc]
  exact startsWith_append _ _

theorem not_recordSets_of_family {f : Family} {z k : String} (hf : f.has k) (h : f ≠ .records) :
    ¬ startsWith (zoneRecordSets z) k := fun h1 =>
  h (Family.eq_of_starts hf (has_of_zoneRecordSets h1))

theorem startsWith_recordSet (z n : String) (t : RecordType) :
    startsWith (zoneRecordSets z) (recordSet z n t) := by
  unfold recordSet
  rw [String.append_assoc, String.append_assoc]
  exact startsWith_append _ _

theorem has_rule (id : RuleId) : Family.rule.has (rule id) :=
  startsWith_append _ _

theorem has_domain (d : String) (id : RuleId) : Family.domain.has (domain d id) := by
  unfold domain
  rw [String.append_assoc, String.append_assoc]
  exact startsWith_append _ _

theorem has_appliedZone (z : String) : Family.appliedZone.has (appliedZone z) :=
  startsWith_append _ _

theorem has_appliedRule (id : RuleId) : Family.appliedRule.has (appliedRule id) :=
  startsWith_append _ _

/-! ## What a key names -/

theorem zoneMarker_inj {a b : String} :
    zoneMarker a = zoneMarker b ↔ Name.normalize a = Name.normalize b :=
  ⟨append_inj_right, fun h => congrArg (zonePrefix ++ ·) h⟩

theorem appliedZone_inj {a b : String} :
    appliedZone a = appliedZone b ↔ Name.normalize a = Name.normalize b :=
  ⟨append_inj_right, fun h => congrArg ("applied/zone/" ++ ·) h⟩

theorem rule_inj {i j : RuleId} : rule i = rule j ↔ i = j :=
  ⟨fun h => idDigits_inj (append_inj_right h), congrArg rule⟩

/-- **The keys of rules are in the order of identities**, for all of these have twenty digits. -/
theorem rule_lt_iff {i j : RuleId} : rule i < rule j ↔ i < j := by
  have hi := i.toNat_lt
  have hj := j.toNat_lt
  unfold rule idDigits idWidth
  rw [append_lt_append_iff, String.lt_iff, String.toList_ofList, String.toList_ofList,
    padded_lt_iff (by decide) (by omega) (by omega), UInt64.lt_iff_toNat_lt]

theorem appliedRule_inj {i j : RuleId} : appliedRule i = appliedRule j ↔ i = j :=
  ⟨fun h => idDigits_inj (append_inj_right h), congrArg appliedRule⟩

/-- The last twenty characters of the key of a domain are those of the rule. -/
theorem domain_inj {d e : String} {i j : RuleId} :
    domain d i = domain e j ↔ Name.normalize d = Name.normalize e ∧ i = j := by
  constructor
  · intro h
    unfold domain at h
    obtain ⟨h1, h2⟩ := append_inj_of_length h (by rw [length_idDigits, length_idDigits])
    exact ⟨append_inj_right (append_inj_left h1), idDigits_inj h2⟩
  · rintro ⟨h, rfl⟩
    unfold domain
    rw [h]

theorem no_slash_mnemonic (t : RecordType) : '/' ∉ t.mnemonic.toList := by
  cases t <;> decide

theorem mnemonic_inj {t u : RecordType} (h : t.mnemonic = u.mnemonic) : t = u := by
  rw [← t.ofMnemonic_mnemonic, h, u.ofMnemonic_mnemonic]

/-- What follows the last slash of the key of a record set is the type, whatever is in the name. -/
theorem recordSet_inj {z n m : String} {t u : RecordType} :
    recordSet z n t = recordSet z m u ↔ Name.normalize n = Name.normalize m ∧ t = u := by
  constructor
  · intro h
    unfold recordSet at h
    obtain ⟨h1, h2⟩ := append_inj_of_slash h (no_slash_mnemonic t) (no_slash_mnemonic u)
    exact ⟨append_inj_right h1, mnemonic_inj h2⟩
  · rintro ⟨h, rfl⟩
    unfold recordSet
    rw [h]

/-- What goes before the first slash is the zone, if no zone has one in its name. -/
theorem recordSet_inj_of_plain {y z n m : String} {t u : RecordType}
    (hy : '/' ∉ (Name.normalize y).toList) (hz : '/' ∉ (Name.normalize z).toList) :
    recordSet y n t = recordSet z m u ↔
      Name.normalize y = Name.normalize z ∧ Name.normalize n = Name.normalize m ∧ t = u := by
  constructor
  · intro h
    unfold recordSet zoneRecordSets at h
    obtain ⟨h1, h2⟩ := append_inj_of_slash h (no_slash_mnemonic t) (no_slash_mnemonic u)
    simp only [String.append_assoc] at h1
    have h3 := append_inj_right h1
    rw [← String.append_assoc, ← String.append_assoc] at h3
    obtain ⟨h4, h5⟩ := append_inj_of_first_slash h3 hy hz
    exact ⟨h4, h5, mnemonic_inj h2⟩
  · rintro ⟨h1, h2, rfl⟩
    unfold recordSet zoneRecordSets
    rw [h1, h2]

@[simp] theorem zoneMarker_normalize (z : String) :
    zoneMarker (Name.normalize z) = zoneMarker z := by
  rw [zoneMarker_inj, Name.normalize_normalize]

@[simp] theorem appliedZone_normalize (z : String) :
    appliedZone (Name.normalize z) = appliedZone z := by
  rw [appliedZone_inj, Name.normalize_normalize]

@[simp] theorem zoneRecordSets_normalize (z : String) :
    zoneRecordSets (Name.normalize z) = zoneRecordSets z := by
  unfold zoneRecordSets
  rw [Name.normalize_normalize]

@[simp] theorem recordSet_normalize (z n : String) (t : RecordType) :
    recordSet z (Name.normalize n) t = recordSet z n t := by
  rw [recordSet_inj, Name.normalize_normalize]
  exact ⟨rfl, rfl⟩

@[simp] theorem domain_normalize (d : String) (id : RuleId) :
    domain (Name.normalize d) id = domain d id := by
  rw [domain_inj, Name.normalize_normalize]
  exact ⟨rfl, rfl⟩

theorem markedZone?_zoneMarker (z : String) :
    markedZone? (zoneMarker z) = some (Name.normalize z) := by
  have h : (Name.normalize z).isEmpty = false := by
    simpa using Name.normalize_ne_empty z
  unfold markedZone? zoneMarker
  rw [strip?_append]
  simp only [h]
  rfl

theorem rule?_rule (id : RuleId) : rule? (rule id) = some id := by
  unfold rule? rule
  rw [strip?_append]
  simp only [Option.bind_eq_bind, Option.bind_some]
  unfold idDigits
  rw [String.toList_ofList, below?_padded id.toNat_lt, Option.bind_some, UInt64.ofNat_toNat]

end ZoneRelay.Key
