import ZoneRelay.Proofs.Change.Wire
import ZoneRelay.Store.Contents

/-!
# Stored values read back

* `decodeRecords?_encodeRecords`, `decodeRule?_encodeRule`, `decodeChangeId?_encodeChangeId`: a
  stored value gives what it was written for.
* `Table.recordSet_of_some`, `Table.recordSet_of_none`: a record set is read by its key.
* `Table.rule_eq_none_iff`: a rule is not found if and only if its key has no value.
-/

namespace ZoneRelay

/-- **A record set is read back from its value.** -/
theorem decodeRecords?_encodeRecords (records : List WireRecord) :
    decodeRecords? (encodeRecords records) = some records := by
  have h : Json.plain (.array (records.map WireRecord.toJson)) :=
    Json.plainItems_map WireRecord.plain_toJson _
  unfold decodeRecords? encodeRecords
  rw [Json.parse?_render h, Option.bind_some, Json.list?_map WireRecord.ofJson?_toJson]

/-- **A rule is read back from its value.** -/
theorem decodeRule?_encodeRule (s : StoredRule) : decodeRule? (encodeRule s) = some s := by
  unfold decodeRule? encodeRule
  rw [Json.parse?_render s.plain_toJson, Option.bind_some, StoredRule.ofJson?_toJson]

theorem encodeRule_inj {s u : StoredRule} (h : encodeRule s = encodeRule u) : s = u := by
  have h1 := decodeRule?_encodeRule s
  rw [h, decodeRule?_encodeRule] at h1
  exact (Option.some.inj h1).symm

/-- **The identity of a change is read back from its value.** -/
theorem decodeChangeId?_encodeChangeId (id : ChangeId) :
    decodeChangeId? (encodeChangeId id) = some id := by
  unfold decodeChangeId? encodeChangeId
  rw [Octets.text?_ofText]
  simp only [Option.bind_eq_bind, Option.bind_some, String.toList_ofList,
    Text.below?_decimal id.toNat_lt, UInt64.ofNat_toNat]

namespace Table

variable {t : Table} {zone name : String} {type : RecordType}

theorem recordSet_of_none (h : t.get? (Key.recordSet zone name type) = none) :
    t.recordSet zone name type = .ok none := by
  unfold recordSet read
  rw [h]

theorem recordSet_of_some {records : List WireRecord}
    (h : t.get? (Key.recordSet zone name type) = some (encodeRecords records)) :
    t.recordSet zone name type = .ok (some records) := by
  unfold recordSet read
  rw [h]
  simp only [decodeRecords?_encodeRecords]

theorem rule_eq_none_iff {id : RuleId} : t.rule id = .ok none ↔ t.get? (Key.rule id) = none := by
  unfold rule read
  cases t.get? (Key.rule id) with
  | none => simp
  | some value =>
    simp only [reduceCtorEq, iff_false]
    split <;> simp

end Table

end ZoneRelay
