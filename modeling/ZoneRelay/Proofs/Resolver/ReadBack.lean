import ZoneRelay.Proofs.Resolver.Sound
import ZoneRelay.Store.Writes

/-!
# What is written is read back

Changes and acknowledgments travel as JSON, and so are rules and record sets kept in a table. Both
ways the reader finds what the writer was given, whatever it is: parts that are left out, parts that
an older reader does not know, any text, any number and any moment.

* `Table.rule_putRule`: a rule that is put in place is the one that is read.
* `Table.recordSet_put`: so are the records of a transaction's last step at a name.
* `readBack`: all that is written.
-/

namespace ZoneRelay

namespace Table

/-- **A rule that is put in place is the one that is read**, whatever the table had before. -/
theorem rule_putRule (t : Table) (previous : Option StoredRule) (s : StoredRule) (id : ChangeId) :
    (t.run (Op.putRule previous s id)).1.rule s.rule.id = .ok (some s) := by
  have hrule := Key.has_rule s.rule.id
  have happlied : Key.rule s.rule.id ≠ Key.appliedRule s.rule.id :=
    Key.ne_of_family hrule (Key.has_appliedRule s.rule.id) (by decide)
  have hdomains : Key.rule s.rule.id ∉ domainKeys s := by
    intro h
    obtain ⟨d, -, hd⟩ := List.mem_map.1 h
    exact Key.ne_of_family hrule (Key.has_domain d s.rule.id) (by decide) hd.symm
  refine rule_of_stores ?_
  unfold Stores
  rw [get?_run, after_putRule, if_neg happlied, if_neg hdomains, if_pos rfl]

/-- **The records that a transaction puts at a name are those that are read**, whatever it did
before. -/
theorem recordSet_put (t : Table) (zone : String) (before : List ZoneStep) (name : String)
    (type : RecordType) (records : List WireRecord) :
    (t.run ((before ++ [ZoneStep.put name type records]).map (ZoneStep.op zone))).1.recordSet
      zone name type = .ok (some records) := by
  refine recordSet_of_some ?_
  rw [get?_run, List.map_append, Op.after_append, List.map_singleton, Op.after_cons, Op.after_nil]
  simp [ZoneStep.op, Op.act, Op.touches]

end Table

/-- **What is written is read back**: every change and every acknowledgment from its wire form, and
every rule and every list of records from a table that it was written to. -/
theorem readBack :
    (∀ c : Change, Change.decode? c.encode = some c) ∧
      (∀ a : Ack, Ack.decode? a.encode = some a) ∧
      (∀ (t : Table) (previous : Option StoredRule) (s : StoredRule) (id : ChangeId),
        decodeRule? (encodeRule s) = some s ∧
          (t.run (Op.putRule previous s id)).1.rule s.rule.id = .ok (some s)) ∧
      ∀ (t : Table) (zone : String) (before : List ZoneStep) (name : String) (type : RecordType)
        (records : List WireRecord),
        decodeRecords? (encodeRecords records) = some records ∧
          (t.run ((before ++ [ZoneStep.put name type records]).map (ZoneStep.op zone))).1.recordSet
            zone name type = .ok (some records) :=
  ⟨Change.decode?_encode, Ack.decode?_encode,
    fun t previous s id => ⟨decodeRule?_encodeRule s, t.rule_putRule previous s id⟩,
    fun t zone before name type records =>
      ⟨decodeRecords?_encodeRecords records, t.recordSet_put zone before name type records⟩⟩

end ZoneRelay
