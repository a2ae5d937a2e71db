import ZoneRelay.Record.Encoding

/-!
# Firewall rules

A rule names domains and says what becomes of queries for them.

* `Rule.compile`: checks the records a rule answers with and keeps them in wire form.
* `Rule.winner?`: the rule that wins among several.
* `overrideAnswer`: the records of a rule that answer a query.
-/

namespace ZoneRelay

/-- The identity of a rule. -/
abbrev RuleId := UInt64

/-- What a rule does to a query. -/
inductive RuleAction
  /-- Answers with these records, as far as they are of the type asked for. -/
  | override (records : List RecordSet)
  /-- Answers that there is nothing of the type asked for. -/
  | noData
  /-- Answers that the name does not exist. -/
  | nxDomain
  /-- An action that this resolver does not know. -/
  | unspecified
  deriving DecidableEq, Repr

/-- A firewall rule. -/
structure Rule where
  id : RuleId
  priority : UInt32
  domains : List String
  action : RuleAction
  deriving DecidableEq, Repr

/-- A rule as a resolver keeps it, with the records it answers with. -/
structure StoredRule where
  rule : Rule
  answer : List WireRecord
  deriving DecidableEq, Repr

namespace Rule

/-- The domains of a rule in normal form, as often as they are given. -/
def normalizedDomains (r : Rule) : List String :=
  r.domains.map Name.normalize

/-- The records that an action answers with. -/
def encodeAction : RuleAction → Except RecordError (List WireRecord)
  | .override records => do
    let sets ← records.mapM RecordSet.encode
    .ok sets.flatten
  | .noData | .nxDomain | .unspecified => .ok []

/-- The rule as a resolver keeps it. -/
def compile (r : Rule) : Except RecordError StoredRule := do
  let answer ← encodeAction r.action
  .ok { rule := r, answer }

/-- Whether `r` goes before `s`: by priority, then by identity. -/
def before (r s : Rule) : Bool :=
  r.priority < s.priority || (r.priority == s.priority && r.id < s.id)

/-- The one whose rule wins: no other's rule goes before it, and it is the first such. -/
def winner? (rule : α → Rule) : List α → Option α
  | [] => none
  | x :: rest =>
    match winner? rule rest with
    | none => some x
    | some y => if (rule y).before (rule x) then some y else some x

end Rule

/-- The records of type `qtype`, renamed to the name asked for. -/
def overrideAnswer (records : List WireRecord) (qname : String) (qtype : RecordType) :
    List WireRecord :=
  (records.filter (·.type == qtype)).map fun r => { r with name := Name.normalize qname }

end ZoneRelay
