import ZoneRelay.Metric
import ZoneRelay.Resolver.Basic

/-!
# Answering queries

`resolve` answers from a table and the tries over it: from the zone that encloses the name most
closely, and from the firewall rules under the most specific domain that matches it.
-/

namespace ZoneRelay

/-- Whether a firewall rule goes before the zone, or takes over only where the zone has no answer.
-/
inductive FirewallOrder
  | beforeZone
  | afterZone
  deriving DecidableEq, Repr

/-- The response code of an answer. -/
inductive Rcode
  | noError
  | nxDomain
  deriving DecidableEq, Repr

/-- The answer to a query. -/
structure Resolution where
  answer : List WireRecord
  authority : List WireRecord
  rcode : Rcode
  /-- Whether a zone or a rule covers the name. -/
  matched : Bool
  /-- The rule that gave the answer. -/
  firewallRule : Option RuleId
  deriving DecidableEq, Repr

namespace Resolution

/-- The answer when neither a zone nor a rule covers the name. -/
def notAuthoritative : Resolution :=
  { answer := [], authority := [], rcode := .noError, matched := false, firewallRule := none }

/-- What is counted for an answer. -/
def counters (r : Resolution) : List Counter :=
  if r.firewallRule.isSome then [.firewallHits, .queries .firewall]
  else if !r.matched then [.queries .notAuthoritative]
  else match r.rcode with
    | .nxDomain => [.queries .nxDomain]
    | .noError => [.queries .answer]

/-- Whether there is a record in the answer of a zone. -/
def hasAnswer (r : Resolution) : Bool :=
  r.matched && r.rcode == .noError && !r.answer.isEmpty

end Resolution

/-- The answer of the zone that encloses the name most closely. -/
def authoritative (t : Table) (zones : Trie String) (qname : String) (qtype : RecordType) :
    Except StoreError Resolution :=
  match (zones.find qname).head? with
  | none => .ok .notAuthoritative
  | some zone => do
    match ← t.recordSet zone qname qtype with
    | some answer =>
      .ok { answer, authority := [], rcode := .noError, matched := true, firewallRule := none }
    | none =>
      let authority ← t.recordSet zone zone .soa
      .ok { answer := [], authority := authority.getD [], rcode := .nxDomain, matched := true,
            firewallRule := none }

/-- What a rule answers, unless its action is unknown. -/
def StoredRule.response? (s : StoredRule) (qname : String) (qtype : RecordType) :
    Option Resolution :=
  match s.rule.action with
  | .override _ =>
    some { answer := overrideAnswer s.answer qname qtype, authority := [], rcode := .noError,
           matched := true, firewallRule := some s.rule.id }
  | .noData =>
    some { answer := [], authority := [], rcode := .noError, matched := true,
           firewallRule := some s.rule.id }
  | .nxDomain =>
    some { answer := [], authority := [], rcode := .nxDomain, matched := true,
           firewallRule := some s.rule.id }
  | .unspecified => none

/-- The answer of the winning rule among those under the most specific domain that matches. -/
def intercept (t : Table) (rules : Trie RuleId) (qname : String) (qtype : RecordType) :
    Except StoreError (Option Resolution) := do
  let found ← (rules.find qname).mapM t.rule
  .ok ((Rule.winner? StoredRule.rule (found.filterMap fun s => s)).bind (·.response? qname qtype))

/-- The answer to a query. -/
def resolve (t : Table) (i : Index) (order : FirewallOrder) (qname : String) (qtype : RecordType) :
    Except StoreError Resolution := do
  let qname := Name.normalize qname
  match order with
  | .beforeZone =>
    match ← intercept t i.rules qname qtype with
    | some r => .ok r
    | none => authoritative t i.zones qname qtype
  | .afterZone =>
    let r ← authoritative t i.zones qname qtype
    if r.hasAnswer then .ok r
    else .ok ((← intercept t i.rules qname qtype).getD r)

/-- The answer of a resolver to a query. -/
def Resolver.query (r : Resolver) (order : FirewallOrder) (qname : String) (qtype : RecordType) :
    Except StoreError Resolution :=
  resolve r.store.table r.index order qname qtype

end ZoneRelay
