import ZoneRelay.Firewall.Rule

/-!
# Rules in JSON

An action is an object whose member `kind` says what the other members mean, or an array that starts
with the kind. Its kind is known only after the whole action has been read, so all of it has to be
readable, and containers may nest only `maxDepth` deep, counted from the document's root.
-/

namespace ZoneRelay

/-- How deep containers may nest in what is kept aside while it is read. -/
def maxDepth : Nat := 127

namespace RuleAction

/-- An action as JSON. -/
def toJson : RuleAction → Json
  | override records =>
    .object [("kind", .string "OVERRIDE"), ("records", .array (records.map RecordSet.toJson))]
  | noData => .object [("kind", .string "NODATA")]
  | nxDomain => .object [("kind", .string "NXDOMAIN")]
  | unspecified => .object [("kind", .string "UNSPECIFIED")]

/-- The action of a kind without records. -/
def plain (kind : String) : RuleAction :=
  if kind = "NODATA" then noData else if kind = "NXDOMAIN" then nxDomain else unspecified

/-- Reads an action whose members may hold containers `room` deep. -/
def ofJson? (room : Nat) : Json → Option RuleAction
  | .object members =>
    match members.filter (·.1 == "kind") with
    | [(_, .string kind)] =>
      let rest := members.filter (·.1 != "kind")
      if !Json.readableMembers room rest then none
      else if kind = "OVERRIDE" then
        match Json.fields? ["records"] (.object rest) with
        | some [some records] => (records.list? (RecordSet.ofJson? true)).map override
        | _ => none
      else some (plain kind)
    | _ => none
  | .array (.string kind :: rest) =>
    if !Json.readableItems room rest then none
    else if kind = "OVERRIDE" then
      match rest with
      | [records] => (records.list? (RecordSet.ofJson? true)).map override
      | _ => none
    else if rest.isEmpty then some (plain kind)
    else none
  | _ => none

end RuleAction

namespace Rule

/-- A rule as JSON. -/
def toJson (r : Rule) : Json :=
  .object [("id", .nat r.id.toNat), ("priority", .nat r.priority.toNat),
    ("domains", .array (r.domains.map .string)), ("action", r.action.toJson)]

/-- Reads a rule that stands inside `outer` containers. -/
def ofJson? (outer : Nat) (j : Json) : Option Rule :=
  match j.fields? ["id", "priority", "domains", "action"] with
  | some [some id, some priority, some domains, some action] => do
    let id ← id.uint64?
    let priority ← priority.uint32?
    let domains ← domains.list? Json.string?
    let action ← RuleAction.ofJson? (maxDepth - (outer + 2)) action
    some { id, priority, domains, action }
  | _ => none

end Rule

namespace StoredRule

/-- A stored rule as JSON. -/
def toJson (s : StoredRule) : Json :=
  .object [("rule", s.rule.toJson), ("answer", .array (s.answer.map WireRecord.toJson))]

/-- Reads a stored rule; without an answer it has none. -/
def ofJson? (j : Json) : Option StoredRule :=
  match j.fields? ["rule", "answer"] with
  | some [some rule, answer] => do
    let rule ← Rule.ofJson? 1 rule
    let answer ← match answer with
      | some records => records.list? WireRecord.ofJson?
      | none => some []
    some { rule, answer }
  | _ => none

end StoredRule

end ZoneRelay
