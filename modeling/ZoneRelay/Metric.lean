/-!
# Metrics

* `Counter`: what is counted.
* `Tally`: the counts so far.
* `Metric.all`: all metrics with their descriptions.
-/

namespace ZoneRelay

/-- How a query was answered. -/
inductive QueryOutcome
  | answer
  | nxDomain
  | notAuthoritative
  | firewall
  deriving DecidableEq, Repr

/-- What a resolver did with a delivered change. -/
inductive ReceiptOutcome
  | applied
  | stale
  | duplicate
  | retry
  | rejected
  | poison
  deriving DecidableEq, Repr

/-- What is counted. -/
inductive Counter
  | queries (outcome : QueryOutcome)
  | firewallHits
  | changesApplied (outcome : ReceiptOutcome)
  | acksProcessed
  | outboxPublished
  | outboxPublishFailures
  deriving DecidableEq, Repr

/-- The label of an outcome. -/
def QueryOutcome.label : QueryOutcome → String
  | answer => "answer"
  | nxDomain => "nxdomain"
  | notAuthoritative => "not_authoritative"
  | firewall => "firewall"

/-- The label of an outcome. -/
def ReceiptOutcome.label : ReceiptOutcome → String
  | applied => "applied"
  | stale => "stale"
  | duplicate => "duplicate"
  | retry => "retry"
  | rejected => "rejected"
  | poison => "poison"

/-- The name of a counter. -/
def Counter.metric : Counter → String
  | queries _ => "queries_total"
  | firewallHits => "firewall_hits_total"
  | changesApplied _ => "changes_applied_total"
  | acksProcessed => "acks_processed_total"
  | outboxPublished => "outbox_published_total"
  | outboxPublishFailures => "outbox_publish_failures_total"

/-- The outcome that a counter is for. -/
def Counter.outcome? : Counter → Option String
  | queries o => some o.label
  | changesApplied o => some o.label
  | firewallHits | acksProcessed | outboxPublished | outboxPublishFailures => none

/-- The name of a counter with its label. -/
def Counter.name (c : Counter) : String :=
  match c.outcome? with
  | some o => c.metric ++ "\x7boutcome=" ++ o ++ "\x7d"
  | none => c.metric

/-- The counts so far; a counter that has not counted is left out. -/
abbrev Tally := List (Counter × Nat)

namespace Tally

/-- Counts one. -/
def count (t : Tally) (c : Counter) : Tally :=
  match t with
  | [] => [(c, 1)]
  | (x, n) :: r => if x = c then (x, n + 1) :: r else (x, n) :: count r c

/-- Counts one of each. -/
def countAll (t : Tally) (cs : List Counter) : Tally :=
  cs.foldl count t

end Tally

/-- The kind of a metric. -/
inductive Metric.Kind
  | counter
  | histogram
  deriving DecidableEq, Repr

/-- A metric's unit. -/
inductive Metric.Unit
  | count
  | seconds
  deriving DecidableEq, Repr

/-- A metric and its description. -/
structure Metric where
  name : String
  kind : Metric.Kind
  unit : Metric.Unit
  text : String
  deriving DecidableEq, Repr

namespace Metric

/-- The name of a kind. -/
def Kind.label : Kind → String
  | counter => "counter"
  | histogram => "histogram"

/-- The name of a unit. -/
def Unit.label : Unit → String
  | count => "count"
  | seconds => "seconds"

/-- All metrics, in the order of their names. -/
def all : List Metric :=
  [⟨"acks_processed_total", .counter, .count, "Acknowledgments that moved a target to INSYNC."⟩,
    ⟨"apply_duration_seconds", .histogram, .seconds,
      "Time spent applying one change to the local store."⟩,
    ⟨"changes_applied_total", .counter, .count,
      "Changes handled by resolvers, labeled by outcome."⟩,
    ⟨"firewall_hits_total", .counter, .count, "Queries answered by a firewall rule."⟩,
    ⟨"outbox_publish_failures_total", .counter, .count,
      "Outbox publishes that failed or timed out and were left pending."⟩,
    ⟨"outbox_published_total", .counter, .count, "Outbox rows confirmed by the message bus."⟩,
    ⟨"queries_total", .counter, .count, "Queries resolved, labeled by outcome."⟩]

end Metric

end ZoneRelay
