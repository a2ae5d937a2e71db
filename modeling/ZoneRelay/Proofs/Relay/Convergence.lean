import ZoneRelay.Proofs.Relay.InSync
import ZoneRelay.Proofs.Resolver.Replay

/-!
# When resolvers converge

Once all targets have acknowledged, one would like the store of each resolver to have what all
changes leave that are applied once each, in the order of their identities. But a change that was
retried may come after a newer one to its zone. Then it is acknowledged and has no effect, although
an update of a zone is no replacement of it.

* `Table.Follows`: when a table has what the changes leave in order, and what keeps it from that.
* `Operation.follows_replay`: the store of each resolver is such a table, once all targets have
  acknowledged.
-/

namespace ZoneRelay

/-- Whether a key is that of a zone marker, a record set, a rule, or a domain of a rule. -/
def Key.IsContent (k : String) : Prop :=
  Key.Family.zone.has k ∨ Key.Family.records.has k ∨ Key.Family.rule.has k ∨
    Key.Family.domain.has k

/-- Whether two tables have the same zones, record sets, rules, and domains of rules. -/
def Table.SameContents (t u : Table) : Prop :=
  ∀ k, Key.IsContent k → t.get? k = u.get? k

/-- What a table to which `cs` was committed has to do with the changes `all`, applied in order. -/
structure Table.Follows (t : Table) (all cs : List Change) : Prop where
  ordered : all.Pairwise (·.id < ·.id)
  history : Table.History cs t
  known : ∀ c ∈ cs, c ∈ all
  /-- Each change, or else a newer one to its zone or rule, was committed. -/
  covers : Table.History.Covers cs all
  /-- The contents are the same if and only if each change that fell behind at a key was overwritten
  there by a newer one, or is as good as in force. -/
  same_iff : t.SameContents (Resolver.replay all).store.table ↔
    ∀ c ∈ all, ∀ k, Key.IsContent k → c.Decides k → c.FellBehind cs k →
      (∃ d ∈ all, c.id < d.id ∧ d.Decides k) ∨ t.get? k = c.leaves k
  /-- A change falls behind if a newer one to its zone or rule was committed in its place, or if
  another zone or rule shares the key. -/
  cause : ∀ c ∈ all, ∀ k, c.FellBehind cs k →
    (c ∉ cs ∧ ∃ d ∈ cs, d.scope? = c.scope? ∧ c.id < d.id) ∨
      ∃ d ∈ cs, d.Decides k ∧ d.id < c.id ∧ d.scope? ≠ c.scope?
  /-- The rules and their domains are always the same. -/
  rules : ∀ id k, (Scope.rule id).owns k → t.get? k = (Resolver.replay all).store.table.get? k

theorem Table.follows_of_history {t : Table} {all cs : List Change} (h : Table.History cs t)
    (ha : all.Pairwise (·.id < ·.id)) (hs : ∀ c ∈ cs, c ∈ all)
    (hc : Table.History.Covers cs all) : t.Follows all cs := by
  refine ⟨ha, h, hs, hc, ⟨fun h1 c hm k hk hd hf => ?_, fun h1 k hk => ?_⟩,
    fun c hm k hf => h.cause_of_fellBehind ha hs hc hm hf, fun id k hk => h.agrees_rule ha hs hc hk⟩
  · exact (h.agrees_iff ha hs k).1 (h1 k hk) c hm hd hf
  · exact (h.agrees_iff ha hs k).2 fun c hm hd hf => h1 c hm k hk hd hf

namespace Operation

/-- Whether all targets of all submitted changes have acknowledged. -/
def InSync (o : Operation) : Prop :=
  ∀ x ∈ o.submitted, ∀ s ∈ x.servers, o.relay.ledger.Synced x.change.id s

instance (o : Operation) : Decidable o.InSync :=
  inferInstanceAs (Decidable (∀ x ∈ o.submitted, ∀ s ∈ x.servers, _))

/-- **What the stores have once all targets have acknowledged.** The changes committed at a server
are submitted ones, and for each submitted one it or a newer one to the same zone or rule. The
contents are those of all changes applied in order if and only if no change that fell behind is
missed. -/
theorem follows_replay {r : Relay} (hr : r.Fresh) (actions : List Action)
    (hs : ((start r).run actions).InSync) :
    ∀ x ∈ ((start r).run actions).relay.receivers,
      x.serverId ∈ ((start r).run actions).relay.ledger.servers →
      x.table.Follows ((start r).run actions).changes
        (((start r).run actions).committed x.serverId) := by
  have ho := sane_run hr actions
  intro x hx hserver
  have hk := ho.keeps x hx
  refine Table.follows_of_history hk.history ho.rising hk.known fun c hc => ?_
  obtain ⟨y, hy, rfl⟩ := List.mem_map.1 hc
  have h1 := ho.synced y hy x.serverId
    (hs y hy x.serverId (by rw [ho.books.servers y hy]; exact hserver))
  obtain ⟨z, -, -, scope, d, hd, h2, h3, -, h4⟩ := ho.appliedAt h1
  exact ⟨d, hd, h3.trans h2.symm, h4⟩

/-- A zone is created and then updated. The commit that creates it fails at first, so that the
update comes before it is tried again. -/
def overtaken : Operation :=
  (start oneServer).run (.submit (zoneChange .create) :: sendOne ++
    .submit (zoneChange .update) :: sendOne ++
    [.failCommits "ns1" 1, .deliver "node.ns1", .deliver "node.ns1", .moveTo 300,
      .deliver "node.ns1", .deliver "acks", .deliver "acks"])

/-- All targets have acknowledged, but the zone is not there. -/
theorem diverged_overtaken : overtaken.InSync ∧ ∃ x ∈ overtaken.relay.receivers,
    x.serverId ∈ overtaken.relay.ledger.servers ∧
      ¬ x.table.SameContents (Resolver.replay overtaken.changes).store.table := by
  refine ⟨by decide +kernel, ?_⟩
  have h1 : ∃ x ∈ overtaken.relay.receivers, x.serverId ∈ overtaken.relay.ledger.servers ∧
      x.table.get? (Key.zoneMarker "example.com.") ≠
        (Resolver.replay overtaken.changes).store.table.get? (Key.zoneMarker "example.com.") := by
    decide +kernel
  obtain ⟨x, hx, hserver, hne⟩ := h1
  exact ⟨x, hx, hserver, fun h2 => hne (h2 _ (Or.inl (Key.has_zoneMarker _)))⟩

/-- Only the update was committed there. -/
theorem follows_overtaken : overtaken.committed "ns1" = overtaken.changes.drop 1 ∧
    ∃ x ∈ overtaken.relay.receivers, x.serverId = "ns1" ∧
      x.table.Follows overtaken.changes (overtaken.committed "ns1") := by
  refine ⟨by decide +kernel, ?_⟩
  have h1 : ∃ x ∈ overtaken.relay.receivers, x.serverId = "ns1" := by decide +kernel
  have h2 : "ns1" ∈ overtaken.relay.ledger.servers := by decide +kernel
  obtain ⟨x, hx, hs⟩ := h1
  refine ⟨x, hx, hs, ?_⟩
  rw [← hs] at h2 ⊢
  exact follows_replay fresh_oneServer _ (by decide +kernel) x hx h2

end Operation

end ZoneRelay
