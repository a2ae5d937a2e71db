import ZoneRelay.Proofs.Relay.Sane

/-!
# What a marked target says

* `Operation.AppliedAt`: a change, or a newer one to its zone or rule, was committed at a server.
* `Operation.marked_only_if_applied`: a target is marked only then.
-/

namespace ZoneRelay

instance (l : Ledger) (P : TargetStatus → Prop) [DecidablePred P] (id : ChangeId) (s : String) :
    Decidable (l.Shows P id s) :=
  inferInstanceAs (Decidable (∃ e ∈ l.entries, _ ∧ ∃ t ∈ e.targets, _))

instance (l : Ledger) (id : ChangeId) (s : String) : Decidable (l.Synced id s) :=
  inferInstanceAs (Decidable (l.Shows (· = .inSync) id s))

namespace Operation

/-- At a server, the last change applied to the zone or rule of `c` is `c` itself or a newer one,
and was committed there. -/
def AppliedAt (o : Operation) (s : String) (c : Change) : Prop :=
  ∃ x ∈ o.relay.receivers, x.serverId = s ∧ ∃ scope, ∃ d ∈ o.committed s,
    c.scope? = some scope ∧ d.scope? = some scope ∧
      x.table.lastApplied scope = .ok (some d.id) ∧ c.id ≤ d.id

variable {o : Operation} {r : Relay} {s : String} {c : Change}

theorem Sane.appliedAt (ho : o.Sane) (h : o.relay.SettledAt s c) : o.AppliedAt s c := by
  obtain ⟨x, hx, rfl, h1⟩ := h
  obtain ⟨scope, d, h2, h3, h4, h5, h6⟩ := (ho.keeps x hx).committed_of_settled h1
  exact ⟨x, hx, rfl, scope, d, h5, h2, h6, h3, h4⟩

/-- **A target is marked only if its resolver has the change.** Whatever is lost, repeated or
reordered on the way, if the ledger says that a server is in sync with a change, then the change was
submitted for that server, and the server's store has committed it or a newer one to the same zone
or rule. -/
theorem marked_only_if_applied (hr : r.Fresh) (actions : List Action) :
    ∀ e ∈ ((start r).run actions).relay.ledger.entries, ∀ t ∈ e.targets, t.status = .inSync →
      (∃ x ∈ ((start r).run actions).submitted,
        e.change = { x.change with status := e.change.status } ∧ t.serverId ∈ x.servers) ∧
      ((start r).run actions).AppliedAt t.serverId e.change := by
  intro e he t ht hst
  have ho := sane_run hr actions
  obtain ⟨x, hx, h1⟩ := ho.books.entries e he
  have h2 := h1.id
  have h3 := ho.synced x hx t.serverId ⟨e, he, h2, t, ht, rfl, hst⟩
  refine ⟨⟨x, hx, h1.change, (h1.servers _).1 (List.mem_map_of_mem ht)⟩, ?_⟩
  obtain ⟨y, hy, hs, scope, d, hd, h4, h5, h6, h7⟩ := ho.appliedAt h3
  refine ⟨y, hy, hs, scope, d, hd, ?_, h5, h6, by rwa [h2]⟩
  rw [h1.change]
  exact h4

/-- A zone is created at one server, and the server acknowledges. -/
theorem marked_roundTrip : ∃ e ∈ ((start oneServer).run (.submit (zoneChange .create) ::
      sendOne ++ [.deliver "node.ns1", .deliver "acks"])).relay.ledger.entries,
    ∃ t ∈ e.targets, t.serverId = "ns1" ∧ t.status = .inSync ∧
      ((start oneServer).run (.submit (zoneChange .create) ::
        sendOne ++ [.deliver "node.ns1", .deliver "acks"])).AppliedAt "ns1" e.change := by
  have h1 : ((start oneServer).run (.submit (zoneChange .create) ::
      sendOne ++ [.deliver "node.ns1", .deliver "acks"])).relay.ledger.Synced 1 "ns1" := by
    decide +kernel
  obtain ⟨e, he, -, t, ht, hs, hst⟩ := h1
  refine ⟨e, he, t, ht, hs, hst, ?_⟩
  rw [← hs]
  exact (marked_only_if_applied fresh_oneServer _ e he t ht hst).2

end Operation

end ZoneRelay
