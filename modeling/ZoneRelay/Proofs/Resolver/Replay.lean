import Mathlib.Data.List.Induction
import ZoneRelay.Proofs.Resolver.History

/-!
# Changes applied in order

A replay applies changes once each, by ascending identity. The changes committed to a table may have
come in another order, and older ones may be missing.

* `Resolver.replay`: changes applied in order.
* `Change.FellBehind`: a change that came too late at a key.
* `Table.History.agrees_iff`: when a table agrees with a replay.
* `Table.History.cause_of_fellBehind`, `agrees_rule`: why it may not, and that it does for rules.
-/

namespace ZoneRelay

namespace Resolver

/-- The resolver over an empty store after these changes, each applied once. -/
def replay (cs : List Change) : Resolver :=
  inMemory.run (cs.map .apply)

theorem replay_append (cs : List Change) (c : Change) :
    replay (cs ++ [c]) = ((replay cs).apply c).2 := by
  unfold replay run
  rw [List.map_append, List.foldl_append]
  rfl

/-- In memory nothing keeps a change from being applied but the change itself. -/
theorem apply_inMemory {r : Resolver} (hb : r.store.backing = .memory) (hf : r.store.failing = 0)
    (c : Change) : (r.apply c).2.store.backing = .memory ∧ (r.apply c).2.store.failing = 0 ∧
      (r.apply c).2.store.table = (r.store.table.commit? c).getD r.store.table := by
  unfold apply Table.commit?
  cases hp : r.store.table.plan c with
  | error e => exact ⟨hb, hf, rfl⟩
  | ok p =>
    cases p with
    | stale l => exact ⟨hb, hf, rfl⟩
    | write ops edit =>
      unfold Store.commit
      simp only [hf, hb]
      exact ⟨hb, hf, rfl⟩

theorem replay_inMemory (cs : List Change) :
    (replay cs).store.backing = .memory ∧ (replay cs).store.failing = 0 := by
  induction cs using List.reverseRecOn with
  | nil => exact ⟨rfl, rfl⟩
  | append_singleton cs c ih =>
    rw [replay_append]
    obtain ⟨h1, h2, -⟩ := apply_inMemory ih.1 ih.2 c
    exact ⟨h1, h2⟩

/-- Replaying changes by ascending identity commits all that can be applied at all. -/
theorem history_replay {cs : List Change} (hc : cs.Pairwise (·.id < ·.id)) :
    Table.History (cs.filter (·.writes ≠ [])) (replay cs).store.table := by
  induction cs using List.reverseRecOn with
  | nil => exact .empty
  | append_singleton cs c ih =>
    obtain ⟨h1, -, h2⟩ := List.pairwise_append.1 hc
    have h3 := ih h1
    obtain ⟨hb, hf⟩ := replay_inMemory cs
    rw [replay_append, (apply_inMemory hb hf c).2.2, List.filter_append]
    -- `c` is newer than all before, so nothing makes it stale
    have newer : ∀ {s}, c.scope? = some s →
        ∃ last, (replay cs).store.table.lastApplied s = .ok last ∧ ∀ l ∈ last, l < c.id := by
      intro s hs
      rcases h3.lastApplied hs with ⟨h4, -⟩ | ⟨b, h4, -, h5, -⟩
      · exact ⟨none, h4, by simp⟩
      · refine ⟨_, h5, fun l hl => ?_⟩
        rw [← Option.some.inj hl]
        exact h2 b (List.mem_filter.1 h4).1 c List.mem_cons_self
    cases hu : (replay cs).store.table.commit? c with
    | some u =>
      have h4 := hu
      obtain ⟨s, last, hs, hl, hn, -⟩ := Table.lastApplied_commit h3.sound hu
      have h5 := (Table.commit?_iff h3.sound hs hl hn).1 ⟨u, hu⟩
      rw [List.filter_cons_of_pos (by simpa using h5)]
      exact .commit h3 h4
    | none =>
      have h5 : c.writes = [] := by
        by_contra h6
        cases hs : c.scope? with
        | none =>
          obtain ⟨ops, edit, hp⟩ := Table.writes_ne_nil_iff.1 h6
          obtain ⟨s, -, h7, -⟩ := Table.plan_write hp
          rw [hs] at h7
          cases h7
        | some s =>
          obtain ⟨last, hl, hn⟩ := newer hs
          obtain ⟨u, h7⟩ := (Table.commit?_iff h3.sound hs hl hn).2 h6
          rw [hu] at h7
          cases h7
      rw [List.filter_cons_of_neg (by simpa using h5)]
      simpa using h3

end Resolver

/-- Whether a change fell behind at a key: it was not committed, or an older change that decides
about the key was committed after it. -/
def Change.FellBehind (c : Change) (cs : List Change) (k : String) : Prop :=
  c ∉ cs ∨ ∃ d, [c, d].Sublist cs ∧ d.id < c.id ∧ d.Decides k

namespace Table.History

variable {t : Table} {cs all : List Change} {k : String} {c : Change}

/-- A replay leaves at a key what the newest change to decide about it leaves there. -/
theorem replay_newest (ha : all.Pairwise (·.id < ·.id)) (k : String) :
    ((Resolver.replay all).store.table.get? k = none ∧ ∀ c ∈ all, ¬ c.Decides k) ∨
      ∃ c ∈ all, c.Decides k ∧ (Resolver.replay all).store.table.get? k = c.leaves k ∧
        ∀ d ∈ all, d.Decides k → d.id ≤ c.id := by
  have mem : ∀ {d}, d ∈ all → d.Decides k → d ∈ all.filter (·.writes ≠ []) := fun h1 h2 =>
    List.mem_filter.2 ⟨h1, by simpa using writes_ne_nil_of_decides h2⟩
  rcases (Resolver.history_replay ha).get?_last k with ⟨h1, h2⟩ | ⟨l, c, r, hl, h1, h2, h3⟩
  · exact Or.inl ⟨h1, fun c hc hd => h2 c (mem hc hd) hd⟩
  · -- the last change to decide is the newest, as the replay goes by identity
    have h4 := ha.sublist (List.filter_sublist (p := fun c => decide (c.writes ≠ [])))
    rw [hl] at h4
    obtain ⟨-, -, h5⟩ := List.pairwise_append.1 h4
    have hc : c ∈ all.filter (·.writes ≠ []) := by
      rw [hl]
      simp
    refine Or.inr ⟨c, (List.mem_filter.1 hc).1, h1, h2, fun d hd hdk => ?_⟩
    have h6 := mem hd hdk
    rw [hl] at h6
    rcases List.mem_append.1 h6 with h6 | h6
    · exact UInt64.le_of_lt (h5 d h6 c List.mem_cons_self)
    · rcases List.mem_cons.1 h6 with rfl | h6
      · exact UInt64.le_refl _
      · exact absurd hdk (h3 d h6)

/-- **When a table agrees with a replay in order.** At a key, this is so if and only if each change
that fell behind there was overwritten by a newer one or is as good as in force. -/
theorem agrees_iff (h : History cs t) (ha : all.Pairwise (·.id < ·.id)) (hs : ∀ c ∈ cs, c ∈ all)
    (k : String) : t.get? k = (Resolver.replay all).store.table.get? k ↔
      ∀ c ∈ all, c.Decides k → c.FellBehind cs k →
        (∃ d ∈ all, c.id < d.id ∧ d.Decides k) ∨ t.get? k = c.leaves k := by
  rcases replay_newest ha k with ⟨h1, h2⟩ | ⟨c, h1, h2, h3, h4⟩
  · rw [h1]
    refine ⟨fun _ c hc hd => absurd hd (h2 c hc), fun _ => ?_⟩
    rcases h.get?_last k with ⟨h3, -⟩ | ⟨l, c, r, rfl, h3, -⟩
    · exact h3
    · exact absurd h3 (h2 c (hs c (by simp)))
  · rw [h3]
    constructor
    · intro h5 d hd hdk _
      by_cases hdc : d = c
      · rw [hdc]
        exact Or.inr h5
      · refine Or.inl ⟨c, h1, ?_, h2⟩
        rcases UInt64.lt_or_eq_of_le (h4 d hd hdk) with h6 | h6
        · exact h6
        · exact absurd (eq_of_id_eq ha hd h1 h6) hdc
    · intro h5
      by_cases hf : c.FellBehind cs k
      · rcases h5 c h1 h2 hf with ⟨d, h6, h7, h8⟩ | h6
        · exact absurd (UInt64.lt_of_lt_of_le h7 (h4 d h6 h8)) (UInt64.lt_irrefl _)
        · exact h6
      · -- the last change committed that decides about the key can only be `c`
        unfold Change.FellBehind at hf
        rw [not_or, not_not] at hf
        obtain ⟨h6, h7⟩ := hf
        rcases h.get?_last k with ⟨-, h8⟩ | ⟨l, d, r, rfl, h8, h9, h10⟩
        · exact absurd h2 (h8 c h6)
        · suffices hdc : d = c by rwa [← hdc]
          have hd := hs d (by simp)
          rcases UInt64.lt_or_eq_of_le (h4 d hd h8) with h11 | h11
          · refine absurd ⟨d, ?_, h11, h8⟩ h7
            rcases List.mem_append.1 h6 with h12 | h12
            · exact List.Sublist.append (List.singleton_sublist.2 h12)
                (List.singleton_sublist.2 List.mem_cons_self)
            · rcases List.mem_cons.1 h12 with rfl | h12
              · exact absurd h11 (UInt64.lt_irrefl _)
              · exact absurd h2 (h10 c h12)
          · exact eq_of_id_eq ha hd h1 h11

/-! ## Changes that were overtaken -/

/-- Each change, or else a newer one to its zone or rule, is in the history. -/
def Covers (cs all : List Change) : Prop :=
  ∀ c ∈ all, ∃ d ∈ cs, d.scope? = c.scope? ∧ c.id ≤ d.id

/-- **Why a change falls behind**: it was not committed because a newer change to its zone or rule
came first, or another zone has a key in common with its own. -/
theorem cause_of_fellBehind (h : History cs t) (ha : all.Pairwise (·.id < ·.id))
    (hs : ∀ c ∈ cs, c ∈ all) (hc : Covers cs all) (hm : c ∈ all) (hf : c.FellBehind cs k) :
    (c ∉ cs ∧ ∃ d ∈ cs, d.scope? = c.scope? ∧ c.id < d.id) ∨
      ∃ d ∈ cs, d.Decides k ∧ d.id < c.id ∧ d.scope? ≠ c.scope? := by
  rcases hf with h1 | ⟨d, h1, h2, h3⟩
  · obtain ⟨d, h2, h3, h4⟩ := hc c hm
    refine Or.inl ⟨h1, d, h2, h3, ?_⟩
    rcases UInt64.lt_or_eq_of_le h4 with h5 | h5
    · exact h5
    · rw [eq_of_id_eq ha hm (hs d h2) h5] at h1
      exact absurd h2 h1
  · refine Or.inr ⟨d, h1.mem (by simp), h3, h2, fun h4 => ?_⟩
    have h5 := h.rising.sublist h1
    have h6 := (List.pairwise_cons.1 h5).1 d List.mem_cons_self h4.symm
    exact UInt64.lt_irrefl _ (UInt64.lt_trans h6 h2)

/-- **Rules always agree with a replay in order**: a change to a rule decides about all of its keys,
so whatever was overtaken was overwritten. -/
theorem agrees_rule (h : History cs t) (ha : all.Pairwise (·.id < ·.id)) (hs : ∀ c ∈ cs, c ∈ all)
    (hc : Covers cs all) {id : RuleId} (hk : (Scope.rule id).owns k) :
    t.get? k = (Resolver.replay all).store.table.get? k := by
  refine (h.agrees_iff ha hs k).2 fun c hm hd hf => ?_
  obtain ⟨s, h1, h2⟩ := owns_of_decides hd
  cases rule_owner_unique hk h2
  rcases h.cause_of_fellBehind ha hs hc hm hf with ⟨-, d, h3, h4, h5⟩ | ⟨d, -, h3, -, h4⟩
  · rw [h1] at h4
    exact Or.inl ⟨d, hs d h3, h5, (decides_rule h4).2 ⟨h.writes_ne_nil d h3, hk⟩⟩
  · obtain ⟨v, h5, h6⟩ := owns_of_decides h3
    rw [rule_owner_unique hk h6] at h5
    exact absurd (h5.trans h1.symm) h4

end Table.History

end ZoneRelay
