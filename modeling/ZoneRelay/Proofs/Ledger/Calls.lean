import ZoneRelay.Proofs.Ledger.Progress

/-!
# Calls to a ledger

What can be asked of a ledger, what it answers, and what that does to its tables.

* `Ledger.Call`, `Ledger.call`: a call, and the ledger after it.
* `Ledger.created`: what a list of calls creates.
* `Ledger.step_call`: a call does one of five things.
* `Ledger.call_refused`: a call that is refused changes nothing.
-/

namespace ZoneRelay

/-- A change as it was created, and the targets it was created for. -/
structure Creation where
  change : Change
  targets : List NewTarget
  deriving DecidableEq, Repr

namespace Ledger

/-- What can be asked of a ledger, and what can happen to it. -/
inductive Call
  | register (serverId : String)
  | create (change : Change) (targets : List NewTarget)
  | advance (id : ChangeId) (serverId : String) (status : TargetStatus) (now : Stamp)
  | markPublished (rowId : UInt64)
  | purge (cutoff : Stamp)
  /-- The ledger goes out of reach, or is in reach again. -/
  | setAvailable (available : Bool)
  /-- The next recording of a change is made to fail. -/
  | injectFault (point : LedgerFault)
  deriving DecidableEq, Repr

/-- The answer to a call. -/
inductive Reply
  | done
  | created (change : Change)
  | moved (advanced : Bool)
  | purged (count : Nat)
  deriving DecidableEq, Repr

/-- A call that works on a copy, which is thrown away if the call is refused. -/
def transact (l : Ledger) (result : Except LedgerError α) (reply : α → Reply) (copy : α → Ledger) :
    Except LedgerError Reply × Ledger :=
  match result with
  | .ok a => (.ok (reply a), copy a)
  | .error e => (.error e, l)

/-- What a ledger answers to a call, and what it is then. -/
def call (l : Ledger) : Call → Except LedgerError Reply × Ledger
  | .register s => l.transact (l.register s) (fun _ => .done) id
  | .create change targets =>
    ((l.create change targets).1.map .created, (l.create change targets).2)
  | .advance id s status now => l.transact (l.advance id s status now) (.moved ·.1) (·.2)
  | .markPublished rowId => l.transact (l.markPublished rowId) (fun _ => .done) id
  | .purge cutoff => l.transact (l.purge cutoff) (.purged ·.1) (·.2)
  | .setAvailable available => (.ok .done, { l with available })
  | .injectFault point => (.ok .done, { l with fault := some point })

/-- The ledger after calls. -/
def run (l : Ledger) (calls : List Call) : Ledger :=
  calls.foldl (fun l c => (l.call c).2) l

/-- What a call creates, if it is answered so. -/
def Call.creates : Call → Except LedgerError Reply → List Creation
  | .create _ targets, .ok (.created change) => [⟨change, targets⟩]
  | _, _ => []

/-- What calls create, in order. -/
def created (l : Ledger) : List Call → List Creation
  | [] => []
  | c :: calls => c.creates (l.call c).1 ++ (l.call c).2.created calls

/-- How many outbox rows were made for creations. -/
def rowsFor : List Creation → ℕ
  | [] => 0
  | m :: made => m.targets.length + rowsFor made

variable {l l' : Ledger} {id : ChangeId} {s : String} {c : Call}

theorem run_append (l : Ledger) (calls more : List Call) :
    l.run (calls ++ more) = (l.run calls).run more :=
  List.foldl_append

theorem created_append (l : Ledger) (calls more : List Call) :
    l.created (calls ++ more) = l.created calls ++ (l.run calls).created more := by
  induction calls generalizing l with
  | nil => rfl
  | cons c calls ih =>
    rw [List.cons_append, created, ih, created, List.append_assoc]
    rfl

theorem rowsFor_append (made new : List Creation) :
    rowsFor (made ++ new) = rowsFor made + rowsFor new := by
  induction made with
  | nil => simp [rowsFor]
  | cons m made ih => rw [List.cons_append, rowsFor, rowsFor, ih, Nat.add_assoc]

/-- The entry of a change after one of its servers came to a status. -/
def withStatus (s : String) (status : TargetStatus) (now : Stamp) (e : LedgerEntry) : LedgerEntry :=
  LedgerEntry.settle e (mapTarget s (Target.raise · status now) e.targets)

/-- What a call can do to a ledger, and what it creates. -/
inductive Step (l : Ledger) : List Creation → Ledger → Prop
  /-- No table but that of the servers changes. -/
  | stayed (servers : List String) (available : Bool) (fault : Option LedgerFault) :
    Step l [] { l with servers, available, fault }
  | created (change : Change) (targets : List NewTarget) (h : targets ≠ []) :
    Step l [⟨(l.record change targets).1, targets⟩] (l.record change targets).2
  | advanced (e : LedgerEntry) (t : Target) (he : e ∈ l.entries) (ht : t ∈ e.targets)
      (status : TargetStatus) (hstatus : t.status.rank < status.rank) (now : Stamp) :
    Step l [] (l.mapEntry e.change.id (withStatus t.serverId status now))
  | published (row : OutboxRow) (hrow : row ∈ l.outbox) :
    Step l [] { l.mapEntry row.changeId (withSent row.serverId) with
      outbox := l.outbox.filter (·.id != row.id) }
  | purged (cutoff : Stamp) :
    Step l [] { l with
      entries := l.entries.filter fun e => !isExpired cutoff e
      outbox := l.outbox.filter fun r =>
        !((l.entries.filter (isExpired cutoff)).map (·.change.id)).contains r.changeId }

theorem Step.refl (l : Ledger) : l.Step [] l :=
  .stayed l.servers l.available l.fault

theorem step_transact {result : Except LedgerError α} {reply : α → Reply} {copy : α → Ledger}
    (h : ∀ a, result = .ok a → l.Step [] (copy a)) :
    l.Step [] (l.transact result reply copy).2 := by
  cases result with
  | ok a => exact h a rfl
  | error e => exact .refl l

theorem step_register (h : l.register s = .ok l') : l.Step [] l' := by
  unfold register ifAvailable at h
  split at h
  · rw [← Except.ok.inj h]
    exact .stayed (insertSorted s l.servers) l.available l.fault
  · cases h

theorem step_create (change : Change) (targets : List NewTarget) :
    l.Step (Call.creates (.create change targets) ((l.create change targets).1.map .created))
      (l.create change targets).2 := by
  unfold create
  split
  · exact .refl l
  · next hne =>
    split
    · exact .refl l
    · split
      · exact .stayed l.servers l.available none
      · exact .created change targets (by simpa using hne)

theorem step_advance {status : TargetStatus} {now : Stamp} {r : Bool × Ledger}
    (h : l.advance id s status now = .ok r) : l.Step [] r.2 := by
  unfold advance at h
  split at h
  · cases h
  · split at h
    · cases h
    · next e hsome =>
      have he : e ∈ l.entries := List.mem_of_find?_eq_some hsome
      have hid : e.change.id = id := by simpa using List.find?_some hsome
      split at h
      · cases h
      · next t htsome =>
        have ht : t ∈ e.targets := List.mem_of_find?_eq_some htsome
        have hs : t.serverId = s := by simpa using List.find?_some htsome
        subst hid hs
        split at h
        · rw [← Except.ok.inj h]
          exact .refl l
        · next hrank =>
          rw [← Except.ok.inj h]
          exact .advanced e t he ht status (by omega) now

theorem step_markPublished {rowId : UInt64} (h : l.markPublished rowId = .ok l') :
    l.Step [] l' := by
  unfold markPublished ifAvailable at h
  split at h
  · rw [← Except.ok.inj h]
    split
    · exact .refl l
    · next row hsome =>
      have hid : row.id = rowId := by simpa using List.find?_some hsome
      subst hid
      exact .published row (List.mem_of_find?_eq_some hsome)
  · cases h

theorem step_purge {cutoff : Stamp} {r : ℕ × Ledger} (h : l.purge cutoff = .ok r) :
    l.Step [] r.2 := by
  unfold purge ifAvailable at h
  split at h
  · rw [← Except.ok.inj h]
    exact .purged cutoff
  · cases h

/-- **What a call does** is one of five things. -/
theorem step_call (l : Ledger) (c : Call) : l.Step (c.creates (l.call c).1) (l.call c).2 := by
  cases c with
  | register s => exact step_transact fun _ h => step_register h
  | create change targets => exact step_create change targets
  | advance id s status now => exact step_transact fun _ h => step_advance h
  | markPublished rowId => exact step_transact fun _ h => step_markPublished h
  | purge cutoff => exact step_transact fun _ h => step_purge h
  | setAvailable available => exact .stayed l.servers available l.fault
  | injectFault point => exact .stayed l.servers l.available (some point)

theorem transact_refused {result : Except LedgerError α} {reply : α → Reply} {copy : α → Ledger}
    {error : LedgerError} (h : (l.transact result reply copy).1 = .error error) :
    (l.transact result reply copy).2 = l := by
  cases result with
  | ok a => cases h
  | error e => rfl

/-- **A call that is refused changes nothing** but the fault that made it fail. -/
theorem call_refused {error : LedgerError} (h : (l.call c).1 = .error error) :
    (l.call c).2 = { l with fault := (l.call c).2.fault } := by
  cases c with
  | create change targets =>
    rcases create_cases (l := l) change targets with ⟨e, fault, h1⟩ | h1
    · simp only [call, h1]
    · simp only [call, h1, Except.map] at h
      cases h
  | register s => rw [call, transact_refused h]
  | advance id s status now => rw [call, transact_refused h]
  | markPublished rowId => rw [call, transact_refused h]
  | purge cutoff => rw [call, transact_refused h]
  | setAvailable available => cases h
  | injectFault point => cases h

end Ledger

end ZoneRelay
