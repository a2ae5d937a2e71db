import ZoneRelay.Store.Basic

/-!
# What a commit does

* `Store.commit_ok`: a commit that succeeds does all its operations and tells of them.
* `Store.commit_error`: one that fails does nothing and tells of nothing.
-/

namespace ZoneRelay

namespace Store

variable {s s' : Store} {ops : List Op} {e : StoreError}

/-- A commit that succeeds does all its operations and tells of them. -/
theorem commit_ok (h : s.commit ops = (.ok (), s')) :
    s'.table = (s.table.run ops).1 ∧ s'.log = s.log ++ (s.table.run ops).2.toArray := by
  unfold commit at h
  split at h
  · cases h
  · simp only at h
    split at h
    · cases h
      exact ⟨rfl, rfl⟩
    · split at h
      · cases h
        exact ⟨rfl, rfl⟩
      · cases h

/-- A commit that fails does nothing, tells of nothing, and may succeed later. -/
theorem commit_error (h : s.commit ops = (.error e, s')) :
    s'.table = s.table ∧ s'.log = s.log ∧ e.isTransient = true := by
  unfold commit at h
  split at h
  · cases h
    exact ⟨rfl, rfl, rfl⟩
  · simp only at h
    split at h
    · cases h
    · split at h
      · cases h
      · cases h
        exact ⟨rfl, rfl, rfl⟩

theorem table_commit (s : Store) (ops : List Op) :
    (s.commit ops).2.table =
      match (s.commit ops).1 with
      | .ok () => (s.table.run ops).1
      | .error _ => s.table := by
  rcases h : s.commit ops with ⟨e | _, s'⟩
  · exact (commit_error h).1
  · exact (commit_ok h).1

theorem table_mount (s : Store) (disk : Disk) : (s.mount disk).table = s.table := by
  unfold mount
  split <;> rfl

end Store

end ZoneRelay
