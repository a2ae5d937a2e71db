import Mathlib.Data.List.Forall2

/-!
# Computations that succeed

A computation succeeds only if each of its steps does.

* `bind_ok`, `map_ok`: what a computation in two steps went through.
* `mapM_ok_iff`: a computation over a list succeeds with one result for each element.
-/

namespace ZoneRelay

theorem bind_ok {ε α β : Type} {x : Except ε α} {f : α → Except ε β} {b : β}
    (h : (x >>= f) = .ok b) : ∃ a, x = .ok a ∧ f a = .ok b := by
  cases x with
  | error e => cases h
  | ok a => exact ⟨a, rfl, h⟩

theorem map_ok {ε α β : Type} {x : Except ε α} {f : α → β} {b : β} (h : x.map f = .ok b) :
    ∃ a, x = .ok a ∧ f a = b := by
  cases x with
  | error e => cases h
  | ok a => exact ⟨a, rfl, Except.ok.inj h⟩

variable {ε α β : Type} {f : α → Except ε β} {l : List α} {r : List β}

/-- What stands in a list has its counterpart in the list it is related to. -/
theorem exists_of_forall₂ {R : α → β → Prop} (h : List.Forall₂ R l r) {b : β} (hb : b ∈ r) :
    ∃ a ∈ l, R a b := by
  induction h with
  | nil => cases hb
  | cons h1 _ ih =>
    rcases List.mem_cons.1 hb with rfl | hb
    · exact ⟨_, List.mem_cons_self, h1⟩
    · obtain ⟨a, ha, h2⟩ := ih hb
      exact ⟨a, List.mem_cons_of_mem _ ha, h2⟩

/-- If each element of a list has a counterpart, so has the list. -/
theorem exists_forall₂ {R : α → β → Prop} (h : ∀ a ∈ l, ∃ b, R a b) :
    ∃ r, List.Forall₂ R l r := by
  induction l with
  | nil => exact ⟨[], .nil⟩
  | cons a l ih =>
    obtain ⟨b, hb⟩ := h a List.mem_cons_self
    obtain ⟨r, hr⟩ := ih fun x hx => h x (List.mem_cons_of_mem _ hx)
    exact ⟨b :: r, .cons hb hr⟩

/-- **A computation over a list** succeeds if it does for each element, with the results in order.
-/
theorem mapM_ok_iff : l.mapM f = .ok r ↔ List.Forall₂ (fun a b => f a = .ok b) l r := by
  constructor
  · intro h
    induction l generalizing r with
    | nil =>
      rw [List.mapM_nil] at h
      rw [← Except.ok.inj h]
      exact .nil
    | cons a l ih =>
      rw [List.mapM_cons] at h
      obtain ⟨b, h1, h2⟩ := bind_ok h
      obtain ⟨s, h3, h4⟩ := bind_ok h2
      rw [← Except.ok.inj h4]
      exact .cons h1 (ih h3)
  · intro h
    induction h with
    | nil => rfl
    | cons h1 _ ih =>
      rw [List.mapM_cons, h1, ih]
      rfl

theorem mem_of_mapM_ok (h : l.mapM f = .ok r) : ∀ b ∈ r, ∃ a ∈ l, f a = .ok b :=
  fun _ hb => exists_of_forall₂ (mapM_ok_iff.1 h) hb

end ZoneRelay
