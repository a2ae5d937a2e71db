import Mathlib.Data.List.Induction
import ZoneRelay.Proofs.Trie.Basic

/-!
# Tries against a map

A trie that starts out empty and goes through any edits keeps what a plain map from names to
payloads keeps that goes through the same edits.

* `Trie.Keeps`: a trie keeps what a map does.
* `Trie.Edit`: an insertion, or one of the two removals; `Trie.build` makes a trie by a list of
  edits, and `Trie.kept` makes a map by them.
* `keeps_act`, `keeps_build`: the trie keeps what the map does, after one edit and after all.
-/

namespace ZoneRelay.Trie

variable {α : Type} {policy : Policy} {t : Trie α}

/-- What is kept under each name, nothing or some values. The names are in normal form. -/
abbrev Payloads (α : Type) := String → List α

variable {m : Payloads α}

/-- A trie keeps what a map does. -/
structure Keeps (t : Trie α) (policy : Policy) (m : Payloads α) : Prop where
  policy_eq : t.policy = policy
  tidy : t.Tidy
  get : ∀ name, t.get name = m (Name.normalize name)
  /-- The map has payloads under normal forms only. -/
  normal : ∀ name, m name ≠ [] → Name.normalize name = name

theorem keeps_empty (policy : Policy) : (empty policy : Trie α).Keeps policy fun _ => [] where
  policy_eq := rfl
  tidy := tidy_empty policy
  get _ := get_empty policy
  normal _ h := absurd rfl h

/-! ## Edits -/

/-- A change to what is kept. -/
inductive Edit (α : Type)
  | insert (name : String) (v : α)
  | remove (name : String)
  | removeValue (name : String) (v : α)
  deriving DecidableEq, Repr

/-- The name whose payload an edit changes. -/
def Edit.name : Edit α → String
  | insert name _ | remove name | removeValue name _ => name

variable [DecidableEq α]

/-- What an edit makes of the payload under its name. A new value takes the place of the one that
was there, or goes after those that are there if several may be and it is not one of them. -/
def Edit.payload (policy : Policy) : Edit α → List α → List α
  | insert _ v, vs =>
    match policy.several with
    | false => [v]
    | true => vs ++ [v].filter (· ∉ vs)
  | remove _, _ => []
  | removeValue _ v, vs => vs.filter fun other => other ≠ v

/-- What an edit makes of a map. -/
def Edit.update (policy : Policy) (m : Payloads α) (e : Edit α) : Payloads α :=
  Function.update m (Name.normalize e.name) (e.payload policy (m (Name.normalize e.name)))

/-- What an edit makes of a trie. -/
def act (t : Trie α) : Edit α → Trie α
  | .insert name v => t.insert name v
  | .remove name => (t.remove name).2
  | .removeValue name v => (t.removeValue name v).2

/-- A new trie after some edits. -/
def build (policy : Policy) (edits : List (Edit α)) : Trie α :=
  edits.foldl act (empty policy)

/-- A new map after some edits. -/
def kept (policy : Policy) (edits : List (Edit α)) : Payloads α :=
  edits.foldl (Edit.update policy) fun _ => []

theorem build_concat (policy : Policy) (edits : List (Edit α)) (e : Edit α) :
    build policy (edits ++ [e]) = (build policy edits).act e :=
  List.foldl_concat ..

theorem kept_concat (policy : Policy) (edits : List (Edit α)) (e : Edit α) :
    kept policy (edits ++ [e]) = Edit.update policy (kept policy edits) e :=
  List.foldl_concat ..

theorem store_eq (name : String) (v : α) :
    policy.store v = (Edit.insert name v).payload policy := by
  funext vs
  unfold Policy.store Edit.payload
  cases policy.several with
  | false => rfl
  | true =>
    by_cases h : v ∈ vs
    · simp [h]
    · simp [h]

theorem filter_eq (name : String) (v : α) :
    (fun vs : List α => vs.filter (· != v)) = (Edit.removeValue name v).payload policy := by
  funext vs
  exact List.filter_congr fun other _ => by by_cases h : other = v <;> simp [h]

theorem act_eq (t : Trie α) (e : Edit α) :
    t.act e = t.alter (e.payload t.policy) (Name.path e.name) := by
  cases e with
  | insert name v =>
    rw [← store_eq]
    rfl
  | remove name => exact remove_snd t name
  | removeValue name v =>
    rw [← filter_eq]
    exact removeValue_snd t name v

theorem get_act (ht : t.Tidy) (e : Edit α) (name : String) :
    (t.act e).get name = if Name.path name = Name.path e.name then
      e.payload t.policy (t.get e.name) else t.get name := by
  rw [act_eq]
  exact valuesAt_alter ht

/-- An edit leaves the payloads under all other names alone. -/
theorem get_act_other (ht : t.Tidy) {e : Edit α} {name : String}
    (h : Name.normalize name ≠ Name.normalize e.name) : (t.act e).get name = t.get name := by
  rw [get_act ht, if_neg]
  intro h1
  exact h (Name.path_inj h1)

/-- **An edit does to a trie what it does to the map.** -/
theorem keeps_act (h : t.Keeps policy m) (e : Edit α) :
    (t.act e).Keeps policy (Edit.update policy m e) := by
  refine ⟨?_, ?_, fun name => ?_, fun name hne => ?_⟩
  · rw [act_eq, policy_alter, h.policy_eq]
  · rw [act_eq]
    exact tidy_alter h.tidy
  · unfold Edit.update
    by_cases h1 : Name.normalize name = Name.normalize e.name
    · rw [get_act h.tidy, if_pos (Name.path_eq_iff.2 h1), h.policy_eq, h.get, h1,
        Function.update_self]
    · rw [get_act_other h.tidy h1, h.get, Function.update_of_ne h1]
  · unfold Edit.update at hne
    by_cases h1 : name = Name.normalize e.name
    · rw [h1, Name.normalize_normalize]
    · rw [Function.update_of_ne h1] at hne
      exact h.normal name hne

/-- **A new trie keeps what a new map does** after the same edits. -/
theorem keeps_build (policy : Policy) (edits : List (Edit α)) :
    (build policy edits).Keeps policy (kept policy edits) := by
  induction edits using List.reverseRecOn with
  | nil => exact keeps_empty policy
  | append_singleton edits e ih =>
    rw [build_concat, kept_concat]
    exact keeps_act ih e

end ZoneRelay.Trie
