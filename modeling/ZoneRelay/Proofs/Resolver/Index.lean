import ZoneRelay.Proofs.Trie.Basic
import ZoneRelay.Resolver.Basic

/-!
# Tries as sets

* `Trie.Holds`: a trie keeps each name of a set under itself, as the trie of zones does.
* `Trie.Lists`: a trie keeps under each name the values related to it, each once, as the trie of
  rules does.
* `Holds.insert`, `Holds.remove`, `Lists.addRule`, `Lists.dropRule`: what a change makes of the set.
-/

namespace ZoneRelay

namespace Trie

/-- A trie that keeps the names of a set, each under itself. The names are in normal form. -/
structure Holds (t : Trie String) (P : String → Prop) : Prop where
  tidy : t.Tidy
  policy : t.policy.several = false
  own : ∀ name, P (Name.normalize name) → t.get name = [Name.normalize name]
  none : ∀ name, ¬ P (Name.normalize name) → t.get name = []

/-- A trie that keeps under each name the values related to it. The names are in normal form. -/
structure Lists {α : Type} (t : Trie α) (R : String → α → Prop) : Prop where
  tidy : t.Tidy
  policy : t.policy.several = true
  nodup : ∀ name, (t.get name).Nodup
  mem : ∀ name a, a ∈ t.get name ↔ R (Name.normalize name) a

namespace Holds

variable {t u : Trie String} {P Q : String → Prop}

theorem congr (h : t.Holds P) (hPQ : ∀ name, P (Name.normalize name) ↔ Q (Name.normalize name)) :
    t.Holds Q :=
  ⟨h.tidy, h.policy, fun name hq => h.own name ((hPQ name).2 hq),
    fun name hq => h.none name fun hp => hq ((hPQ name).1 hp)⟩

theorem empty : (Trie.empty ⟨false, false⟩ : Trie String).Holds fun _ => False :=
  ⟨tidy_empty _, rfl, fun _ h => h.elim, fun _ _ => get_empty _⟩

theorem insert (h : t.Holds P) {zone : String} (hz : Name.normalize zone = zone) :
    (t.insert zone zone).Holds fun n => n = zone ∨ P n := by
  have key : ∀ name, (t.insert zone zone).get name =
      if Name.normalize name = zone then [zone] else t.get name := by
    intro name
    have h1 : (Name.path name = Name.path zone) = (Name.normalize name = zone) := by
      rw [Name.path_eq_iff, hz]
    simp only [get_insert h.tidy, h1, Policy.store, h.policy, Bool.false_eq_true, if_false]
  refine ⟨tidy_insert h.tidy zone zone, ?_, ?_, ?_⟩
  · rw [policy_insert, h.policy]
  · rintro name hn
    rw [key]
    split_ifs with h1
    · rw [h1]
    · exact h.own name (hn.resolve_left h1)
  · rintro name hn
    rw [not_or] at hn
    rw [key, if_neg hn.1, h.none name hn.2]

theorem remove (h : t.Holds P) {zone : String} (hz : Name.normalize zone = zone) :
    (t.remove zone).2.Holds fun n => n ≠ zone ∧ P n := by
  have key : ∀ name, (t.remove zone).2.get name =
      if Name.normalize name = zone then [] else t.get name := by
    intro name
    have h1 : (Name.path name = Name.path zone) = (Name.normalize name = zone) := by
      rw [Name.path_eq_iff, hz]
    simp only [get_remove h.tidy, h1]
  refine ⟨tidy_remove h.tidy zone, ?_, ?_, ?_⟩
  · rw [remove_snd, policy_alter, h.policy]
  · rintro name ⟨h1, h2⟩
    rw [key, if_neg h1, h.own name h2]
  · intro name hn
    rw [key]
    split_ifs with h1
    · rfl
    · exact h.none name fun h2 => hn ⟨h1, h2⟩

/-- The names kept are those of the set. -/
theorem mem_names (h : t.Holds P) {name : String} :
    name ∈ t.names ↔ Name.normalize name = name ∧ P name := by
  rw [Trie.mem_names h.tidy]
  refine and_congr_right fun hn => ⟨fun h1 => ?_, fun h1 => ?_⟩
  · by_contra h2
    exact h1 (h.none name (by rwa [hn]))
  · rw [h.own name (by rwa [hn])]
    simp

theorem get_eq (h : t.Holds P) (h' : u.Holds P) (name : String) : t.get name = u.get name := by
  by_cases hp : P (Name.normalize name)
  · rw [h.own name hp, h'.own name hp]
  · rw [h.none name hp, h'.none name hp]

/-- Tries that hold the same have the same names. -/
theorem names_eq (h : t.Holds P) (h' : u.Holds P) : t.names = u.names := by
  refine names_eq_of h.tidy (nodup_names h'.tidy) u.names_ordered fun name => ?_
  rw [h.mem_names, h'.mem_names]

end Holds

namespace Lists

variable {α : Type} {t u : Trie α} {R S : String → α → Prop}

theorem congr (h : t.Lists R)
    (hRS : ∀ name a, R (Name.normalize name) a ↔ S (Name.normalize name) a) : t.Lists S :=
  ⟨h.tidy, h.policy, h.nodup, fun name a => (h.mem name a).trans (hRS name a)⟩

theorem empty : (Trie.empty ⟨true, true⟩ : Trie α).Lists fun _ _ => False :=
  ⟨tidy_empty _, rfl, fun _ => by rw [get_empty]; exact List.nodup_nil,
    fun _ _ => by rw [get_empty]; simp⟩

theorem insert [BEq α] [LawfulBEq α] (h : t.Lists R) (d : String) (v : α) :
    (t.insert d v).Lists fun n a => (n = Name.normalize d ∧ a = v) ∨ R n a := by
  have key : ∀ name, (t.insert d v).get name =
      if Name.normalize name = Name.normalize d then
        (if v ∈ t.get d then t.get d else t.get d ++ [v])
      else t.get name := by
    intro name
    simp only [get_insert h.tidy, Name.path_eq_iff, Policy.store, h.policy, if_true,
      List.contains_iff_mem]
  refine ⟨tidy_insert h.tidy d v, ?_, fun name => ?_, fun name a => ?_⟩
  · rw [policy_insert, h.policy]
  · rw [key]
    split_ifs with h1 h2
    · exact h.nodup d
    · rw [List.nodup_append]
      refine ⟨h.nodup d, List.nodup_singleton v, ?_⟩
      rintro a ha b hb rfl
      exact h2 (List.mem_singleton.1 hb ▸ ha)
    · exact h.nodup name
  · rw [key]
    split_ifs with h1 h2
    · rw [h.mem, h1]
      rw [h.mem] at h2
      constructor
      · exact Or.inr
      · rintro (⟨-, rfl⟩ | h3)
        · exact h2
        · exact h3
    · rw [List.mem_append, List.mem_singleton, h.mem, h1]
      simp [or_comm]
    · rw [h.mem]
      simp [h1]

theorem removeValue [BEq α] [LawfulBEq α] (h : t.Lists R) (d : String) (v : α) :
    (t.removeValue d v).2.Lists fun n a => R n a ∧ ¬ (n = Name.normalize d ∧ a = v) := by
  have key : ∀ name, (t.removeValue d v).2.get name =
      if Name.normalize name = Name.normalize d then (t.get d).filter (· != v)
      else t.get name := by
    intro name
    simp only [get_removeValue h.tidy, Name.path_eq_iff]
  refine ⟨tidy_removeValue h.tidy d v, ?_, fun name => ?_, fun name a => ?_⟩
  · rw [removeValue_snd, policy_alter, h.policy]
  · rw [key]
    split_ifs with h1
    · exact (h.nodup d).filter _
    · exact h.nodup name
  · rw [key]
    split_ifs with h1
    · rw [List.mem_filter, h.mem, h1]
      simp
    · rw [h.mem]
      simp [h1]

/-- Tries that list the same keep the same under each name, up to order. -/
theorem get_perm (h : t.Lists R) (h' : u.Lists R) (name : String) :
    (t.get name).Perm (u.get name) := by
  rw [List.perm_ext_iff_of_nodup (h.nodup name) (h'.nodup name)]
  intro a
  rw [h.mem, h'.mem]

/-- Tries that list the same have the same names. -/
theorem names_eq (h : t.Lists R) (h' : u.Lists R) : t.names = u.names := by
  refine names_eq_of h.tidy (nodup_names h'.tidy) u.names_ordered fun name => ?_
  rw [mem_names h.tidy, mem_names h'.tidy]
  refine and_congr_right fun _ => not_congr ?_
  rw [← List.length_eq_zero_iff, ← List.length_eq_zero_iff, (h.get_perm h' name).length_eq]

end Lists

end Trie

namespace Index

variable {t : Trie RuleId} {R : String → RuleId → Prop}

theorem addRule_cons (t : Trie RuleId) (id : RuleId) (d : String) (ds : List String) :
    addRule t id (d :: ds) = addRule (t.insert d id) id ds :=
  List.foldl_cons ..

theorem dropRule_cons (t : Trie RuleId) (id : RuleId) (d : String) (ds : List String) :
    dropRule t id (d :: ds) = dropRule (t.removeValue d id).2 id ds :=
  List.foldl_cons ..

/-- Putting a rule under several domains. -/
theorem addRule_lists (h : t.Lists R) (id : RuleId) (ds : List String) :
    (addRule t id ds).Lists fun n a => (n ∈ ds.map Name.normalize ∧ a = id) ∨ R n a := by
  induction ds generalizing t R with
  | nil => exact h.congr fun _ _ => by simp
  | cons d ds ih =>
    rw [addRule_cons]
    refine (ih (h.insert d id)).congr fun name a => ?_
    rw [List.map_cons, List.mem_cons, or_and_right, or_left_comm, or_assoc]

/-- Taking a rule from several domains. -/
theorem dropRule_lists (h : t.Lists R) (id : RuleId) (ds : List String) :
    (dropRule t id ds).Lists fun n a => R n a ∧ ¬ (n ∈ ds.map Name.normalize ∧ a = id) := by
  induction ds generalizing t R with
  | nil => exact h.congr fun _ _ => by simp
  | cons d ds ih =>
    rw [dropRule_cons]
    refine (ih (h.removeValue d id)).congr fun name a => ?_
    rw [List.map_cons, List.mem_cons, or_and_right, not_or, and_assoc]

end Index

end ZoneRelay
