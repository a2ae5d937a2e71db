import ZoneRelay.Proofs.Trie.Edits

/-!
# The longest match

A search goes down a trie along the labels of a name and keeps the values that it met last. So what
it finds is kept under the most specific name that matches.

* `Forest.candidates`: the paths that a search looks at; `mem_candidates` says which these are, and
  `candidates_ordered` that a later one is more specific.
* `Forest.longest_eq`: a search keeps the values of the last candidate that has any.
* `Name.Matches`, `Name.Precedes`: which names match another, and which of two goes before;
  `Name.covers_star` says what a wildcard matches.
* `Trie.find_cases`: what is found is kept under the most specific name that matches.
* `Trie.Foremost`: the most specific name that matches, among those that a map has payloads under;
  `find_build`: after any edits a search finds its payload.
-/

namespace ZoneRelay

namespace Forest

variable {α : Type} {wildcard : Bool} {p q : List String}

/-- The paths that a search along `labels` looks at, in this order. -/
def candidates (wildcard : Bool) : List String → List (List String)
  | [] => []
  | label :: rest =>
    (if wildcard then [[wildcardLabel]] else []) ++
      [label] :: (candidates wildcard rest).map (label :: ·)

/-- Keeps the values at the last of these paths that has any, `best` if none has. -/
def lastOf (valuesAt : List String → List α) (best : List α) (paths : List (List String)) : List α :=
  paths.foldl (fun best p => orElse (valuesAt p) best) best

@[simp] theorem lastOf_nil (v : List String → List α) (best : List α) : lastOf v best [] = best :=
  rfl

@[simp] theorem lastOf_cons (v : List String → List α) (best : List α) (p : List String)
    (l : List (List String)) : lastOf v best (p :: l) = lastOf v (orElse (v p) best) l :=
  rfl

theorem lastOf_append (v : List String → List α) (best : List α) (l m : List (List String)) :
    lastOf v best (l ++ m) = lastOf v (lastOf v best l) m :=
  List.foldl_append

theorem lastOf_map (v : List String → List α) (best : List α) (label : String)
    (l : List (List String)) :
    lastOf v best (l.map (label :: ·)) = lastOf (fun p => v (label :: p)) best l :=
  List.foldl_map

theorem lastOf_congr {v w : List String → List α} {l : List (List String)}
    (h : ∀ p ∈ l, v p = w p) (best : List α) : lastOf v best l = lastOf w best l := by
  induction l generalizing best with
  | nil => rfl
  | cons p l ih =>
    rw [lastOf_cons, lastOf_cons, h p List.mem_cons_self,
      ih fun q hq => h q (List.mem_cons_of_mem _ hq)]

/-- **What is kept are the values at the last path that has any.** -/
theorem lastOf_cases (v : List String → List α) (best : List α) (l : List (List String)) :
    (lastOf v best l = best ∧ ∀ p ∈ l, v p = []) ∨
      ∃ before p after, l = before ++ p :: after ∧ v p ≠ [] ∧ lastOf v best l = v p ∧
        ∀ q ∈ after, v q = [] := by
  induction l generalizing best with
  | nil => exact Or.inl ⟨rfl, by simp⟩
  | cons p l ih =>
    rw [lastOf_cons]
    rcases ih (orElse (v p) best) with ⟨h1, h2⟩ | ⟨before, q, after, rfl, h2, h3, h4⟩
    · by_cases h3 : v p = []
      · have h4 : orElse (v p) best = best := by simp [orElse, h3]
        refine Or.inl ⟨h1.trans h4, fun q hq => ?_⟩
        rcases List.mem_cons.1 hq with rfl | hq
        · exact h3
        · exact h2 q hq
      · have h4 : orElse (v p) best = v p := by simp [orElse, h3]
        exact Or.inr ⟨[], p, l, rfl, h3, h1.trans h4, h2⟩
    · exact Or.inr ⟨p :: before, q, after, rfl, h2, h3, h4⟩

theorem ne_nil_of_mem_candidates (h : p ∈ candidates wildcard q) : p ≠ [] := by
  cases q with
  | nil => cases h
  | cons label rest =>
    rintro rfl
    rw [candidates, List.mem_append, List.mem_cons, List.mem_map] at h
    rcases h with h | h | ⟨r, -, h⟩
    · split at h <;> simp at h
    · cases h
    · cases h

/-- The values at a path that starts with a label are found below the root on that label. -/
theorem valuesAt_cons {label : String} {rest : List String} {f : Forest α} (h : rest ≠ []) :
    f.valuesAt (label :: rest) =
      match f.root? label with
      | none => []
      | some (_, below) => below.valuesAt rest := by
  rw [valuesAt]
  cases f.root? label with
  | none => rfl
  | some r => simp [h]

theorem valuesAt_singleton {label : String} {f : Forest α} :
    f.valuesAt [label] = match f.root? label with
      | none => []
      | some (vs, _) => vs := by
  rw [valuesAt]
  cases f.root? label <;> rfl

/-- **A search keeps the values at the last candidate that has any.** -/
theorem longest_eq (wildcard : Bool) (best : List α) (labels : List String) (f : Forest α) :
    f.longest wildcard best labels = lastOf (valuesAt · f) best (candidates wildcard labels) := by
  induction labels generalizing best f with
  | nil => rfl
  | cons label rest ih =>
    rw [longest, candidates, lastOf_append, lastOf_cons, lastOf_map]
    -- the step to the wildcard comes before the step to the label
    have hwild : (if wildcard then orElse (f.valuesAt [wildcardLabel]) best else best) =
        lastOf (valuesAt · f) best (if wildcard then [[wildcardLabel]] else []) := by
      cases wildcard <;> rfl
    simp only [hwild]
    generalize lastOf (valuesAt · f) best (if wildcard then [[wildcardLabel]] else []) = best
    cases hr : f.root? label with
    | none =>
      have h1 : f.valuesAt [label] = [] := by rw [valuesAt_singleton, hr]
      have h2 : ∀ p ∈ candidates wildcard rest, f.valuesAt (label :: p) = [] := fun p hp => by
        rw [valuesAt_cons (ne_nil_of_mem_candidates hp), hr]
      rcases lastOf_cases (fun p => f.valuesAt (label :: p)) (orElse [] best)
        (candidates wildcard rest) with ⟨h3, -⟩ | ⟨before, p, after, h3, h4, -⟩
      · rw [h1, h3]
        rfl
      · exact absurd (h2 p (by rw [h3]; simp)) h4
    | some r =>
      obtain ⟨vs, below⟩ := r
      have h1 : f.valuesAt [label] = vs := by rw [valuesAt_singleton, hr]
      have h2 : ∀ p ∈ candidates wildcard rest, f.valuesAt (label :: p) = below.valuesAt p :=
        fun p hp => by rw [valuesAt_cons (ne_nil_of_mem_candidates hp), hr]
      rw [h1, lastOf_congr h2]
      exact ih (orElse vs best) below

/-- **What a search looks at**: the starts of the path, and those that go on with the wildcard where
the path goes on. -/
theorem mem_candidates : p ∈ candidates wildcard q ↔
    (p ≠ [] ∧ p <+: q) ∨
      (wildcard = true ∧ ∃ r, p = r ++ [wildcardLabel] ∧ r <+: q ∧ r ≠ q) := by
  induction q generalizing p with
  | nil =>
    simp only [candidates, List.not_mem_nil, List.prefix_nil, false_iff, not_or, not_and]
    refine ⟨fun h h' => h h', ?_⟩
    rintro - ⟨r, -, h1, h2⟩
    exact h2 h1
  | cons label rest ih =>
    have hwild : p ∈ (if wildcard then [[wildcardLabel]] else []) ↔
        wildcard = true ∧ p = [wildcardLabel] := by
      cases wildcard <;> simp
    rw [candidates, List.mem_append, List.mem_cons, List.mem_map, hwild]
    constructor
    · rintro (⟨hw, rfl⟩ | rfl | ⟨r, hr, rfl⟩)
      · exact Or.inr ⟨hw, [], rfl, List.nil_prefix, by simp⟩
      · exact Or.inl ⟨by simp, List.cons_prefix_cons.2 ⟨rfl, List.nil_prefix⟩⟩
      · rcases ih.1 hr with ⟨-, h1⟩ | ⟨hw, s, rfl, h1, h2⟩
        · exact Or.inl ⟨by simp, List.cons_prefix_cons.2 ⟨rfl, h1⟩⟩
        · exact Or.inr ⟨hw, label :: s, rfl, List.cons_prefix_cons.2 ⟨rfl, h1⟩, by simpa using h2⟩
    · rintro (⟨hne, hp⟩ | ⟨hw, r, rfl, hr, hne⟩)
      · -- a start with one label, or a longer one
        cases p with
        | nil => exact absurd rfl hne
        | cons l s =>
          obtain ⟨rfl, hs⟩ := List.cons_prefix_cons.1 hp
          by_cases hs0 : s = []
          · rw [hs0]
            exact Or.inr (Or.inl rfl)
          · exact Or.inr (Or.inr ⟨s, ih.2 (Or.inl ⟨hs0, hs⟩), rfl⟩)
      · cases r with
        | nil => exact Or.inl ⟨hw, rfl⟩
        | cons l s =>
          obtain ⟨rfl, hs⟩ := List.cons_prefix_cons.1 hr
          have hs' : s ≠ rest := fun h => hne (by rw [h])
          exact Or.inr (Or.inr ⟨s ++ [wildcardLabel], ih.2 (Or.inr ⟨hw, s, rfl, hs, hs'⟩), rfl⟩)

/-- **Later candidates are more specific**: they are longer, or as long and a start of the path
itself. -/
theorem candidates_ordered (wildcard : Bool) (q : List String) :
    (candidates wildcard q).Pairwise fun a b =>
      a.length < b.length ∨ (a.length = b.length ∧ b <+: q) := by
  induction q with
  | nil => exact List.Pairwise.nil
  | cons label rest ih =>
    have hstart : [label] <+: label :: rest := List.cons_prefix_cons.2 ⟨rfl, List.nil_prefix⟩
    have hlong : ∀ b ∈ (candidates wildcard rest).map (label :: ·), 1 < b.length := by
      intro b hb
      obtain ⟨r, hr, rfl⟩ := List.mem_map.1 hb
      have h1 := List.length_pos_of_ne_nil (ne_nil_of_mem_candidates hr)
      rw [List.length_cons]
      omega
    have hrest : ((candidates wildcard rest).map (label :: ·)).Pairwise fun a b =>
        a.length < b.length ∨ (a.length = b.length ∧ b <+: label :: rest) := by
      rw [List.pairwise_map]
      refine ih.imp fun h => ?_
      rw [List.length_cons, List.length_cons, List.cons_prefix_cons]
      rcases h with h | ⟨h1, h2⟩
      · exact Or.inl (by omega)
      · exact Or.inr ⟨by omega, rfl, h2⟩
    have hown : ([label] :: (candidates wildcard rest).map (label :: ·)).Pairwise fun a b =>
        a.length < b.length ∨ (a.length = b.length ∧ b <+: label :: rest) :=
      List.pairwise_cons.2 ⟨fun b hb => Or.inl (hlong b hb), hrest⟩
    rw [candidates]
    cases wildcard with
    | false => exact hown
    | true =>
      refine List.pairwise_cons.2 ⟨fun b hb => ?_, hown⟩
      rcases List.mem_cons.1 hb with rfl | hb
      · exact Or.inr ⟨rfl, hstart⟩
      · exact Or.inl (hlong b hb)

end Forest

/-! ## Names that match -/

namespace Name

/-- Whether a name is a wildcard, `*` and then some labels, and another one lies strictly below
these labels. -/
def Covers (domain qname : String) : Prop :=
  ∃ p, path domain = p ++ [Forest.wildcardLabel] ∧ p <+: path qname ∧ p ≠ path qname

/-- Whether a name matches another: it is equal to it or encloses it, or, with `wildcard`, covers it
as a wildcard. -/
def Matches (wildcard : Bool) (domain qname : String) : Prop :=
  isWithin qname domain = true ∨ wildcard = true ∧ Covers domain qname

/-- Which of two names that match goes before: the one with more labels, and of two with as many the
one that matches without being a wildcard. -/
def Precedes (qname a b : String) : Prop :=
  (path b).length < (path a).length ∨
    (path b).length = (path a).length ∧ isWithin qname a = true ∧ isWithin qname b = false

variable {a b qname : String} {wildcard : Bool}

theorem matches_iff : Matches wildcard a qname ↔
    path a ∈ [] :: Forest.candidates wildcard (path qname) := by
  rw [List.mem_cons, Forest.mem_candidates]
  unfold Matches Covers
  rw [isWithin_iff]
  by_cases h : path a = []
  · rw [h]
    simp
  · simp [h]

/-- The labels of `*.` and a name: the wildcard lies below the labels of the name. -/
theorem path_star (a : String) :
    path ("*." ++ normalize a) = path a ++ [Forest.wildcardLabel] := by
  have hdot : ("*." ++ normalize a).toList = '*' :: '.' :: (stem a ++ ['.']) := by
    rw [String.toList_append, toList_normalize]
    rfl
  by_cases h : stem a = []
  · have h1 : "*." ++ normalize a = "*.." := by
      refine String.toList_inj.1 ?_
      rw [hdot, h]
      rfl
    have h2 : path a = [] := by
      unfold path labels
      rw [h]
      rfl
    rw [h1, h2]
    decide
  · have h1 : "*." ++ normalize a = ofStem ('*' :: '.' :: stem a) := by
      refine String.toList_inj.1 ?_
      rw [hdot, toList_ofStem (by simp)]
      rfl
    have h2 : stem ("*." ++ normalize a) = '*' :: '.' :: stem a := by
      rw [h1]
      refine stem_ofStem (fun c hc => ?_) (fun c hc => ?_) ?_
      · obtain rfl : '*' = c := by simpa using hc
        decide
      · refine stem_last (s := a) c ?_
        rwa [List.getLast?_cons_of_ne_nil (by simp), List.getLast?_cons_of_ne_nil h] at hc
      · rw [List.map_cons, List.map_cons, stem_lower]
        rfl
    have h3 : Text.splitOn '.' ('*' :: '.' :: stem a) = ['*'] :: Text.splitOn '.' (stem a) := by
      simp [Text.splitOn]
    unfold path labels
    rw [h2, h3, if_neg (by simp), if_neg (by simpa using h), List.reverse_cons, List.map_append]
    rfl

/-- What `*.` and a name covers: the names strictly below the name. -/
theorem covers_star : Covers ("*." ++ normalize a) qname ↔
    isWithin qname a = true ∧ normalize a ≠ normalize qname := by
  unfold Covers
  rw [path_star, isWithin_iff, ne_eq, ← path_eq_iff]
  constructor
  · rintro ⟨p, h1, h2, h3⟩
    obtain rfl := List.append_cancel_right h1
    exact ⟨h2, h3⟩
  · rintro ⟨h1, h2⟩
    exact ⟨path a, rfl, h1, h2⟩

@[simp] theorem matches_normalize : Matches wildcard (normalize a) qname ↔
    Matches wildcard a qname := by
  unfold Matches Covers isWithin
  rw [path_normalize]

@[simp] theorem precedes_normalize : Precedes qname (normalize a) b ↔ Precedes qname a b := by
  unfold Precedes isWithin
  rw [path_normalize]

/-- Of two names neither goes before the other if the other goes before it. -/
theorem Precedes.asymm (h : Precedes qname a b) : ¬ Precedes qname b a := by
  rcases h with h | ⟨h, h1, h2⟩
  · rintro (h3 | ⟨h3, -, -⟩) <;> omega
  · rintro (h3 | ⟨-, h3, -⟩)
    · omega
    · rw [h2] at h3
      cases h3

end Name

/-! ## What is found -/

namespace Trie

variable {α : Type} {t : Trie α}

theorem find_eq (t : Trie α) (qname : String) :
    t.find qname = Forest.lastOf (valuesAt · t) []
      ([] :: Forest.candidates t.policy.wildcard (Name.path qname)) := by
  have h1 : Forest.orElse (t.valuesAt []) [] = t.values := by
    unfold Forest.orElse valuesAt
    cases t.values <;> rfl
  have h2 : ∀ p ∈ Forest.candidates t.policy.wildcard (Name.path qname),
      t.below.valuesAt p = t.valuesAt p := by
    intro p hp
    have hne : p.isEmpty = false := by simpa using Forest.ne_nil_of_mem_candidates hp
    unfold valuesAt
    rw [hne]
    rfl
  unfold find
  rw [Forest.longest_eq, Forest.lastOf_cons, h1, Forest.lastOf_congr h2]

/-- **What is found is kept under the most specific name that matches.** If nothing is found, then
nothing is kept under any name that matches. -/
theorem find_cases (ht : t.Tidy) (qname : String) :
    (t.find qname = [] ∧ ∀ a, Name.Matches t.policy.wildcard a qname → t.get a = []) ∨
      ∃ a, Name.Matches t.policy.wildcard a qname ∧ t.get a ≠ [] ∧ t.find qname = t.get a ∧
        ∀ b, Name.Matches t.policy.wildcard b qname → t.get b ≠ [] →
          Name.normalize b = Name.normalize a ∨ Name.Precedes qname a b := by
  rw [find_eq]
  rcases Forest.lastOf_cases (valuesAt · t) [] ([] :: Forest.candidates t.policy.wildcard
    (Name.path qname)) with ⟨h1, h2⟩ | ⟨before, p, after, h1, h2, h3, h4⟩
  · exact Or.inl ⟨h1, fun a ha => h2 _ (Name.matches_iff.1 ha)⟩
  · obtain ⟨a, rfl⟩ := ht.named p h2
    refine Or.inr ⟨a, Name.matches_iff.2 (by rw [h1]; simp), h2, h3, fun b hb hne => ?_⟩
    have hord : ([] :: Forest.candidates t.policy.wildcard (Name.path qname)).Pairwise fun x y =>
        x.length < y.length ∨ (x.length = y.length ∧ y <+: Name.path qname) := by
      refine List.pairwise_cons.2 ⟨fun y hy => Or.inl ?_, Forest.candidates_ordered _ _⟩
      exact List.length_pos_of_ne_nil (Forest.ne_nil_of_mem_candidates hy)
    rw [h1] at hord
    have hb' := Name.matches_iff.1 hb
    rw [h1] at hb'
    rcases List.mem_append.1 hb' with h5 | h5
    · -- `b` was looked at before `a`
      rcases (List.pairwise_append.1 hord).2.2 _ h5 _ List.mem_cons_self with h6 | ⟨h6, h7⟩
      · exact Or.inr (Or.inl h6)
      · by_cases h8 : Name.isWithin qname b = true
        · -- two starts of one path of the same length are equal
          have h9 : Name.path b = Name.path a :=
            List.IsPrefix.eq_of_length (List.prefix_of_prefix_length_le
              (Name.isWithin_iff.1 h8) h7 h6.le) h6
          exact Or.inl (Name.path_inj h9)
        · exact Or.inr (Or.inr ⟨h6, Name.isWithin_iff.2 h7, by simpa using h8⟩)
    · rcases List.mem_cons.1 h5 with h5 | h5
      · exact Or.inl (Name.path_inj h5)
      · exact absurd (h4 _ h5) hne

/-! ## What is found after some edits -/

variable {wildcard : Bool} {m : Payloads α} {a b qname : String}

/-- A name with a payload matches, and goes before all others with payloads that match. -/
structure Foremost (wildcard : Bool) (m : Payloads α) (qname a : String) : Prop where
  stored : m (Name.normalize a) ≠ []
  fits : Name.Matches wildcard a qname
  first : ∀ b, m (Name.normalize b) ≠ [] → Name.Matches wildcard b qname →
    Name.normalize b = Name.normalize a ∨ Name.Precedes qname a b

/-- Only one name goes before all others. -/
theorem Foremost.unique (ha : Foremost wildcard m qname a) (hb : Foremost wildcard m qname b) :
    Name.normalize b = Name.normalize a := by
  rcases ha.first b hb.stored hb.fits with h1 | h1
  · exact h1
  · rcases hb.first a ha.stored ha.fits with h2 | h2
    · exact h2.symm
    · exact absurd h2 h1.asymm

/-- **A search finds the payload of the most specific name that matches**, after any edits of a new
trie: of a name that is the one searched for or encloses it, or of a wildcard that covers it, the
one with the most labels, and of two with as many the one that is no wildcard for it. It finds
nothing only if no name with a payload matches. -/
theorem find_build [DecidableEq α] (policy : Policy) (edits : List (Edit α)) (qname : String) :
    ((build policy edits).find qname = [] ∧ ∀ a, kept policy edits (Name.normalize a) ≠ [] →
        ¬ Name.Matches policy.wildcard a qname) ∨
      ∃ a, Foremost policy.wildcard (kept policy edits) qname a ∧
        (build policy edits).find qname = kept policy edits (Name.normalize a) ∧
        ∀ b, Foremost policy.wildcard (kept policy edits) qname b →
          Name.normalize b = Name.normalize a := by
  have hk := keeps_build policy edits
  have hfind := find_cases hk.tidy qname
  simp only [hk.get, hk.policy_eq] at hfind
  rcases hfind with ⟨h1, h2⟩ | ⟨a, h1, h2, h3, h4⟩
  · exact Or.inl ⟨h1, fun a hne ha => hne (h2 a ha)⟩
  · have ha : Foremost policy.wildcard (kept policy edits) qname a :=
      ⟨h2, h1, fun b hne hb => h4 b hb hne⟩
    exact Or.inr ⟨a, ha, h3, fun b hb => ha.unique hb⟩

/-- A deeper wildcard goes before a name that encloses its labels, and not before the labels
themselves. -/
example :
    let t := build ⟨true, true⟩ [.insert "example.com" 1, .insert "*.b.example.com." 2,
      .insert "a.b.example.com" 3, .insert "*.example.com" 4, .removeValue "*.Example.com" 4]
    t.find "x.b.example.com" = [2] ∧ t.find "b.example.com" = [1] ∧
      t.find "x.a.b.example.com" = [3] ∧ t.find "com" = [] := by
  decide +kernel

end Trie

end ZoneRelay
