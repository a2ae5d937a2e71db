import Mathlib.Data.List.InsertIdx
import ZoneRelay.Bus.Fault

/-!
# What a bus carries

A message is carried to a queue while it waits there or is held for it.

* `Bus.Carries`: whether a message is carried to a queue.
* `Bus.Steady`: held messages have a queue to come back to.
* `carries_take`, `carries_hold`, `carries_release`: no message is lost on its way in or out.
* `carries_attempt`: nor by publishing, which adds at most the one message.
* `gains_attempt`, `queue_take`: messages are put at the end of a queue and taken from its front.
-/

namespace ZoneRelay.Bus

variable {b b' : Bus} {q name : String} {h headers : Headers} {p payload : Octets} {m : Message}

/-- Whether a message waits on a queue or is held for it. -/
def Carries (b : Bus) (q : String) (h : Headers) (p : Octets) : Prop :=
  (∃ m ∈ (b.queue? q).getD [], m.headers = h ∧ m.payload = p) ∨
    ∃ x ∈ b.held, x.queue = q ∧ x.message.headers = h ∧ x.message.payload = p

/-- Whether every held message has a queue to come back to. -/
def Steady (b : Bus) : Prop :=
  ∀ x ∈ b.held, (b.queue? x.queue).isSome

/-- A message on a queue is delivered once more, at another place in the queue. -/
def duplicate (b : Bus) (name : String) (i j : ℕ) : Bus :=
  match ((b.queue? name).getD [])[i]? with
  | some m => b.mapQueue name (·.insertIdx j m)
  | none => b

/-! ## Queues -/

theorem lookup_map_if (f : List Message → List Message) (l : List (String × List Message)) :
    (l.map fun x => if x.1 = name then (x.1, f x.2) else x).lookup q =
      if q = name then (l.lookup q).map f else l.lookup q := by
  induction l with
  | nil => simp
  | cons x r ih =>
    obtain ⟨n, ms⟩ := x
    rw [List.map_cons]
    by_cases hn : n = name <;> by_cases hq : q = n
    · simp [hn, hq]
    · have h1 : (q == n) = false := by simpa using hq
      simp only [hn, if_true, List.lookup_cons, ih]
      rw [← hn, h1]
    · have h1 : ¬ q = name := hq ▸ hn
      simp [hn, hq]
    · have h1 : (q == n) = false := by simpa using hq
      simp only [hn, if_false, List.lookup_cons, ih, h1]

theorem queue?_mapQueue (f : List Message → List Message) :
    (b.mapQueue name f).queue? q = if q = name then (b.queue? q).map f else b.queue? q :=
  lookup_map_if f b.queues

theorem isSome_mapQueue (f : List Message → List Message) :
    ((b.mapQueue name f).queue? q).isSome = (b.queue? q).isSome := by
  rw [queue?_mapQueue]
  split_ifs <;> simp

theorem steady_mapQueue (hb : b.Steady) (f : List Message → List Message) :
    (b.mapQueue name f).Steady := by
  intro x hx
  rw [isSome_mapQueue]
  exact hb x hx

/-- A message put on a queue, wherever it is put, is carried there beside the others. -/
theorem carries_mapQueue {f : List Message → List Message} (hq : (b.queue? name).isSome)
    (hf : ∀ l x, x ∈ f l ↔ x ∈ l ∨ x = m) :
    (b.mapQueue name f).Carries q h p ↔
      b.Carries q h p ∨ q = name ∧ m.headers = h ∧ m.payload = p := by
  obtain ⟨ms, hms⟩ := Option.isSome_iff_exists.1 hq
  unfold Carries
  rw [queue?_mapQueue]
  show _ ∨ (∃ x ∈ b.held, _) ↔ _
  by_cases hn : q = name
  · subst hn
    simp only [if_true, hms, Option.map_some, Option.getD_some, hf, true_and]
    constructor
    · rintro (⟨x, hx | rfl, h1⟩ | h1)
      · exact Or.inl (Or.inl ⟨x, hx, h1⟩)
      · exact Or.inr h1
      · exact Or.inl (Or.inr h1)
    · rintro ((⟨x, hx, h1⟩ | h1) | h1)
      · exact Or.inl ⟨x, Or.inl hx, h1⟩
      · exact Or.inr h1
      · exact Or.inl ⟨m, Or.inr rfl, h1⟩
  · simp [hn]

theorem queue?_declare : (b.declare name).queue? q =
    if (b.queue? q).isSome then b.queue? q else if q = name then some [] else none := by
  unfold declare
  by_cases hn : (b.queue? name).isSome
  · rw [if_pos hn]
    by_cases hq : (b.queue? q).isSome
    · rw [if_pos hq]
    · rw [if_neg hq, if_neg (by rintro rfl; exact hq hn)]
      simpa using hq
  · rw [if_neg hn]
    unfold queue? at hn ⊢
    rw [List.lookup_append]
    cases hq : b.queues.lookup q with
    | some ms => simp
    | none =>
      by_cases h1 : q = name
      · simp [h1]
      · have h2 : (q == name) = false := by simpa using h1
        simp [h1, List.lookup_cons, h2]

theorem held_declare : (b.declare name).held = b.held := by
  unfold declare
  split <;> rfl

/-- A queue that is declared has no messages yet. -/
theorem queue_declare : ((b.declare name).queue? q).getD [] = (b.queue? q).getD [] := by
  rw [queue?_declare]
  cases hq : b.queue? q with
  | some ms => simp
  | none => by_cases hn : q = name <;> simp [hn]

theorem carries_declare : (b.declare name).Carries q h p ↔ b.Carries q h p := by
  unfold Carries
  rw [held_declare, queue_declare]

theorem steady_declare (hb : b.Steady) : (b.declare name).Steady := by
  intro x hx
  rw [held_declare] at hx
  rw [queue?_declare, if_pos (hb x hx)]
  exact hb x hx

/-! ## In and out -/

theorem publish_ok (hp : b.publish name headers payload = .ok b') :
    (b.queue? name).isSome ∧ b' = b.mapQueue name (· ++ [⟨headers, payload, false⟩]) := by
  unfold publish at hp
  split at hp
  · cases hp
  · split at hp
    · cases hp
    · next ms hms => exact ⟨by rw [hms]; rfl, (Except.ok.inj hp).symm⟩

theorem carries_publish (hp : b.publish name headers payload = .ok b') :
    b'.Carries q h p ↔ b.Carries q h p ∨ q = name ∧ headers = h ∧ payload = p := by
  obtain ⟨hq, rfl⟩ := publish_ok hp
  exact carries_mapQueue (m := ⟨headers, payload, false⟩) hq
    fun l x => by rw [List.mem_append, List.mem_singleton]

theorem steady_publish (hb : b.Steady) (hp : b.publish name headers payload = .ok b') :
    b'.Steady := by
  obtain ⟨-, rfl⟩ := publish_ok hp
  exact steady_mapQueue hb _

/-- The message taken was carried, and the others still are. -/
theorem carries_take (ht : b.take name = some (m, b')) :
    b.Carries q h p ↔ b'.Carries q h p ∨ q = name ∧ m.headers = h ∧ m.payload = p := by
  unfold take at ht
  split at ht
  · next x r hq =>
    obtain ⟨rfl, rfl⟩ := Prod.mk.inj (Option.some.inj ht)
    unfold Carries
    rw [queue?_mapQueue]
    show _ ↔ (_ ∨ (∃ x ∈ b.held, _)) ∨ _
    by_cases hn : q = name
    · subst hn
      simp only [hq, if_true, Option.map_some, Option.getD_some, List.drop_succ_cons,
        List.drop_zero, List.mem_cons, true_and]
      constructor
      · rintro (⟨y, rfl | hy, h1⟩ | h1)
        · exact Or.inr h1
        · exact Or.inl (Or.inl ⟨y, hy, h1⟩)
        · exact Or.inl (Or.inr h1)
      · rintro ((⟨y, hy, h1⟩ | h1) | h1)
        · exact Or.inl ⟨y, Or.inr hy, h1⟩
        · exact Or.inr h1
        · exact Or.inl ⟨x, Or.inl rfl, h1⟩
    · simp [hn]
  · cases ht

theorem steady_take (hb : b.Steady) (ht : b.take name = some (m, b')) :
    b'.Steady ∧ (b'.queue? name).isSome := by
  unfold take at ht
  split at ht
  · next x r hq =>
    obtain ⟨rfl, rfl⟩ := Prod.mk.inj (Option.some.inj ht)
    exact ⟨steady_mapQueue hb _, by rw [isSome_mapQueue, hq]; rfl⟩
  · cases ht

theorem mem_insertHeld {x y : Held} {l : List Held} :
    y ∈ insertHeld x l ↔ y = x ∨ y ∈ l := by
  induction l with
  | nil => simp [insertHeld]
  | cons z r ih =>
    unfold insertHeld
    split
    · simp
    · rw [List.mem_cons, ih, List.mem_cons, or_left_comm]

theorem carries_hold (due : ℕ) : (b.hold due name m).Carries q h p ↔
    b.Carries q h p ∨ q = name ∧ m.headers = h ∧ m.payload = p := by
  unfold Carries
  show (_ ∨ ∃ x ∈ insertHeld _ b.held, _) ↔ _
  simp only [mem_insertHeld]
  constructor
  · rintro (h1 | ⟨x, rfl | hx, h1⟩)
    · exact Or.inl (Or.inl h1)
    · exact Or.inr ⟨h1.1.symm, h1.2⟩
    · exact Or.inl (Or.inr ⟨x, hx, h1⟩)
  · rintro ((h1 | ⟨x, hx, h1⟩) | h1)
    · exact Or.inl h1
    · exact Or.inr ⟨x, Or.inr hx, h1⟩
    · exact Or.inr ⟨_, Or.inl rfl, h1.1.symm, h1.2⟩

theorem steady_hold (hb : b.Steady) (hq : (b.queue? name).isSome) (due : ℕ) :
    (b.hold due name m).Steady := by
  intro x hx
  rcases mem_insertHeld.1 hx with rfl | hx
  · exact hq
  · exact hb x hx

/-- Messages that come back one after the other are carried to their queues. -/
theorem carries_foldl_restore {l : List Held} (hl : ∀ x ∈ l, (b.queue? x.queue).isSome) :
    (l.foldl restore b).Carries q h p ↔ b.Carries q h p ∨
      ∃ x ∈ l, x.queue = q ∧ x.message.headers = h ∧ x.message.payload = p := by
  induction l generalizing b with
  | nil => simp
  | cons x r ih =>
    rw [List.foldl_cons, ih]
    · unfold restore
      rw [carries_mapQueue (m := x.message) (hl x List.mem_cons_self)
        fun l y => by rw [List.mem_append, List.mem_singleton]]
      simp only [List.mem_cons, exists_eq_or_imp, or_assoc, eq_comm (a := q)]
    · intro y hy
      unfold restore
      rw [isSome_mapQueue]
      exact hl y (List.mem_cons_of_mem _ hy)

theorem steady_foldl_restore {l : List Held} (hb : b.Steady) : (l.foldl restore b).Steady := by
  induction l generalizing b with
  | nil => exact hb
  | cons x r ih => exact ih (steady_mapQueue hb _)

/-- A message that comes back is carried as before. -/
theorem carries_release (hb : b.Steady) (now : ℕ) :
    (b.release now).Carries q h p ↔ b.Carries q h p := by
  unfold release
  rw [carries_foldl_restore (b := { b with held := b.held.dropWhile (·.due ≤ now) })
    fun x hx => hb x ((List.takeWhile_sublist _).mem hx)]
  unfold Carries
  rw [or_assoc]
  refine or_congr_right ?_
  -- the messages held are those that come back now and those that stay
  conv_rhs => rw [← List.takeWhile_append_dropWhile (p := fun x : Held => decide (x.due ≤ now))
    (l := b.held)]
  simp only [List.mem_append, or_and_right, exists_or]
  rw [or_comm]

theorem steady_release (hb : b.Steady) (now : ℕ) : (b.release now).Steady := by
  unfold release
  exact steady_foldl_restore fun x hx => hb x ((List.dropWhile_sublist _).mem hx)

/-- Delivering a message once more changes nothing about which are carried. -/
theorem carries_duplicate (i j : ℕ) :
    (b.duplicate name i j).Carries q h p ↔ b.Carries q h p := by
  unfold duplicate
  cases hq : b.queue? name with
  | none => simp
  | some ms =>
    rw [Option.getD_some]
    cases hi : ms[i]? with
    | none => rfl
    | some m =>
      have hm : m ∈ ms := List.mem_of_getElem? hi
      have key : ∀ x, x ∈ ms.insertIdx j m ↔ x ∈ ms := by
        intro x
        by_cases hj : j ≤ ms.length
        · rw [List.mem_insertIdx hj]
          exact ⟨fun hx => hx.elim (fun h1 => h1 ▸ hm) id, Or.inr⟩
        · rw [List.insertIdx_of_length_lt (by omega)]
      unfold Carries
      simp only
      rw [queue?_mapQueue]
      show _ ∨ (∃ x ∈ b.held, _) ↔ _
      by_cases hn : q = name
      · subst hn
        simp only [if_true, hq, Option.map_some, Option.getD_some, key]
      · simp [hn]

theorem steady_duplicate (hb : b.Steady) (i j : ℕ) : (b.duplicate name i j).Steady := by
  unfold duplicate
  split
  · exact steady_mapQueue hb _
  · exact hb

/-! ## Faulty routes -/

variable (b name headers payload) in
theorem carries_attemptPlain :
    (∀ {q h p}, b.Carries q h p → (b.attemptPlain name headers payload).2.Carries q h p) ∧
    (∀ {q h p}, (b.attemptPlain name headers payload).2.Carries q h p →
      b.Carries q h p ∨ q = name ∧ headers = h ∧ payload = p) ∧
    ((b.attemptPlain name headers payload).1 = .confirmed →
      (b.attemptPlain name headers payload).2.Carries name headers payload) := by
  unfold attemptPlain
  split
  · next b' hb =>
    refine ⟨fun hc => (carries_publish hb).2 (Or.inl hc), (carries_publish hb).1, fun _ => ?_⟩
    exact (carries_publish hb).2 (Or.inr ⟨rfl, rfl, rfl⟩)
  · exact ⟨id, Or.inl, fun h => by cases h⟩

variable (name headers payload) in
theorem steady_attemptPlain (hb : b.Steady) : (b.attemptPlain name headers payload).2.Steady := by
  unfold attemptPlain
  split
  · next b' hp => exact steady_publish hb hp
  · exact hb

/-- Publishing over a route with its mode adds at most the one message, and does so if it is
confirmed. -/
theorem carries_attempt (modes : RouteModes) :
    (∀ {q h p}, b.Carries q h p → (b.attempt modes name headers payload).2.1.Carries q h p) ∧
    (∀ {q h p}, (b.attempt modes name headers payload).2.1.Carries q h p →
      b.Carries q h p ∨ q = name ∧ headers = h ∧ payload = p) ∧
    ((b.attempt modes name headers payload).1 = .confirmed →
      (b.attempt modes name headers payload).2.1.Carries name headers payload) := by
  have h1 := carries_attemptPlain b name headers payload
  unfold attempt
  split
  · exact h1
  · exact ⟨id, Or.inl, fun h => by cases h⟩
  · exact ⟨id, Or.inl, fun h => by cases h⟩
  · exact ⟨id, Or.inl, fun h => by cases h⟩
  · -- the message is published twice
    split
    · next b' hb =>
      rw [hb] at h1
      obtain ⟨h2, h3, -⟩ := h1
      obtain ⟨h4, h5, h6⟩ :=
        carries_attemptPlain b' name headers payload
      exact ⟨fun hc => h4 (h2 hc), fun hc => (h5 hc).elim h3 Or.inr, h6⟩
    · next a b' _ hb =>
      rw [hb] at h1
      exact h1

theorem steady_attempt (hb : b.Steady) (modes : RouteModes) :
    (b.attempt modes name headers payload).2.1.Steady := by
  have h1 := steady_attemptPlain name headers payload hb
  unfold attempt
  split
  · exact h1
  · exact hb
  · exact hb
  · exact hb
  · split
    · next b' hp =>
      rw [hp] at h1
      exact steady_attemptPlain name headers payload h1
    · next a b' _ hp =>
      rw [hp] at h1
      exact h1

theorem isSome_attemptPlain :
    ((b.attemptPlain name headers payload).2.queue? q).isSome = (b.queue? q).isSome := by
  unfold attemptPlain
  split
  · next b' hp =>
    obtain ⟨-, rfl⟩ := publish_ok hp
    exact isSome_mapQueue _
  · rfl

/-- Publishing declares no queue and removes none. -/
theorem isSome_attempt (modes : RouteModes) :
    ((b.attempt modes name headers payload).2.1.queue? q).isSome = (b.queue? q).isSome := by
  have h1 : ∀ b : Bus, ((b.attemptPlain name headers payload).2.queue? q).isSome =
      (b.queue? q).isSome := fun b => isSome_attemptPlain
  unfold attempt
  split
  · exact h1 b
  · rfl
  · rfl
  · rfl
  · have h2 := h1 b
    split
    · next b' hp =>
      rw [hp] at h2
      exact (h1 b').trans h2
    · next a b' _ hp =>
      rw [hp] at h2
      exact h2

/-! ## Queues in order -/

/-- `b'` is `b` with a message put `n` times at the end of a queue. -/
structure Gains (b b' : Bus) (name : String) (m : Message) (n : ℕ) : Prop where
  held : b'.held = b.held
  queue : ∀ q, (b'.queue? q).getD [] =
    (b.queue? q).getD [] ++ if q = name then List.replicate n m else []

theorem gains_zero (b : Bus) (name : String) (m : Message) : b.Gains b name m 0 :=
  ⟨rfl, fun q => by simp⟩

theorem Gains.trans {b₁ b₂ b₃ : Bus} {i j : ℕ} (h1 : b₁.Gains b₂ name m i)
    (h2 : b₂.Gains b₃ name m j) : b₁.Gains b₃ name m (i + j) := by
  refine ⟨h2.held.trans h1.held, fun q => ?_⟩
  rw [h2.queue, h1.queue]
  split_ifs
  · rw [List.append_assoc, List.replicate_append_replicate]
  · rw [List.append_nil, List.append_nil]

variable (b name headers payload) in
theorem gains_attemptPlain : ∃ n,
    b.Gains (b.attemptPlain name headers payload).2 name ⟨headers, payload, false⟩ n ∧
      ((b.attemptPlain name headers payload).1 = .confirmed → n = 1) := by
  unfold attemptPlain
  split
  · next b' hp =>
    obtain ⟨hq, rfl⟩ := publish_ok hp
    obtain ⟨ms, hms⟩ := Option.isSome_iff_exists.1 hq
    refine ⟨1, ⟨rfl, fun q => ?_⟩, fun _ => rfl⟩
    rw [queue?_mapQueue]
    split_ifs with h
    · rw [h, hms]
      rfl
    · rw [List.append_nil]
  · exact ⟨0, gains_zero b name _, fun h => by cases h⟩

variable (b name headers payload) in
/-- Publishing puts a message at the end of a queue, once unless its route doubles it. -/
theorem gains_attempt (modes : RouteModes) : ∃ n,
    b.Gains (b.attempt modes name headers payload).2.1 name ⟨headers, payload, false⟩ n ∧
      ((b.attempt modes name headers payload).1 = .confirmed → modes.mode name ≠ .twice →
        n = 1) := by
  obtain ⟨n, h1, h2⟩ := gains_attemptPlain b name headers payload
  unfold attempt
  split
  · exact ⟨n, h1, fun h _ => h2 h⟩
  · exact ⟨0, gains_zero b name _, fun h => by cases h⟩
  · exact ⟨0, gains_zero b name _, fun h => by cases h⟩
  · exact ⟨0, gains_zero b name _, fun h => by cases h⟩
  · next hm =>
    split
    · next b' hb =>
      rw [hb] at h1
      obtain ⟨k, h3, -⟩ := gains_attemptPlain b' name headers payload
      exact ⟨n + k, h1.trans h3, fun _ h => absurd hm h⟩
    · next a b' hne hb =>
      rw [hb] at h1
      exact ⟨n, h1, fun _ h => absurd hm h⟩

/-- The message taken was the first on its queue. -/
theorem queue_take (ht : b.take name = some (m, b')) : b'.held = b.held ∧
    ∀ q, (b.queue? q).getD [] = (if q = name then [m] else []) ++ (b'.queue? q).getD [] := by
  unfold take at ht
  split at ht
  · next x r hq =>
    obtain ⟨rfl, rfl⟩ := Prod.mk.inj (Option.some.inj ht)
    refine ⟨rfl, fun q => ?_⟩
    rw [queue?_mapQueue]
    split_ifs with h
    · rw [h, hq]
      rfl
    · rfl
  · cases ht

theorem hold_ne_nil (due : ℕ) : (b.hold due name m).held ≠ [] := by
  intro h
  have h1 : (⟨due, name, { m with redelivered := true }⟩ : Held) ∈ (b.hold due name m).held :=
    mem_insertHeld.2 (Or.inl rfl)
  rw [h] at h1
  cases h1

theorem release_of_held (h : b.held = []) (now : ℕ) : b.release now = b := by
  unfold release
  rw [h]
  show { b with held := [] } = b
  rw [← h]

end ZoneRelay.Bus
