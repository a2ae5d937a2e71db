import ZoneRelay.Proofs.Bus.Basic

/-!
# Routes that work

A message goes through if the bus is there, the queue that its route names is declared and nothing
is wrong with the route.

* `Bus.Reaches`: whether a message on a route goes through.
* `Bus.attempt_confirmed_iff`: publishing is confirmed if and only if it does.
* `Bus.attempt_outcomes`: publishing comes to all copies of the message or to nothing.
-/

namespace ZoneRelay

/-- How many copies of a message come out of a route. -/
def RouteModes.copies (m : RouteModes) (route : String) : ℕ :=
  if m.mode route = .twice then 2 else 1

theorem RouteModes.copies_pos (m : RouteModes) (route : String) : 0 < m.copies route := by
  unfold copies
  split_ifs <;> omega

namespace Bus

variable {b : Bus} {m : RouteModes} {name : String} {headers : Headers} {payload : Octets}

/-- Whether a message on a route goes through. -/
def Reaches (b : Bus) (m : RouteModes) (route : String) : Prop :=
  b.available = true ∧ (b.queue? route).isSome = true ∧
    (m.mode route = .normal ∨ m.mode route = .twice)

instance (b : Bus) (m : RouteModes) (route : String) : Decidable (b.Reaches m route) :=
  inferInstanceAs (Decidable (_ ∧ _ ∧ _))

variable (b name headers payload) in
theorem available_attemptPlain :
    (b.attemptPlain name headers payload).2.available = b.available := by
  unfold attemptPlain
  split
  · next b' hp =>
    obtain ⟨-, rfl⟩ := publish_ok hp
    rfl
  · rfl

variable (b name headers payload) in
theorem attemptPlain_confirmed_iff : (b.attemptPlain name headers payload).1 = .confirmed ↔
    b.available = true ∧ (b.queue? name).isSome = true := by
  unfold attemptPlain publish
  cases ha : b.available with
  | false => simp
  | true => cases hq : b.queue? name <;> simp

variable (b m name headers payload) in
/-- **Publishing is confirmed if and only if the route works.** -/
theorem attempt_confirmed_iff :
    (b.attempt m name headers payload).1 = .confirmed ↔ b.Reaches m name := by
  unfold attempt Reaches
  split
  · next hm => simp [hm, attemptPlain_confirmed_iff]
  · next hm => simp [hm]
  · next hm => simp [hm]
  · next hm => simp [hm]
  · next hm =>
    simp only [hm, or_true, and_true]
    have h1 := b.attemptPlain_confirmed_iff name headers payload
    have h2 := b.available_attemptPlain name headers payload
    have h3 : ((b.attemptPlain name headers payload).2.queue? name).isSome =
        (b.queue? name).isSome := isSome_attemptPlain
    split
    · next b' hp =>
      -- the second of the two finds the bus as the first did
      rw [hp] at h1 h2 h3
      rw [attemptPlain_confirmed_iff, h2, h3]
    · next a b' hne hp =>
      rw [hp] at h1
      exact h1

/-! ## How many copies -/

/-- A message that is put on a queue makes it longer. -/
theorem not_gains_self {x : Message} {n : ℕ} (hn : 0 < n) : ¬ b.Gains b name x n := by
  intro h
  have hlen := congrArg List.length (h.queue name)
  rw [if_pos rfl, List.length_append, List.length_replicate] at hlen
  omega

variable (b name headers payload) in
theorem attemptPlain_outcomes :
    (∃ b', b.attemptPlain name headers payload = (.confirmed, b') ∧
      b.Gains b' name ⟨headers, payload, false⟩ 1) ∨
    ∃ e, b.attemptPlain name headers payload = (.failed e, b) := by
  obtain ⟨n, hgains, hone⟩ := b.gains_attemptPlain name headers payload
  unfold attemptPlain at hgains hone ⊢
  cases hp : b.publish name headers payload with
  | ok b' =>
    rw [hp] at hgains hone
    cases hone rfl
    exact Or.inl ⟨b', rfl, hgains⟩
  | error e => exact Or.inr ⟨e, rfl⟩

variable (b m name headers payload) in
/-- **Publishing over a route** puts as many copies of the message on the queue as come out of the
route, or leaves the bus as it is. -/
theorem attempt_outcomes :
    ((b.attempt m name headers payload).1 = .confirmed ∧
      b.Gains (b.attempt m name headers payload).2.1 name ⟨headers, payload, false⟩
        (m.copies name)) ∨
    (b.attempt m name headers payload).1 ≠ .confirmed ∧
      (b.attempt m name headers payload).2.1 = b := by
  unfold attempt RouteModes.copies
  split
  · next hm =>
    rcases b.attemptPlain_outcomes name headers payload with ⟨b', h, hgains⟩ | ⟨e, h⟩
    · simp only [h, hm]
      exact Or.inl ⟨trivial, hgains⟩
    · simp [h]
  · simp
  · simp
  · simp
  · next hm =>
    rcases b.attemptPlain_outcomes name headers payload with ⟨b', h, hgains⟩ | ⟨e, h⟩
    · -- the second copy finds the bus as the first did
      have hthere : b'.available = true ∧ (b'.queue? name).isSome = true := by
        have h1 := (b.attemptPlain_confirmed_iff name headers payload).1 (by rw [h])
        have h2 := b.available_attemptPlain name headers payload
        have h3 : ((b.attemptPlain name headers payload).2.queue? name).isSome =
            (b.queue? name).isSome := isSome_attemptPlain
        rw [h] at h2 h3
        exact ⟨h2.trans h1.1, h3.trans h1.2⟩
      have hsecond := (b'.attemptPlain_confirmed_iff name headers payload).2 hthere
      rcases b'.attemptPlain_outcomes name headers payload with ⟨b'', h', hgains'⟩ | ⟨e, h'⟩
      · simp only [h, h', hm]
        exact Or.inl ⟨trivial, hgains.trans hgains'⟩
      · rw [h'] at hsecond
        cases hsecond
    · simp [h]

end Bus

end ZoneRelay
