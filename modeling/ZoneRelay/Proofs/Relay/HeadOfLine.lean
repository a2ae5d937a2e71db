import ZoneRelay.Proofs.Relay.OnePass

/-!
# Routes behind other routes

Once a message has failed, the later ones on its route wait for the next pass, and those on other
routes do not. But the limit of a pass counts the messages that fail as well. So if as many messages
for routes that fail go before a message as a pass takes, then it has no turn until one of them has
gone through, and that may be never.

* `Cluster.courses`, `Cluster.polls`: passes one after the other, each amid surroundings of its own.
* `Cluster.Clears`: nothing waits for a route that works after as many passes as there were
  messages, however the other routes fare.
* `Cluster.confirmed_of_turn`: on a route that works, every message that has its turn leaves.
* `Cluster.uncrowded_polls`: with each pass, one of its messages that were not crowded leaves.
* `Cluster.stays_crowded`: one that is crowded stays for as long as those that crowd it fail.
* `Cluster.clears_iff`: so a route is cleared if and only if none of its messages is crowded.
-/

namespace ZoneRelay

/-- The messages that wait for a route in `l` and were not crowded in `l₀`. -/
def Ledger.uncrowded (l₀ l : Ledger) (limit : ℕ) (route : String) : List OutboxRow :=
  l.outbox.filter fun row => decide (row.routeKey = route ∧ ¬ l₀.Crowded limit row)

/-- **Of the messages for a route that were not crowded, the first has its turn.** -/
theorem Ledger.Sends.has_turn {l₀ l : Ledger} {gone : OutboxRow → Bool} (h : l₀.Sends l gone)
    {limit : ℕ} {route : String} (hne : l₀.uncrowded l limit route ≠ []) :
    ∃ row ∈ l₀.uncrowded l limit route, (l.ahead row).length < limit := by
  obtain ⟨row, hrow, hfirst⟩ := l.exists_first hne
  refine ⟨row, hrow, ?_⟩
  obtain ⟨-, hrow⟩ := List.mem_filter.1 hrow
  obtain ⟨hroute, hfree⟩ := of_decide_eq_true hrow
  -- all that goes before it is for other routes
  have helse : l.aheadElsewhere row = l.ahead row := by
    refine List.filter_eq_self.2 fun other hother => ?_
    obtain ⟨hmem, hbefore⟩ := mem_ahead.1 hother
    rw [bne_iff_ne]
    intro hsame
    by_cases hcrowded : l₀.Crowded limit other
    · rw [h.rowLe] at hbefore
      exact hfree (hcrowded.after hbefore hsame)
    · have hother : other ∈ l₀.uncrowded l limit route :=
        List.mem_filter.2 ⟨hmem, decide_eq_true ⟨hsame.trans hroute, hcrowded⟩⟩
      rw [hfirst other hother] at hbefore
      cases hbefore
  have hfew : (l₀.aheadElsewhere row).length < limit := Nat.lt_of_not_le hfree
  rw [← helse, h.aheadElsewhere]
  exact Nat.lt_of_le_of_lt (List.length_filter_le _ _) hfew

/-- One route works, and no other. -/
def Surroundings.only (route : String) : Surroundings :=
  .staged fun _ row => if row.routeKey = route then .normal else .fail

theorem Surroundings.outcome_only (r : Relay) (route : String) (n : ℕ) (row : OutboxRow) :
    (r.amid (.only route) n row).outcome row = .confirmed ↔ row.routeKey = route := by
  unfold only
  rw [Relay.outcome_staged]
  by_cases h : row.routeKey = route <;> simp [h]

/-- Whether a route has worked in a pass: every message for it that had its turn went through. -/
def PassCourse.Delivers (o : PassCourse) (route : String) : Prop :=
  ∀ t ∈ o.turns, t.row.routeKey = route → t.outcome = .confirmed

namespace Cluster

/-- Passes one after the other, each amid surroundings of its own. -/
def courses (c : Cluster) : List Surroundings → List PassCourse
  | [] => []
  | w :: l => c.course w :: (c.course w).cluster.courses l

/-- The cluster after these passes. -/
def polls (c : Cluster) : List Surroundings → Cluster
  | [] => c
  | w :: l => (c.course w).cluster.polls l

/-- Amid nothing these are passes of the poller. -/
theorem polls_calm (n : ℕ) (c : Cluster) :
    c.polls (List.replicate n .calm) = (fun c => c.pollOnce.2)^[n] c := by
  induction n generalizing c with
  | zero => rfl
  | succ n ih =>
    have hfirst : (c.course .calm).cluster = c.pollOnce.2 := congrArg Prod.snd c.course_calm
    rw [List.replicate_succ, polls, ih, hfirst]
    rfl

/-- Whether a route that works is cleared: after as many passes as there are messages, with the
ledger in reach, none waits for it, however the other routes fare, in a pass and from one to the
next. -/
def Clears (c : Cluster) (route : String) : Prop :=
  ∀ l : List Surroundings, l.length = c.relay.ledger.outbox.length → (∀ w ∈ l, w.KeepsLedger) →
    (∀ o ∈ c.courses l, o.Delivers route) →
      ∀ row ∈ (c.polls l).relay.ledger.outbox, row.routeKey ≠ route

variable {c : Cluster} {l₀ : Ledger} {gone : OutboxRow → Bool} {route : String}
  {w : Surroundings} {l : List Surroundings} {row : OutboxRow}

/-! ## One pass -/

/-- A pass has its limit afterwards, and the messages that went through have left. -/
theorem sends_course (hid : (c.relay.ledger.outbox.map (·.id)).Nodup) (w : Surroundings) :
    (c.course w).cluster.batchSize = c.batchSize ∧
      c.relay.ledger.Sends (c.course w).cluster.relay.ledger
        (· ∈ PassTurn.confirmed (c.course w).turns) := by
  cases hrows : c.relay.ledger.pendingRows c.batchSize with
  | error e =>
    -- a pass that cannot begin leaves the cluster as it is
    rw [course_of_error hrows]
    exact ⟨rfl, .refl _⟩
  | ok rows =>
    obtain ⟨available, hledger⟩ := (runs_course hid hrows w).ledger
    rw [hledger]
    refine ⟨?_, Ledger.sends_dispatch ..⟩
    unfold course
    split
    · rfl
    · exact batchSize_courseFrom ..

/-- A message that goes through has had its turn. -/
theorem turn_of_confirmed (hid : (c.relay.ledger.outbox.map (·.id)).Nodup)
    (h : row ∈ PassTurn.confirmed (c.course w).turns) :
    (c.relay.ledger.ahead row).length < c.batchSize := by
  cases hrows : c.relay.ledger.pendingRows c.batchSize with
  | error e =>
    rw [course_of_error hrows] at h
    cases h
  | ok rows =>
    have hworks : WorksThrough [] rows _ _ := (runs_course hid hrows w).rows
    have hmem : row ∈ rows :=
      hworks.sublist.subset (List.mem_append_left _ (PassTurn.mem_confirmed h))
    exact ((Ledger.mem_pendingRows row hid hrows).1 hmem).2

/-- As long as the ledger stays within reach, a pass has messages to take and does not break off. -/
theorem reached_course (ha : c.relay.ledger.available = true)
    (hid : (c.relay.ledger.outbox.map (·.id)).Nodup) (hw : w.KeepsLedger) :
    ∃ rows, c.relay.ledger.pendingRows c.batchSize = .ok rows ∧ (c.course w).lost = none ∧
      (c.course w).cluster.relay.ledger.available = true := by
  obtain ⟨rows, hrows⟩ : ∃ rows, c.relay.ledger.pendingRows c.batchSize = .ok rows := by
    unfold Ledger.pendingRows Ledger.ifAvailable
    rw [if_pos ha]
    exact ⟨_, rfl⟩
  exact ⟨rows, hrows, (runs_course hid hrows w).reached hw ha⟩

/-- **On a route that works every message that has its turn goes through.** -/
theorem confirmed_of_turn (ha : c.relay.ledger.available = true)
    (hid : (c.relay.ledger.outbox.map (·.id)).Nodup) (hw : w.KeepsLedger)
    (hd : (c.course w).Delivers route) (hrow : row ∈ c.relay.ledger.outbox)
    (hroute : row.routeKey = route) (hfew : (c.relay.ledger.ahead row).length < c.batchSize) :
    row ∈ PassTurn.confirmed (c.course w).turns := by
  obtain ⟨rows, hrows, hlost, -⟩ := reached_course ha hid hw
  have hworks : WorksThrough [] rows _ _ := (runs_course hid hrows w).rows
  have hmem : row ∈ OutboxRow.onRoute route rows :=
    List.mem_filter.2 ⟨(Ledger.mem_pendingRows row hid hrows).2 ⟨hrow, hfew⟩, by simpa using hroute⟩
  have hgood : ∀ t ∈ PassTurn.onRoute route (c.course w).turns, t.outcome = .confirmed :=
    fun t ht => hd t (List.mem_of_mem_filter ht) (by simpa using (List.mem_filter.1 ht).2)
  -- none of the turns on the route failed, so all its messages have had one
  rcases (hworks.inOrder route).stops hlost with hall | ⟨t, ht, hfailed⟩
  · rw [← hall] at hmem
    obtain ⟨t, ht, rfl⟩ := List.mem_map.1 hmem
    exact PassTurn.mem_confirmed_iff.2 ⟨t, List.mem_of_mem_filter ht, hgood t ht, rfl⟩
  · exact absurd (hgood t (List.mem_of_getLast? ht)) hfailed

/-! ## Several passes -/

/-- Messages leave in passes and none is added. -/
theorem sends_polls (hid : (c.relay.ledger.outbox.map (·.id)).Nodup) (l : List Surroundings) :
    ∃ gone, c.relay.ledger.Sends (c.polls l).relay.ledger gone := by
  induction l generalizing c with
  | nil => exact ⟨_, .refl _⟩
  | cons w l ih =>
    obtain ⟨-, hsends⟩ := sends_course hid w
    obtain ⟨gone, hrest⟩ := ih (hsends.ids hid)
    exact ⟨_, hsends.trans hrest⟩

/-- **With each pass in which the route works, one of its messages leaves** of those that were not
crowded, if there are any. -/
theorem uncrowded_polls (h₀ : l₀.Sends c.relay.ledger gone) (ha : c.relay.ledger.available = true)
    (hid : (c.relay.ledger.outbox.map (·.id)).Nodup) (hk : ∀ w ∈ l, w.KeepsLedger)
    (hl : ∀ o ∈ c.courses l, o.Delivers route) :
    (l₀.uncrowded (c.polls l).relay.ledger c.batchSize route).length ≤
      (l₀.uncrowded c.relay.ledger c.batchSize route).length - l.length := by
  induction l generalizing c gone with
  | nil => exact Nat.le_refl _
  | cons w l ih =>
    obtain ⟨hbatch, hsends⟩ := sends_course hid w
    have hw := hk w List.mem_cons_self
    obtain ⟨-, -, -, ha'⟩ := reached_course ha hid hw
    have hrest := ih (h₀.trans hsends) ha' (hsends.ids hid)
      (fun v hv => hk v (List.mem_cons_of_mem _ hv)) fun o ho => hl o (List.mem_cons_of_mem _ ho)
    rw [hbatch] at hrest
    -- those that are left after this pass are among those from before
    have hleft : l₀.uncrowded (c.course w).cluster.relay.ledger c.batchSize route =
        (l₀.uncrowded c.relay.ledger c.batchSize route).filter fun row =>
          !decide (row ∈ PassTurn.confirmed (c.course w).turns) := by
      unfold Ledger.uncrowded
      rw [hsends.outbox, List.filter_filter, List.filter_filter]
      exact List.filter_congr fun row _ => Bool.and_comm _ _
    have hfewer : (l₀.uncrowded (c.course w).cluster.relay.ledger c.batchSize route).length ≤
        (l₀.uncrowded c.relay.ledger c.batchSize route).length - 1 := by
      rw [hleft]
      by_cases hnone : l₀.uncrowded c.relay.ledger c.batchSize route = []
      · rw [hnone]
        exact Nat.le_refl _
      · obtain ⟨row, hrow, hturn⟩ := h₀.has_turn hnone
        obtain ⟨hmem, hwait⟩ := List.mem_filter.1 hrow
        have hgone := confirmed_of_turn ha hid hw (hl _ List.mem_cons_self) hmem
          (of_decide_eq_true hwait).1 hturn
        refine Nat.le_sub_one_of_lt (List.length_filter_lt_length_iff_exists.2 ⟨row, hrow, ?_⟩)
        simpa using hgone
    show (l₀.uncrowded ((c.course w).cluster.polls l).relay.ledger c.batchSize route).length ≤ _
    rw [List.length_cons]
    omega

/-- **A crowded message stays for as long as those that crowd it fail.** -/
theorem stays_crowded (hid : (c.relay.ledger.outbox.map (·.id)).Nodup)
    (hrow : row ∈ c.relay.ledger.outbox) (hcrowded : c.relay.ledger.Crowded c.batchSize row)
    (hl : ∀ o ∈ c.courses l, ∀ other ∈ c.relay.ledger.aheadElsewhere row,
      other ∉ PassTurn.confirmed o.turns) :
    row ∈ (c.polls l).relay.ledger.outbox := by
  induction l generalizing c with
  | nil => exact hrow
  | cons w l ih =>
    obtain ⟨hbatch, hsends⟩ := sends_course hid w
    -- none of those that go before it leaves
    have hsame : (c.course w).cluster.relay.ledger.aheadElsewhere row =
        c.relay.ledger.aheadElsewhere row := by
      rw [hsends.aheadElsewhere]
      refine List.filter_eq_self.2 fun other hother => ?_
      rw [Bool.not_eq_true', decide_eq_false_iff_not]
      exact hl _ List.mem_cons_self other hother
    refine ih (hsends.ids hid) ?_ ?_ ?_
    · -- so it has no turn
      rw [hsends.outbox]
      refine List.mem_filter.2 ⟨hrow, ?_⟩
      rw [Bool.not_eq_true', decide_eq_false_iff_not]
      intro hconfirmed
      have hturn := turn_of_confirmed hid hconfirmed
      exact Nat.not_lt.2 (Nat.le_trans hcrowded (List.length_filter_le _ _)) hturn
    · unfold Ledger.Crowded at hcrowded ⊢
      rwa [hbatch, hsame]
    · rw [hsame]
      exact fun o ho => hl o (List.mem_cons_of_mem _ ho)

/-- Each of several passes is one amid its own surroundings. -/
theorem course_of_mem_courses {o : PassCourse} (h : o ∈ c.courses l) :
    ∃ d : Cluster, ∃ w ∈ l, o = d.course w := by
  induction l generalizing c with
  | nil => cases h
  | cons w l ih =>
    rcases List.mem_cons.1 h with rfl | h
    · exact ⟨c, w, List.mem_cons_self, rfl⟩
    · obtain ⟨d, v, hv, ho⟩ := ih h
      exact ⟨d, v, List.mem_cons_of_mem _ hv, ho⟩

/-- At each turn of several passes publishing goes as it does amid their surroundings. -/
theorem outcome_courses {o : PassCourse} (h : o ∈ c.courses l) {t : PassTurn} (ht : t ∈ o.turns) :
    ∃ w ∈ l, ∃ (r : Relay) (n : ℕ), t.outcome = (r.amid w n t.row).outcome t.row := by
  obtain ⟨d, w, hw, rfl⟩ := course_of_mem_courses h
  unfold course at ht
  split at ht
  · cases ht
  · exact ⟨w, hw, outcome_courseFrom _ _ _ _ t ht⟩

/-- **A route that works is cleared if and only if none of its messages is crowded.** One that is
crowded waits for as long as those that crowd it fail, be it for ever. -/
theorem clears_iff {calls : List Ledger.Call} (hl : c.relay.ledger = Ledger.empty.run calls)
    (hroom : Ledger.rowsFor (Ledger.empty.created calls) < UInt64.size)
    (ha : c.relay.ledger.available = true) :
    (c.Clears route ↔ ∀ row ∈ c.relay.ledger.outbox, row.routeKey = route →
        ¬ c.relay.ledger.Crowded c.batchSize row) ∧
      ∀ row ∈ c.relay.ledger.outbox, c.relay.ledger.Crowded c.batchSize row →
        ∀ l : List Surroundings, (∀ o ∈ c.courses l, ∀ other ∈ c.relay.ledger.aheadElsewhere row,
            other ∉ PassTurn.confirmed o.turns) →
          row ∈ (c.polls l).relay.ledger.outbox := by
  obtain ⟨hwell, -⟩ := Ledger.wellFormed_calls Ledger.wellFormed_empty calls hroom
  rw [← hl] at hwell
  have hid := hwell.rowIds
  refine ⟨⟨fun hclears row hrow hroute hcrowded => ?_, fun hfree l hlength hk hd row hrow => ?_⟩,
    fun row hrow hcrowded l hfails => stays_crowded hid hrow hcrowded hfails⟩
  · -- in every pass, no route works but the one
    let l := List.replicate c.relay.ledger.outbox.length (Surroundings.only route)
    have honly : ∀ o ∈ c.courses l, ∀ t ∈ o.turns,
        t.outcome = .confirmed ↔ t.row.routeKey = route := by
      intro o ho t ht
      obtain ⟨w, hw, r, n, hout⟩ := outcome_courses ho ht
      rw [hout, (List.mem_replicate.1 hw).2]
      exact Surroundings.outcome_only ..
    have hstays : row ∈ (c.polls l).relay.ledger.outbox := by
      refine stays_crowded hid hrow hcrowded fun o ho other hother h => ?_
      have helse : other.routeKey ≠ row.routeKey := by
        simpa using (List.mem_filter.1 hother).2
      obtain ⟨t, ht, hconfirmed, rfl⟩ := PassTurn.mem_confirmed_iff.1 h
      exact helse (((honly o ho t ht).1 hconfirmed).trans hroute.symm)
    refine hclears l List.length_replicate (fun w hw => ?_) (fun o ho t ht => (honly o ho t ht).2)
      row hstays hroute
    rw [(List.mem_replicate.1 hw).2]
    exact fun _ _ => rfl
  · -- as many passes as there are messages are enough for those on the route
    intro hroute
    obtain ⟨gone, hsends⟩ := sends_polls hid l
    have hfew := uncrowded_polls (.refl c.relay.ledger) ha hid hk hd
    have hmost : (c.relay.ledger.uncrowded c.relay.ledger c.batchSize route).length ≤ l.length := by
      rw [hlength]
      exact List.length_filter_le _ _
    have hold : row ∈ c.relay.ledger.outbox := by
      rw [hsends.outbox] at hrow
      exact List.mem_of_mem_filter hrow
    have hmem : row ∈ c.relay.ledger.uncrowded (c.polls l).relay.ledger c.batchSize route :=
      List.mem_filter.2 ⟨hrow, decide_eq_true ⟨hroute, hfree row hold hroute⟩⟩
    have hpos := List.length_pos_of_mem hmem
    omega

/-- The first server is cleared even if the second one fails, but not the other way round. -/
theorem clears_twoServers : twoServers.relay.ledger.available = true ∧
    Ledger.rowsFor (Ledger.empty.created twoServersCalls) < UInt64.size ∧
    twoServers.Clears "node.ns1" ∧ ¬ twoServers.Clears "node.ns2" := by
  have ha : twoServers.relay.ledger.available = true := by decide +kernel
  have hroom : Ledger.rowsFor (Ledger.empty.created twoServersCalls) < UInt64.size := by
    decide +kernel
  have hcrowded : ¬ ∀ row ∈ twoServers.relay.ledger.outbox, row.routeKey = "node.ns2" →
      ¬ twoServers.relay.ledger.Crowded twoServers.batchSize row := by decide +kernel
  refine ⟨ha, hroom, (clears_iff run_twoServersCalls hroom ha).1.2 (by decide +kernel), fun h => ?_⟩
  exact hcrowded ((clears_iff run_twoServersCalls hroom ha).1.1 h)

/-- Both queues are declared, but the route to the first one fails. -/
def firstFails : Surroundings where
  bus _ _ _ := twoServers.relay.bus
  modes _ _ _ := [("node.ns1", .fail)]
  reachable _ _ a := a

theorem outcome_firstFails (r : Relay) (n : ℕ) (row : OutboxRow) :
    (row.routeKey = "node.ns1" → (r.amid firstFails n row).outcome row ≠ .confirmed) ∧
      (row.routeKey = "node.ns2" → (r.amid firstFails n row).outcome row = .confirmed) := by
  have hiff : (r.amid firstFails n row).outcome row = .confirmed ↔
      twoServers.relay.bus.Reaches [("node.ns1", .fail)] row.routeKey :=
    Relay.outcome_confirmed_iff ..
  refine ⟨fun h => ?_, fun h => ?_⟩
  · rw [ne_eq, hiff, h]
    decide +kernel
  · rw [hiff, h]
    decide +kernel

/-- Whatever the number of passes, the message for the second server never has its turn. -/
theorem blocked_twoServers : twoServers.relay.ledger = Ledger.empty.run twoServersCalls ∧
    twoServers.relay.ledger.available = true ∧ twoServers.batchSize = 1 ∧
    firstFails.KeepsLedger ∧
    (∀ (r : Relay) (n : ℕ) (row : OutboxRow), row.routeKey = "node.ns2" →
      (r.amid firstFails n row).outcome row = .confirmed) ∧
    (∀ n, (∀ o ∈ twoServers.courses (List.replicate n firstFails), o.Delivers "node.ns2") ∧
      ∃ row ∈ (twoServers.polls (List.replicate n firstFails)).relay.ledger.outbox,
        row.routeKey = "node.ns2") ∧
    ¬ twoServers.Clears "node.ns2" := by
  have ha : twoServers.relay.ledger.available = true := by decide +kernel
  have hid : (twoServers.relay.ledger.outbox.map (·.id)).Nodup := by decide +kernel
  have hkeeps : firstFails.KeepsLedger := fun _ _ => rfl
  -- the message for the second server has the one for the first before it
  obtain ⟨row, hrow, hroute, hcrowded, hfirst⟩ : ∃ row ∈ twoServers.relay.ledger.outbox,
      row.routeKey = "node.ns2" ∧ twoServers.relay.ledger.Crowded twoServers.batchSize row ∧
        ∀ other ∈ twoServers.relay.ledger.aheadElsewhere row, other.routeKey = "node.ns1" := by
    decide +kernel
  have hout : ∀ n, ∀ o ∈ twoServers.courses (List.replicate n firstFails), ∀ t ∈ o.turns,
      ∃ (r : Relay) (k : ℕ), t.outcome = (r.amid firstFails k t.row).outcome t.row := by
    intro n o ho t ht
    obtain ⟨w, hw, hout⟩ := outcome_courses ho ht
    rwa [(List.mem_replicate.1 hw).2] at hout
  have hdelivers : ∀ n, ∀ o ∈ twoServers.courses (List.replicate n firstFails),
      o.Delivers "node.ns2" := by
    intro n o ho t ht h
    obtain ⟨r, k, hout⟩ := hout n o ho t ht
    rw [hout]
    exact (outcome_firstFails r k t.row).2 h
  have hstays : ∀ n,
      row ∈ (twoServers.polls (List.replicate n firstFails)).relay.ledger.outbox := by
    intro n
    refine stays_crowded hid hrow hcrowded fun o ho other hother h => ?_
    obtain ⟨t, ht, hconfirmed, rfl⟩ := PassTurn.mem_confirmed_iff.1 h
    obtain ⟨r, k, hout⟩ := hout n o ho t ht
    exact (outcome_firstFails r k t.row).1 (hfirst _ hother) (hout.symm.trans hconfirmed)
  refine ⟨run_twoServersCalls, ha, rfl, hkeeps, fun r n row => (outcome_firstFails r n row).2,
    fun n => ⟨hdelivers n, row, hstays n, hroute⟩, fun h => ?_⟩
  refine h _ List.length_replicate (fun w hw => ?_) (hdelivers _) row (hstays _) hroute
  rw [(List.mem_replicate.1 hw).2]
  exact hkeeps

end Cluster

end ZoneRelay
