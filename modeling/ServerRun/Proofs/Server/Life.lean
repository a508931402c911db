import ServerRun.Proofs.Server.Move

/-! The life of a server: each change of its state is one of those that `State.Change` lists, and a
server that is being stopped, was stopped or has failed does not come back. All runs are like this
but those in which an answer that settles the start comes late, when the server is no longer
starting. -/

namespace ServerRun.Server

/-- The state stays as it is, or changes as it may. -/
def State.Step (a b : State) : Prop := b = a ∨ State.Change a b

theorem State.Step.stopped {b : State} (h : State.Step .stopped b) : b = .stopped := by
  rcases h with h | h
  · exact h
  · cases h

theorem State.Step.failed {b : State} (h : State.Step .failed b) : b = .failed := by
  rcases h with h | h
  · exact h
  · cases h

theorem State.Step.stopping {b : State} (h : State.Step .stopping b) :
    b = .stopping ∨ b = .stopped := by
  rcases h with h | h
  · exact .inl h
  · cases h
    exact .inr rfl

namespace System

variable {s u : System} {m : Move}

/-- A call on the server gets an answer that settles its start when the server is no longer
starting. -/
def IsLate (s : System) (m : Move) : Prop :=
  ∃ id a x since, m = .answer id a ∧ s.waiting.find? (·.id == id) = some x ∧
    x.point = .readingState since ∧ s.server.settlesStart s.surroundings since a ∧
    s.server.state ≠ .starting

/-- What a server and its calls keep to as long as no answer is late: at most one call starts the
server and at most one stops it, the one that stops it leads its state, and a child that is being
launched is the first. -/
structure Orderly (s : System) : Prop where
  fresh : s.server.state = .notStarted → s.server.child = none
  listening : s.server.child ≠ none → s.server.listening = true
  oneStart : ∀ x ∈ s.waiting, ∀ y ∈ s.waiting, x.point.concern = .startup →
    y.point.concern = .startup → x.id = y.id
  oneStop : ∀ x ∈ s.waiting, ∀ y ∈ s.waiting, x.point.concern = .stop →
    y.point.concern = .stop → x.id = y.id
  launching : ∀ x ∈ s.waiting, x.point = .launching →
    s.server.state = .starting ∧ s.server.child = none
  starting : ∀ x ∈ s.waiting, x.point.concern = .startup →
    s.server.state = .starting ∨ s.server.state = .stopping ∨ s.server.state = .stopped
  stopping : ∀ x ∈ s.waiting, ∀ previous, x.point.previous? = some previous →
    s.server.child ≠ none ∧ s.server.stopping = true ∧
      s.server.state = if previous = .failed then .failed else .stopping

/-- A server that was just made, before anything has happened. -/
theorem orderly_ofServer (info : Installation) (poll : Seconds) (grace : Span)
    (rounding : Seconds → Seconds) : Orderly (.ofServer { info, poll, grace, rounding }) where
  fresh _ := rfl
  listening h := absurd rfl h
  oneStart x hx := by cases hx
  oneStop x hx := by cases hx
  launching x hx := by cases hx
  starting x hx := by cases hx
  stopping x hx := by cases hx

/-- Calls that are neither about the start nor about the stop of a server come and go. -/
theorem Orderly.of_frame (h : Orderly s) {q : List Nat}
    (hs : u.server = { s.server with turns := q })
    (hw : ∀ x ∈ u.waiting, x ∈ s.waiting ∨
      x.point.concern ≠ .startup ∧ x.point.concern ≠ .stop) : Orderly u := by
  have old {x : Waiting} (hx : x ∈ u.waiting)
      (hc : x.point.concern = .startup ∨ x.point.concern = .stop) : x ∈ s.waiting := by
    rcases hw x hx with h | ⟨h1, h2⟩
    · exact h
    · rcases hc with hc | hc
      · exact absurd hc h1
      · exact absurd hc h2
  constructor
  · rw [hs]
    exact h.fresh
  · rw [hs]
    exact h.listening
  · intro x hx y hy hcx hcy
    exact h.oneStart x (old hx (.inl hcx)) y (old hy (.inl hcy)) hcx hcy
  · intro x hx y hy hcx hcy
    exact h.oneStop x (old hx (.inr hcx)) y (old hy (.inr hcy)) hcx hcy
  · intro x hx hp
    rw [hs]
    exact h.launching x (old hx (.inl (by rw [hp]; rfl))) hp
  · intro x hx hc
    rw [hs]
    exact h.starting x (old hx (.inl hc)) hc
  · intro x hx previous hp
    rw [hs]
    exact h.stopping x (old hx (.inr (Point.concern_of_previous? hp))) previous hp

/-- A server that begins to start: no other call starts it or stops it. -/
theorem Orderly.of_start (h : Orderly s) (id : Nat) (hn : s.server.state = .notStarted)
    (hs : u.server = { s.server with state := .starting })
    (hw : ∀ x ∈ u.waiting, x ∈ s.waiting ∨ x.point = .launching ∧ x.id = id) : Orderly u := by
  have startup {x : Waiting} (hx : x ∈ s.waiting) : x.point.concern ≠ .startup := by
    intro hc
    have := h.starting x hx hc
    simp [hn] at this
  have stop {x : Waiting} (hx : x ∈ u.waiting) : x.point.concern ≠ .stop := by
    intro hc
    rcases hw x hx with hx | ⟨hp, -⟩
    · obtain ⟨previous, hp⟩ := Point.previous?_of_concern hc
      have := (h.stopping x hx previous hp).2.2
      rw [hn] at this
      split at this <;> cases this
    · simp [hp, Point.concern] at hc
  have new {x : Waiting} (hx : x ∈ u.waiting) (hc : x.point.concern = .startup) : x.id = id :=
    ((hw x hx).resolve_left fun hx => startup hx hc).2
  constructor
  · intro hf
    rw [hs] at hf
    cases hf
  · rw [hs]
    exact h.listening
  · intro x hx y hy hcx hcy
    rw [new hx hcx, new hy hcy]
  · intro x hx _ _ hc
    exact absurd hc (stop hx)
  · intro x _ _
    rw [hs]
    exact ⟨rfl, h.fresh hn⟩
  · intro x _ _
    rw [hs]
    exact .inl rfl
  · intro x hx previous hp
    exact absurd (Point.concern_of_previous? hp) (stop hx)

/-- A stop that begins to act: no other call stops the server, and none launches a child. -/
theorem Orderly.of_stop (h : Orderly s) (id : Nat) (ha : s.server.StopActs)
    {released : Bool} (hs : u.server = { s.server.stopBegun with released })
    (hw : ∀ x ∈ u.waiting,
      x ∈ s.waiting ∨ x.point.previous? = some s.server.state ∧ x.id = id) :
    Orderly u ∧ State.Step s.server.state u.server.state := by
  obtain ⟨h1, h2, h3, h4, -⟩ := ha
  have hn : s.server.state ≠ .notStarted := fun hn => h3 (h.fresh hn)
  have hst : u.server.state = if s.server.state = .failed then .failed else .stopping := by
    rw [hs]
    rfl
  have stop {x : Waiting} (hx : x ∈ s.waiting) : x.point.concern ≠ .stop := by
    intro hc
    obtain ⟨previous, hp⟩ := Point.previous?_of_concern hc
    have := (h.stopping x hx previous hp).2.1
    rw [h4] at this
    cases this
  have startup {x : Waiting} (hx : x ∈ u.waiting) (hc : x.point.concern = .startup) :
      x ∈ s.waiting := by
    refine (hw x hx).resolve_right fun ⟨hp, _⟩ => ?_
    rw [Point.concern_of_previous? hp] at hc
    cases hc
  have new {x : Waiting} (hx : x ∈ u.waiting) (hc : x.point.concern = .stop) :
      x.point.previous? = some s.server.state ∧ x.id = id :=
    (hw x hx).resolve_left fun hx => stop hx hc
  constructor
  · constructor
    · intro hf
      rw [hst] at hf
      split at hf <;> cases hf
    · rw [hs]
      exact h.listening
    · intro x hx y hy hcx hcy
      exact h.oneStart x (startup hx hcx) y (startup hy hcy) hcx hcy
    · intro x hx y hy hcx hcy
      rw [(new hx hcx).2, (new hy hcy).2]
    · intro x hx hp
      have hx := startup hx (by rw [hp]; rfl)
      exact absurd (h.launching x hx hp).2 h3
    · intro x hx hc
      have := h.starting x (startup hx hc) hc
      rw [hst, if_neg (by rcases this with h | h | h <;> simp [h])]
      exact .inr (.inl rfl)
    · intro x hx previous hp
      have hp' := (new hx (Point.concern_of_previous? hp)).1
      rw [hp] at hp'
      cases hp'
      rw [hst]
      exact ⟨by rw [hs]; exact h3, by rw [hs]; rfl, rfl⟩
  · rw [hst]
    cases hc : s.server.state with
    | notStarted => exact absurd hc hn
    | starting => exact .inr .stopStarting
    | started => exact .inr .stopStarted
    | stopping => exact absurd hc h1
    | stopped => exact absurd hc h2
    | failed => exact .inl rfl

/-- A call that begins keeps a server in order, and changes its state as it may. -/
theorem Orderly.of_call (h : Orderly s) {id : Nat} {call : Call}
    (hs : u.server = (s.server.firstTurn s.surroundings id call).server)
    (hw : u.waiting = s.waiting ++
      waitAfter s.now id call (s.server.firstTurn s.surroundings id call)) :
    Orderly u ∧ State.Step s.server.state u.server.state := by
  have new {x : Waiting} (hx : x ∈ u.waiting) : x ∈ s.waiting ∨
      (s.server.firstTurn s.surroundings id call).outcome = .paused x.point x.wait ∧ x.id = id := by
    rw [hw, List.mem_append] at hx
    exact hx.imp_right mem_waitAfter
  have idle (hi : (s.server.firstTurn s.surroundings id call).server = s.server)
      (he : (s.server.firstTurn s.surroundings id call).Ends) :
      Orderly u ∧ State.Step s.server.state u.server.state := by
    rw [hi] at hs
    refine ⟨h.of_frame (q := s.server.turns) hs fun x hx => ?_, .inl (by rw [hs])⟩
    exact .inl ((new hx).resolve_right fun hn => he _ _ hn.1)
  by_cases hc : call.concern = .work ∨ call.concern = .exit
  · obtain ⟨q, hq⟩ : ∃ q, (s.server.firstTurn s.surroundings id call).server =
        { s.server with turns := q } := firstTurn_server_of_work hc
    refine ⟨h.of_frame (hs.trans hq) fun x hx => (new hx).imp_right fun hn => ?_, ?_⟩
    · have := firstTurn_waitsOn_of_work hc _ _ hn.1
      rcases hc with hc | hc <;> rw [this, hc] <;> simp
    · exact .inl (by rw [hs, hq])
  · cases call with
    | deploy file name => exact absurd (.inl rfl) hc
    | execute b => exact absurd (.inl rfl) hc
    | waitForExit => exact absurd (.inr rfl) hc
    | start =>
      by_cases hn : s.server.state = .notStarted
      · simp only [firstTurn, start, hn, ne_eq, not_true_eq_false, ite_false] at hs new
        refine ⟨h.of_start id hn hs fun x hx => (new hx).imp_right fun hp => ?_, ?_⟩
        · obtain ⟨hp, hi⟩ := hp
          simp only [Outcome.paused.injEq] at hp
          exact ⟨hp.1.symm, hi⟩
        · rw [hs, hn]
          exact .inr .start
      · have : s.server.firstTurn s.surroundings id .start =
            s.server.raise (s.server.notReady "start") := by
          simp [firstTurn, start, hn]
        exact idle (by rw [this]; rfl) (by rw [this]; exact raise_ends _)
    | stop =>
      by_cases ha : s.server.StopActs
      · have ht : StopTurn s.server.stopBegun s.server.state false
            (s.server.firstTurn s.surroundings id .stop) := firstTurn_stop ha
        have hp : ¬ (s.server.firstTurn s.surroundings id .stop).Ends :=
          firstTurn_stop_pauses ha (h.listening ha.2.2.1)
        generalize s.server.firstTurn s.surroundings id .stop = t at ht hp hs new
        cases ht with
        | waits released hprev hi =>
          refine h.of_stop id ha hs fun x hx => (new hx).imp_right fun hn => ?_
          obtain ⟨hn, hid⟩ := hn
          simp only [Outcome.paused.injEq] at hn
          exact ⟨hn.1 ▸ hprev, hid⟩
        | ends released =>
          exact absurd (fun p w h => by cases h) hp
      · have : s.server.firstTurn s.surroundings id .stop = s.server.finish :=
          firstTurn_stop_idle ha
        exact idle (by rw [this]; rfl) (by rw [this]; exact finish_ends)

/-- A call that is answered while it starts a server keeps the server in order, as long as it moves
a server only from the start. -/
theorem Orderly.of_startup (h : Orderly s) {x : Waiting} (hx : x ∈ s.waiting)
    (hc : x.point.concern = .startup)
    (hl : u.server.child ≠ none → u.server.listening = true)
    (hkeep : s.server.child ≠ none → u.server.child ≠ none)
    (hstop : u.server.stopping = s.server.stopping)
    (hw : ∀ y ∈ u.waiting, y ∈ s.waiting ∧ y.id ≠ x.id ∨
      y.point.concern = .startup ∧ y.point ≠ .launching ∧ y.id = x.id)
    (hs : u.server.state = s.server.state ∨
      s.server.state = .starting ∧ (u.server.state = .started ∨ u.server.state = .failed) ∧
        ∀ y ∈ u.waiting, y ∈ s.waiting ∧ y.id ≠ x.id) :
    Orderly u ∧ State.Step s.server.state u.server.state := by
  have other {y : Waiting} (hy : y ∈ s.waiting ∧ y.id ≠ x.id) : y.point.concern ≠ .startup :=
    fun hcy => hy.2 (h.oneStart y hy.1 x hx hcy hc)
  have new {y : Waiting} (hy : y ∈ u.waiting) (hcy : y.point.concern = .startup) :
      y.point ≠ .launching ∧ y.id = x.id :=
    ((hw y hy).resolve_left fun hy => other hy hcy).2
  have old {y : Waiting} (hy : y ∈ u.waiting) (hcy : y.point.concern = .stop) : y ∈ s.waiting := by
    rcases hw y hy with hy | ⟨hp, -⟩
    · exact hy.1
    · rw [hp] at hcy
      cases hcy
  have started := h.starting x hx hc
  refine ⟨?_, ?_⟩
  · constructor
    · intro hn
      rcases hs with hs | ⟨-, hs | hs, -⟩
      · rw [hn] at hs
        simp [← hs] at started
      · simp [hn] at hs
      · simp [hn] at hs
    · exact hl
    · intro y hy z hz hcy hcz
      rw [(new hy hcy).2, (new hz hcz).2]
    · intro y hy z hz hcy hcz
      exact h.oneStop y (old hy hcy) z (old hz hcz) hcy hcz
    · intro y hy hp
      exact absurd hp (new hy (by rw [hp]; rfl)).1
    · intro y hy hcy
      rcases hs with hs | ⟨-, -, hs⟩
      · rw [hs]
        exact started
      · exact absurd hcy (other (hs y hy))
    · intro y hy previous hp
      obtain ⟨h1, h2, h3⟩ := h.stopping y (old hy (Point.concern_of_previous? hp)) previous hp
      refine ⟨hkeep h1, hstop.trans h2, ?_⟩
      rcases hs with hs | ⟨hs, -, -⟩
      · rw [hs, h3]
      · rw [hs] at h3
        split at h3 <;> cases h3
  · rcases hs with hs | ⟨hs, hu | hu, -⟩
    · exact .inl hs
    · rw [hs, hu]
      exact .inr .ready
    · rw [hs, hu]
      exact .inr .fail

/-- A stop that is answered keeps a server in order: it goes on from where it began, or ends and
leaves the server stopped, or failed if it was so before. -/
theorem Orderly.of_stopTurn (h : Orderly s) {x : Waiting} (hx : x ∈ s.waiting) {previous : State}
    (hp : x.point.previous? = some previous)
    {interrupted : Bool} {t : Turn} (ht : StopTurn s.server previous interrupted t)
    (hs : u.server = t.server)
    (hw : ∀ y ∈ u.waiting, y ∈ s.waiting ∧ y.id ≠ x.id ∨
      t.outcome = .paused y.point y.wait ∧ y.id = x.id) :
    Orderly u ∧ State.Step s.server.state u.server.state := by
  obtain ⟨hchild, hstopping, hstate⟩ := h.stopping x hx previous hp
  have hc := Point.concern_of_previous? hp
  have other {y : Waiting} (hy : y ∈ s.waiting ∧ y.id ≠ x.id) : y.point.concern ≠ .stop :=
    fun hcy => hy.2 (h.oneStop y hy.1 x hx hcy hc)
  have new {y : Waiting} (hy : y ∈ u.waiting) (hcy : y.point.concern = .stop) :
      t.outcome = .paused y.point y.wait ∧ y.id = x.id :=
    (hw y hy).resolve_left fun hy => other hy hcy
  have paused {y : Waiting} (hy : t.outcome = .paused y.point y.wait) :
      y.point.previous? = some previous := by
    cases ht with
    | waits released hp' hi =>
      cases hy
      exact hp'
    | ends released => split at hy <;> cases hy
  have old {y : Waiting} (hy : y ∈ u.waiting) (hcy : y.point.concern = .startup) :
      y ∈ s.waiting := by
    rcases hw y hy with hy | ⟨hy, -⟩
    · exact hy.1
    · rw [Point.concern_of_previous? (paused hy)] at hcy
      cases hcy
  have hchild' : u.server.child = s.server.child ∧ u.server.listening = s.server.listening ∧
      u.server.stopping = s.server.stopping := by
    rw [hs]
    cases ht <;> exact ⟨rfl, rfl, rfl⟩
  have hstate' : u.server.state = s.server.state ∨
      t.Ends ∧ previous ≠ .failed ∧ u.server.state = .stopped := by
    rw [hs]
    cases ht with
    | waits released => exact .inl rfl
    | ends released =>
      by_cases hf : previous = .failed
      · exact .inl (by simp [stoppedState, hf])
      · refine .inr ⟨fun p w hp => ?_, hf, by simp [stoppedState, hf]⟩
        simp only at hp
        split at hp <;> cases hp
  refine ⟨?_, ?_⟩
  · constructor
    · intro hn
      rcases hstate' with hu | ⟨-, -, hu⟩
      · rw [← hu, hn] at hstate
        split at hstate <;> cases hstate
      · rw [hn] at hu
        cases hu
    · rw [hchild'.1, hchild'.2.1]
      exact h.listening
    · intro y hy z hz hcy hcz
      exact h.oneStart y (old hy hcy) z (old hz hcz) hcy hcz
    · intro y hy z hz hcy hcz
      rw [(new hy hcy).2, (new hz hcz).2]
    · intro y hy hl
      exact absurd (h.launching y (old hy (by rw [hl]; rfl)) hl).2 hchild
    · intro y hy hcy
      rcases hstate' with hu | ⟨-, -, hu⟩
      · rw [hu]
        exact h.starting y (old hy hcy) hcy
      · exact .inr (.inr hu)
    · intro y hy q hq
      have hy := (new hy (Point.concern_of_previous? hq)).1
      rcases hstate' with hu | ⟨he, -⟩
      · rw [paused hy] at hq
        cases hq
        rw [hchild'.1, hchild'.2.2, hu]
        exact ⟨hchild, hstopping, hstate⟩
      · exact absurd hy (he _ _)
  · rcases hstate' with hu | ⟨-, hf, hu⟩
    · exact .inl hu
    · rw [if_neg hf] at hstate
      rw [hstate, hu]
      exact .inr .stopped

/-- A turn of a start keeps a server in order: the server is as before, with a child that was just
launched perhaps, or the start has ended as the server was starting. -/
theorem Orderly.of_startupTurn (h : Orderly s) {x : Waiting} (hx : x ∈ s.waiting)
    (hc : x.point.concern = .startup) {r : Server} {t : Turn} (ht : StartupTurn r t)
    (hr : r.state = s.server.state) (hl : r.child ≠ none → r.listening = true)
    (hkeep : s.server.child ≠ none → r.child ≠ none) (hstop : r.stopping = s.server.stopping)
    (hn : s.server.state = .starting ∨ t.server = r)
    (hs : u.server = t.server)
    (hw : ∀ y ∈ u.waiting, y ∈ s.waiting ∧ y.id ≠ x.id ∨
      t.outcome = .paused y.point y.wait ∧ y.id = x.id) :
    Orderly u ∧ State.Step s.server.state u.server.state := by
  obtain ⟨hp, ht⟩ := ht.settled
  have hw' : ∀ y ∈ u.waiting, y ∈ s.waiting ∧ y.id ≠ x.id ∨
      y.point.concern = .startup ∧ y.point ≠ .launching ∧ y.id = x.id := by
    intro y hy
    refine (hw y hy).imp_right fun ⟨hy, hi⟩ => ?_
    obtain ⟨h1, h2⟩ := hp _ _ hy
    exact ⟨h1, h2, hi⟩
  by_cases hu : t.server = r
  · rw [hu] at hs
    refine h.of_startup hx hc ?_ ?_ ?_ hw' ?_
    · rw [hs]
      exact hl
    · rw [hs]
      exact hkeep
    · rw [hs]
      exact hstop
    · exact .inl (by rw [hs, hr])
  · obtain ⟨he, ht⟩ := ht.resolve_left hu
    have hst : t.server.state = .started ∨ t.server.state = .failed :=
      ht.imp (fun ht => by rw [ht]) (fun ht => by rw [ht])
    have hf : t.server.child = r.child ∧ t.server.listening = r.listening ∧
        t.server.stopping = r.stopping := by
      rcases ht with ht | ht <;> rw [ht] <;> exact ⟨rfl, rfl, rfl⟩
    refine h.of_startup hx hc ?_ ?_ ?_ hw' (.inr ⟨hn.resolve_right hu, by rwa [hs], fun y hy => ?_⟩)
    · rw [hs, hf.1, hf.2.1]
      exact hl
    · rw [hs, hf.1]
      exact hkeep
    · rw [hs, hf.2.2]
      exact hstop
    · exact (hw y hy).resolve_right fun hy => he _ _ hy.1

/-- An answer that is not late keeps a server in order, and changes its state as it may. -/
theorem Orderly.of_answer (h : Orderly s) {id : Nat} {a : Answer} {t : Turn} {x : Waiting}
    (hx : s.waiting.find? (·.id == id) = some x) (hl : ¬ s.IsLate (.answer id a))
    (ht : s.server.nextTurn? s.surroundings id x.point a = some t) (hs : u.server = t.server)
    (hw : u.waiting = s.waiting.filter (·.id != id) ++ waitAfter s.now id x.call t) :
    Orderly u ∧ State.Step s.server.state u.server.state := by
  have hmem : x ∈ s.waiting := List.mem_of_find?_eq_some hx
  have hid : x.id = id := by simpa using List.find?_some hx
  have new : ∀ y ∈ u.waiting, y ∈ s.waiting ∧ y.id ≠ x.id ∨
      t.outcome = .paused y.point y.wait ∧ y.id = x.id := by
    intro y hy
    rw [hw, List.mem_append, List.mem_filter] at hy
    rw [hid]
    exact hy.imp (fun hy => ⟨hy.1, by simpa using hy.2⟩) mem_waitAfter
  cases hc : x.point.concern with
  | work | exit =>
    obtain ⟨q, hq⟩ := nextTurn?_server_of_work (by simp [hc]) ht
    refine ⟨h.of_frame (hs.trans hq) fun y hy => ?_, .inl (by rw [hs, hq])⟩
    refine (new y hy).imp (·.1) fun hy => ?_
    rw [nextTurn?_waitsOn_of_work (by simp [hc]) ht _ _ hy.1, hc]
    exact ⟨by simp, by simp⟩
  | startup =>
    by_cases hp : x.point = .launching
    · obtain ⟨hst, hchild⟩ := h.launching x hmem hp
      rw [hp] at ht
      by_cases ha : ∃ pid client, a = .launched pid client
      · obtain ⟨pid, client, rfl⟩ := ha
        obtain ⟨c, ht, -⟩ := nextTurn?_launched ht
        exact h.of_startupTurn hmem hc ht rfl (fun _ => rfl) (fun hn => absurd hchild hn) rfl
          (.inl hst) hs new
      · obtain ⟨he, ht⟩ := nextTurn?_not_launched (fun pid client hn => ha ⟨pid, client, hn⟩) ht
        have hf : u.server = { s.server with state := u.server.state } := by
          rw [hs]
          rcases ht with ht | ht <;> rw [ht]
        have old : ∀ y ∈ u.waiting, y ∈ s.waiting ∧ y.id ≠ x.id := fun y hy =>
          (new y hy).resolve_right fun hy => he _ _ hy.1
        refine h.of_startup hmem hc ?_ ?_ ?_ (fun y hy => .inl (old y hy)) ?_
        · rw [hf]
          exact h.listening
        · rw [hf]
          exact fun hn => hn
        · rw [hf]
        · rw [hs]
          refine ht.imp (fun ht => by rw [ht]) fun ht => ⟨hst, .inr (by rw [ht]), old⟩
    · have hn : s.server.state = .starting ∨ t.server = s.server := by
        by_cases hst : s.server.state = .starting
        · exact .inl hst
        · right
          cases hpt : x.point with
          | launching => exact absurd hpt hp
          | readingState since =>
            rw [hpt] at ht
            exact nextTurn?_of_not_settlesStart ht fun hse =>
              hl ⟨id, a, x, since, rfl, hx, hpt, hse, hst⟩
          | sleeping since =>
            rw [hpt] at ht
            cases a <;> simp [nextTurn?] at ht <;> subst ht
            case elapsed => exact (look_state hst since).1
            all_goals rfl
          | _ =>
            rw [hpt] at hc
            cases hc
      exact h.of_startupTurn hmem hc (nextTurn?_startup hc hp ht) rfl h.listening
        (fun hn => hn) rfl hn hs new
  | stop =>
    obtain ⟨previous, hp⟩ := Point.previous?_of_concern hc
    rcases nextTurn?_stop hp ht with ⟨interrupted, -, ht⟩ | ⟨-, rfl⟩
    · exact h.of_stopTurn hmem hp ht hs new
    · refine ⟨h.of_frame (q := s.server.turns) hs fun y hy => .inl ?_, .inl (by rw [hs]; rfl)⟩
      exact ((new y hy).resolve_right fun hy => raise_ends _ _ _ hy.1).1

/-- Each move that is not late keeps a server in order, and changes its state as it may. -/
theorem Orderly.of_step? (h : Orderly s) (hm : s.step? m = some u) (hl : ¬ s.IsLate m) :
    Orderly u ∧ State.Step s.server.state u.server.state := by
  cases moved_of_step? hm with
  | call id call hs hw => exact h.of_call hs hw
  | answer id a t x hx ha ht hs hw => exact h.of_answer hx hl ht hs hw
  | exit code hs hw =>
    have hchild : u.server.child = none ↔ s.server.child = none := by
      rw [hs]
      simp [withExit]
    have hf : u.server = { s.server with child := u.server.child } := by
      rw [hs]
      rfl
    have hst : u.server.state = s.server.state := by rw [hf]
    refine ⟨?_, .inl hst⟩
    constructor
    · intro hn
      rw [hst] at hn
      exact hchild.mpr (h.fresh hn)
    · intro hc
      rw [hf]
      exact h.listening fun hn => hc (hchild.mpr hn)
    · rw [hw]
      exact h.oneStart
    · rw [hw]
      exact h.oneStop
    · rw [hw, hst]
      intro x hx hp
      obtain ⟨h1, h2⟩ := h.launching x hx hp
      exact ⟨h1, hchild.mpr h2⟩
    · rw [hw, hst]
      exact h.starting
    · rw [hw, hst]
      intro x hx previous hp
      obtain ⟨h1, h2, h3⟩ := h.stopping x hx previous hp
      exact ⟨fun hn => h1 (hchild.mp hn), by rw [hf]; exact h2, h3⟩
  | time m _ hs hw =>
    refine ⟨h.of_frame (q := s.server.turns) hs fun x hx => .inl (by rwa [hw] at hx), .inl ?_⟩
    rw [hs]

/-- A late answer changes the state as it may not. -/
theorem Orderly.not_step_of_isLate (h : Orderly s) (hm : s.step? m = some u) (hl : s.IsLate m) :
    ¬ State.Step s.server.state u.server.state := by
  obtain ⟨id, a, x, since, rfl, hx, hp, hse, hst⟩ := hl
  cases moved_of_step? hm with
  | time _ hm => exact absurd rfl (hm _ _)
  | answer _ _ t y hy ha ht hs hw =>
    rw [hx] at hy
    cases hy
    rw [hp] at ht
    have := nextTurn?_of_settlesStart ht hse
    have hc := h.starting x (List.mem_of_find?_eq_some hx) (by rw [hp]; rfl)
    rw [hs]
    intro hstep
    rcases hc with hc | hc | hc
    · exact hst hc
    · rw [hc] at hstep
      rcases hstep.stopping with hn | hn <;> simp [hn] at this
    · rw [hc] at hstep
      simp [hstep.stopped] at this

/-- A run of a server that keeps to the life of a server: each change of the state is one of those
listed, a server that was stopped or has failed stays so, and no stop that has begun is undone. -/
structure Lawful (s : System) (ms : List Move) : Prop where
  changes : ∀ t m u, Makes step? s ms t m u → State.Step t.server.state u.server.state
  stopped : ∀ before between after t u, ms = before ++ between ++ after → Leads step? s before t →
    Leads step? t between u → t.server.state = .stopped → u.server.state = .stopped
  failed : ∀ before between after t u, ms = before ++ between ++ after → Leads step? s before t →
    Leads step? t between u → t.server.state = .failed → u.server.state = .failed
  stopping : ∀ before between after t u, ms = before ++ between ++ after → Leads step? s before t →
    Leads step? t between u → t.server.state = .stopping →
    u.server.state = .stopping ∨ u.server.state = .stopped

/-- What single changes of the state keep is kept over any stretch of a run. -/
theorem keeps_of_changes {ms before between after : List Move} {s t u : System}
    (hc : ∀ t m u, Makes step? s ms t m u → State.Step t.server.state u.server.state)
    (hms : ms = before ++ between ++ after) (hb : Leads step? s before t)
    (hu : Leads step? t between u) {P : State → Prop} (ht : P t.server.state)
    (hP : ∀ a b, State.Step a b → P a → P b) : P u.server.state := by
  refine hu.keeps (P := fun s => P s.server.state) ht fun v m w hm hv => ?_
  obtain ⟨first, last, rfl, hl, hs⟩ := hm
  refine hP _ _ (hc v m w ⟨before ++ first, last ++ after, ?_, hb.append hl, hs⟩) hv
  simp [hms]

/-- A run is lawful when each of its changes of the state is one of those listed. -/
theorem lawful_of_changes {ms : List Move}
    (hc : ∀ t m u, Makes step? s ms t m u → State.Step t.server.state u.server.state) :
    Lawful s ms where
  changes := hc
  stopped _ _ _ t u hms hb hu ht :=
    keeps_of_changes hc hms hb hu (P := (· = .stopped)) ht fun a b h ha => by
      subst ha
      exact h.stopped
  failed _ _ _ t u hms hb hu ht :=
    keeps_of_changes hc hms hb hu (P := (· = .failed)) ht fun a b h ha => by
      subst ha
      exact h.failed
  stopping _ _ _ t u hms hb hu ht :=
    keeps_of_changes hc hms hb hu (P := fun a => a = .stopping ∨ a = .stopped) (.inl ht)
      fun a b h ha => by
        rcases ha with rfl | rfl
        · exact h.stopping
        · exact .inr h.stopped

/-- A run from an orderly system is lawful exactly if no answer that settles the start comes when
the server is no longer starting. -/
theorem Orderly.lawful_iff (h : Orderly s) (ms : List Move) :
    Lawful s ms ↔ ∀ t m u, Makes step? s ms t m u → ¬ t.IsLate m := by
  constructor
  · intro hl t m u hm hlate
    obtain ⟨before, after, rfl, hb, hs⟩ := hm
    have ht : Orderly t := by
      refine hb.keeps h fun v n w hn hv => ?_
      have hc := hl.changes v n w (hn.append _)
      have hs := hn.step
      exact (hv.of_step? hs fun hlate => hv.not_step_of_isLate hs hlate hc).1
    exact ht.not_step_of_isLate hs hlate (hl.changes t m u ⟨before, after, rfl, hb, hs⟩)
  · intro hn
    refine lawful_of_changes fun t m u hm => ?_
    obtain ⟨before, after, rfl, hb, hs⟩ := hm
    have ht : Orderly t := by
      refine hb.keeps h fun v n w hv ho => ?_
      exact (ho.of_step? hv.step (hn v n w (hv.append _))).1
    exact (ht.of_step? hs (hn t m u ⟨before, after, rfl, hb, hs⟩)).2

/-- The runs of a server, with any calls on it in any order, are lawful exactly if no answer about
the state that settles a start comes when the server is no longer starting. -/
theorem lawful_iff_no_late_answer (info : Installation) (poll : Seconds) (grace : Span)
    (rounding : Seconds → Seconds) (ms : List Move) :
    Lawful (.ofServer { info, poll, grace, rounding }) ms ↔
      ∀ t m u, Makes step? (.ofServer { info, poll, grace, rounding }) ms t m u → ¬ t.IsLate m :=
  (orderly_ofServer info poll grace rounding).lawful_iff ms

/-- A stop that begins while the start waits for an answer is undone by the answer that the server
is running. -/
theorem not_lawful_of_late_running :
    ¬ Lawful
      (.ofServer
        { info :=
            { home := .ofString "/opt/server", modules := .ofString "/opt/server/modules",
              bundles := .ofString "/opt/server/bundles", java := "java" }
          poll := 1
          grace := .finite 10 })
      [.call 0 .start, .answer 0 (.launched 4242 none), .call 1 .stop,
        .answer 0 (.state (some "running"))] := by
  intro h
  have hs := h.changes _ _ _
    ⟨[.call 0 .start, .answer 0 (.launched 4242 none), .call 1 .stop], [], rfl,
      .step rfl (.step rfl (.step rfl (.refl _))), rfl⟩
  rcases hs with hs | hs
  · cases hs
  · cases hs

end System

end ServerRun.Server
