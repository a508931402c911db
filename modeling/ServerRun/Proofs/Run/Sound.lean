import ServerRun.Proofs.Run.Move

/-! What a run keeps to at all times: its two activities follow one another, no stop of the server
has begun before the supervisor begins one, and a stop that has begun is not cancelled. -/

namespace ServerRun

/-- No stop of a server has begun. -/
structure Server.IsUnstopped (s : Server) : Prop where
  stopping : s.stopping = false
  released : s.released = false
  state : s.state ≠ .stopping ∧ s.state ≠ .stopped

theorem Server.IsUnstopped.of_keeps {s t : Server} (h : s.IsUnstopped) (hk : s.Keeps t) :
    t.IsUnstopped where
  stopping := hk.stopping.trans h.stopping
  released := hk.released.trans h.released
  state := by
    rcases hk.state with hs | hs | hs | hs
    · rw [hs]
      exact h.state
    all_goals simp [hs]

namespace Run

section

variable {r : Run} {w : Surroundings} {step : Step} {t : Server.Turn} {u : Turn}

/-- A turn in a step changes nothing of a run but its server and its phases. -/
theorem StepTurn.frame (h : StepTurn w r step t u) :
    ∃ v p ps, u.run = { r with server := some v, phase := p, phases := ps } ∧
      t.server.Keeps v := by
  induction h with
  | waits | raises | exits | parks => exact ⟨_, _, _, rfl, .refl _⟩
  | @goesOn r step t code next u h hn ht hu ih =>
    obtain ⟨v, p, ps, hr, hk⟩ := ih
    refine ⟨v, p, ps, hr, ?_⟩
    exact (Server.firstTurn_keeps (stepCall_concern r next)).1.trans hk

/-- After a turn in a step the sequence waits, if it does, to be cancelled or for the server. -/
theorem StepTurn.paused (h : StepTurn w r step t u)
    (ht : ∀ p wait, t.outcome = .paused p wait → p.concern ≠ .stop) {q : Point} {wait : Wait}
    (hq : u.outcome = .paused q wait) :
    q = .parked ∨ ∃ step p, q = .onServer step p ∧ p.concern ≠ .stop := by
  induction h with
  | waits ho =>
    cases hq
    exact .inr ⟨_, _, rfl, ht _ _ ho⟩
  | raises | exits => cases hq
  | parks =>
    cases hq
    exact .inl rfl
  | @goesOn r step t code next u h hn hter hu ih =>
    refine ih (fun p wait hp => ?_) hq
    rw [(Server.firstTurn_keeps (stepCall_concern r next)).2 _ _ hp]
    exact stepCall_concern r next

/-- A run before its shutdown, whose sequence is in a given state: there is no server before one is
made, no stop has begun, and the shutdown is to stop the server that was made. -/
structure Poised (r : Run) (q : SequenceState) : Prop where
  fresh : r.IsFresh
  unstopped : ∀ v, r.server = some v → v.IsUnstopped
  apart : ∀ p wait since, q = .waiting p wait since → p.IsApart → p ≠ .parked → r.server = none
  onServer : ∀ step p wait since, q = .waiting (.onServer step p) wait since → p.concern ≠ .stop

theorem StepTurn.poised (h : StepTurn w r step t u) (hf : r.IsFresh) (hs : r.server ≠ none)
    (hu : t.server.IsUnstopped) (ht : ∀ p wait, t.outcome = .paused p wait → p.concern ≠ .stop)
    (now : Seconds) : Poised u.run (u.outcome.state now) := by
  obtain ⟨v, p, ps, hr, hk⟩ := h.frame
  have waits {q : Point} {wait : Wait} {since : Seconds}
      (hq : u.outcome.state now = .waiting q wait since) :
      q = .parked ∨ ∃ step p, q = .onServer step p ∧ p.concern ≠ .stop := by
    cases ho : u.outcome with
    | paused q' wait' =>
      rw [ho] at hq
      cases hq
      exact h.paused ht ho
    | returned code => rw [ho] at hq; cases hq
    | raised f => rw [ho] at hq; cases hq
  constructor
  · constructor
    · rw [hr]
      exact hf.done
    · rw [hr]
      exact hf.turns
    · rw [hr]
      obtain ⟨v', hv'⟩ := Option.ne_none_iff_exists'.mp hs
      simpa [hv'] using hf.callback
  · intro v' hv
    rw [hr] at hv
    cases hv
    exact hu.of_keeps hk
  · intro q wait since hq ha hp
    rcases waits hq with hq | ⟨step, p, hq, -⟩
    · exact absurd hq hp
    · exact absurd hq (ha step p)
  · intro step p wait since hq
    rcases waits hq with hq | ⟨step', p', hq, hc⟩
    · cases hq
    · cases hq
      exact hc

/-- A run without a server whose sequence does not wait for one. -/
theorem poised_of_none (hf : u.run.IsFresh) (hs : u.run.server = none)
    (ho : ∀ step p wait, u.outcome ≠ .paused (.onServer step p) wait) (now : Seconds) :
    Poised u.run (u.outcome.state now) where
  fresh := hf
  unstopped v hv := by
    rw [hs] at hv
    cases hv
  apart _ _ _ _ _ _ := hs
  onServer step p wait since h := by
    cases hu : u.outcome with
    | paused q wait' =>
      rw [hu] at h
      cases h
      exact absurd hu (ho step p wait)
    | returned code => rw [hu] at h; cases h
    | raised f => rw [hu] at h; cases h

theorem InstallTurn.poised {i : Installation} (h : InstallTurn r w i u) (hf : r.IsFresh)
    (hs : r.server = none) (now : Seconds) : Poised u.run (u.outcome.state now) := by
  cases h with
  | lacks => exact poised_of_none hf hs (by simp) now
  | parks => exact poised_of_none hf hs (by simp) now
  | creates => exact poised_of_none ⟨hf.done, hf.turns, hf.callback⟩ hs (by simp) now

/-- A turn of the sequence keeps a run poised. -/
theorem AnswerTurn.poised {p : Point} {wait : Wait} {since : Seconds} {a : Answer}
    (h : AnswerTurn r w p a u) (hp : Poised r (.waiting p wait since)) (now : Seconds) :
    Poised u.run (u.outcome.state now) := by
  have hf := hp.fresh
  have none (ha : p.IsApart) (hq : p ≠ .parked) : r.server = none := hp.apart _ _ _ rfl ha hq
  cases h with
  | cancelled | failed =>
    exact ⟨hf, hp.unstopped, fun _ _ _ h => (by cases h), fun _ _ _ _ h => (by cases h)⟩
  | missing => exact poised_of_none hf (none (by simp [Point.IsApart]) (by simp)) (by simp) now
  | foundParks =>
    exact poised_of_none ⟨hf.done, hf.turns, hf.callback⟩
      (none (by simp [Point.IsApart]) (by simp)) (by simp) now
  | found =>
    exact poised_of_none ⟨hf.done, hf.turns, hf.callback⟩
      (none (by simp [Point.IsApart]) (by simp)) (by simp) now
  | homeParks => exact poised_of_none hf (none (by simp [Point.IsApart]) (by simp)) (by simp) now
  | homeAsks =>
    exact poised_of_none ⟨hf.done, hf.turns, hf.callback⟩
      (none (by simp [Point.IsApart]) (by simp)) (by simp) now
  | homeInstalls ht ha hu =>
    exact hu.poised (r := r.enter .validating) ⟨hf.done, hf.turns, hf.callback⟩
      (none (by simp [Point.IsApart]) (by simp)) now
  | environment hu => exact hu.poised hf (none (by simp [Point.IsApart]) (by simp)) now
  | @created i u hu =>
    refine hu.poised ⟨?_, ?_, ?_⟩ (by simp) ⟨rfl, rfl, by simp [Server.start, newServer]⟩ ?_ now
    · simp [Shutdown.attach, hf.done]
    · simp [Shutdown.attach, hf.done, hf.turns]
    · simp [Shutdown.attach, hf.done]
    · intro p wait hp
      cases hp
      simp [Server.Point.concern]
  | @onServer step p a b v t u hb hv ht hu =>
    have hc := hp.onServer step p _ _ rfl
    obtain ⟨hk, hw⟩ := Server.nextTurn?_keeps hc ht
    refine hu.poised hf (by simp [hv]) ((hp.unstopped v hv).of_keeps hk) ?_ now
    intro q wait hq
    rw [hw q wait hq]
    exact hc

/-- What a turn of a run leaves as it is: what the run is given, and what is known of requests to
terminate it. -/
structure Keeps (r s : Run) : Prop where
  settings : s.settings = r.settings
  cwd : s.cwd = r.cwd
  rounding : s.rounding = r.rounding
  begun : s.begun = r.begun
  terminated : s.terminated = r.terminated
  interrupted : s.interrupted = r.interrupted

theorem Keeps.refl (r : Run) : Keeps r r := ⟨rfl, rfl, rfl, rfl, rfl, rfl⟩

theorem StepTurn.keeps (h : StepTurn w r step t u) : Keeps r u.run := by
  obtain ⟨v, p, ps, hr, -⟩ := h.frame
  rw [hr]
  exact ⟨rfl, rfl, rfl, rfl, rfl, rfl⟩

theorem InstallTurn.keeps {i : Installation} (h : InstallTurn r w i u) : Keeps r u.run := by
  cases h <;> exact ⟨rfl, rfl, rfl, rfl, rfl, rfl⟩

theorem AnswerTurn.keeps {p : Point} {a : Answer} (h : AnswerTurn r w p a u) : Keeps r u.run := by
  cases h with
  | homeInstalls ht ha hu =>
    obtain ⟨h1, h2, h3, h4, h5, h6⟩ := hu.keeps
    exact ⟨h1, h2, h3, h4, h5, h6⟩
  | environment hu => exact hu.keeps
  | created hu =>
    obtain ⟨h1, h2, h3, h4, h5, h6⟩ := hu.keeps
    exact ⟨h1, h2, h3, h4, h5, h6⟩
  | onServer hb hv ht hu => exact hu.keeps
  | _ => exact ⟨rfl, rfl, rfl, rfl, rfl, rfl⟩

theorem ShutdownTurn.keeps {ending : Ending} {x : SupervisorTurn} (h : ShutdownTurn r ending x) :
    Keeps r x.run := by
  cases h <;> exact ⟨rfl, rfl, rfl, rfl, rfl, rfl⟩

theorem failed_keeps (r : Run) (f : Failure) : Keeps r (r.failed f) := by
  cases f <;> exact ⟨rfl, rfl, rfl, rfl, rfl, rfl⟩

end

namespace System

variable {s u : System} {m : Move}

/-- What a run keeps to at all times: before its shutdown it is poised, its sequence is over by the
time that the shutdown begins, the sequence is cancelled only for a termination that was requested,
and the stop of the server is not cancelled. -/
structure Sound (s : System) : Prop where
  begun : s.run.begun = true
  requested : s.run.terminated = s.run.interrupted.isSome
  watched : ∀ p wait since, s.sequence = .waiting p wait since →
    s.supervisor = .watching .watching ∨ ∃ q, s.supervisor = .watching (.cancelling q)
  cancelling : ∀ q, s.supervisor = .watching (.cancelling q) →
    s.run.terminated = true ∧ q = s.run.interrupted
  poised : ∀ p, s.supervisor = .watching p → Poised s.run s.sequence
  stopping : ∀ ending p wait since, s.supervisor = .stopping (.shuttingDown ending p) wait since →
    p.concern = .stop ∧ p.interrupted = false

theorem sound_ofRun (settings : Settings) (cwd : Path) (rounding : Seconds → Seconds)
    (isDirectory : Path → Bool) : Sound (.ofRun { settings, cwd, rounding } isDirectory) where
  begun := rfl
  requested := rfl
  watched _ _ _ _ := .inl rfl
  cancelling _ h := by cases h
  poised _ _ := by
    refine ⟨⟨rfl, rfl, rfl⟩, ?_, fun _ _ _ _ _ _ => rfl, ?_⟩
    · intro v hv
      cases hv
    · intro step p wait since h
      cases h
  stopping _ _ _ _ h := by cases h

/-- A move that leaves the two activities where they are keeps a run sound. -/
theorem Sound.of_idle (h : Sound s) (hb : u.run.begun = true)
    (hr : u.run.terminated = u.run.interrupted.isSome)
    (hk : s.run.terminated = true → u.run.terminated = true ∧ u.run.interrupted = s.run.interrupted)
    (hq : u.sequence = s.sequence) (hv : u.supervisor = s.supervisor)
    (hf : s.run.IsFresh → u.run.IsFresh)
    (hn : s.run.server = none → u.run.server = none)
    (hi : (∀ v, s.run.server = some v → v.IsUnstopped) →
      ∀ v, u.run.server = some v → v.IsUnstopped) :
    Sound u where
  begun := hb
  requested := hr
  watched := by
    rw [hq, hv]
    exact h.watched
  cancelling q hc := by
    rw [hv] at hc
    obtain ⟨h1, h2⟩ := h.cancelling q hc
    obtain ⟨h3, h4⟩ := hk h1
    exact ⟨h3, h2.trans h4.symm⟩
  poised p hp := by
    rw [hv] at hp
    obtain ⟨h1, h2, h3, h4⟩ := h.poised p hp
    rw [hq]
    exact ⟨hf h1, hi h2, fun p w since hw ha hp => hn (h3 p w since hw ha hp), h4⟩
  stopping := by
    rw [hv]
    exact h.stopping

/-- A turn of the supervisor that shuts the run down, after the sequence has ended. -/
theorem Sound.of_shutdownTurn (h : Sound s) {ending : Ending} {t : SupervisorTurn}
    (ht : ShutdownTurn s.run ending t) (hs : ∀ p wait since, s.sequence ≠ .waiting p wait since)
    (hr : u.run = t.run) (hq : u.sequence = s.sequence)
    (hv : u.supervisor = t.outcome.state s.now) : Sound u := by
  have hk := ht.keeps
  have late {p : SupervisorPoint} : u.supervisor ≠ .watching p := by
    rw [hv]
    cases ht <;> simp [SupervisorOutcome.state]
  constructor
  · rw [hr, hk.begun]
    exact h.begun
  · rw [hr, hk.terminated, hk.interrupted]
    exact h.requested
  · intro p wait since hw
    rw [hq] at hw
    exact absurd hw (hs p wait since)
  · intro q hq
    exact absurd hq late
  · intro p hp
    exact absurd hp late
  · intro e p wait since hp
    rw [hv] at hp
    cases ht with
    | waits hc hi =>
      cases hp
      exact ⟨hc, hi⟩
    | ends => cases hp

/-- The sequence has ended when the supervisor does not watch it any more. -/
theorem Sound.ended (h : Sound s) (hw : s.supervisor ≠ .watching .watching)
    (hc : ∀ q, s.supervisor ≠ .watching (.cancelling q)) :
    ∀ p wait since, s.sequence ≠ .waiting p wait since := by
  intro p wait since hs
  rcases h.watched p wait since hs with hv | ⟨q, hv⟩
  · exact hw hv
  · exact hc q hv

/-- A failure is noted when the sequence has ended, and the supervisor ends its watch. -/
theorem Sound.of_fail (h : Sound s) {p : SupervisorPoint} (hp : s.supervisor = .watching p)
    {result : Except Failure (Option Int)} (hs : s.sequence = .ended result) {f : Failure}
    (hr : u.run = s.run.failed f) (hq : u.sequence = s.sequence)
    (hv : u.supervisor = .watching (.settling (.raised f))) : Sound u := by
  have hk := failed_keeps s.run f
  obtain ⟨h1, h2, h3, h4⟩ := h.poised p hp
  constructor
  · rw [hr, hk.begun]
    exact h.begun
  · rw [hr, hk.terminated, hk.interrupted]
    exact h.requested
  · intro p wait since hw
    rw [hq, hs] at hw
    cases hw
  · intro q hq
    rw [hv] at hq
    cases hq
  · intro q _
    have hf : (s.run.failed f).server = s.run.server ∧
        (s.run.failed f).shutdown = s.run.shutdown := by cases f <;> exact ⟨rfl, rfl⟩
    rw [hq, hr]
    refine ⟨⟨?_, ?_, ?_⟩, ?_, ?_, h4⟩
    · rw [hf.2]
      exact h1.done
    · rw [hf.2]
      exact h1.turns
    · rw [hf.1, hf.2]
      exact h1.callback
    · rw [hf.1]
      exact h2
    · rw [hf.1]
      exact h3
  · intro e p wait since hp
    rw [hv] at hp
    cases hp

/-- The stop of the server goes on with each of its answers. -/
theorem Sound.stopTurn (h : Sound s) {ending : Ending} {p : Server.Point} {wait : Server.Wait}
    {since : Seconds} (hs : s.supervisor = .stopping (.shuttingDown ending p) wait since)
    {a : Server.Answer} (ha : s.admitsServer wait since a = true) {v : Server} {t : Server.Turn}
    (ht : v.nextTurn? s.surroundings.toSurroundings supervisorId p a = some t) :
    ∃ previous, p.previous? = some previous ∧ v.StopTurn previous false t := by
  obtain ⟨hc, hi⟩ := h.stopping _ _ _ _ hs
  obtain ⟨previous, hp⟩ := Server.Point.previous?_of_concern hc
  have hne := ne_cancelled_of_admitsServer ha
  rcases Server.nextTurn?_stop hp ht with ⟨interrupted, hin, hst⟩ | ⟨hca, -⟩
  · rw [hin hne, hi] at hst
    exact ⟨previous, hp, hst⟩
  · exact absurd hca hne

/-- The stop of the server goes on to shut the run down. -/
theorem Sound.shutdownTurn (h : Sound s) {ending : Ending} {p : Server.Point}
    {wait : Server.Wait} {since : Seconds}
    (hs : s.supervisor = .stopping (.shuttingDown ending p) wait since) {a : Server.Answer}
    (ha : s.admitsServer wait since a = true) {v : Server} {t : Server.Turn}
    (ht : v.nextTurn? s.surroundings.toSurroundings supervisorId p a = some t) :
    ShutdownTurn s.run ending (s.run.afterStopTurn ending t) := by
  obtain ⟨previous, -, hst⟩ := h.stopTurn hs ha ht
  exact shutdownTurn_of_stopTurn (r := s.run) hst rfl

/-- A turn of the sequence keeps a run sound. -/
theorem Sound.of_answer (h : Sound s) {p : Point} {wait : Wait} {since : Seconds}
    (hs : s.sequence = .waiting p wait since) {a : Answer} {t : Turn}
    (ht : AnswerTurn s.run s.surroundings p a t) : Sound ((s.record (.answered a)).take t) := by
  have hk := ht.keeps
  constructor
  · rw [take_run, hk.begun]
    exact h.begun
  · rw [take_run, hk.terminated, hk.interrupted]
    exact h.requested
  · intro _ _ _ _
    rw [take_supervisor]
    exact h.watched p wait since hs
  · intro q hq
    rw [take_supervisor] at hq
    rw [take_run, hk.terminated, hk.interrupted]
    exact h.cancelling q hq
  · intro q hq
    rw [take_supervisor] at hq
    rw [take_run, take_sequence]
    exact ht.poised (hs ▸ h.poised q hq) _
  · intro e q wait since hq
    rw [take_supervisor] at hq
    exact h.stopping e q wait since hq

/-- The supervisor cancels the sequence for a request. -/
theorem Sound.of_cancel (h : Sound s) (hp : s.supervisor = .watching .watching)
    (ht : s.run.terminated = true) :
    Sound ((s.record .noticed).takeSupervisor
      ⟨s.run, [], .cancelSequence (.cancelling (some (s.run.interrupted.getD s.run.phase)))⟩) := by
  have hr := h.requested
  rw [ht] at hr
  obtain ⟨q, hq⟩ := Option.isSome_iff_exists.mp hr.symm
  constructor
  · simpa using h.begun
  · simpa using h.requested
  · intro _ _ _ _
    rw [takeSupervisor_supervisor]
    exact .inr ⟨_, rfl⟩
  · intro q' hq'
    simp only [takeSupervisor_supervisor, SupervisorOutcome.state,
      SupervisorState.watching.injEq, SupervisorPoint.cancelling.injEq] at hq'
    rw [takeSupervisor_run]
    exact ⟨ht, by rw [← hq', hq]; rfl⟩
  · intro q' _
    simpa using h.poised _ hp
  · intro e q wait since hq
    simp [SupervisorOutcome.state] at hq

theorem Sound.of_noticeTurn (h : Sound s) {x : SupervisorTurn} (hx : NoticeTurn s x) :
    Sound ((s.record .noticed).takeSupervisor x) := by
  cases hx with
  | @fails result hp hs =>
    obtain ⟨es, -, he⟩ := fail_eq s.run (failureOf result)
    exact h.of_fail hp hs (f := failureOf result) (by simp [he]) (by simp)
      (by simp [he, SupervisorOutcome.state])
  | @failsLate f p hp hs hf =>
    obtain ⟨es, -, he⟩ := fail_eq s.run f
    exact h.of_fail hp hs (f := f) (by simp [he]) (by simp) (by simp [he, SupervisorOutcome.state])
  | cancels hp hs ht => exact h.of_cancel hp ht
  | @interrupts p result hp hs hr =>
    have ht := (h.poised _ hp).fresh.interrupt s.surroundings p
    exact h.of_shutdownTurn ht (by simp [hs]) (by simp) (by simp) (by simp)
  | @abandons result hp hs =>
    have ht := (h.poised _ hp).fresh.shutDown s.surroundings (.raised .cancelled)
    exact h.of_shutdownTurn ht (by simp [hs]) (by simp) (by simp) (by simp)
  | @settles ending hp =>
    have ht := (h.poised _ hp).fresh.shutDown s.surroundings ending
    exact h.of_shutdownTurn ht (h.ended (by simp [hp]) (by simp [hp])) (by simp) (by simp) (by simp)

/-- Each move keeps a run sound. -/
theorem Sound.of_step? (h : Sound s) (hm : s.step? m = some u) : Sound u := by
  cases moved_of_step? hm with
  | answer hs ha ht => exact h.of_answer hs ht
  | notice ht => exact h.of_noticeTurn ht
  | @stopAnswer a ending p wait since v t hs ha hv ht =>
    have ht := h.shutdownTurn hs ha ht
    exact h.of_shutdownTurn ht (h.ended (by simp [hs]) (by simp [hs])) (by simp) (by simp) (by simp)
  | request =>
    unfold requestTermination
    split
    · rename_i hn
      refine h.of_idle h.begun rfl (fun ht => ?_) (by simp) (by simp) ?_ ?_ ?_
      · simp [ht] at hn
      · exact fun hf => ⟨hf.done, hf.turns, hf.callback⟩
      · exact fun hn => hn
      · exact fun hi => hi
    · exact h.of_idle h.begun h.requested (fun ht => ⟨ht, rfl⟩) (by simp) (by simp) (fun hf => hf)
        (fun hn => hn) (fun hi => hi)
  | @exit code v hv hc he =>
    refine h.of_idle h.begun h.requested (fun ht => ⟨ht, rfl⟩) rfl rfl ?_ ?_ ?_
    · intro hf
      have hcb := hf.callback
      rw [hv] at hcb
      exact ⟨hf.done, hf.turns, hcb⟩
    · intro hn
      rw [hv] at hn
      cases hn
    · intro hi v' hv'
      cases hv'
      exact ⟨(hi v hv).stopping, (hi v hv).released, (hi v hv).state⟩
  | time ha hr now refusal hf =>
    exact h.of_idle h.begun h.requested (fun ht => ⟨ht, rfl⟩) rfl rfl (fun hf => hf) (fun hn => hn)
      (fun hi => hi)

theorem Sound.of_reaches {ms : List Move} (h : Sound s) (hr : Reaches s ms u) : Sound u :=
  hr.keeps h fun _ _ _ hm hs => hs.of_step? hm.step

/-- What the moves of a sound run keep holds at its end. -/
theorem Sound.keeps {P : System → Prop} {ms : List Move} (h : Sound s) (hr : Reaches s ms u)
    (hs : P s) (hm : ∀ t m v, Makes step? s ms t m v → Sound t → P t → P v) : P u := by
  have hu : Sound u ∧ P u := by
    refine Leads.keeps (P := fun s => Sound s ∧ P s) hr ⟨h, hs⟩ fun t m v hv ht => ?_
    exact ⟨ht.1.of_step? hv.step, hm t m v hv ht.1 ht.2⟩
  exact hu.2

end System

end Run

end ServerRun
