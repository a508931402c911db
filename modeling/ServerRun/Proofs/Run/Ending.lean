import Mathlib.Tactic.Linarith
import ServerRun.Proofs.Run.Service

/-! Whether a run can come to its end. There are moves that lead on from whatever it waits for: whom
the sequence waits for may fail, a sequence that has ended is noticed by the supervisor, and a stop
of the server comes to its end when its child dies and what it asks for is done. The one exception
is a sequence that is parked and was cancelled when it waited elsewhere: it was not told then, it is
not told again, and nothing else wakes it. -/

namespace ServerRun

namespace Server

/-- How many waits a stop has before it at the most, at a point where it waits. -/
def Point.stopRank : Point → Nat
  | .askingShutdown _ => 3
  | .awaitingDeath .. => 2
  | .closing .. => 1
  | _ => 0

section

variable {s : Server} {w : Surroundings} {id : Nat}

/-- Whom a call waits for may crash, and the call ends with it, unless it sleeps or waits for its
turn or for the child. -/
theorem nextTurn?_crash {p : Point} (hp : p.concern = .startup ∨ p.concern = .work)
    (hs : ∀ since, p ≠ .sleeping since) (ht : ∀ work, p ≠ .awaitingTurn work) (message : String) :
    ∃ t f, s.nextTurn? w id p (.failed (.crash message)) = some t ∧ t.outcome = .raised f := by
  cases p <;> simp [Point.concern] at hp hs ht <;> exact ⟨_, _, rfl, rfl⟩

theorem drain_rank {previous : State} {interrupted : Bool} {p : Point} {wait : Wait}
    (h : (s.drain previous interrupted).outcome = .paused p wait) : p.stopRank = 0 := by
  unfold drain at h
  split at h
  · cases h
    rfl
  · exact absurd h (stopDone_ends previous interrupted p wait)

theorem release_rank {previous : State} {interrupted : Bool} {p : Point} {wait : Wait}
    (h : (s.release previous interrupted).outcome = .paused p wait) : p.stopRank < 2 := by
  simp only [release] at h
  split at h
  · cases h
    exact Nat.one_lt_two
  · rw [drain_rank h]
    exact Nat.two_pos

/-- A stop whose child is dead goes on to a later wait, or ends. -/
theorem nextTurn?_stop_goesOn {p : Point} {code : Int} (hp : p.concern = .stop) :
    ∃ a t, (a = .done ∨ a = .exited code) ∧ s.nextTurn? w id p a = some t ∧
      ∀ q wait, t.outcome = .paused q wait → q.stopRank < p.stopRank := by
  cases p with
  | askingShutdown previous =>
    refine ⟨.done, _, .inl rfl, rfl, fun q wait hq => ?_⟩
    cases hq
    exact Nat.lt_succ_self 2
  | awaitingDeath previous left =>
    exact ⟨.exited code, _, .inr rfl, rfl, fun q wait hq => release_rank hq⟩
  | closing previous interrupted =>
    refine ⟨.done, _, .inl rfl, rfl, fun q wait hq => ?_⟩
    rw [drain_rank hq]
    exact Nat.one_pos
  | draining previous interrupted =>
    exact ⟨.done, _, .inl rfl, rfl, fun q wait hq =>
      absurd hq (stopDone_ends previous interrupted q wait)⟩
  | _ => cases hp

end

end Server

namespace Run

section

variable {r : Run} {w : Surroundings} {u : Turn}

/-- Whom the sequence waits for may fail, unless it is parked. -/
theorem nextTurn?_failed {p : Point} (hp : p.IsApart) (hn : p ≠ .parked) (f : Failure) :
    r.nextTurn? w p (.failed f) = some ⟨r, [], .raised f⟩ := by
  cases p with
  | parked => exact absurd rfl hn
  | onServer step point => exact absurd rfl (hp step point)
  | _ => rfl

/-- A shutdown that waits for a stop has a child to stop. -/
theorem IsFresh.child_of_shutDown (h : r.IsFresh) {ending e : Ending} {p : Server.Point}
    {wait : Server.Wait}
    (ho : (r.shutDown w ending).outcome = .shuttingDown (.shuttingDown e p) wait) :
    ∃ v, (r.shutDown w ending).run.server = some v ∧ v.child ≠ none := by
  cases hs : r.server with
  | none =>
    obtain ⟨k, -, hk⟩ : ∃ k, k.callback = r.shutdown.callback ∧
        r.shutDown w ending = ⟨{ r with shutdown := k }.enter .shutDown,
          [.unregistered, .entered .shutDown], .ended ending⟩ := shutDown_of_none h hs
    rw [hk] at ho
    cases ho
  | some v =>
    obtain ⟨k, -, hk⟩ : ∃ k, k.callback = r.shutdown.callback ∧ r.shutDown w ending =
        ({ r with shutdown := k }.afterStopTurn ending
          (v.firstTurn w.toSurroundings supervisorId .stop)).after [.callbackEntered] :=
      shutDown_of_some h hs
    rw [hk] at ho ⊢
    by_cases ha : v.StopActs
    · have ht : Server.StopTurn v.stopBegun v.state false
          (v.firstTurn w.toSurroundings supervisorId .stop) := Server.firstTurn_stop ha
      generalize v.firstTurn w.toSurroundings supervisorId .stop = t at ht ho ⊢
      cases ht with
      | waits released hp hi =>
        rw [afterStopTurn_of_paused rfl]
        exact ⟨_, rfl, ha.2.2.1⟩
      | ends released =>
        rw [afterStopTurn_of_returned rfl] at ho
        cases ho
    · rw [Server.firstTurn_stop_idle ha, afterStopTurn_of_returned rfl] at ho
      cases ho

end

namespace System

variable {s u : System} {m : Move}

/-- The run has ended. -/
def HasEnded (s : System) : Prop := ∃ ending, s.supervisor = .ended ending

/-- Some moves lead to the end of a run. -/
abbrev CanEnd (s : System) : Prop := CanLead step? (fun _ _ => True) HasEnded s

/-- What a run keeps to so that it can go on: its supervisor stops a server only when there is a
child to stop, and its sequence waits for others, or for a server that serves it. -/
structure GoesOn (s : System) : Prop where
  watching : ∀ ending p, s.supervisor ≠ .watching (.shuttingDown ending p)
  stopping : ∀ q wait since, s.supervisor = .stopping q wait since →
    ∃ ending p v, q = .shuttingDown ending p ∧ s.run.server = some v ∧ v.child ≠ none
  awaits : ∀ p wait since, s.sequence = .waiting p wait since → s.run.Awaits p wait

theorem goesOn_ofRun (settings : Settings) (cwd : Path) (rounding : Seconds → Seconds)
    (isDirectory : Path → Bool) : GoesOn (.ofRun { settings, cwd, rounding } isDirectory) where
  watching _ _ h := by cases h
  stopping _ _ _ h := by cases h
  awaits p wait since h := by
    cases h
    exact .others (fun _ _ h => by cases h) (by simp) (by simp)

/-- A turn of the supervisor that shuts the run down. -/
theorem goesOn_of_shutdownTurn {e : Event} {ending : Ending} {x : SupervisorTurn}
    (hx : ShutdownTurn s.run ending x)
    (hs : ∀ p wait since, s.sequence ≠ .waiting p wait since)
    (hc : ∀ e p wait, x.outcome = .shuttingDown (.shuttingDown e p) wait →
      ∃ v, x.run.server = some v ∧ v.child ≠ none) :
    GoesOn ((s.record e).takeSupervisor x) := by
  constructor
  · intro ending' p hp
    rw [takeSupervisor_supervisor] at hp
    cases hx <;> cases hp
  · intro q wait since hq
    rw [takeSupervisor_supervisor] at hq
    rw [takeSupervisor_run]
    cases hx with
    | waits hp hi hk he =>
      cases hq
      obtain ⟨v, hv, hn⟩ := hc _ _ _ rfl
      exact ⟨_, _, v, rfl, hv, hn⟩
    | ends => cases hq
  · intro p wait since hp
    rw [takeSupervisor_sequence] at hp
    exact absurd hp (hs p wait since)

/-- A turn of the supervisor after which it watches. -/
theorem GoesOn.of_watching (h : GoesOn s) {x : SupervisorTurn} {p : SupervisorPoint}
    (hx : x.run.server = s.run.server) (ho : x.outcome.state s.now = .watching p)
    (hp : ∀ ending q, p ≠ .shuttingDown ending q) :
    GoesOn ((s.record .noticed).takeSupervisor x) := by
  have hu : ((s.record .noticed).takeSupervisor x).supervisor = .watching p := by
    rw [takeSupervisor_supervisor]
    exact ho
  constructor
  · intro ending q hq
    rw [hu, SupervisorState.watching.injEq] at hq
    exact hp ending q hq
  · intro q wait since hq
    rw [hu] at hq
    cases hq
  · intro q wait since hq
    rw [takeSupervisor_sequence] at hq
    rw [takeSupervisor_run]
    exact (h.awaits q wait since hq).of_server hx

theorem GoesOn.of_fail (h : GoesOn s) (f : Failure) :
    GoesOn ((s.record .noticed).takeSupervisor (s.run.fail f)) := by
  obtain ⟨es, -, he⟩ := fail_eq s.run f
  refine h.of_watching (p := .settling (.raised f)) ?_ (by rw [he]; rfl) (by simp)
  cases f <;> rfl

theorem goesOn_step (hs : Sound s) (h : GoesOn s) (hm : s.step? m = some u) : GoesOn u := by
  have idle {u : System} (hq : u.sequence = s.sequence) (hv : u.supervisor = s.supervisor)
      (hr : ∀ v, s.run.server = some v →
        ∃ v', u.run.server = some v' ∧ (v.child ≠ none → v'.child ≠ none))
      (hw : ∀ p wait, s.run.Awaits p wait → u.run.Awaits p wait) : GoesOn u := by
    constructor
    · rw [hv]
      exact h.watching
    · intro q wait since hst
      rw [hv] at hst
      obtain ⟨ending, p, v, hp, hv', hc⟩ := h.stopping q wait since hst
      obtain ⟨v', hu, hk⟩ := hr v hv'
      exact ⟨ending, p, v', hp, hu, hk hc⟩
    · intro p wait since hp
      rw [hq] at hp
      exact hw p wait (h.awaits p wait since hp)
  cases moved_of_step? hm with
  | @answer a p wait since t hq ha ht =>
    have hv : ∀ q wait since, s.supervisor ≠ .stopping q wait since := by
      intro q wait' since' hst
      rcases hs.watched p wait since hq with hv | ⟨q, hv⟩ <;> rw [hv] at hst <;> cases hst
    constructor
    · rw [take_supervisor]
      exact h.watching
    · intro q wait since hst
      rw [take_supervisor] at hst
      exact absurd hst (hv q wait since)
    · intro q wait' since' hw
      rw [take_sequence] at hw
      rw [take_run]
      have hpaused : t.outcome = .paused q wait' := by
        cases ho : t.outcome <;> rw [ho] at hw <;> cases hw
        rfl
      exact ht.awaits (h.awaits p wait since hq) hpaused
  | notice ht =>
    cases ht with
    | @fails result hp hq => exact h.of_fail _
    | @failsLate f p hp hq hf => exact h.of_fail f
    | cancels hp hq ht => exact h.of_watching rfl rfl (by simp)
    | @interrupts p result hp hq hr =>
      have hf := (hs.poised _ hp).fresh
      refine goesOn_of_shutdownTurn (hf.interrupt s.surroundings p) (by simp [hq]) ?_
      unfold Run.interrupt
      split
      · exact fun _ _ _ => hf.child_of_shutDown
      · exact fun _ _ _ => hf.child_of_shutDown
    | @abandons result hp hq =>
      have hf := (hs.poised _ hp).fresh
      exact goesOn_of_shutdownTurn (hf.shutDown s.surroundings _) (by simp [hq])
        fun _ _ _ => hf.child_of_shutDown
    | @settles ending hp =>
      have hf := (hs.poised _ hp).fresh
      exact goesOn_of_shutdownTurn (hf.shutDown s.surroundings ending)
        (hs.ended (by simp [hp]) (by simp [hp])) fun _ _ _ => hf.child_of_shutDown
  | @stopAnswer a ending p wait since v t hp ha hv ht =>
    obtain ⟨previous, -, hst⟩ := hs.stopTurn hp ha ht
    obtain ⟨-, -, v', -, hv', hc⟩ := h.stopping _ _ _ hp
    rw [hv, Option.some.injEq] at hv'
    subst hv'
    have he := hs.ended (by simp [hp]) (by simp [hp])
    refine goesOn_of_shutdownTurn (hs.shutdownTurn hp ha ht) he
      fun e q wait' ho => ?_
    cases hst with
    | waits released hq hi =>
      rw [afterStopTurn_of_paused rfl]
      exact ⟨_, rfl, hc⟩
    | ends released =>
      rw [afterStopTurn_of_returned rfl] at ho
      cases ho
  | request =>
    have hv : s.run.requestTermination.1.server = s.run.server := by
      unfold requestTermination
      split <;> rfl
    refine idle (by simp) (by simp) (fun v hs => ⟨v, ?_, fun hc => hc⟩) fun p wait hw => ?_
    · simpa [hv] using hs
    · exact hw.of_server (by simpa using hv)
  | @exit code v hv hc he =>
    refine idle rfl rfl (fun v' hv' => ⟨v.withExit code, rfl, fun _ => ?_⟩) fun p wait hw => ?_
    · simpa [Server.withExit] using hc
    · cases hw with
      | parked => exact .parked
      | others hp hn hw => exact .others hp hn hw
      | onServer hv' hs =>
        rw [hv, Option.some.injEq] at hv'
        subst hv'
        exact .onServer rfl (hs.withExit code)
  | time => exact idle rfl rfl (fun v hv => ⟨v, hv, fun hc => hc⟩) fun _ _ hw => hw

/-! ### moves that lead on -/

theorem step?_answer {p : Point} {wait : Wait} {since : Seconds} {a : Answer} {t : Turn}
    (hs : s.sequence = .waiting p wait since) (ha : s.admits since wait a = true)
    (ht : s.run.nextTurn? s.surroundings p a = some t) :
    s.step? (.answer a) = some ((s.record (.answered a)).take t) := by
  simp [step?, hs, ha, ht]

theorem step?_notice {p : SupervisorPoint} {n : News} {x : SupervisorTurn}
    (hp : s.supervisor = .watching p) (hb : s.isBusy = false) (hn : s.news? p = some n)
    (hx : s.run.supervise? s.surroundings p n = some x) :
    s.step? .notice = some ((s.record .noticed).takeSupervisor x) := by
  simp [step?, hp, hb, hn, hx]

theorem step?_stopAnswer {ending : Ending} {p : Server.Point} {wait : Server.Wait}
    {since : Seconds} {a : Server.Answer} {v : Server} {t : Server.Turn}
    (hp : s.supervisor = .stopping (.shuttingDown ending p) wait since)
    (ha : s.admitsServer wait since a = true) (hv : s.run.server = some v)
    (ht : v.nextTurn? s.surroundings.toSurroundings supervisorId p a = some t) :
    s.step? (.stopAnswer a) =
      some ((s.record (.stopAnswered a)).takeSupervisor (s.run.afterStopTurn ending t)) := by
  cases a with
  | cancelled => simp [admitsServer] at ha
  | _ => simp [step?, hp, ha, supervise?, hv, ht]

/-- A run that stops a server whose child is dead can end. -/
theorem canEnd_of_exited {ending : Ending} {p : Server.Point} {wait : Server.Wait}
    {since : Seconds} {v : Server} {code : Int} (h : Sound s)
    (hp : s.supervisor = .stopping (.shuttingDown ending p) wait since)
    (hv : s.run.server = some v) (he : v.exitCode? = some code) : s.CanEnd := by
  induction hn : p.stopRank using Nat.strongRecOn generalizing s p wait since v with
  | ind n ih =>
    subst hn
    obtain ⟨hstop, -⟩ := h.stopping _ _ _ _ hp
    obtain ⟨a, t, ha, ht, hlt⟩ : ∃ a t, (a = .done ∨ a = .exited code) ∧
        v.nextTurn? s.surroundings.toSurroundings supervisorId p a = some t ∧
        ∀ q wait, t.outcome = .paused q wait → q.stopRank < p.stopRank :=
      Server.nextTurn?_stop_goesOn hstop
    have hadm : s.admitsServer wait since a = true := by
      rcases ha with rfl | rfl
      · rfl
      · simp [admitsServer, hv, he]
    have hstep := step?_stopAnswer hp hadm hv ht
    refine CanLead.of_step? ?_ hstep trivial
    have hsound := h.of_step? hstep
    obtain ⟨previous, -, hst⟩ := h.stopTurn hp hadm ht
    cases hst with
    | @waits released effects q wait' hq hi =>
      rw [afterStopTurn_of_paused rfl] at hsound ⊢
      exact ih _ (hlt q wait' rfl) (v := { v with released }) hsound
        (by rw [takeSupervisor_supervisor]; rfl) (by rw [takeSupervisor_run]) he rfl
    | ends released =>
      rw [afterStopTurn_of_returned rfl]
      exact .of_goal ⟨ending, by rw [takeSupervisor_supervisor]; rfl⟩

/-- A run that stops its server can end: its child dies if it is not dead. -/
theorem canEnd_of_stopping {q : SupervisorPoint} {wait : Server.Wait} {since : Seconds}
    (h : Sound s) (hg : GoesOn s) (hq : s.supervisor = .stopping q wait since) : s.CanEnd := by
  obtain ⟨ending, p, v, rfl, hv, hc⟩ := hg.stopping _ _ _ hq
  cases he : v.exitCode? with
  | some code => exact canEnd_of_exited h hq hv he
  | none =>
    have hstep : s.step? (.exit 0) =
        some ({ s with run := { s.run with server := some (v.withExit 0) } }.record
          (.exited 0)) := by
      simp [step?, hv, he, Option.isSome_iff_ne_none.mpr hc]
    exact (canEnd_of_exited (h.of_step? hstep) hq rfl (Server.exitCode?_withExit hc 0)).of_step?
      hstep trivial

/-- A run whose shutdown begins can end. -/
theorem canEnd_of_shutdownTurn {ending : Ending} {x : SupervisorTurn} (h : Sound s)
    (hg : GoesOn s) (hm : s.step? .notice = some ((s.record .noticed).takeSupervisor x))
    (hx : ShutdownTurn s.run ending x) : s.CanEnd := by
  refine CanLead.of_step? ?_ hm trivial
  have hs := h.of_step? hm
  have hu := goesOn_step h hg hm
  cases hx with
  | waits => exact canEnd_of_stopping hs hu (by rw [takeSupervisor_supervisor]; rfl)
  | ends => exact .of_goal ⟨ending, by rw [takeSupervisor_supervisor]; rfl⟩

theorem isBusy_of_ended {result : Except Failure (Option Int)} (h : s.sequence = .ended result) :
    s.isBusy = false := by
  simp [isBusy, h]

theorem canEnd_of_settling {ending : Ending} {result : Except Failure (Option Int)} (h : Sound s)
    (hg : GoesOn s) (hs : s.sequence = .ended result)
    (hp : s.supervisor = .watching (.settling ending)) : s.CanEnd :=
  canEnd_of_shutdownTurn h hg (step?_notice hp (isBusy_of_ended hs) rfl rfl)
    ((h.poised _ hp).fresh.shutDown s.surroundings ending)

/-- A run that takes notice of a failure can end. -/
theorem canEnd_of_fail {f : Failure} {result : Except Failure (Option Int)} (h : Sound s)
    (hg : GoesOn s) (hs : s.sequence = .ended result)
    (hm : s.step? .notice = some ((s.record .noticed).takeSupervisor (s.run.fail f))) :
    s.CanEnd := by
  have hq : ((s.record .noticed).takeSupervisor (s.run.fail f)).sequence = .ended result := by
    rw [takeSupervisor_sequence, record_sequence, hs]
  have hv : ((s.record .noticed).takeSupervisor (s.run.fail f)).supervisor =
      .watching (.settling (.raised f)) := by
    obtain ⟨es, -, he⟩ := fail_eq s.run f
    rw [takeSupervisor_supervisor, he]
    rfl
  exact (canEnd_of_settling (h.of_step? hm) (goesOn_step h hg hm) hq hv).of_step? hm trivial

/-- A run whose sequence has ended can end. -/
theorem canEnd_of_ended {result : Except Failure (Option Int)} (h : Sound s) (hg : GoesOn s)
    (hs : s.sequence = .ended result) : s.CanEnd := by
  cases hv : s.supervisor with
  | ended ending => exact .of_goal ⟨ending, hv⟩
  | stopping q wait since => exact canEnd_of_stopping h hg hv
  | watching p =>
    have notice {n : News} {x : SupervisorTurn} (hn : s.news? p = some n)
        (hx : s.run.supervise? s.surroundings p n = some x) :
        s.step? .notice = some ((s.record .noticed).takeSupervisor x) :=
      step?_notice hv (isBusy_of_ended hs) hn hx
    cases p with
    | settling ending => exact canEnd_of_settling h hg hs hv
    | shuttingDown ending q => exact absurd hv (hg.watching ending q)
    | watching =>
      have hn : s.news? .watching = some (.sequenceEnded result) := by simp [news?, hs]
      cases result <;> exact canEnd_of_fail h hg hs (notice hn rfl)
    | cancelling interrupted =>
      have hn : s.news? (.cancelling interrupted) = some (.sequenceEnded result) := by
        simp [news?, hs]
      have hf := (h.poised _ hv).fresh
      cases interrupted with
      | none =>
        exact canEnd_of_shutdownTurn h hg (notice hn rfl) (hf.shutDown s.surroundings _)
      | some p =>
        have interrupts (hx : s.run.supervise? s.surroundings (.cancelling (some p))
            (.sequenceEnded result) = some (s.run.interrupt s.surroundings p)) : s.CanEnd :=
          canEnd_of_shutdownTurn h hg (notice hn hx) (hf.interrupt s.surroundings p)
        cases result with
        | ok code => exact interrupts rfl
        | error f =>
          cases f with
          | cancelled => exact interrupts rfl
          | _ => exact canEnd_of_fail h hg hs (notice hn rfl)

/-- A turn that ends the sequence of a run lets the run end. -/
theorem canEnd_of_answer {p : Point} {wait : Wait} {since : Seconds} {a : Answer} {t : Turn}
    {r : Except Failure (Option Int)} (h : Sound s) (hg : GoesOn s)
    (hs : s.sequence = .waiting p wait since) (ha : s.admits since wait a = true)
    (ht : s.run.nextTurn? s.surroundings p a = some t)
    (ho : t.outcome.state s.now = .ended r) : s.CanEnd := by
  have hm := step?_answer hs ha ht
  have hq : ((s.record (.answered a)).take t).sequence = .ended r := by
    rw [take_sequence]
    exact ho
  exact (canEnd_of_ended (h.of_step? hm) (goesOn_step h hg hm) hq).of_step? hm trivial

/-! ### a sequence that waits for its server -/

section

variable {step : Step} {p : Server.Point} {wait : Server.Wait} {since : Seconds} {v : Server}

theorem nextTurn?_onServer (hv : s.run.server = some v) {a : Server.Answer} {t : Server.Turn}
    (ht : v.nextTurn? s.surroundings.toSurroundings sequenceId p a = some t) :
    s.run.nextTurn? s.surroundings (.onServer step p) (.server a) =
      some (afterServerTurn s.surroundings step.following s.run step t) := by
  simp [Run.nextTurn?, hv, ht]

/-- A call that fails, or that is the last one, ends the sequence when it ends. -/
theorem canEnd_of_serverAnswer {a : Server.Answer} {t : Server.Turn} (h : Sound s) (hg : GoesOn s)
    (hs : s.sequence = .waiting (.onServer step p) (.server wait) since)
    (hv : s.run.server = some v) (ha : s.admitsServer wait since a = true)
    (ht : v.nextTurn? s.surroundings.toSurroundings sequenceId p a = some t)
    (ho : (∃ f, t.outcome = .raised f) ∨ step.next? = none ∧ t.Ends) : s.CanEnd := by
  have hturn : StepTurn s.surroundings s.run step t
      (afterServerTurn s.surroundings step.following s.run step t) := stepTurn_afterServerTurn ..
  have hadmits : s.admits since (.server wait) (.server a) = true := ha
  obtain ⟨result, hr⟩ : ∃ result, (afterServerTurn s.surroundings step.following s.run step
      t).outcome.state s.now = .ended result := by
    generalize afterServerTurn s.surroundings step.following s.run step t = u at hturn
    cases hturn with
    | raises | exits => exact ⟨_, rfl⟩
    | waits hp =>
      rcases ho with ⟨f, hf⟩ | ⟨-, he⟩
      · simp [hp] at hf
      · exact absurd hp (he _ _)
    | parks hr hn | goesOn hr hn =>
      rcases ho with ⟨f, hf⟩ | ⟨he, -⟩
      · simp [hr] at hf
      · simp [hn] at he
  exact canEnd_of_answer h hg hs hadmits (nextTurn?_onServer hv ht) hr

/-- Whom the sequence waits for may crash. -/
theorem canEnd_of_crash (h : Sound s) (hg : GoesOn s)
    (hs : s.sequence = .waiting (.onServer step p) (.server wait) since)
    (hv : s.run.server = some v) (hp : p.concern = .startup ∨ p.concern = .work)
    (hn : ∀ since, p ≠ .sleeping since) (hw : ∀ work, p ≠ .awaitingTurn work) : s.CanEnd := by
  obtain ⟨t, f, ht, ho⟩ : ∃ t f, v.nextTurn? s.surroundings.toSurroundings sequenceId p
      (.failed (.crash "")) = some t ∧ t.outcome = .raised f := Server.nextTurn?_crash hp hn hw ""
  exact canEnd_of_serverAnswer h hg hs hv rfl ht (.inl ⟨f, ho⟩)

/-- A sequence that sleeps between two looks at its server looks again. -/
theorem canEnd_of_sleeping {began length : Seconds} (h : Sound s) (hg : GoesOn s)
    (hs : s.sequence = .waiting (.onServer step (.sleeping began)) (.server (.sleep length)) since)
    (hv : s.run.server = some v) (hover : length ≤ s.now - since) : s.CanEnd := by
  have ha : s.admitsServer (.sleep length) since .elapsed = true := by
    simpa [admitsServer, Server.Wait.limit?, Span.reachedBy] using hover
  have ht : v.nextTurn? s.surroundings.toSurroundings sequenceId (.sleeping began) .elapsed =
      some (v.look s.surroundings.toSurroundings began) := rfl
  cases ho : (v.look s.surroundings.toSurroundings began).outcome with
  | raised f => exact canEnd_of_serverAnswer h hg hs hv ha ht (.inl ⟨f, ho⟩)
  | returned code =>
    unfold Server.look at ho
    split at ho
    · cases ho
    · split at ho <;> cases ho
  | paused p wait =>
    have hm := step?_answer (a := .server .elapsed) hs ha (nextTurn?_onServer hv ht)
    have hturn : afterServerTurn s.surroundings step.following s.run step
        (v.look s.surroundings.toSurroundings began) =
        ⟨{ s.run with server := some (v.look s.surroundings.toSurroundings began).server },
          (v.look s.surroundings.toSurroundings began).effects.map serverEffect,
          .paused (.onServer step p) (.server wait)⟩ := by
      cases hf : step.following <;> simp [afterServerTurn, ho, Turn.after]
    obtain rfl : p = .readingState began := by
      unfold Server.look at ho
      split at ho
      · cases ho
      · split at ho <;> cases ho
        rfl
    rw [hturn] at hm
    refine CanLead.of_step? ?_ hm trivial
    refine canEnd_of_crash (h.of_step? hm) (goesOn_step h hg hm)
      (by rw [take_sequence]; rfl) (by rw [take_run]) (.inl rfl) (by simp) (by simp)

/-- A sequence that waits for its server can come to its end. -/
theorem canEnd_of_serves (h : Sound s) (hg : GoesOn s)
    (hs : s.sequence = .waiting (.onServer step p) (.server wait) since)
    (hv : s.run.server = some v) (hserves : v.Serves step.concern p wait) : s.CanEnd := by
  have hfits := hserves.fits
  have hstop : p.concern ≠ .stop := by
    rw [hserves.concern, ← concern_stepCall s.run]
    exact stepCall_concern s.run step
  cases p with
  | launching => exact canEnd_of_crash h hg hs hv (.inl rfl) (by simp) (by simp)
  | readingState => exact canEnd_of_crash h hg hs hv (.inl rfl) (by simp) (by simp)
  | deploying => exact canEnd_of_crash h hg hs hv (.inr rfl) (by simp) (by simp)
  | executing => exact canEnd_of_crash h hg hs hv (.inr rfl) (by simp) (by simp)
  | sleeping began =>
    cases wait <;> try exact hfits.elim
    rename_i length
    have hd : 0 ≤ max 0 (since + length - s.now) := le_max_left _ _
    have hlag : s.step? (.lag (max 0 (since + length - s.now))) =
        some { s with now := s.now + max 0 (since + length - s.now) } := by
      simp only [step?, hd, ite_true]
    have hmax := le_max_right 0 (since + length - s.now)
    exact (canEnd_of_sleeping (h.of_step? hlag) (goesOn_step h hg hlag) hs hv
      (by simp only; linarith)).of_step? hlag trivial
  | awaitingTurn work =>
    have hrequest := hserves.request hserves.concern.symm
    cases wait <;> first | exact hfits.elim | cases hrequest
  | awaitingExit =>
    have hstep : step.next? = none := by
      have hc := hserves.concern
      cases step <;> first | rfl | cases hc
    have hchild := hserves.child hserves.concern.symm
    have exited {s : System} {v : Server} {code : Int} (h : Sound s) (hg : GoesOn s)
        (hs : s.sequence = .waiting (.onServer step .awaitingExit) (.server wait) since)
        (hv : s.run.server = some v) (hc : v.exitCode? = some code) : s.CanEnd := by
      refine canEnd_of_serverAnswer (a := .exited code) (t := ⟨v, [], .returned (some code)⟩) h hg
        hs hv ?_ rfl (.inr ⟨hstep, fun p w ho => by cases ho⟩)
      simp [admitsServer, hv, hc]
    cases hc : v.exitCode? with
    | some code => exact exited h hg hs hv hc
    | none =>
      have hexit : s.step? (.exit 0) =
          some ({ s with run := { s.run with server := some (v.withExit 0) } }.record
            (.exited 0)) := by
        simp [step?, hv, hc, Option.isSome_iff_ne_none.mpr hchild]
      exact (exited (h.of_step? hexit) (goesOn_step h hg hexit) hs rfl
        (Server.exitCode?_withExit hchild 0)).of_step? hexit trivial
  | askingShutdown | awaitingDeath | closing | draining => exact absurd rfl hstop

end

/-! ### a sequence that is parked -/

/-- The sequence is parked, and the supervisor has cancelled it, but it was kept from hearing so. -/
def IsStranded (s : System) : Prop :=
  (∃ wait since, s.sequence = .waiting .parked wait since) ∧ s.isCancelling = true ∧
    s.cancelPending = false

/-- A sequence that hears of its cancellation lets the run end. -/
theorem canEnd_of_cancelPending {wait : Wait} {since : Seconds} (h : Sound s) (hg : GoesOn s)
    (hs : s.sequence = .waiting .parked wait since) (hc : s.cancelPending = true) : s.CanEnd :=
  canEnd_of_answer (a := .cancelled) (r := .error .cancelled) h hg hs (by simpa [admits] using hc)
    rfl rfl

/-- A run whose termination was requested can end unless its sequence is stranded. -/
theorem canEnd_of_not_stranded (h : Sound s) (hg : GoesOn s) (ht : s.run.terminated = true)
    (hn : ¬ s.IsStranded) : s.CanEnd := by
  cases hs : s.sequence with
  | ended result => exact canEnd_of_ended h hg hs
  | waiting p wait since =>
    cases hg.awaits p wait since hs with
    | onServer hv hserves => exact canEnd_of_serves h hg hs hv hserves
    | others hp hparked hw =>
      refine canEnd_of_answer (a := .failed (.crash "")) (r := .error (.crash "")) h hg hs ?_
        (nextTurn?_failed hp hparked _) rfl
      cases wait <;> first | rfl | exact absurd rfl (hw _)
    | parked =>
      rcases h.watched _ _ since hs with hv | ⟨q, hv⟩
      · let x : SupervisorTurn :=
          ⟨s.run, [], .cancelSequence (.cancelling (some (s.run.interrupted.getD s.run.phase)))⟩
        have hm : s.step? .notice = some ((s.record .noticed).takeSupervisor x) :=
          step?_notice (n := .terminationRequested) hv (by simp [isBusy, hs, isImmediate])
            (by simp [news?, hs, ht]) rfl
        have hq : ((s.record .noticed).takeSupervisor x).sequence =
            .waiting .parked .forever since := by
          rw [takeSupervisor_sequence]
          exact hs
        have hc : ((s.record .noticed).takeSupervisor x).cancelPending = true := by
          rw [takeSupervisor_eq]
          exact Bool.or_true _
        exact (canEnd_of_cancelPending (h.of_step? hm) (goesOn_step h hg hm) hq hc).of_step? hm
          trivial
      · cases hc : s.cancelPending with
        | true => exact canEnd_of_cancelPending h hg hs hc
        | false => exact absurd ⟨⟨_, since, hs⟩, by simp [isCancelling, hv], hc⟩ hn

/-- Nothing that happens wakes a sequence that is stranded. -/
theorem IsStranded.of_step? (h : s.IsStranded) (hm : s.step? m = some u) : u.IsStranded := by
  obtain ⟨⟨wait, since, hs⟩, hc, hp⟩ := h
  obtain ⟨q, hv⟩ : ∃ q, s.supervisor = .watching (.cancelling q) := by
    unfold isCancelling at hc
    split at hc
    · exact ⟨_, by assumption⟩
    · cases hc
  have same {u : System} (hq : u.sequence = s.sequence) (hv' : u.supervisor = s.supervisor)
      (hp' : u.cancelPending = s.cancelPending) : u.IsStranded := by
    refine ⟨⟨wait, since, hq.trans hs⟩, ?_, hp'.trans hp⟩
    simp [isCancelling, hv', hv]
  cases moved_of_step? hm with
  | answer hq ha ht =>
    rw [hs] at hq
    cases hq
    cases ht with
    | cancelled => simp [admits, hp] at ha
    | failed _ hn => exact absurd rfl hn
  | notice hx => cases hx <;> simp_all
  | stopAnswer hq => simp [hv] at hq
  | request => exact same (by simp) (by simp) (by rw [recordEffects_eq]; rfl)
  | exit => exact same rfl rfl rfl
  | time => exact same rfl rfl rfl

theorem IsStranded.not_canEnd (h : s.IsStranded) : ¬ s.CanEnd := by
  rintro ⟨ms, u, hu, -, ending, he⟩
  have hstranded : u.IsStranded :=
    Leads.keeps (P := IsStranded) hu h fun _ _ _ hm hs => hs.of_step? hm.step
  obtain ⟨-, hc, -⟩ := hstranded
  simp [isCancelling, he] at hc

/-- A run whose termination was requested can end exactly if its sequence is not stranded. -/
theorem canEnd_iff {settings : Settings} {cwd : Path} {rounding : Seconds → Seconds}
    {isDirectory : Path → Bool} {ms : List Move}
    (h : Reaches (.ofRun { settings, cwd, rounding } isDirectory) ms s)
    (ht : s.run.terminated = true) : s.CanEnd ↔ ¬ s.IsStranded := by
  have h₀ := sound_ofRun settings cwd rounding isDirectory
  have hg : GoesOn s :=
    h₀.keeps h (goesOn_ofRun settings cwd rounding isDirectory) fun _ _ _ hm hs hg =>
      goesOn_step hs hg hm.step
  exact ⟨fun hc hn => hn.not_canEnd hc, canEnd_of_not_stranded (h₀.of_reaches h) hg ht⟩

end System

end Run

end ServerRun
