import ServerRun.Proofs.Run.Stage

/-! The phases of a run. A run comes some way along its course, then it may have failed, and at last
it is shut down. A termination request stops it on its course: no phase is entered after the first
request but the last one. -/

namespace ServerRun.Run

/-- The phases of a run that goes well, after its idle start. -/
def course : List Phase :=
  [.provisioning, .validating, .launching, .preCommands, .deploying, .postCommands, .running]

/-- A run has come a number of phases along its course. -/
structure OnCourse (r : Run) (k : Nat) : Prop where
  phases : r.phases = .idle :: course.take k
  phase : (Phase.idle :: course)[k]? = some r.phase

/-- How far along the course the phase of a step is. -/
def Step.place : Step → Nat
  | .start => 3
  | .before => 4
  | .deploy => 5
  | .after => 6
  | .exit => 7

/-- How far along the course a run is whose sequence waits at a point. A run that is parked may be
anywhere. -/
def Point.place? : Point → Option Nat
  | .resolving => some 0
  | .provisioning => some 1
  | .readingJavaHome _ => some 2
  | .creatingServer _ => some 3
  | .onServer step _ => some step.place
  | .parked => none

section

variable {r : Run} {w : Surroundings} {k : Nat} {u : Turn}

theorem OnCourse.enter (h : OnCourse r k) {p : Phase} (hp : course[k]? = some p) :
    OnCourse (r.enter p) (k + 1) where
  phases := by
    rw [Run.enter, h.phases, List.take_add_one, hp]
    rfl
  phase := by
    rw [List.getElem?_cons_succ]
    exact hp

theorem OnCourse.le (h : OnCourse r k) : k ≤ course.length := by
  obtain ⟨hk, -⟩ := List.getElem?_eq_some_iff.mp h.phase
  simp only [List.length_cons] at hk
  omega

/-- The phase of a run on its course is the last one that it has entered. -/
theorem OnCourse.getLast? (h : OnCourse r k) : r.phases.getLast? = some r.phase := by
  have hp := h.phase
  rw [h.phases]
  cases k with
  | zero => exact hp
  | succ k =>
    rw [List.getElem?_cons_succ] at hp
    rw [List.take_add_one, hp, Option.toList_some, ← List.cons_append, List.getLast?_concat]

theorem Step.place_of_next? {step next : Step} (h : step.next? = some next) :
    next.place = step.place + 1 ∧ course[step.place]? = some next.phase := by
  cases step <;> cases h <;> exact ⟨rfl, rfl⟩

/-- A turn stays on the course, and waits where the run is. -/
def Turn.StaysOn (u : Turn) : Prop :=
  ∃ k, OnCourse u.run k ∧
    ∀ p wait n, u.outcome = .paused p wait → p.place? = some n → n = k

theorem StepTurn.staysOn {step : Step} {t : Server.Turn} (h : StepTurn w r step t u)
    (hc : OnCourse r step.place) : u.StaysOn := by
  induction h with
  | @waits r step t point wait ho =>
    refine ⟨step.place, ⟨hc.phases, hc.phase⟩, fun p wait n hp hn => ?_⟩
    cases hp
    exact (Option.some.inj hn).symm
  | @raises r step t f ho => exact ⟨step.place, ⟨hc.phases, hc.phase⟩, fun _ _ _ hp => by cases hp⟩
  | @exits r step t code ho hn =>
    exact ⟨step.place, ⟨hc.phases, hc.phase⟩, fun _ _ _ hp => by cases hp⟩
  | @parks r step t code next ho hn ht =>
    refine ⟨step.place, ⟨hc.phases, hc.phase⟩, fun p wait n hp hn => ?_⟩
    cases hp
    cases hn
  | @goesOn r step t code next u ho hn ht hu ih =>
    obtain ⟨hplace, hphase⟩ := Step.place_of_next? hn
    have hc' : OnCourse { r with server := some t.server } step.place := ⟨hc.phases, hc.phase⟩
    exact ih (hplace ▸ hc'.enter hphase)

theorem InstallTurn.staysOn {i : Installation} (h : InstallTurn r w i u) (hc : OnCourse r 2) :
    u.StaysOn := by
  cases h with
  | lacks => exact ⟨2, hc, fun _ _ _ hp => by cases hp⟩
  | parks =>
    refine ⟨2, hc, fun p wait n hp hn => ?_⟩
    cases hp
    cases hn
  | creates =>
    refine ⟨3, hc.enter rfl, fun p wait n hp hn => ?_⟩
    cases hp
    exact (Option.some.inj hn).symm

theorem AnswerTurn.staysOn {p : Point} {a : Answer} (h : AnswerTurn r w p a u)
    (hc : OnCourse r k) (hp : ∀ n, p.place? = some n → n = k) : u.StaysOn := by
  cases h with
  | cancelled | failed => exact ⟨k, hc, fun _ _ _ hp => by cases hp⟩
  | missing => exact ⟨k, hc, fun _ _ _ hp => by cases hp⟩
  | foundParks =>
    refine ⟨k, ⟨hc.phases, hc.phase⟩, fun p wait n hp hn => ?_⟩
    cases hp
    cases hn
  | @found m =>
    obtain rfl := hp 0 rfl
    have hc' : OnCourse { r with deployment := some ⟨m.file, m.name⟩ } 0 := ⟨hc.phases, hc.phase⟩
    refine ⟨1, hc'.enter rfl, fun p wait n hp hn => ?_⟩
    cases hp
    exact (Option.some.inj hn).symm
  | homeParks =>
    refine ⟨k, hc, fun p wait n hp hn => ?_⟩
    cases hp
    cases hn
  | homeAsks =>
    obtain rfl := hp 1 rfl
    refine ⟨2, hc.enter rfl, fun p wait n hp hn => ?_⟩
    cases hp
    exact (Option.some.inj hn).symm
  | homeInstalls ht ha hu =>
    obtain rfl := hp 1 rfl
    exact hu.staysOn (hc.enter rfl)
  | environment hu =>
    obtain rfl := hp 2 rfl
    exact hu.staysOn hc
  | created hu =>
    obtain rfl := hp 3 rfl
    exact hu.staysOn ⟨hc.phases, hc.phase⟩
  | @onServer step q a b v t u hb hv ht hu =>
    obtain rfl := hp step.place rfl
    exact hu.staysOn hc

theorem StepTurn.phases_of_terminated {step : Step} {t : Server.Turn} (h : StepTurn w r step t u)
    (ht : r.terminated = true) : u.run.phases = r.phases := by
  cases h with
  | goesOn ho hn hf hu =>
    rw [ht] at hf
    cases hf
  | _ => rfl

theorem InstallTurn.phases_of_terminated {i : Installation} (h : InstallTurn r w i u)
    (ht : r.terminated = true) : u.run.phases = r.phases := by
  cases h with
  | creates h hf =>
    rw [ht] at hf
    cases hf
  | _ => rfl

/-- No phase is entered once a termination was requested. -/
theorem AnswerTurn.phases_of_terminated {p : Point} {a : Answer} (h : AnswerTurn r w p a u)
    (ht : r.terminated = true) : u.run.phases = r.phases := by
  cases h with
  | found hf | homeAsks hf | homeInstalls hf =>
    rw [ht] at hf
    cases hf
  | environment hu => exact hu.phases_of_terminated ht
  | created hu => exact hu.phases_of_terminated ht
  | onServer hb hv hn hu => exact hu.phases_of_terminated ht
  | _ => rfl

end

/-- The phase of a failure that ends runs, for an ending. -/
def Ending.failedPhases : Ending → List Phase
  | .raised (.run _) => [.failed]
  | _ => []

theorem failed_phases (r : Run) (f : Failure) :
    (r.failed f).phases = r.phases ++ (Ending.raised f).failedPhases := by
  cases f with
  | run e => rfl
  | _ => exact (List.append_nil _).symm

namespace System

variable {s u : System} {m : Move}

/-- The phases of a run at its stages. -/
def Phased (s : System) : Prop :=
  match s.supervisor.stage with
  | .watching => ∃ k, OnCourse s.run k ∧
      ∀ p wait since n, s.sequence = .waiting p wait since → p.place? = some n → n = k
  | .leaving e => ∃ k, k ≤ course.length ∧ s.run.phases = .idle :: (course.take k ++ e.failedPhases)
  | .left e => ∃ k, k ≤ course.length ∧
      s.run.phases = .idle :: (course.take k ++ e.failedPhases ++ [.shutDown])

theorem phased_of_shutdownTurn {r : Run} {ending : Ending} {t : SupervisorTurn}
    (ht : ShutdownTurn r ending t) {now : Seconds} {k : Nat} (hk : k ≤ course.length)
    (hr : r.phases = .idle :: (course.take k ++ ending.failedPhases)) (hur : u.run = t.run)
    (hu : u.supervisor.stage = (t.outcome.state now).stage) : Phased u := by
  unfold Phased
  rcases ht.stage now with ⟨hp, hg⟩ | ⟨hp, hg⟩
  · rw [hu, hg, hur, hp]
    exact ⟨k, hk, hr⟩
  · rw [hu, hg, hur, hp, hr]
    exact ⟨k, hk, rfl⟩

theorem phased_step (h : Sound s) (hp : Phased s) (hm : s.step? m = some u) : Phased u := by
  unfold Phased at hp
  cases h.progress hm with
  | @steps _ _ p wait since a t hs ht hg hu hr hq =>
    rw [hg] at hp
    obtain ⟨k, hc, hk⟩ := hp
    obtain ⟨k', hc', hk'⟩ := ht.staysOn hc fun n hn => hk p wait since n hs hn
    unfold Phased
    rw [hu, hr, hq]
    refine ⟨k', hc', fun q wait' since' n hw hn => ?_⟩
    cases ho : t.outcome with
    | paused q' wait'' =>
      rw [ho] at hw
      cases hw
      exact hk' q _ n ho hn
    | returned code => rw [ho] at hw; cases hw
    | raised f => rw [ho] at hw; cases hw
  | @fails _ _ f hg hu hr =>
    rw [hg] at hp
    obtain ⟨k, hc, -⟩ := hp
    unfold Phased
    rw [hu, hr]
    refine ⟨k, hc.le, ?_⟩
    rw [failed_phases, hc.phases]
    rfl
  | @interrupts _ _ p t hg hi ht hu hr =>
    rw [hg] at hp
    obtain ⟨k, hc, -⟩ := hp
    refine phased_of_shutdownTurn ht hc.le ?_ hr hu
    rw [hc.phases]
    exact congrArg _ (List.append_nil _).symm
  | @leaves _ _ ending t hg ht hu hr =>
    rw [hg] at hp
    obtain ⟨k, hk, hp⟩ := hp
    exact phased_of_shutdownTurn ht hk hp hr hu
  | requests hg hr hq =>
    have hf : u.run.phases = s.run.phases ∧ u.run.phase = s.run.phase := by
      rw [hr]
      unfold requestTermination
      split <;> exact ⟨rfl, rfl⟩
    unfold Phased
    rw [hg, hq, hf.1]
    cases hs : s.supervisor.stage <;> rw [hs] at hp
    case watching =>
      obtain ⟨k, hc, hk⟩ := hp
      exact ⟨k, ⟨hf.1.trans hc.phases, hf.2 ▸ hc.phase⟩, hk⟩
    all_goals exact hp
  | idles hg hr hq =>
    obtain ⟨v, hr⟩ := hr
    unfold Phased
    rw [hg, hq, hr]
    cases hs : s.supervisor.stage <;> rw [hs] at hp
    case watching =>
      obtain ⟨k, hc, hk⟩ := hp
      exact ⟨k, ⟨hc.phases, hc.phase⟩, hk⟩
    all_goals exact hp

theorem phased_of_reaches {ms : List Move} (h : Sound s) (hp : Phased s) (hr : Reaches s ms u) :
    Phased u :=
  h.keeps hr hp fun _ _ _ hm hs hp => phased_step hs hp hm.step

/-! ### termination requests -/

/-- No termination was requested, and none is about to end the run. -/
structure Unrequested (s : System) : Prop where
  terminated : s.run.terminated = false
  leaving : ∀ code p, s.supervisor.stage ≠ .leaving (.stopped code p)
  left : ∀ code p, s.supervisor.stage ≠ .left (.stopped code p)

/-- A termination was requested in the phase `p`, when the phases `ps` had been entered; if the run
is stopped for it, no phase is entered any more but the last one. -/
structure Requested (ps : List Phase) (p : Phase) (s : System) : Prop where
  terminated : s.run.terminated = true
  interrupted : s.run.interrupted = some p
  watching : s.supervisor.stage = .watching → s.run.phases = ps ∧ ps.getLast? = some p
  leaving : ∀ code q, s.supervisor.stage = .leaving (.stopped code q) →
    endingOf p = .stopped code q ∧ s.run.phases = ps ∧ ps.getLast? = some p
  left : ∀ code q, s.supervisor.stage = .left (.stopped code q) →
    endingOf p = .stopped code q ∧ s.run.phases = ps ++ [.shutDown] ∧ ps.getLast? = some p

theorem unrequested_step (h : Sound s) (hu : Unrequested s) (hm : s.step? m = some u)
    (hn : m ≠ .request) : Unrequested u := by
  have ht := (terminated_of_step? hm hn h).1.trans hu.terminated
  cases h.progress hm with
  | steps hs hta hg hug hr hq => exact ⟨ht, by simp [hug], by simp [hug]⟩
  | fails hg hug hr => exact ⟨ht, by simp [hug], by simp [hug]⟩
  | interrupts hg hi hst hug hr =>
    have := h.requested
    simp [hu.terminated, hi] at this
  | @leaves _ _ ending t hg hst hug hr =>
    have hne : ∀ code p, ending ≠ .stopped code p := by
      intro code p he
      exact hu.leaving code p (by rw [hg, he])
    rcases hst.stage s.now with ⟨-, hg'⟩ | ⟨-, hg'⟩
    · exact ⟨ht, by simpa [hug, hg'] using hne, by simp [hug, hg']⟩
    · exact ⟨ht, by simp [hug, hg'], by simpa [hug, hg'] using hne⟩
  | requests => exact absurd rfl hn
  | idles hg hr hq => exact ⟨ht, by rw [hg]; exact hu.leaving, by rw [hg]; exact hu.left⟩

/-- A turn of the shutdown after a request that is to end the run. -/
theorem requested_of_shutdownTurn {ps : List Phase} {p : Phase} {r : Run} {ending : Ending}
    {t : SupervisorTurn} (ht : ShutdownTurn r ending t) {now : Seconds}
    (hter : r.terminated = true) (hi : r.interrupted = some p)
    (hp : ∀ code q, ending = .stopped code q →
      endingOf p = .stopped code q ∧ r.phases = ps ∧ ps.getLast? = some p)
    (hur : u.run = t.run) (hu : u.supervisor.stage = (t.outcome.state now).stage) :
    Requested ps p u := by
  have hk := ht.keeps
  rw [← hur] at hk
  rcases ht.stage now with ⟨hps, hg⟩ | ⟨hps, hg⟩ <;> rw [← hur] at hps <;> rw [hg] at hu
  · refine ⟨hk.terminated.trans hter, hk.interrupted.trans hi, by simp [hu], ?_, by simp [hu]⟩
    intro code q he
    rw [hu, Stage.leaving.injEq] at he
    obtain ⟨h1, h2, h3⟩ := hp code q he
    exact ⟨h1, hps.trans h2, h3⟩
  · refine ⟨hk.terminated.trans hter, hk.interrupted.trans hi, by simp [hu], by simp [hu], ?_⟩
    intro code q he
    rw [hu, Stage.left.injEq] at he
    obtain ⟨h1, h2, h3⟩ := hp code q he
    exact ⟨h1, by rw [hps, h2], h3⟩

theorem requested_step {ps : List Phase} {p : Phase} (h : Sound s) (hr : Requested ps p s)
    (hm : s.step? m = some u) : Requested ps p u := by
  obtain ⟨hter, hi, hwatching, hleaving, hleft⟩ := hr
  cases h.progress hm with
  | steps hs ht hg hug hur hq =>
    have hk := ht.keeps
    rw [← hur] at hk
    refine ⟨hk.terminated.trans hter, hk.interrupted.trans hi, fun _ => ?_, by simp [hug],
      by simp [hug]⟩
    obtain ⟨h1, h2⟩ := hwatching hg
    rw [hur, ht.phases_of_terminated hter]
    exact ⟨h1, h2⟩
  | @fails _ _ f hg hug hur =>
    have hk := failed_keeps s.run f
    rw [← hur] at hk
    exact ⟨hk.terminated.trans hter, hk.interrupted.trans hi, by simp [hug], by simp [hug],
      by simp [hug]⟩
  | @interrupts _ _ q t hg hq hst hug hur =>
    rw [hi, Option.some.injEq] at hq
    subst hq
    refine requested_of_shutdownTurn hst hter hi (fun code q he => ⟨he, ?_⟩) hur hug
    exact hwatching hg
  | @leaves _ _ ending t hg hst hug hur =>
    refine requested_of_shutdownTurn hst hter hi (fun code q he => ?_) hur hug
    exact hleaving code q (by rw [hg, he])
  | requests hg hur hq =>
    have hsame : u.run = s.run := by
      rw [hur]
      simp [requestTermination, hter]
    rw [← hsame] at hter hi hwatching hleaving hleft
    rw [← hg] at hwatching hleaving hleft
    exact ⟨hter, hi, hwatching, hleaving, hleft⟩
  | idles hg hur hq =>
    obtain ⟨v, hur⟩ := hur
    rw [← hg] at hwatching hleaving hleft
    refine ⟨by rw [hur]; exact hter, by rw [hur]; exact hi, ?_, ?_, ?_⟩
    · rw [hur]
      exact hwatching
    · rw [hur]
      exact hleaving
    · rw [hur]
      exact hleft

/-- The first request is for the phase that the run is in. -/
theorem requested_of_request (h : Sound s) (hp : Phased s) (hn : Unrequested s)
    (hm : s.step? .request = some u) : Requested s.run.phases s.run.phase u := by
  have hb := h.begun
  have ht := hn.terminated
  cases moved_of_step? hm with
  | time ha hr => exact absurd rfl hr
  | request =>
    have hr : s.run.requestTermination.1 =
        { s.run with terminated := true, interrupted := some s.run.phase } := by
      simp [requestTermination, hb, ht]
    refine ⟨?_, ?_, fun hg => ?_, fun code q hg => ?_, fun code q hg => ?_⟩
    · rw [recordEffects_run, record_run, hr]
    · rw [recordEffects_run, record_run, hr]
    · rw [recordEffects_supervisor, record_supervisor] at hg
      rw [recordEffects_run, record_run, hr]
      unfold Phased at hp
      rw [hg] at hp
      obtain ⟨k, hc, -⟩ := hp
      exact ⟨rfl, hc.getLast?⟩
    · rw [recordEffects_supervisor, record_supervisor] at hg
      exact absurd hg (hn.leaving code q)
    · rw [recordEffects_supervisor, record_supervisor] at hg
      exact absurd hg (hn.left code q)

/-- Without a request no run is stopped. -/
theorem unrequested_of_reaches {ms : List Move} (h : Sound s) (hn : Unrequested s)
    (hr : Reaches s ms u) (hms : .request ∉ ms) : Unrequested u := by
  refine h.keeps hr hn fun t m v hm hs hn => unrequested_step hs hn hm.step fun he => hms ?_
  obtain ⟨before, after, hb, -⟩ := hm
  rw [hb, he]
  simp

theorem requested_of_reaches {ms : List Move} {ps : List Phase} {p : Phase} (h : Sound s)
    (hq : Requested ps p s) (hr : Reaches s ms u) : Requested ps p u :=
  h.keeps hr hq fun _ _ _ hm hs hq => requested_step hs hq hm.step

theorem phased_ofRun (settings : Settings) (cwd : Path) (rounding : Seconds → Seconds)
    (isDirectory : Path → Bool) : Phased (.ofRun { settings, cwd, rounding } isDirectory) := by
  refine ⟨0, ⟨rfl, rfl⟩, fun p wait since n hs hn => ?_⟩
  cases hs
  exact (Option.some.inj hn).symm

theorem unrequested_ofRun (settings : Settings) (cwd : Path) (rounding : Seconds → Seconds)
    (isDirectory : Path → Bool) : Unrequested (.ofRun { settings, cwd, rounding } isDirectory) :=
  ⟨rfl, fun _ _ h => (by cases h), fun _ _ h => (by cases h)⟩

/-- A run that was stopped was stopped by its first termination request, in the phase of then, and
entered none after that but the last one. -/
theorem request_of_stopped {settings : Settings} {cwd : Path} {rounding : Seconds → Seconds}
    {isDirectory : Path → Bool} {ms : List Move} {code : Int} {p : Phase}
    (h : Reaches (.ofRun { settings, cwd, rounding } isDirectory) ms s)
    (hg : s.supervisor.stage = .left (.stopped code p)) :
    ∃ before after t, ms = before ++ .request :: after ∧ .request ∉ before ∧
      Reaches (.ofRun { settings, cwd, rounding } isDirectory) before t ∧ t.run.phase = p ∧
      t.run.phases.getLast? = some p ∧ s.run.phases = t.run.phases ++ [.shutDown] ∧
      code = if p = .running then 0 else 130 := by
  have h₀ := sound_ofRun settings cwd rounding isDirectory
  have hn₀ := unrequested_ofRun settings cwd rounding isDirectory
  have hr : Move.request ∈ ms := by
    refine Classical.byContradiction fun hr => ?_
    exact (unrequested_of_reaches h₀ hn₀ h hr).left code p hg
  obtain ⟨before, after, rfl, hb⟩ := List.eq_append_cons_of_mem hr
  obtain ⟨t, ht, hs⟩ := h.cut
  have hsound := h₀.of_reaches ht
  have hphased := phased_of_reaches h₀ (phased_ofRun settings cwd rounding isDirectory) ht
  have hun := unrequested_of_reaches h₀ hn₀ ht hb
  cases hs with
  | step hm hs =>
    have hq := requested_of_request hsound hphased hun hm
    obtain ⟨hend, hps, hlast⟩ :=
      (requested_of_reaches (hsound.of_step? hm) hq hs).left code p hg
    simp only [endingOf, Ending.stopped.injEq] at hend
    obtain ⟨hcode, hphase⟩ := hend
    rw [hphase] at hcode hlast
    exact ⟨before, after, t, rfl, hb, ht, hphase, hlast, hps, hcode.symm⟩

/-- The phases of a run that has ended: the idle one, those that it came to along its course, the
failed one exactly if the run ended with a condition of its own, and the last one. A run that was
stopped was stopped by the first termination request, in the phase that was the current one then,
and entered none after that but the last one; it is a success only in the running phase. -/
theorem phases_of_ended (settings : Settings) (cwd : Path) (rounding : Seconds → Seconds)
    (isDirectory : Path → Bool) (ms : List Move) (s : System) (ending : Ending)
    (h : Reaches (.ofRun { settings, cwd, rounding } isDirectory) ms s)
    (he : s.supervisor = .ended ending) :
    (∃ k ≤ 7, s.run.phases = .idle ::
      ([.provisioning, .validating, .launching, .preCommands, .deploying, .postCommands,
          .running].take k ++
        (match ending with
          | .raised (.run _) => [.failed]
          | _ => []) ++ [.shutDown])) ∧
    ∀ code p, ending = .stopped code p →
      ∃ before after t, ms = before ++ .request :: after ∧ .request ∉ before ∧
        Reaches (.ofRun { settings, cwd, rounding } isDirectory) before t ∧ t.run.phase = p ∧
        t.run.phases.getLast? = some p ∧ s.run.phases = t.run.phases ++ [.shutDown] ∧
        code = if p = .running then 0 else 130 := by
  have hg : s.supervisor.stage = .left ending := by rw [he]; rfl
  refine ⟨?_, fun code p hs => ?_⟩
  · have hp := phased_of_reaches (sound_ofRun settings cwd rounding isDirectory)
      (phased_ofRun settings cwd rounding isDirectory) h
    unfold Phased at hp
    rw [hg] at hp
    exact hp
  · subst hs
    exact request_of_stopped h hg

/-- The moves of a run whose termination is requested before its deployment is found. -/
def earlyTermination : List Move :=
  [.request, .answer (.metadata ⟨.ofString "app.war", "app.war", .ofString "target"⟩ true), .notice,
    .answer .cancelled, .notice]

/-- The sequence of such a run is parked, and the run has the idle phase and the last one only. -/
theorem phases_of_earlyTermination :
    ∃ s, Reaches (.ofRun { settings := default, cwd := .ofString "/work" } fun _ => true)
        earlyTermination s ∧
      s.supervisor = .ended (.stopped 130 .idle) ∧
      (∃ k ≤ 7, s.run.phases = .idle ::
        ([.provisioning, .validating, .launching, .preCommands, .deploying, .postCommands,
            .running].take k ++ [] ++ [.shutDown])) ∧
      ∃ before after t, earlyTermination = before ++ .request :: after ∧ .request ∉ before ∧
        Reaches (.ofRun { settings := default, cwd := .ofString "/work" } fun _ => true) before t ∧
        t.run.phase = .idle ∧ t.run.phases.getLast? = some .idle ∧
        s.run.phases = t.run.phases ++ [.shutDown] ∧
        (130 : Int) = if Phase.idle = .running then 0 else 130 := by
  obtain ⟨s, hr, he⟩ : ∃ s,
      Reaches (.ofRun { settings := default, cwd := .ofString "/work" } fun _ => true)
        earlyTermination s ∧ s.supervisor = .ended (.stopped 130 .idle) :=
    ⟨_, .step rfl (.step rfl (.step rfl (.step rfl (.step rfl (.refl _))))), rfl⟩
  have h :=
    phases_of_ended default (.ofString "/work") id (fun _ => true) earlyTermination s _ hr he
  exact ⟨s, hr, he, h.1, h.2 130 .idle rfl⟩

end System

end ServerRun.Run
