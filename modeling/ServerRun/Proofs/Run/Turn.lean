import ServerRun.Run.Supervisor
import ServerRun.Proofs.Server.Turn

/-! What one turn of a run's sequence, or of its supervisor, does. A turn of the sequence may come
past the ends of several steps, each of which goes on with a call on the server; the forms that such
turns have, and those of the turns that stop the server, are listed here once. -/

namespace ServerRun.Run

/-- The phase of a step. -/
def Step.phase : Step → Phase
  | .start => .launching
  | .before => .preCommands
  | .deploy => .deploying
  | .after => .postCommands
  | .exit => .running

/-- The step after a step. -/
def Step.next? : Step → Option Step
  | .start => some .before
  | .before => some .deploy
  | .deploy => some .after
  | .after => some .exit
  | .exit => none

theorem Step.following_of_next? {step next : Step} (h : step.next? = some next) :
    step.following = (next.phase, next) :: next.following := by
  cases step <;> cases h <;> rfl

/-- No step of the sequence stops the server. -/
theorem stepCall_concern (r : Run) (step : Step) : (r.stepCall step).concern ≠ .stop := by
  cases step with
  | deploy =>
    simp only [stepCall]
    split <;> simp [Server.Call.concern]
  | start | before | after | exit => simp [stepCall, Server.Call.concern]

section

variable {r : Run} {w : Surroundings} {u : Turn} {es : List Effect} {ending : Ending}

@[simp] theorem Turn.after_run : (u.after es).run = u.run := rfl

@[simp] theorem Turn.after_outcome : (u.after es).outcome = u.outcome := rfl

@[simp] theorem Turn.after_effects : (u.after es).effects = es ++ u.effects := rfl

theorem Turn.after_after (fs : List Effect) : (u.after es).after fs = u.after (fs ++ es) := by
  simp [Turn.after]

@[simp] theorem SupervisorTurn.after_run {u : SupervisorTurn} : (u.after es).run = u.run := rfl

@[simp] theorem SupervisorTurn.after_outcome {u : SupervisorTurn} :
    (u.after es).outcome = u.outcome := rfl

@[simp] theorem SupervisorTurn.after_effects {u : SupervisorTurn} :
    (u.after es).effects = es ++ u.effects := rfl

theorem SupervisorTurn.after_after {u : SupervisorTurn} (fs : List Effect) :
    (u.after es).after fs = u.after (fs ++ es) := by
  simp [SupervisorTurn.after]

theorem advance_of_terminated (h : r.terminated = true) (p : Phase) (next : Run → Turn) :
    r.advance p next = ⟨r, [], .paused .parked .forever⟩ := by
  simp [advance, h]

theorem advance_of_not_terminated (h : r.terminated = false) (p : Phase) (next : Run → Turn) :
    r.advance p next = (next (r.enter p)).after [.entered p] := by
  simp [advance, h]

/-! ### steps on the server -/

/-- The turns of the sequence that go on after a turn of the server in a step: the sequence waits
where the server waits, fails or ends as it does, or comes to the next step, where it is parked if a
termination was requested and makes the next call otherwise. -/
inductive StepTurn (w : Surroundings) : Run → Step → Server.Turn → Turn → Prop
  | waits {r step t point wait} (h : t.outcome = .paused point wait) :
      StepTurn w r step t ⟨{ r with server := some t.server }, t.effects.map serverEffect,
        .paused (.onServer step point) (.server wait)⟩
  | raises {r step t f} (h : t.outcome = .raised f) :
      StepTurn w r step t
        ⟨{ r with server := some t.server }, t.effects.map serverEffect, .raised f⟩
  | exits {r step t code} (h : t.outcome = .returned code) (hn : step.next? = none) :
      StepTurn w r step t
        ⟨{ r with server := some t.server }, t.effects.map serverEffect, .returned code⟩
  | parks {r step t code next} (h : t.outcome = .returned code) (hn : step.next? = some next)
      (ht : r.terminated = true) :
      StepTurn w r step t
        ⟨{ r with server := some t.server }, t.effects.map serverEffect, .paused .parked .forever⟩
  | goesOn {r step t code next u} (h : t.outcome = .returned code) (hn : step.next? = some next)
      (ht : r.terminated = false)
      (hu : StepTurn w ({ r with server := some t.server }.enter next.phase) next
        (t.server.firstTurn w.toSurroundings sequenceId (r.stepCall next)) u) :
      StepTurn w r step t (u.after (t.effects.map serverEffect ++ [.entered next.phase]))

theorem stepTurn_afterServerTurn (r : Run) (step : Step) (t : Server.Turn) :
    StepTurn w r step t (afterServerTurn w step.following r step t) := by
  generalize hf : step.following = following
  induction following generalizing r step t with
  | nil =>
    have hn : step.next? = none := by cases step <;> cases hf; rfl
    cases ho : t.outcome with
    | paused p wait => simpa [afterServerTurn, ho, Turn.after] using StepTurn.waits ho
    | returned code => simpa [afterServerTurn, ho, Turn.after] using StepTurn.exits ho hn
    | raised f => simpa [afterServerTurn, ho, Turn.after] using StepTurn.raises ho
  | cons x rest ih =>
    obtain ⟨next, hn⟩ : ∃ next, step.next? = some next := by
      cases step <;> cases hf <;> exact ⟨_, rfl⟩
    rw [Step.following_of_next? hn, List.cons.injEq] at hf
    obtain ⟨rfl, hf⟩ := hf
    cases ho : t.outcome with
    | paused p wait => simpa [afterServerTurn, ho, Turn.after] using StepTurn.waits ho
    | raised f => simpa [afterServerTurn, ho, Turn.after] using StepTurn.raises ho
    | returned code =>
      cases ht : r.terminated with
      | true =>
        have hu : StepTurn w r step t ⟨{ r with server := some t.server },
          t.effects.map serverEffect, .paused .parked .forever⟩ := .parks ho hn ht
        simpa [afterServerTurn, ho, Turn.after, advance, ht] using hu
      | false =>
        let r' := { r with server := some t.server }
        have hc : (r'.enter next.phase).stepCall next = r.stepCall next := by cases next <;> rfl
        have heq : afterServerTurn w ((next.phase, next) :: rest) r step t =
            Turn.after (t.effects.map serverEffect) (r'.advance next.phase fun r =>
              afterServerTurn w rest r next
                (t.server.firstTurn w.toSurroundings sequenceId (r.stepCall next))) := by
          rw [afterServerTurn.eq_def]
          simp only [ho, r']
        rw [heq, advance_of_not_terminated (r := r') ht, Turn.after_after, hc]
        exact .goesOn ho hn ht (ih _ next _ hf)

/-! ### turns of the sequence -/

/-- The turns of the sequence that check an installation: it lacks something, or the sequence comes
to the launch, where it is parked or has a server made. -/
inductive InstallTurn (r : Run) (w : Surroundings) (i : Installation) : Turn → Prop
  | lacks {f} (h : i.lacking? r.cwd w.isDirectory = some f) : InstallTurn r w i ⟨r, [], .raised f⟩
  | parks (h : i.lacking? r.cwd w.isDirectory = none) (ht : r.terminated = true) :
      InstallTurn r w i
        ⟨r, [.banner i.javaHome i.home.toString], .paused .parked .forever⟩
  | creates (h : i.lacking? r.cwd w.isDirectory = none) (ht : r.terminated = false) :
      InstallTurn r w i
        ⟨r.enter .launching, [.banner i.javaHome i.home.toString, .entered .launching],
          .paused (.creatingServer i) (.createServer r.settings.topology i)⟩

theorem installTurn_installationFound (i : Installation) :
    InstallTurn r w i (r.installationFound w i) := by
  unfold installationFound
  cases h : i.lacking? r.cwd w.isDirectory with
  | some f => exact .lacks h
  | none =>
    cases ht : r.terminated with
    | true =>
      simp only [advance_of_terminated ht]
      exact .parks h ht
    | false =>
      simp only [advance_of_not_terminated ht]
      exact .creates h ht

theorem InstallTurn.server {i : Installation} (h : InstallTurn r w i u) :
    u.run.server = r.server := by
  cases h <;> rfl

/-- What an answer to the sequence comes to for a call on the server. -/
def Answer.toServer? : Answer → Option Server.Answer
  | .server a => some a
  | .cancelled => some .cancelled
  | _ => none

/-- A point at which the sequence does not wait for the server. -/
def Point.IsApart (p : Point) : Prop := ∀ step point, p ≠ .onServer step point

/-- The turns of the sequence after an answer at a point. -/
inductive AnswerTurn (r : Run) (w : Surroundings) : Point → Answer → Turn → Prop
  | cancelled {p} (hp : p.IsApart) : AnswerTurn r w p .cancelled ⟨r, [], .raised .cancelled⟩
  | failed {p f} (hp : p.IsApart) (hn : p ≠ .parked) :
      AnswerTurn r w p (.failed f) ⟨r, [], .raised f⟩
  | missing {m} :
      AnswerTurn r w .resolving (.metadata m false)
        ⟨r, [], .raised (deploymentMissing r.cwd m.file)⟩
  | foundParks {m} (ht : r.terminated = true) :
      AnswerTurn r w .resolving (.metadata m true)
        ⟨{ r with deployment := some ⟨m.file, m.name⟩ }, [], .paused .parked .forever⟩
  | found {m} (ht : r.terminated = false) :
      AnswerTurn r w .resolving (.metadata m true)
        ⟨{ r with deployment := some ⟨m.file, m.name⟩ }.enter .provisioning,
          [.entered .provisioning],
          .paused .provisioning
            (.provision r.settings.serverHome r.settings.coordinate m.targetDir)⟩
  | homeParks {home} (ht : r.terminated = true) :
      AnswerTurn r w .provisioning (.home home) ⟨r, [], .paused .parked .forever⟩
  | homeAsks {home} (ht : r.terminated = false) (ha : r.settings.asksForJavaHome = true) :
      AnswerTurn r w .provisioning (.home home)
        ⟨r.enter .validating, [.entered .validating],
          .paused (.readingJavaHome home) (.environment "JAVA_HOME")⟩
  | homeInstalls {home u} (ht : r.terminated = false) (ha : r.settings.asksForJavaHome = false)
      (hu : InstallTurn (r.enter .validating) w (r.settings.installation home none) u) :
      AnswerTurn r w .provisioning (.home home) (u.after [.entered .validating])
  | environment {home value u} (hu : InstallTurn r w (r.settings.installation home value) u) :
      AnswerTurn r w (.readingJavaHome home) (.environment value) u
  | created {i u}
      (hu : StepTurn w { r with server := some (r.newServer i), shutdown := r.shutdown.attach () }
        .start (r.newServer i).start u) :
      AnswerTurn r w (.creatingServer i) .created
        (u.after ((Server.topologyNotice r.settings.topology).map serverEffect ++
          [.log ⟨.info, "Server is starting up. Press CTRL + C to stop the server.", []⟩]))
  | onServer {step p a b v t u} (hb : a.toServer? = some b) (hv : r.server = some v)
      (ht : v.nextTurn? w.toSurroundings sequenceId p b = some t) (hu : StepTurn w r step t u) :
      AnswerTurn r w (.onServer step p) a u

theorem answerTurn_metadataFound (m : Project.Metadata) (isThere : Bool) :
    AnswerTurn r w .resolving (.metadata m isThere) (r.metadataFound m isThere) := by
  unfold metadataFound
  cases isThere with
  | false => exact .missing
  | true =>
    simp only [Bool.not_true, Bool.false_eq_true, ite_false]
    rcases Bool.eq_false_or_eq_true r.terminated with ht | ht
    · rw [advance_of_terminated (r := { r with deployment := some ⟨m.file, m.name⟩ }) ht]
      exact .foundParks ht
    · rw [advance_of_not_terminated (r := { r with deployment := some ⟨m.file, m.name⟩ }) ht]
      exact .found ht

theorem answerTurn_homeFound (home : Path) :
    AnswerTurn r w .provisioning (.home home) (r.homeFound w home) := by
  unfold homeFound
  cases ht : r.terminated with
  | true =>
    rw [advance_of_terminated ht]
    exact .homeParks ht
  | false =>
    rw [advance_of_not_terminated ht]
    cases ha : r.settings.asksForJavaHome with
    | true =>
      have ha' : (r.enter .validating).settings.asksForJavaHome = true := ha
      simp only [ha', ite_true]
      exact .homeAsks ht ha
    | false =>
      have ha' : (r.enter .validating).settings.asksForJavaHome = false := ha
      simp only [ha', Bool.false_eq_true, ite_false]
      exact .homeInstalls ht ha (installTurn_installationFound _)

/-- Each turn of the sequence after an answer is one of those listed. -/
theorem answerTurn_of_nextTurn? {p : Point} {a : Answer} (h : r.nextTurn? w p a = some u) :
    AnswerTurn r w p a u := by
  have onServer {step : Step} {q : Server.Point} {b : Server.Answer} (hb : a.toServer? = some b)
      (h : (r.server.bind fun s => (s.nextTurn? w.toSurroundings sequenceId q b).map fun t =>
        afterServerTurn w step.following r step t) = some u) :
      AnswerTurn r w (.onServer step q) a u := by
    obtain ⟨v, hv, h⟩ := Option.bind_eq_some_iff.mp h
    obtain ⟨t, ht, rfl⟩ := Option.map_eq_some_iff.mp h
    exact .onServer hb hv ht (stepTurn_afterServerTurn r step t)
  cases p <;> cases a <;> simp only [nextTurn?, Option.some.injEq, reduceCtorEq] at h
  case resolving.metadata m isThere =>
    subst h
    exact answerTurn_metadataFound m isThere
  case provisioning.home home =>
    subst h
    exact answerTurn_homeFound home
  case readingJavaHome.environment home value =>
    subst h
    exact .environment (installTurn_installationFound _)
  case creatingServer.created i =>
    subst h
    exact .created (stepTurn_afterServerTurn _ _ _)
  case onServer.server step q b => exact onServer rfl h
  case onServer.cancelled step q => exact onServer rfl h
  all_goals
    subst h
    first
      | exact .cancelled fun _ _ hp => by cases hp
      | exact .failed (fun _ _ hp => by cases hp) (by simp)

/-! ### turns that stop the server -/

theorem afterStopTurn_of_paused {t : Server.Turn} {p : Server.Point} {wait : Server.Wait}
    (h : t.outcome = .paused p wait) :
    r.afterStopTurn ending t = ⟨{ r with server := some t.server }, t.effects.map serverEffect,
      .shuttingDown (.shuttingDown ending p) wait⟩ := by
  simp [afterStopTurn, h, SupervisorTurn.after]

/-- A stop that has returned ends the shutdown, and the run. -/
theorem afterStopTurn_of_returned {t : Server.Turn} {code : Option Int}
    (h : t.outcome = .returned code) :
    r.afterStopTurn ending t =
      ⟨{ r with
          server := some t.server
          shutdown := r.shutdown.passTurn supervisorId }.enter .shutDown,
        t.effects.map serverEffect ++
          ([.callbackLeft, .unregistered, .entered .shutDown] : List Effect),
        .ended ending⟩ := by
  simp [afterStopTurn, h, SupervisorTurn.after, Shutdown.callbackEnded, finish]

/-- A shutdown that was not begun, and whose callback stops the server that was made. -/
structure IsFresh (r : Run) : Prop where
  done : r.shutdown.done = false
  turns : r.shutdown.turns = []
  callback : r.shutdown.callback = r.server.map fun _ => ()

theorem shutDown_of_none (h : r.IsFresh) (hs : r.server = none) :
    ∃ k, k.callback = r.shutdown.callback ∧
      r.shutDown w ending = ⟨{ r with shutdown := k }.enter .shutDown,
        [.unregistered, .entered .shutDown], .ended ending⟩ := by
  have hc := h.callback
  rw [hs] at hc
  simp only [shutDown, Shutdown.run, Shutdown.takeTurn, h.done, h.turns, hc, hs]
  exact ⟨_, rfl, rfl⟩

theorem shutDown_of_some (h : r.IsFresh) {v : Server} (hs : r.server = some v) :
    ∃ k, k.callback = r.shutdown.callback ∧
      r.shutDown w ending =
        ({ r with shutdown := k }.afterStopTurn ending
          (v.firstTurn w.toSurroundings supervisorId .stop)).after [.callbackEntered] := by
  have hc := h.callback
  rw [hs] at hc
  simp only [shutDown, Shutdown.run, Shutdown.takeTurn, h.done, h.turns, hc, hs]
  exact ⟨_, rfl, rfl⟩

/-- What a run may do when its sequence has ended. -/
def Effect.IsClosing : Effect → Prop
  | .registered | .banner .. => False
  | .entered p => p = .failed ∨ p = .shutDown
  | _ => True

theorem isClosing_of_serverEffects {es : List Server.Effect} :
    ∀ e ∈ es.map serverEffect, e.IsClosing := by
  intro e he
  obtain ⟨f, -, rfl⟩ := List.mem_map.mp he
  cases f <;> trivial

/-- The turns of the supervisor that shuts a run down: it waits for a stop of the server that was
not cancelled, or the run ends. -/
inductive ShutdownTurn (r : Run) (ending : Ending) : SupervisorTurn → Prop
  | waits {v k effects p wait} (hp : p.concern = .stop) (hi : p.interrupted = false)
      (hk : k.callback = r.shutdown.callback) (he : ∀ e ∈ effects, e.IsClosing) :
      ShutdownTurn r ending ⟨{ r with server := some v, shutdown := k }, effects,
        .shuttingDown (.shuttingDown ending p) wait⟩
  | ends {v k effects} (hk : k.callback = r.shutdown.callback) (he : ∀ e ∈ effects, e.IsClosing) :
      ShutdownTurn r ending
        ⟨{ r with server := v, shutdown := k }.enter .shutDown, effects, .ended ending⟩

theorem ShutdownTurn.after {u : SupervisorTurn} (h : ShutdownTurn r ending u)
    (he : ∀ e ∈ es, e.IsClosing) : ShutdownTurn r ending (u.after es) := by
  have both {fs : List Effect} (hf : ∀ e ∈ fs, e.IsClosing) : ∀ e ∈ es ++ fs, e.IsClosing := by
    intro e hm
    rcases List.mem_append.mp hm with hm | hm
    · exact he e hm
    · exact hf e hm
  cases h with
  | waits hp hi hk hf => exact .waits hp hi hk (both hf)
  | ends hk hf => exact .ends hk (both hf)

theorem shutdownTurn_of_paused {t : Server.Turn} {p : Server.Point} {wait : Server.Wait}
    (h : t.outcome = .paused p wait) (hp : p.concern = .stop) (hi : p.interrupted = false)
    {k : Shutdown Unit} (hk : k.callback = r.shutdown.callback) :
    ShutdownTurn r ending ({ r with shutdown := k }.afterStopTurn ending t) := by
  rw [afterStopTurn_of_paused h]
  exact .waits hp hi hk isClosing_of_serverEffects

theorem shutdownTurn_of_returned {t : Server.Turn} {code : Option Int}
    (h : t.outcome = .returned code) {k : Shutdown Unit} (hk : k.callback = r.shutdown.callback) :
    ShutdownTurn r ending ({ r with shutdown := k }.afterStopTurn ending t) := by
  rw [afterStopTurn_of_returned h]
  refine .ends hk fun e he => ?_
  rcases List.mem_append.mp he with he | he
  · exact isClosing_of_serverEffects e he
  · simp only [List.mem_cons, List.not_mem_nil, or_false] at he
    rcases he with rfl | rfl | rfl
    · trivial
    · trivial
    · exact .inr rfl

theorem shutdownTurn_of_stopTurn {s : Server} {previous : Server.State} {t : Server.Turn}
    (ht : s.StopTurn previous false t) {k : Shutdown Unit}
    (hk : k.callback = r.shutdown.callback) :
    ShutdownTurn r ending ({ r with shutdown := k }.afterStopTurn ending t) := by
  cases ht with
  | waits released hp hi =>
    exact shutdownTurn_of_paused rfl (Server.Point.concern_of_previous? hp) hi hk
  | ends released => exact shutdownTurn_of_returned rfl hk

/-- A stop that begins shuts a run down, whether it has something to do or not. -/
theorem shutdownTurn_firstTurn (v : Server) {k : Shutdown Unit}
    (hk : k.callback = r.shutdown.callback) :
    ShutdownTurn r ending ({ r with shutdown := k }.afterStopTurn ending
      (v.firstTurn w.toSurroundings supervisorId .stop)) := by
  by_cases ha : v.StopActs
  · exact shutdownTurn_of_stopTurn (Server.firstTurn_stop ha) hk
  · rw [Server.firstTurn_stop_idle ha]
    exact shutdownTurn_of_returned rfl hk

theorem IsFresh.shutDown (h : r.IsFresh) (w : Surroundings) (ending : Ending) :
    ShutdownTurn r ending (r.shutDown w ending) := by
  cases hs : r.server with
  | none =>
    obtain ⟨k, hk, hd⟩ : ∃ k, k.callback = r.shutdown.callback ∧
        r.shutDown w ending = ⟨{ r with shutdown := k }.enter .shutDown,
          [.unregistered, .entered .shutDown], .ended ending⟩ := shutDown_of_none h hs
    rw [hd]
    refine .ends hk fun e he => ?_
    simp only [List.mem_cons, List.not_mem_nil, or_false] at he
    rcases he with rfl | rfl
    · trivial
    · exact .inr rfl
  | some v =>
    obtain ⟨k, hk, hd⟩ : ∃ k, k.callback = r.shutdown.callback ∧ r.shutDown w ending =
        ({ r with shutdown := k }.afterStopTurn ending
          (v.firstTurn w.toSurroundings supervisorId .stop)).after [.callbackEntered] :=
      shutDown_of_some h hs
    rw [hd]
    refine (shutdownTurn_firstTurn v hk).after fun e he => ?_
    rw [List.mem_singleton.mp he]
    trivial

/-- The end of a run whose termination was requested in some phase. -/
def endingOf (p : Phase) : Ending := .stopped (if p = .running then exitOk else exitInterrupted) p

theorem IsFresh.interrupt (h : r.IsFresh) (w : Surroundings) (p : Phase) :
    ShutdownTurn r (endingOf p) (r.interrupt w p) := by
  unfold Run.interrupt endingOf
  split
  · exact h.shutDown w _
  · refine (h.shutDown w _).after fun e he => ?_
    rw [List.mem_singleton.mp he]
    trivial

/-- The run that has failed, with the phase for a failure that ends runs. -/
def failed (r : Run) : Failure → Run
  | .run _ => r.enter .failed
  | _ => r

theorem fail_eq (r : Run) (f : Failure) :
    ∃ effects, (∀ e ∈ effects, e.IsClosing) ∧
      r.fail f = ⟨r.failed f, effects, .watching (.settling (.raised f))⟩ := by
  cases f with
  | run e =>
    refine ⟨_, fun e he => ?_, rfl⟩
    simp only [List.mem_cons, List.not_mem_nil, or_false] at he
    rcases he with rfl | rfl
    · exact .inl rfl
    · trivial
  | _ => exact ⟨[], by simp, rfl⟩

end

end ServerRun.Run
