import ServerRun.Server.Calls

/-! What one turn of a call does. A call waits only at points of its own concern, calls that work on
a server or wait for its exit change nothing but who has the turn, and the turns of a start and of a
stop come in a few forms, which are listed here once. -/

namespace ServerRun.Server

/-- What a call is about. -/
inductive Concern where
  | startup
  | work
  | exit
  | stop
deriving DecidableEq

def Call.concern : Call → Concern
  | .start => .startup
  | .stop => .stop
  | .deploy .. | .execute _ => .work
  | .waitForExit => .exit

def Point.concern : Point → Concern
  | .launching | .readingState _ | .sleeping _ => .startup
  | .awaitingTurn _ | .deploying _ | .executing .. => .work
  | .awaitingExit => .exit
  | .askingShutdown _ | .awaitingDeath .. | .closing .. | .draining .. => .stop

/-- The state that a stop began from, at the points of a stop. -/
def Point.previous? : Point → Option State
  | .askingShutdown previous | .awaitingDeath previous _ | .closing previous _
  | .draining previous _ => some previous
  | _ => none

/-- Whether a stop that waits at a point was cancelled before. -/
def Point.interrupted : Point → Bool
  | .closing _ interrupted | .draining _ interrupted => interrupted
  | _ => false

theorem Point.concern_of_previous? {p : Point} {previous : State}
    (h : p.previous? = some previous) : p.concern = .stop := by
  cases p <;> simp_all [Point.previous?, Point.concern]

theorem Point.previous?_of_concern {p : Point} (h : p.concern = .stop) :
    ∃ previous, p.previous? = some previous := by
  cases p <;> simp_all [Point.previous?, Point.concern]

/-- The turn ends its call. -/
def Turn.Ends (t : Turn) : Prop := ∀ p w, t.outcome ≠ .paused p w

/-- The call of a turn waits, if it does, at a point of some concern. -/
def Turn.WaitsOn (c : Concern) (t : Turn) : Prop :=
  ∀ p w, t.outcome = .paused p w → p.concern = c

section

variable {s : Server} {w : Surroundings} {id : Nat} {t : Turn} {es : List Effect}

@[simp] theorem Turn.after_effects : (t.after es).effects = es ++ t.effects := rfl

/-- Only of a child that there is an exit code is known. -/
theorem child_of_exitCode? (h : s.exitCode? ≠ none) : s.child ≠ none :=
  fun hc => h (by rw [exitCode?, hc, Option.bind_none])

theorem exitCode?_withExit (h : s.child ≠ none) (code : Int) :
    (s.withExit code).exitCode? = some code := by
  obtain ⟨c, hc⟩ := Option.ne_none_iff_exists'.mp h
  simp [withExit, exitCode?, hc]

theorem Turn.Ends.waitsOn (h : t.Ends) (c : Concern) : t.WaitsOn c :=
  fun p w hp => absurd hp (h p w)

theorem raise_ends (f : Failure) : (s.raise f).Ends := by
  intro p w h
  cases h

theorem finish_ends : s.finish.Ends := by
  intro p w h
  cases h

theorem pause_waitsOn {p : Point} {wait : Wait} : (s.pause p wait).WaitsOn p.concern := by
  intro q w h
  cases h
  rfl

/-! ### calls that work on a server -/

/-- Working on a server changes nothing of it but who has the turn. -/
theorem continueBatch_server (b : Batch) (x : List Log.Record × Batch.Progress) :
    ∃ q, (s.continueBatch id b x).server = { s with turns := q } := by
  obtain ⟨logs, progress⟩ := x
  cases progress with
  | send request p => exact ⟨s.turns, rfl⟩
  | finished => exact ⟨_, rfl⟩
  | raised f => exact ⟨_, rfl⟩

theorem continueBatch_waitsOn (b : Batch) (x : List Log.Record × Batch.Progress) :
    (s.continueBatch id b x).WaitsOn .work := by
  obtain ⟨logs, progress⟩ := x
  intro p w h
  cases progress <;> cases h
  rfl

theorem beginWork_server (work : Work) :
    ∃ q, (s.beginWork id work).server = { s with turns := q } := by
  cases work with
  | deploy file name => exact ⟨s.turns, rfl⟩
  | execute b => exact continueBatch_server b (b.start _)

theorem beginWork_waitsOn (work : Work) : (s.beginWork id work).WaitsOn .work := by
  cases work with
  | deploy file name =>
    intro p w h
    cases h
    rfl
  | execute b => exact continueBatch_waitsOn b (b.start _)

theorem takeTurn_server (work : Work) :
    ∃ q, (s.takeTurn id work).server = { s with turns := q } := by
  unfold takeTurn
  split
  · exact beginWork_server work
  · exact ⟨_, rfl⟩

theorem takeTurn_waitsOn (work : Work) : (s.takeTurn id work).WaitsOn .work := by
  unfold takeTurn
  split
  · exact beginWork_waitsOn work
  · exact pause_waitsOn (p := .awaitingTurn work)

theorem firstTurn_server_of_work {c : Call} (h : c.concern = .work ∨ c.concern = .exit) :
    ∃ q, (s.firstTurn w id c).server = { s with turns := q } := by
  cases c with
  | start => simp [Call.concern] at h
  | stop => simp [Call.concern] at h
  | deploy file name =>
    simp only [firstTurn, deploy]
    split
    · exact ⟨s.turns, rfl⟩
    · split
      · exact ⟨s.turns, rfl⟩
      · exact takeTurn_server _
  | execute b =>
    simp only [firstTurn, execute]
    split
    · exact ⟨s.turns, rfl⟩
    · split
      · exact ⟨s.turns, rfl⟩
      · exact takeTurn_server _
  | waitForExit =>
    simp only [firstTurn]
    split
    · exact ⟨s.turns, rfl⟩
    · split <;> exact ⟨s.turns, rfl⟩

theorem nextTurn?_server_of_work {p : Point} {a : Answer}
    (h : p.concern = .work ∨ p.concern = .exit) (ht : s.nextTurn? w id p a = some t) :
    ∃ q, t.server = { s with turns := q } := by
  cases p <;> simp [Point.concern] at h <;> cases a <;> simp [nextTurn?] at ht <;> subst ht
  case awaitingTurn.turn work => exact beginWork_server work
  case executing.done b p _ => exact continueBatch_server b _
  case executing.failed b p _ f => exact continueBatch_server b _
  all_goals exact ⟨_, rfl⟩

theorem nextTurn?_waitsOn_of_work {p : Point} {a : Answer}
    (h : p.concern = .work ∨ p.concern = .exit) (ht : s.nextTurn? w id p a = some t) :
    t.WaitsOn p.concern := by
  cases p <;> simp [Point.concern] at h <;> cases a <;> simp [nextTurn?] at ht <;> subst ht
  case awaitingTurn.turn work => exact beginWork_waitsOn work
  case executing.done b p _ => exact continueBatch_waitsOn b _
  case executing.failed b p _ f => exact continueBatch_waitsOn b _
  all_goals exact Turn.Ends.waitsOn (fun p w h => by cases h) _

theorem firstTurn_waitsOn_of_work {c : Call} (h : c.concern = .work ∨ c.concern = .exit) :
    (s.firstTurn w id c).WaitsOn c.concern := by
  cases c with
  | start => simp [Call.concern] at h
  | stop => simp [Call.concern] at h
  | deploy file name =>
    simp only [firstTurn, deploy]
    split
    · exact (raise_ends _).waitsOn _
    · split
      · exact (raise_ends _).waitsOn _
      · exact takeTurn_waitsOn _
  | execute b =>
    simp only [firstTurn, execute]
    split
    · exact finish_ends.waitsOn _
    · split
      · exact (raise_ends _).waitsOn _
      · exact takeTurn_waitsOn _
  | waitForExit =>
    simp only [firstTurn]
    split
    · exact finish_ends.waitsOn _
    · split
      · exact Turn.Ends.waitsOn (fun p w h => by cases h) _
      · exact pause_waitsOn (p := .awaitingExit)

/-! ### starting -/

/-- The turns of a start after the launch: it waits for an answer about the state or for the next
look, or it ends, with a server that is ready or has failed or is as it was. -/
inductive StartupTurn (s : Server) : Turn → Prop
  | waits {effects point wait} (hp : point.concern = .startup) (hl : point ≠ .launching) :
      StartupTurn s ⟨s, effects, .paused point wait⟩
  | ready {effects} : StartupTurn s ⟨{ s with state := .started }, effects, .returned none⟩
  | fails {effects f} : StartupTurn s ⟨{ s with state := .failed }, effects, .raised f⟩
  | raises {effects f} : StartupTurn s ⟨s, effects, .raised f⟩

/-- The answer to a look settles the start: the server is running, or the time is over. -/
def settlesStart (s : Server) (w : Surroundings) (since : Seconds) : Answer → Prop
  | .state value =>
    value = some "running" ∨ s.startupLimit.reachedBy (s.elapsedSince w since) = true
  | .elapsed | .failed (.timedOut _) =>
    s.startupLimit.reachedBy (s.elapsedSince w since) = true
  | _ => False

/-- A turn of a start waits for more of the start, and otherwise may have changed the state. -/
theorem StartupTurn.settled (h : StartupTurn s t) :
    (∀ p w, t.outcome = .paused p w → p.concern = .startup ∧ p ≠ .launching) ∧
      (t.server = s ∨
        t.Ends ∧
          (t.server = { s with state := .started } ∨ t.server = { s with state := .failed })) := by
  cases h with
  | waits hp hl =>
    refine ⟨fun p w h => ?_, .inl rfl⟩
    cases h
    exact ⟨hp, hl⟩
  | ready => exact ⟨fun p w h => (by cases h), .inr ⟨fun p w h => (by cases h), .inl rfl⟩⟩
  | fails => exact ⟨fun p w h => (by cases h), .inr ⟨fun p w h => (by cases h), .inr rfl⟩⟩
  | raises => exact ⟨fun p w h => (by cases h), .inl rfl⟩

theorem look_startup (since : Seconds) : StartupTurn s (s.look w since) := by
  unfold look
  split
  · exact .raises
  · split
    · exact .fails
    · exact .waits rfl (by simp)

/-- A look changes the state only of a server that is starting. -/
theorem look_state (h : s.state ≠ .starting) (since : Seconds) :
    (s.look w since).server = s ∧ (s.look w since).Ends := by
  simp only [look, h, ne_eq, not_false_eq_true, ite_true]
  exact ⟨rfl, raise_ends _⟩

theorem sleepOrGiveUp_startup (since : Seconds) : StartupTurn s (s.sleepOrGiveUp w since) := by
  simp only [sleepOrGiveUp]
  split
  · exact .fails
  · exact .waits rfl (by simp)

theorem stateRead_startup (since : Seconds) (value : Option String) :
    StartupTurn s (s.stateRead w since value) := by
  unfold stateRead
  split
  · exact .ready
  · exact sleepOrGiveUp_startup since

/-- A failure to read the state is a time limit that is over, or ends the start. -/
theorem stateFailed_cases (s : Server) (w : Surroundings) (since : Seconds) (f : Failure) :
    (∃ message, f = .timedOut message ∧ s.stateFailed w since f = s.stateRead w since none) ∨
      (∀ message, f ≠ .timedOut message) ∧ s.stateFailed w since f = s.raise f := by
  cases f
  case timedOut message => exact .inl ⟨message, rfl, rfl⟩
  all_goals exact .inr ⟨by simp, rfl⟩

theorem stateFailed_startup (since : Seconds) (f : Failure) :
    StartupTurn s (s.stateFailed w since f) := by
  rcases s.stateFailed_cases w since f with ⟨_, -, h⟩ | ⟨-, h⟩ <;> rw [h]
  · exact stateRead_startup since none
  · exact .raises

/-- A launch that failed ends the start, and may have made the server one that has failed. -/
theorem launchFailed_cases (s : Server) (f : Failure) :
    (∃ message, f.systemText? = some message ∧
      s.launchFailed f = { s with state := .failed }.raise (.run (.precondition
        ("Could not launch server with '" ++ s.info.java ++ "': " ++ message)
        (.ofString s.info.java)))) ∨
      f.systemText? = none ∧ s.launchFailed f = s.raise f := by
  cases h : f.systemText? with
  | some message => exact .inl ⟨message, rfl, by simp [launchFailed, h]⟩
  | none => exact .inr ⟨rfl, by simp [launchFailed, h]⟩

/-- An answer that settles the start ends it with a server that is ready or has failed. -/
theorem nextTurn?_of_settlesStart {since : Seconds} {a : Answer}
    (ht : s.nextTurn? w id (.readingState since) a = some t) (h : s.settlesStart w since a) :
    t.server.state = .started ∨ t.server.state = .failed := by
  have giveUp (hr : s.startupLimit.reachedBy (s.elapsedSince w since) = true) :
      (s.sleepOrGiveUp w since).server.state = .failed := by
    simp [sleepOrGiveUp, hr, raise]
  cases a <;> simp [nextTurn?] at ht <;> subst ht <;> simp only [settlesStart] at h
  case state value =>
    by_cases hv : value = some "running"
    · exact .inl (by simp [stateRead, hv])
    · exact .inr (by simpa [stateRead, hv] using giveUp (h.resolve_left hv))
  case elapsed => exact .inr (by simpa [stateRead] using giveUp h)
  case failed f =>
    rcases s.stateFailed_cases w since f with ⟨message, rfl, hf⟩ | ⟨hne, -⟩
    · exact .inr (by simpa [hf, stateRead] using giveUp h)
    · cases f <;> first | exact h.elim | exact absurd rfl (hne _)

/-- Any other answer leaves the server as it is. -/
theorem nextTurn?_of_not_settlesStart {since : Seconds} {a : Answer}
    (ht : s.nextTurn? w id (.readingState since) a = some t) (h : ¬ s.settlesStart w since a) :
    t.server = s := by
  have sleepOn (hr : ¬ s.startupLimit.reachedBy (s.elapsedSince w since) = true) :
      (s.sleepOrGiveUp w since).server = s := by
    simp [sleepOrGiveUp, hr, pause]
  cases a <;> simp [nextTurn?] at ht <;> subst ht <;> simp only [settlesStart] at h
  case state value =>
    obtain ⟨hv, hr⟩ := not_or.mp h
    simpa [stateRead, hv] using sleepOn hr
  case elapsed => simpa [stateRead] using sleepOn h
  case failed f =>
    rcases s.stateFailed_cases w since f with ⟨message, rfl, hf⟩ | ⟨-, hf⟩ <;> rw [hf]
    · simpa [stateRead] using sleepOn h
    · rfl
  all_goals rfl

/-- The turns of a start that waits for an answer about the state, or for its next look. -/
theorem nextTurn?_startup {p : Point} {a : Answer} (hp : p.concern = .startup)
    (hl : p ≠ .launching) (ht : s.nextTurn? w id p a = some t) : StartupTurn s t := by
  cases p <;> simp [Point.concern] at hp hl <;> cases a <;> simp [nextTurn?] at ht <;> subst ht
  case readingState.state since value => exact stateRead_startup since value
  case readingState.elapsed since => exact stateRead_startup since none
  case readingState.failed since f => exact stateFailed_startup since f
  case sleeping.elapsed since => exact look_startup since
  all_goals exact .raises

/-- The launch of a child: the server has the child, listens to its output and may have a
client. -/
theorem nextTurn?_launched {pid : Int} {client : Option Failure}
    (ht : s.nextTurn? w id .launching (.launched pid client) = some t) :
    ∃ c, StartupTurn { s with child := some { pid }, listening := true, connected := c } t ∧
      t.server.state = s.state := by
  simp only [nextTurn?, Option.some.injEq] at ht
  subst ht
  cases client with
  | some f => exact ⟨s.connected, .raises, rfl⟩
  | none =>
    refine ⟨true, look_startup _, ?_⟩
    simp only [launched, look]
    split
    · rfl
    · rfl

/-- Without a launch, a start ends; only the state may have become that of a failed server. -/
theorem nextTurn?_not_launched {a : Answer} (ha : ∀ pid client, a ≠ .launched pid client)
    (ht : s.nextTurn? w id .launching a = some t) :
    t.Ends ∧ (t.server = s ∨ t.server = { s with state := .failed }) := by
  cases a <;> simp [nextTurn?] at ht <;> subst ht
  case launched pid client => exact absurd rfl (ha pid client)
  case failed f =>
    rcases s.launchFailed_cases f with ⟨message, -, h⟩ | ⟨-, h⟩ <;> rw [h]
    · exact ⟨raise_ends _, .inr rfl⟩
    · exact ⟨raise_ends _, .inl rfl⟩
  all_goals exact ⟨raise_ends _, .inl rfl⟩

/-! ### calls that do not stop a server -/

/-- What a call that does not stop a server keeps of it. -/
structure Keeps (s t : Server) : Prop where
  grace : t.grace = s.grace
  stopping : t.stopping = s.stopping
  released : t.released = s.released
  state : t.state = s.state ∨ t.state = .starting ∨ t.state = .started ∨ t.state = .failed
  child : s.child ≠ none → t.child ≠ none

theorem Keeps.refl (s : Server) : Keeps s s := ⟨rfl, rfl, rfl, .inl rfl, fun h => h⟩

theorem Keeps.trans {t u : Server} (h : Keeps s t) (hu : Keeps t u) : Keeps s u where
  grace := hu.grace.trans h.grace
  stopping := hu.stopping.trans h.stopping
  released := hu.released.trans h.released
  state := by
    rcases hu.state with hs | hs
    · rw [hs]
      exact h.state
    · exact .inr hs
  child hc := hu.child (h.child hc)

theorem Keeps.of_turns {q : List Nat} {t : Server} (h : t = { s with turns := q }) : Keeps s t := by
  subst h
  exact ⟨rfl, rfl, rfl, .inl rfl, fun h => h⟩

theorem Keeps.of_startupTurn (h : StartupTurn s t) : Keeps s t.server := by
  cases h with
  | waits | raises => exact .refl s
  | ready => exact ⟨rfl, rfl, rfl, .inr (.inr (.inl rfl)), fun h => h⟩
  | fails => exact ⟨rfl, rfl, rfl, .inr (.inr (.inr rfl)), fun h => h⟩

theorem firstTurn_keeps {c : Call} (h : c.concern ≠ .stop) :
    Keeps s (s.firstTurn w id c).server ∧ (s.firstTurn w id c).WaitsOn c.concern := by
  cases hc : c.concern with
  | stop => exact absurd hc h
  | work | exit =>
    obtain ⟨q, hq⟩ : ∃ q, (s.firstTurn w id c).server = { s with turns := q } :=
      firstTurn_server_of_work (by simp [hc])
    exact ⟨.of_turns hq, hc ▸ firstTurn_waitsOn_of_work (by simp [hc])⟩
  | startup =>
    cases c <;> cases hc
    simp only [firstTurn, start]
    split
    · exact ⟨.refl s, (raise_ends _).waitsOn _⟩
    · refine ⟨⟨rfl, rfl, rfl, .inr (.inl rfl), fun h => h⟩, ?_⟩
      intro p w hp
      cases hp
      rfl

theorem nextTurn?_keeps {p : Point} {a : Answer} (h : p.concern ≠ .stop)
    (ht : s.nextTurn? w id p a = some t) : Keeps s t.server ∧ t.WaitsOn p.concern := by
  cases hc : p.concern with
  | stop => exact absurd hc h
  | work | exit =>
    obtain ⟨q, hq⟩ := nextTurn?_server_of_work (by simp [hc]) ht
    exact ⟨.of_turns hq, hc ▸ nextTurn?_waitsOn_of_work (by simp [hc]) ht⟩
  | startup =>
    by_cases hp : p = .launching
    · subst hp
      by_cases ha : ∃ pid client, a = .launched pid client
      · obtain ⟨pid, client, rfl⟩ := ha
        obtain ⟨c, ht, -⟩ := nextTurn?_launched ht
        have hk : Keeps s { s with child := some { pid }, listening := true, connected := c } :=
          ⟨rfl, rfl, rfl, .inl rfl, fun _ => by simp⟩
        exact ⟨hk.trans (.of_startupTurn ht), fun p w hp => (ht.settled.1 p w hp).1⟩
      · obtain ⟨he, ht⟩ := nextTurn?_not_launched (fun pid client hn => ha ⟨pid, client, hn⟩) ht
        refine ⟨?_, he.waitsOn _⟩
        rcases ht with ht | ht
        · rw [ht]
          exact .refl s
        · rw [ht]
          exact ⟨rfl, rfl, rfl, .inr (.inr (.inr rfl)), fun h => h⟩
    · have ht := nextTurn?_startup hc hp ht
      exact ⟨.of_startupTurn ht, fun p w hp => (ht.settled.1 p w hp).1⟩

/-! ### stopping -/

/-- The state of a server whose stop has ended. -/
def stoppedState (s : Server) (previous : State) : State :=
  if previous = .failed then s.state else .stopped

/-- The turns of a stop: it waits at a point that remembers where it began, or it has ended. -/
inductive StopTurn (s : Server) (previous : State) (interrupted : Bool) : Turn → Prop
  | waits (released : Bool) {effects point wait} (hp : point.previous? = some previous)
      (hi : point.interrupted = interrupted) :
      StopTurn s previous interrupted ⟨{ s with released }, effects, .paused point wait⟩
  | ends (released : Bool) {effects} :
      StopTurn s previous interrupted
        ⟨{ s with released, state := s.stoppedState previous }, effects,
          if interrupted then .raised .cancelled else .returned none⟩

theorem StopTurn.after {previous : State} {interrupted : Bool}
    (h : StopTurn s previous interrupted t) : StopTurn s previous interrupted (t.after es) := by
  cases h with
  | waits released hp hi => exact .waits released hp hi
  | ends released => exact .ends released

theorem stopDone_stop (previous : State) (interrupted : Bool) :
    StopTurn s previous interrupted (s.stopDone previous interrupted) := by
  have hs : (if previous = .failed then s else { s with state := .stopped }) =
      { s with state := s.stoppedState previous } := by
    unfold stoppedState
    split <;> rfl
  unfold stopDone
  rw [hs]
  cases interrupted
  · exact .ends s.released
  · exact .ends s.released

theorem stopDone_ends (previous : State) (interrupted : Bool) :
    (s.stopDone previous interrupted).Ends := by
  intro p wait h
  cases interrupted <;> cases h

theorem drain_stop (previous : State) (interrupted : Bool) :
    StopTurn s previous interrupted (s.drain previous interrupted) := by
  unfold drain
  split
  · exact .waits s.released rfl rfl
  · exact stopDone_stop previous interrupted

theorem release_stop (previous : State) (interrupted : Bool) :
    StopTurn s previous interrupted (s.release previous interrupted) := by
  simp only [release]
  split
  · exact .waits true rfl rfl
  · have h := drain_stop (s := { s with released := true }) previous interrupted
    generalize drain _ _ _ = t at h ⊢
    cases h with
    | waits released hp hi => exact .waits released hp hi
    | ends released => exact .ends released

theorem giveUp_stop (previous : State) (reason : String) :
    StopTurn s previous false (s.giveUp previous reason) :=
  (release_stop previous false).after

theorem awaitDeath_stop (previous : State) (left : List Signal) :
    StopTurn s previous false (s.awaitDeath previous left) :=
  .waits s.released rfl rfl

theorem escalate_stop (previous : State) (left : List Signal) :
    StopTurn s previous false (s.escalate w previous left) := by
  cases left with
  | nil => exact giveUp_stop previous _
  | cons signal left =>
    simp only [escalate]
    split
    · exact release_stop previous false
    · split
      · exact (giveUp_stop previous _).after
      · exact (awaitDeath_stop previous left).after

/-- The turns of a stop that waits. A cancellation counts from then on, and cuts a stop short that
already releases what the server holds. -/
theorem nextTurn?_stop {p : Point} {a : Answer} {previous : State}
    (hp : p.previous? = some previous) (ht : s.nextTurn? w id p a = some t) :
    (∃ interrupted, (a ≠ .cancelled → interrupted = p.interrupted) ∧
      StopTurn s previous interrupted t) ∨ a = .cancelled ∧ t = s.raise .cancelled := by
  cases p <;> simp [Point.previous?] at hp <;> subst hp <;> cases a <;>
    simp [nextTurn?] at ht <;> subst ht
  case askingShutdown.cancelled => exact .inl ⟨true, by simp, release_stop _ true⟩
  case awaitingDeath.cancelled => exact .inl ⟨true, by simp, release_stop _ true⟩
  case awaitingDeath.exited => exact .inl ⟨false, fun _ => rfl, release_stop _ false⟩
  case awaitingDeath.elapsed left => exact .inl ⟨false, fun _ => rfl, escalate_stop _ left⟩
  case closing.cancelled => exact .inr ⟨rfl, rfl⟩
  case draining.cancelled => exact .inr ⟨rfl, rfl⟩
  case closing.done i => exact .inl ⟨i, fun _ => rfl, drain_stop _ i⟩
  case closing.failed i _ => exact .inl ⟨i, fun _ => rfl, drain_stop _ i⟩
  case draining.done i => exact .inl ⟨i, fun _ => rfl, stopDone_stop _ i⟩
  case draining.failed i _ => exact .inl ⟨i, fun _ => rfl, stopDone_stop _ i⟩
  case draining.elapsed i => exact .inl ⟨i, fun _ => rfl, stopDone_stop _ i⟩
  all_goals exact .inl ⟨false, fun _ => rfl, awaitDeath_stop _ _⟩

/-- The server of a stop that has begun to act. -/
def stopBegun (s : Server) : Server :=
  { s with stopping := true, state := if s.state = .failed then .failed else .stopping }

/-- A stop acts unless it has nothing to do or another stop acts. -/
def StopActs (s : Server) : Prop :=
  s.state ≠ .stopping ∧ s.state ≠ .stopped ∧ s.child ≠ none ∧ s.stopping = false ∧
    s.released = false

theorem firstTurn_stop_idle (h : ¬ s.StopActs) : s.firstTurn w id .stop = s.finish := by
  simp only [firstTurn, stop]
  split
  · rfl
  · rename_i hs
    split
    · rfl
    · rename_i hc
      exact absurd (by simpa [StopActs, not_or, and_assoc] using And.intro hs hc) h

theorem firstTurn_stop_eq (h : s.StopActs) :
    s.firstTurn w id .stop =
      Turn.after [logged .info "Stopping server" [("pid", jsonOfInt? s.pid?)]]
        (if s.state = .started ∧ s.exitCode? = none ∧ s.connected then
          s.stopBegun.pause (.askingShutdown s.state) (.shutdown s.grace)
        else s.stopBegun.escalate w s.state [.terminate, .kill]) := by
  obtain ⟨h1, h2, h3, h4, h5⟩ := h
  have hs : (if s.state = .failed then { s with stopping := true }
      else { s with stopping := true, state := .stopping }) = s.stopBegun := by
    unfold stopBegun
    split
    · rename_i hf
      rw [hf]
    · rfl
  simp only [firstTurn, stop]
  rw [if_neg (by simp [h1, h2]), if_neg (by simp [h3, h4, h5]), hs]
  rfl

theorem firstTurn_stop (h : s.StopActs) :
    StopTurn s.stopBegun s.state false (s.firstTurn w id .stop) := by
  rw [firstTurn_stop_eq h]
  split
  · exact StopTurn.waits s.released rfl rfl
  · exact (escalate_stop _ _).after

theorem release_pauses (hl : s.listening = true) (previous : State) (interrupted : Bool) :
    ¬ (s.release previous interrupted).Ends := by
  intro h
  simp only [release, drain, hl, ite_true] at h
  split at h <;> exact h _ _ rfl

theorem escalate_pauses (hl : s.listening = true) (previous : State) (left : List Signal) :
    ¬ (s.escalate w previous left).Ends := by
  cases left with
  | nil => exact release_pauses hl previous false
  | cons signal left =>
    simp only [escalate]
    split
    · exact release_pauses hl previous false
    · split
      · exact release_pauses hl previous false
      · exact fun h => h _ _ rfl

/-- A stop that begins to act waits for something, as there is output to be read at least. -/
theorem firstTurn_stop_pauses (h : s.StopActs) (hl : s.listening = true) :
    ¬ (s.firstTurn w id .stop).Ends := by
  rw [firstTurn_stop_eq h]
  split
  · exact fun he => he _ _ rfl
  · exact escalate_pauses (s := s.stopBegun) hl s.state _

end

end ServerRun.Server
