import ServerRun.Proofs.Server.Queue

/-! The acts of a turn: what a server does to its child and to its management client besides working
with them. It launches the child, asks for a shutdown, sends signals and closes the client; only a
start and a stop act, and a stop with signals left sends none to a child that is known to be
dead. -/

namespace ServerRun.Server

/-- An act of a server on its child or on its client. -/
inductive Act where
  | launch
  | launched
  | shutdown
  | signal (signal : Signal)
  | close
deriving DecidableEq

def Effect.act? : Effect → Option Act
  | .signal x => some (.signal x)
  | .log _ => none

def Wait.act? : Wait → Option Act
  | .launch .. => some .launch
  | .shutdown _ => some .shutdown
  | .close => some .close
  | _ => none

def Answer.act? : Answer → Option Act
  | .launched .. => some .launched
  | _ => none

def Event.act? : Event → Option Act
  | .effect _ e => e.act?
  | .waits _ w => w.act?
  | .answered _ a => a.act?
  | _ => none

def Outcome.acts : Outcome → List Act
  | .paused _ w => w.act?.toList
  | _ => []

/-- The acts of a turn. -/
def Turn.acts (t : Turn) : List Act := t.effects.filterMap Effect.act? ++ t.outcome.acts

/-- The signals that are left to a stop which waits for the child's death, now or later. -/
def Point.left? : Point → Option (List Signal)
  | .askingShutdown _ => some [.terminate, .kill]
  | .awaitingDeath _ left => some left
  | _ => none

/-- Whether a call that waits at a point may act on the child when it goes on. -/
def Point.isActing (p : Point) : Bool := p matches .launching || p.left?.isSome

section

variable {s : Server} {w : Surroundings} {id : Nat} {t : Turn} {es : List Effect}
  {previous : State} {interrupted : Bool} {left : List Signal}

/-! ### the acts of a turn -/

theorem filterMap_act?_events (id : Nat) (t : Turn) :
    (t.events id).filterMap Event.act? = t.acts := by
  rw [Turn.events, List.filterMap_append, List.filterMap_map, Turn.acts]
  cases t.outcome <;> rfl

@[simp] theorem acts_after : (t.after es).acts = es.filterMap Effect.act? ++ t.acts := by
  simp [Turn.acts, Turn.after]

@[simp] theorem acts_finish : s.finish.acts = [] := rfl

theorem acts_raise {f : Failure} : (s.raise f).acts = [] := rfl

/-- A record in the log is no act. -/
theorem act?_logged {level : Log.Level} {message : String} {extra : Fields} :
    (logged level message extra).act? = none := rfl

theorem look_acts (since : Seconds) : (s.look w since).acts = [] := by
  unfold look
  split
  · rfl
  · split <;> rfl

theorem sleepOrGiveUp_acts (since : Seconds) : (s.sleepOrGiveUp w since).acts = [] := by
  simp only [sleepOrGiveUp]
  split <;> rfl

theorem stateRead_acts (since : Seconds) (value : Option String) :
    (s.stateRead w since value).acts = [] := by
  unfold stateRead
  split
  · rfl
  · exact sleepOrGiveUp_acts since

theorem continueBatch_acts (b : Batch) (x : List Log.Record × Batch.Progress) :
    (s.continueBatch id b x).acts = [] := by
  obtain ⟨logs, progress⟩ := x
  have hlogs : (logs.map Effect.log).filterMap Effect.act? = [] := by
    simp [List.filterMap_map, Function.comp_def, Effect.act?]
  simp only [continueBatch, acts_after, hlogs]
  cases progress <;> rfl

theorem beginWork_acts (work : Work) : (s.beginWork id work).acts = [] := by
  cases work with
  | deploy file name => rfl
  | execute b => exact continueBatch_acts b (b.start _)

theorem takeTurn_acts (work : Work) : (s.takeTurn id work).acts = [] := by
  unfold takeTurn
  split
  · exact beginWork_acts work
  · rfl

/-- A call that does not stop the server does not act, unless it starts the server. -/
theorem firstTurn_acts {c : Call} (hc : c.concern ≠ .stop)
    (hs : c = .start → s.state ≠ .notStarted) : (s.firstTurn w id c).acts = [] := by
  cases c with
  | start =>
    simp only [firstTurn, start, hs rfl, ne_eq, not_false_eq_true, ite_true]
    exact acts_raise
  | stop => exact absurd rfl hc
  | deploy file name =>
    simp only [firstTurn, deploy]
    split
    · rfl
    · split
      · rfl
      · exact takeTurn_acts _
  | execute b =>
    simp only [firstTurn, execute]
    split
    · rfl
    · split
      · rfl
      · exact takeTurn_acts _
  | waitForExit =>
    simp only [firstTurn]
    split
    · rfl
    · split <;> rfl

theorem firstTurn_start (h : s.state = .notStarted) (w : Surroundings) (id : Nat) :
    (s.firstTurn w id .start).server = { s with state := .starting } ∧
      (s.firstTurn w id .start).acts = [.launch] ∧
      ∃ wait, (s.firstTurn w id .start).outcome = .paused .launching wait := by
  rw [firstTurn, start, if_neg (not_not_intro h)]
  exact ⟨rfl, rfl, _, rfl⟩

/-- Only an answer to a launch tells of a child. -/
theorem act?_of_nextTurn? {p : Point} {a : Answer} (hp : p ≠ .launching)
    (ht : s.nextTurn? w id p a = some t) : a.act? = none := by
  cases a with
  | launched pid client => cases p <;> first | exact absurd rfl hp | cases ht
  | _ => rfl

theorem drain_acts : (s.drain previous interrupted).acts = [] := by
  unfold drain stopDone
  split
  · rfl
  · cases interrupted <;> simp [act?_logged, acts_raise]

/-- A call that is answered acts only if it waits for the child's death, now or later. -/
theorem nextTurn?_acts {p : Point} {a : Answer} (hp : p.left? = none)
    (ht : s.nextTurn? w id p a = some t) : t.acts = [] := by
  cases p <;> simp [Point.left?] at hp <;> cases a <;> simp [nextTurn?] at ht <;> subst ht
  case launching.launched pid client =>
    cases client with
    | some f => rfl
    | none => exact look_acts _
  case launching.failed f =>
    rcases s.launchFailed_cases f with ⟨_, -, h⟩ | ⟨-, h⟩ <;> rw [h] <;> rfl
  case readingState.state since value => exact stateRead_acts since value
  case readingState.elapsed since => exact stateRead_acts since none
  case readingState.failed since f =>
    rcases s.stateFailed_cases w since f with ⟨_, -, h⟩ | ⟨-, h⟩ <;> rw [h]
    · exact stateRead_acts since none
    · rfl
  case sleeping.elapsed since => exact look_acts since
  case awaitingTurn.turn work => exact beginWork_acts work
  case executing.done b p _ => exact continueBatch_acts b _
  case executing.failed b p _ f => exact continueBatch_acts b _
  case closing.done | closing.failed => exact drain_acts
  case draining.done i | draining.failed i _ | draining.elapsed i =>
    unfold stopDone
    cases i <;> simp [act?_logged, acts_raise]
  all_goals rfl

/-! ### the acts of a stop -/

/-- The turns of a stop with signals left: it sends some of them, and none to a child that is known
to be dead, and waits for the child's death with the others left or goes on to close the client. -/
inductive Escalates (s : Server) (left : List Signal) (t : Turn) : Prop
  | waits (sent rest : List Signal) {previous : State} {wait : Wait} (hl : sent ++ rest = left)
      (he : sent ≠ [] → s.exitCode? = none) (ha : t.acts = sent.map .signal)
      (ho : t.outcome = .paused (.awaitingDeath previous rest) wait)
  | releases (sent rest : List Signal) (closes : List Act) (hl : sent ++ rest = left)
      (he : sent ≠ [] → s.exitCode? = none) (hc : closes <+: [.close])
      (ha : t.acts = sent.map .signal ++ closes)
      (ho : ∀ p wait, t.outcome = .paused p wait → p.isActing = false)

theorem Turn.Ends.isActing (h : t.Ends) (p : Point) (wait : Wait)
    (hp : t.outcome = .paused p wait) : p.isActing = false :=
  absurd hp (h p wait)

theorem drain_isActing (p : Point) (wait : Wait)
    (h : (s.drain previous interrupted).outcome = .paused p wait) : p.isActing = false := by
  unfold drain at h
  split at h
  · cases h
    rfl
  · exact (stopDone_ends previous interrupted).isActing p wait h

theorem release_escalates (left : List Signal) :
    Escalates s left (s.release previous interrupted) := by
  simp only [release]
  split
  · refine .releases [] left [.close] rfl (fun h => absurd rfl h) (List.prefix_refl _) rfl ?_
    intro p wait h
    cases h
    rfl
  · exact .releases [] left [] rfl (fun h => absurd rfl h) (List.nil_prefix) drain_acts
      drain_isActing

theorem Escalates.after (h : Escalates s left t) (hs : es.filterMap Effect.act? = []) :
    Escalates s left (t.after es) := by
  cases h with
  | waits sent rest hl he ha ho => exact .waits sent rest hl he (by simp [hs, ha]) ho
  | releases sent rest closes hl he hc ha ho =>
    exact .releases sent rest closes hl he hc (by simp [hs, ha]) ho

theorem awaitDeath_escalates (left : List Signal) : Escalates s left (s.awaitDeath previous left) :=
  .waits [] left rfl (fun h => absurd rfl h) rfl rfl

/-- One more signal is sent while the child is not known to be dead. -/
theorem Escalates.send {signal : Signal} (he : s.exitCode? = none) (h : Escalates s left t) :
    Escalates s (signal :: left) (t.after [.signal signal]) := by
  cases h with
  | waits sent rest hl _ ha ho =>
    exact .waits (signal :: sent) rest (by rw [← hl]; rfl) (fun _ => he) (by simp [ha, Effect.act?])
      ho
  | releases sent rest closes hl _ hc ha ho =>
    exact .releases (signal :: sent) rest closes (by rw [← hl]; rfl) (fun _ => he) hc
      (by simp [ha, Effect.act?]) ho

theorem giveUp_escalates (left : List Signal) (reason : String) :
    Escalates s left (s.giveUp previous reason) :=
  (release_escalates left).after (by simp [act?_logged])

theorem escalate_escalates (left : List Signal) :
    Escalates s left (s.escalate w previous left) := by
  cases left with
  | nil => exact giveUp_escalates [] _
  | cons signal left =>
    simp only [escalate]
    split
    · exact release_escalates _
    · rename_i he
      have he : s.exitCode? = none := by simpa using he
      split
      · exact (giveUp_escalates left _).send he
      · exact (awaitDeath_escalates left).send he

theorem nextTurn?_escalates {p : Point} {a : Answer} (hp : p.left? = some left)
    (ht : s.nextTurn? w id p a = some t) : Escalates s left t := by
  cases p <;> simp [Point.left?] at hp <;> subst hp <;> cases a <;> simp [nextTurn?] at ht <;>
    subst ht
  case awaitingDeath.elapsed left => exact escalate_escalates left
  case askingShutdown.cancelled | awaitingDeath.cancelled | awaitingDeath.exited =>
    exact release_escalates _
  all_goals exact awaitDeath_escalates _

/-- A stop that begins to act asks a started server to shut down, or escalates at once. -/
theorem firstTurn_stop_acts (h : s.StopActs) (w : Surroundings) (id : Nat) :
    (s.state = .started ∧ s.exitCode? = none ∧ (s.firstTurn w id .stop).acts = [.shutdown] ∧
      ∃ wait, (s.firstTurn w id .stop).outcome = .paused (.askingShutdown s.state) wait) ∨
    Escalates s [.terminate, .kill] (s.firstTurn w id .stop) := by
  rw [firstTurn_stop_eq h]
  split
  · rename_i hs
    exact .inl ⟨hs.1, hs.2.1, rfl, _, rfl⟩
  · have hb : Escalates s.stopBegun [.terminate, .kill]
        (s.stopBegun.escalate w s.state [.terminate, .kill]) := escalate_escalates _
    refine .inr (Escalates.after ?_ (by simp [act?_logged]))
    cases hb with
    | waits sent rest hl he ha ho => exact .waits sent rest hl he ha ho
    | releases sent rest closes hl he hc ha ho => exact .releases sent rest closes hl he hc ha ho

/-! ### what a turn leaves as it is -/

/-- A turn that launches no child and begins no stop. -/
structure SameChild (s t : Server) : Prop where
  child : t.child = s.child
  stopping : t.stopping = s.stopping
  fresh : t.state = .notStarted → s.state = .notStarted

theorem SameChild.of_turns {v : Server} {q : List Nat} (h : v = { s with turns := q }) :
    SameChild s v := by
  subst h
  exact ⟨rfl, rfl, id⟩

theorem SameChild.of_startupTurn (h : StartupTurn s t) : SameChild s t.server := by
  cases h with
  | waits | raises => exact ⟨rfl, rfl, id⟩
  | ready | fails => exact ⟨rfl, rfl, fun h => by cases h⟩

theorem SameChild.of_stopTurn (h : StopTurn s previous interrupted t) : SameChild s t.server := by
  cases h with
  | waits released => exact ⟨rfl, rfl, id⟩
  | ends released =>
    refine ⟨rfl, rfl, fun h => ?_⟩
    simp only [stoppedState] at h
    split at h
    · exact h
    · cases h

theorem Point.isActing_of_concern {p : Point} (h : p.concern = .work ∨ p.concern = .exit) :
    p.isActing = false := by
  cases p <;> simp_all [Point.concern, Point.isActing, Point.left?]

/-- A call that neither starts nor stops the server leaves the child alone. -/
theorem firstTurn_sameChild {c : Call} (hc : c.concern ≠ .stop)
    (hs : c = .start → s.state ≠ .notStarted) (w : Surroundings) (id : Nat) :
    SameChild s (s.firstTurn w id c).server ∧
      ∀ p wait, (s.firstTurn w id c).outcome = .paused p wait → p.isActing = false := by
  by_cases hw : c.concern = .work ∨ c.concern = .exit
  · obtain ⟨q, hq⟩ : ∃ q, (s.firstTurn w id c).server = { s with turns := q } :=
      firstTurn_server_of_work hw
    refine ⟨.of_turns hq, fun p wait ho => Point.isActing_of_concern ?_⟩
    rwa [firstTurn_waitsOn c p wait ho]
  · obtain rfl : c = .start := by
      cases c <;> simp_all [Call.concern]
    have ht : s.firstTurn w id .start = s.raise (s.notReady "start") := by
      simp [firstTurn, start, hs rfl]
    rw [ht]
    exact ⟨⟨rfl, rfl, fun h => h⟩, (raise_ends _).isActing⟩

/-- Only a launch gives the server a child. -/
theorem nextTurn?_sameChild {p : Point} {a : Answer} (hp : p ≠ .launching)
    (ht : s.nextTurn? w id p a = some t) : SameChild s t.server := by
  cases hc : p.concern with
  | work | exit =>
    obtain ⟨q, hq⟩ := nextTurn?_server_of_work (by simp [hc]) ht
    exact .of_turns hq
  | startup => exact .of_startupTurn (nextTurn?_startup hc hp ht)
  | stop =>
    obtain ⟨previous, hq⟩ := Point.previous?_of_concern hc
    rcases nextTurn?_stop hq ht with ⟨interrupted, -, h⟩ | ⟨-, rfl⟩
    · exact .of_stopTurn h
    · exact ⟨rfl, rfl, fun h => h⟩

/-- A call that is answered waits for the child's death only if it did so before, now or later. -/
theorem nextTurn?_isActing {p q : Point} {a : Answer} {wait : Wait} (hp : p.left? = none)
    (ht : s.nextTurn? w id p a = some t) (ho : t.outcome = .paused q wait) :
    q.isActing = false := by
  have startup {v : Server} (h : StartupTurn v t) : q.isActing = false := by
    obtain ⟨hq, hl⟩ := h.settled.1 q wait ho
    cases q <;> simp_all [Point.concern, Point.isActing, Point.left?]
  have hw : q.concern = p.concern := nextTurn?_waitsOn ht q wait ho
  cases hc : p.concern with
  | work | exit => exact Point.isActing_of_concern (by simp [hw, hc])
  | startup =>
    by_cases hl : p = .launching
    · subst hl
      by_cases ha : ∃ pid client, a = .launched pid client
      · obtain ⟨pid, client, rfl⟩ := ha
        obtain ⟨c, h, -⟩ := nextTurn?_launched ht
        exact startup h
      · have he := (nextTurn?_not_launched (fun pid client h => ha ⟨pid, client, h⟩) ht).1
        exact he.isActing q wait ho
    · exact startup (nextTurn?_startup hc hl ht)
  | stop =>
    cases p <;> simp [Point.concern, Point.left?] at hc hp <;> cases a <;>
      simp [nextTurn?] at ht <;> subst ht
    case closing.done | closing.failed => exact drain_isActing q wait ho
    case draining.done | draining.failed | draining.elapsed =>
      exact (stopDone_ends _ _).isActing q wait ho
    all_goals cases ho

end

end ServerRun.Server
