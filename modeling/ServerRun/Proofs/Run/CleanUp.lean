import ServerRun.Proofs.Run.Child

/-! What a run cleans up. Whatever happens to a run, its shutdown begins when its sequence has
ended, stops the server if one was made, and is over before the run gives up its registration and
ends; and a child that was launched is dead by then. -/

namespace ServerRun.Run

/-- What a run leaves in its history. -/
inductive Mark where
  | registered
  /-- The sequence asks for something, or is told something. -/
  | working
  | created
  | sequenceEnded
  | callbackEntered
  | callbackLeft
  | unregistered
  | ended
deriving DecidableEq, Repr

def Event.mark? : Event → Option Mark
  | .effect .registered => some .registered
  | .effect .unregistered => some .unregistered
  | .effect .callbackEntered => some .callbackEntered
  | .effect .callbackLeft => some .callbackLeft
  | .answered .created => some .created
  | .answered _ | .waits _ => some .working
  | .sequenceEnded _ => some .sequenceEnded
  | .ended _ => some .ended
  | _ => none

/-- The marks of a history, in order. -/
def System.marks (s : System) : List Mark := s.history.filterMap fun x => x.2.mark?

/-- The child that was launched, where an event tells of one. -/
def Event.launched? : Event → Option Int
  | .answered (.server (.launched pid _)) => some pid
  | _ => none

theorem Event.answered_of_launched? {e : Event} {pid : Int} (h : e.launched? = some pid) :
    ∃ client, e = .answered (.server (.launched pid client)) := by
  unfold Event.launched? at h
  split at h
  · obtain rfl := Option.some.inj h
    exact ⟨_, rfl⟩
  · cases h

section

variable {r : Run} {w : Surroundings} {u : Turn}

theorem serverEffect_unmarked (e : Server.Effect) :
    (Event.effect (serverEffect e)).mark? = none := by
  cases e <;> rfl

theorem marks_map_serverEffect (es : List Server.Effect) :
    ((es.map serverEffect).map Event.effect).filterMap Event.mark? = [] := by
  rw [List.filterMap_eq_nil_iff]
  intro e he
  obtain ⟨f, hf, rfl⟩ := List.mem_map.mp he
  obtain ⟨g, -, rfl⟩ := List.mem_map.mp hf
  exact serverEffect_unmarked g

theorem StepTurn.unmarked {step : Step} {t : Server.Turn} (h : StepTurn w r step t u) :
    (u.effects.map Event.effect).filterMap Event.mark? = [] := by
  induction h with
  | waits | raises | exits | parks => exact marks_map_serverEffect _
  | goesOn ho hn ht hu ih =>
    rw [Turn.after_effects, List.map_append, List.map_append, List.filterMap_append,
      List.filterMap_append, marks_map_serverEffect, ih]
    rfl

theorem InstallTurn.unmarked {i : Installation} (h : InstallTurn r w i u) :
    (u.effects.map Event.effect).filterMap Event.mark? = [] := by
  cases h <;> rfl

theorem AnswerTurn.unmarked {p : Point} {a : Answer} (h : AnswerTurn r w p a u) :
    (u.effects.map Event.effect).filterMap Event.mark? = [] := by
  cases h with
  | homeInstalls ht ha hu =>
    rw [Turn.after_effects, List.map_append, List.filterMap_append, hu.unmarked]
    rfl
  | environment hu => exact hu.unmarked
  | created hu =>
    rw [Turn.after_effects, List.map_append, List.map_append, List.filterMap_append,
      List.filterMap_append, marks_map_serverEffect, hu.unmarked]
    rfl
  | onServer hb hv ht hu => exact hu.unmarked
  | _ => rfl

/-- The sequence has a server after an answer if it had one before, or one was made. -/
theorem AnswerTurn.server {p : Point} {a : Answer} (h : AnswerTurn r w p a u) :
    u.run.server ≠ none ↔ a = .created ∨ r.server ≠ none := by
  cases h with
  | homeInstalls ht ha hu =>
    rw [Turn.after_run, hu.server]
    simp [enter]
  | environment hu =>
    rw [hu.server]
    simp
  | created hu =>
    obtain ⟨v, p, ps, hr, -⟩ := hu.frame
    simp [hr]
  | onServer hb hv ht hu =>
    obtain ⟨v, p, ps, hr, -⟩ := hu.frame
    simp [hr, hv]
  | _ => simp [enter]

/-- A turn of the supervisor that stops the server leaves `front` when it waits for the server, and
`front`, `back` and the marks of the end when the run ends. -/
def Closes (front back : List Mark) (x : SupervisorTurn) : Prop :=
  x.run.server ≠ none ∧
    ((∃ point wait, x.outcome = .shuttingDown point wait ∧
        x.events.filterMap Event.mark? = front) ∨
      ∃ ending, x.outcome = .ended ending ∧
        x.events.filterMap Event.mark? = front ++ back ++ [.unregistered, .ended])

theorem Closes.after {front back : List Mark} {x : SupervisorTurn} (h : Closes front back x)
    (es : List Effect) :
    Closes ((es.map Event.effect).filterMap Event.mark? ++ front) back (x.after es) := by
  have he : (x.after es).events.filterMap Event.mark? =
      (es.map Event.effect).filterMap Event.mark? ++ x.events.filterMap Event.mark? := by
    simp [SupervisorTurn.events, SupervisorTurn.after]
  refine ⟨h.1, ?_⟩
  rcases h.2 with ⟨point, wait, ho, hm⟩ | ⟨ending, ho, hm⟩
  · exact .inl ⟨point, wait, ho, by rw [he, hm]⟩
  · exact .inr ⟨ending, ho, by rw [he, hm]; simp⟩

theorem closes_of_stopTurn {s : Server} {previous : Server.State} {t : Server.Turn}
    (ht : s.StopTurn previous false t) (ending : Ending) :
    Closes [] [.callbackLeft] (r.afterStopTurn ending t) := by
  cases ht with
  | waits released hp hi =>
    rw [afterStopTurn_of_paused rfl]
    refine ⟨by simp, .inl ⟨_, _, rfl, ?_⟩⟩
    rw [SupervisorTurn.events, List.filterMap_append, marks_map_serverEffect]
    rfl
  | ends released =>
    rw [afterStopTurn_of_returned rfl]
    refine ⟨by simp [enter], .inr ⟨_, rfl, ?_⟩⟩
    rw [SupervisorTurn.events, List.map_append, List.filterMap_append, List.filterMap_append,
      marks_map_serverEffect]
    rfl

theorem closes_firstTurn (v : Server) (ending : Ending) :
    Closes [] [.callbackLeft] (r.afterStopTurn ending
      (v.firstTurn w.toSurroundings supervisorId .stop)) := by
  by_cases ha : v.StopActs
  · exact closes_of_stopTurn (Server.firstTurn_stop ha) ending
  · rw [Server.firstTurn_stop_idle ha, afterStopTurn_of_returned rfl]
    exact ⟨by simp [enter], .inr ⟨_, rfl, rfl⟩⟩

/-- A turn of the supervisor that begins the shutdown: it enters the callback if there is a server,
and ends the run otherwise. -/
def Begins (r : Run) (x : SupervisorTurn) : Prop :=
  r.server = none ∧ x.run.server = none ∧ (∃ ending, x.outcome = .ended ending) ∧
      x.events.filterMap Event.mark? = [.unregistered, .ended] ∨
    r.server ≠ none ∧ Closes [.callbackEntered] [.callbackLeft] x

theorem Begins.after {x : SupervisorTurn} (h : Begins r x) (record : Log.Record) :
    Begins r (x.after [.log record]) := by
  rcases h with ⟨hs, hx, ho, hm⟩ | ⟨hs, hc⟩
  · exact .inl ⟨hs, hx, ho, hm⟩
  · exact .inr ⟨hs, hc.after [.log record]⟩

theorem IsFresh.begins (h : r.IsFresh) (w : Surroundings) (ending : Ending) :
    Begins r (r.shutDown w ending) := by
  cases hs : r.server with
  | none =>
    obtain ⟨k, -, hk⟩ : ∃ k, k.callback = r.shutdown.callback ∧
        r.shutDown w ending = ⟨{ r with shutdown := k }.enter .shutDown,
          [.unregistered, .entered .shutDown], .ended ending⟩ := shutDown_of_none h hs
    rw [hk]
    exact .inl ⟨hs, hs, ⟨_, rfl⟩, rfl⟩
  | some v =>
    obtain ⟨k, -, hk⟩ : ∃ k, k.callback = r.shutdown.callback ∧ r.shutDown w ending =
        ({ r with shutdown := k }.afterStopTurn ending
          (v.firstTurn w.toSurroundings supervisorId .stop)).after [.callbackEntered] :=
      shutDown_of_some h hs
    rw [hk]
    exact .inr ⟨by simp [hs], (closes_firstTurn v ending).after [.callbackEntered]⟩

theorem IsFresh.begins_interrupt (h : r.IsFresh) (w : Surroundings) (p : Phase) :
    Begins r (r.interrupt w p) := by
  unfold Run.interrupt
  split
  · exact h.begins w _
  · exact (h.begins w _).after _

theorem marks_fail (f : Failure) :
    (r.fail f).events.filterMap Event.mark? = [] ∧ (r.fail f).run.server = r.server ∧
      ∃ p, (r.fail f).outcome = .watching p := by
  cases f <;> exact ⟨rfl, rfl, _, rfl⟩

theorem mark_answered (a : Answer) :
    ∃ x, (Event.answered a).mark? = some x ∧ (x = .working ∨ x = .created) ∧
      (x = .created ↔ a = .created) := by
  cases a <;> exact ⟨_, rfl, by simp, by simp⟩

end

namespace System

variable {s u : System} {m : Move}

theorem filterMap_history (h : List (Seconds × Event)) (now : Seconds) (es : List Event) :
    (h ++ es.map fun e => (now, e)).filterMap (fun x => x.2.mark?) =
      h.filterMap (fun x => x.2.mark?) ++ es.filterMap Event.mark? := by
  rw [List.filterMap_append, List.filterMap_map]
  rfl

theorem marks_take (s : System) (e : Event) (t : Turn) :
    ((s.record e).take t).marks = s.marks ++ (e :: t.events).filterMap Event.mark? := by
  unfold marks
  rw [take_history, record_history, List.append_assoc, record_now, List.singleton_append]
  exact filterMap_history s.history s.now (e :: t.events)

theorem marks_takeSupervisor (s : System) {e : Event} (he : e.mark? = none) (x : SupervisorTurn) :
    ((s.record e).takeSupervisor x).marks = s.marks ++ x.events.filterMap Event.mark? := by
  unfold marks
  rw [takeSupervisor_history, record_history, List.append_assoc, record_now,
    List.singleton_append, ← List.filterMap_cons_none he]
  exact filterMap_history s.history s.now (e :: x.events)

/-- The marks of a run after those of its sequence's work. -/
def closing (s : System) (works : List Mark) : List Mark :=
  match s.sequence, s.supervisor with
  | .waiting .., _ => []
  | .ended _, .watching _ => [.sequenceEnded]
  | .ended _, .stopping .. => [.sequenceEnded, .callbackEntered]
  | .ended _, .ended _ =>
    .sequenceEnded :: (if .created ∈ works then [.callbackEntered, .callbackLeft] else []) ++
      [.unregistered, .ended]

/-- The history of a run is in order: the registration comes first, then the work of the sequence,
then what the shutdown has come to; and it shows whether a server was made. -/
structure Tidy (s : System) (works : List Mark) : Prop where
  work : ∀ x ∈ works, x = .working ∨ x = .created
  marks : s.marks = .registered :: works ++ s.closing works
  server : .created ∈ works ↔ s.run.server ≠ none

theorem tidy_ofRun (settings : Settings) (cwd : Path) (rounding : Seconds → Seconds)
    (isDirectory : Path → Bool) :
    Tidy (.ofRun { settings, cwd, rounding } isDirectory) [.working] where
  work x hx := .inl (List.mem_singleton.mp hx)
  marks := rfl
  server := ⟨fun h => (by simp at h), fun h => absurd rfl h⟩

/-- A move that leaves no mark. -/
theorem Tidy.of_unmarked {works : List Mark} (h : Tidy s works) (hm : u.marks = s.marks)
    (hq : u.sequence = s.sequence) (hv : (∃ p q, s.supervisor = .watching p ∧
      u.supervisor = .watching q) ∨ u.supervisor = s.supervisor)
    (hs : u.run.server = none ↔ s.run.server = none) : Tidy u works := by
  have hc : u.closing works = s.closing works := by
    unfold closing
    rw [hq]
    rcases hv with ⟨p, q, hp, hq⟩ | hv
    · rw [hp, hq]
      cases s.sequence <;> rfl
    · rw [hv]
  exact ⟨h.work, by rw [hm, hc]; exact h.marks, h.server.trans (not_congr hs).symm⟩

/-- A turn of the supervisor that closes a run. -/
theorem Tidy.of_closes {works front : List Mark} (h : Tidy s works) {result}
    (hq : s.sequence = .ended result) {e : Event} (he : e.mark? = none) {x : SupervisorTurn}
    (hx : Closes front [.callbackLeft] x) (hs : s.run.server ≠ none)
    (hcl : s.closing works ++ front = [.sequenceEnded, .callbackEntered]) :
    Tidy ((s.record e).takeSupervisor x) works := by
  have hc : .created ∈ works := h.server.mpr hs
  have hm : ((s.record e).takeSupervisor x).marks =
      .registered :: works ++ (s.closing works ++ x.events.filterMap Event.mark?) := by
    rw [marks_takeSupervisor s he, h.marks, List.append_assoc]
  refine ⟨h.work, ?_, ⟨fun _ => by rw [takeSupervisor_run]; exact hx.1, fun _ => hc⟩⟩
  rcases hx.2 with ⟨p, wait, ho, hf⟩ | ⟨ending, ho, hf⟩
  · rw [hm, hf, hcl]
    simp [closing, hq, ho, SupervisorOutcome.state]
  · rw [hm, hf, List.append_assoc front, ← List.append_assoc (s.closing works), hcl]
    simp [closing, hq, ho, hc, SupervisorOutcome.state]

/-- The shutdown of a run begins. -/
theorem Tidy.of_begins {works : List Mark} (h : Tidy s works) {result}
    (hq : s.sequence = .ended result) {p : SupervisorPoint} (hp : s.supervisor = .watching p)
    {x : SupervisorTurn} (hx : Begins s.run x) :
    Tidy ((s.record .noticed).takeSupervisor x) works := by
  have hcl : s.closing works = [.sequenceEnded] := by
    unfold closing
    rw [hq, hp]
  rcases hx with ⟨hn, hxn, ⟨ending, ho⟩, hf⟩ | ⟨hn, hx⟩
  · have hc : .created ∉ works := fun hc => h.server.mp hc hn
    refine ⟨h.work, ?_, ⟨fun h => absurd h hc, fun h => absurd (by simpa using hxn) h⟩⟩
    rw [marks_takeSupervisor s rfl, h.marks, hcl, hf, List.append_assoc]
    simp [closing, hq, ho, hc, SupervisorOutcome.state]
  · exact h.of_closes hq rfl hx hn (by rw [hcl]; rfl)

/-- The supervisor takes notice of a failure. -/
theorem Tidy.of_fail {works : List Mark} (h : Tidy s works) {p : SupervisorPoint}
    (hp : s.supervisor = .watching p) (f : Failure) :
    Tidy ((s.record .noticed).takeSupervisor (s.run.fail f)) works := by
  obtain ⟨hm, hs, q, hq⟩ : (s.run.fail f).events.filterMap Event.mark? = [] ∧
    (s.run.fail f).run.server = s.run.server ∧ ∃ p, (s.run.fail f).outcome = .watching p :=
      marks_fail f
  refine h.of_unmarked ?_ (by simp) (.inl ⟨p, q, hp, by simp [hq, SupervisorOutcome.state]⟩)
    (by simp [hs])
  rw [marks_takeSupervisor s rfl, hm, List.append_nil]

/-- The sequence takes a turn. -/
theorem Tidy.of_answer {works : List Mark} (h : Tidy s works) {p : Point} {wait : Wait}
    {since : Seconds} (hq : s.sequence = .waiting p wait since) {q : SupervisorPoint}
    (hv : s.supervisor = .watching q) {a : Answer} {t : Turn}
    (ht : AnswerTurn s.run s.surroundings p a t) :
    ∃ works, Tidy ((s.record (.answered a)).take t) works := by
  obtain ⟨x, hx, hwork, hcreated⟩ := mark_answered a
  have hcl : s.closing works = [] := by
    unfold closing
    rw [hq]
  have hm : ((s.record (.answered a)).take t).marks =
      .registered :: works ++ [x] ++ (t.outcome.event.mark?).toList := by
    rw [marks_take, h.marks, hcl, List.filterMap_cons_some hx, Turn.events, List.filterMap_append,
      ht.unmarked]
    cases t.outcome <;> simp [Outcome.event, Event.mark?]
  have hserver : .created ∈ works ++ [x] ↔ t.run.server ≠ none := by
    rw [ht.server, List.mem_append, h.server, List.mem_singleton, ← hcreated]
    exact ⟨fun h => h.symm.imp_left Eq.symm, fun h => h.symm.imp_right Eq.symm⟩
  have hone : ∀ y ∈ works ++ [x], y = .working ∨ y = .created := by
    intro y hy
    rw [List.mem_append, List.mem_singleton] at hy
    rcases hy with hy | rfl
    · exact h.work y hy
    · exact hwork
  cases ho : t.outcome with
  | paused p' wait' =>
    refine ⟨works ++ [x] ++ [.working], fun y hy => ?_, ?_, ?_⟩
    · rw [List.mem_append, List.mem_singleton] at hy
      rcases hy with hy | rfl
      · exact hone y hy
      · exact .inl rfl
    · rw [hm, ho]
      simp [closing, ho, Outcome.state, Outcome.event, Event.mark?]
    · rw [take_run, ← hserver]
      simp
  | returned code =>
    refine ⟨works ++ [x], hone, ?_, hserver.trans (by rw [take_run])⟩
    rw [hm, ho]
    simp [closing, ho, hv, Outcome.state, Outcome.event, Event.mark?]
  | raised f =>
    refine ⟨works ++ [x], hone, ?_, hserver.trans (by rw [take_run])⟩
    rw [hm, ho]
    simp [closing, ho, hv, Outcome.state, Outcome.event, Event.mark?]

/-- Each move of a sound run keeps its history in order. -/
theorem tidy_step {works : List Mark} (hs : Sound s) (h : Tidy s works) (hm : s.step? m = some u) :
    ∃ works, Tidy u works := by
  cases moved_of_step? hm with
  | @answer a p wait since t hq ha ht =>
    rcases hs.watched p wait since hq with hv | ⟨q, hv⟩
    · exact h.of_answer hq hv ht
    · exact h.of_answer hq hv ht
  | notice ht =>
    cases ht with
    | @fails result hp hq => exact ⟨works, h.of_fail hp (failureOf result)⟩
    | @failsLate f p hp hq hf => exact ⟨works, h.of_fail hp f⟩
    | @cancels p wait since hp hq ht =>
      refine ⟨works, h.of_unmarked ?_ (by simp) (.inl ⟨_, _, hp, by
        rw [takeSupervisor_supervisor]; rfl⟩) (by simp)⟩
      rw [marks_takeSupervisor s rfl]
      exact List.append_nil _
    | @interrupts p result hp hq hr =>
      exact ⟨works, h.of_begins hq hp ((hs.poised _ hp).fresh.begins_interrupt s.surroundings p)⟩
    | @abandons result hp hq =>
      exact ⟨works, h.of_begins hq hp ((hs.poised _ hp).fresh.begins s.surroundings _)⟩
    | @settles ending hp =>
      cases hq : s.sequence with
      | waiting p wait since =>
        exact absurd hq (hs.ended (by simp [hp]) (by simp [hp]) p wait since)
      | ended result =>
        exact ⟨works, h.of_begins hq hp ((hs.poised _ hp).fresh.begins s.surroundings ending)⟩
  | @stopAnswer a ending p wait since v t hp ha hv ht =>
    cases hq : s.sequence with
    | waiting q w c => exact absurd hq (hs.ended (by simp [hp]) (by simp [hp]) q w c)
    | ended result =>
      obtain ⟨previous, -, hst⟩ := hs.stopTurn hp ha ht
      exact ⟨works, h.of_closes hq rfl (closes_of_stopTurn hst ending) (by simp [hv])
        (by simp [closing, hq, hp])⟩
  | request =>
    refine ⟨works, h.of_unmarked ?_ (by simp) (.inr (by simp)) ?_⟩
    · unfold requestTermination marks
      split <;> simp [Event.mark?]
    · unfold requestTermination
      split <;> simp
  | @exit code v hv hc he =>
    refine ⟨works, h.of_unmarked ?_ (by simp) (.inr (by simp)) (by simp [hv])⟩
    simp [marks, Event.mark?]
  | time ha hr now refusal hf => exact ⟨works, h.of_unmarked rfl rfl (.inr rfl) Iff.rfl⟩

/-- Whatever happens to a run, it has cleaned up when it ends: the callback of its shutdown was
entered once if a server was made and never otherwise, after the end of the sequence, and was left
again; then the registration was given up, once, and the run ended. Where the child obliges, a child
that was launched is dead, and the server is stopped or has failed. -/
theorem cleanUp_of_ended (settings : Settings) (cwd : Path) (rounding : Seconds → Seconds)
    (isDirectory : Path → Bool) (ms : List Move) (s : System) (ending : Ending)
    (h : Reaches (.ofRun { settings, cwd, rounding } isDirectory) ms s)
    (he : s.supervisor = .ended ending)
    (ho : ∀ before after t, ms = before ++ after →
      Reaches (.ofRun { settings, cwd, rounding } isDirectory) before t →
      Obliges (.ofBinary64 settings.gracePeriod) t) :
    (∃ works, (∀ x ∈ works, x = .working ∨ x = .created) ∧
      (.created ∈ works ↔ s.run.server ≠ none) ∧
      s.marks = .registered :: works ++ .sequenceEnded ::
        (if .created ∈ works then [.callbackEntered, .callbackLeft] else []) ++
          [.unregistered, .ended]) ∧
    ∀ now pid client, (now, .answered (.server (.launched pid client))) ∈ s.history →
      ∃ v, s.run.server = some v ∧ v.child ≠ none ∧ v.IsGone := by
  have h₀ := sound_ofRun settings cwd rounding isDirectory
  have hs := h₀.of_reaches h
  obtain ⟨works, hw⟩ : ∃ works, Tidy s works := by
    refine h₀.keeps (P := fun s => ∃ works, Tidy s works) h
      ⟨_, tidy_ofRun settings cwd rounding isDirectory⟩ fun t m u hm hs hw => ?_
    obtain ⟨works, hw⟩ := hw
    exact tidy_step hs hw hm.step
  have ha : Attended (.ofBinary64 settings.gracePeriod) s := by
    refine h₀.keeps h (attended_ofRun settings cwd rounding isDirectory) fun t m u hm hs ha => ?_
    have hstep := hm.step
    obtain ⟨before, after, hms, hb, -⟩ := hm
    exact attended_step hs ha (ho before (m :: after) t hms hb) hstep
  refine ⟨⟨works, hw.work, hw.server, ?_⟩, fun now pid client hl => ?_⟩
  · cases hq : s.sequence with
    | waiting p wait since => exact absurd hq (hs.ended (by simp [he]) (by simp [he]) p wait since)
    | ended result =>
      rw [hw.marks]
      simp [closing, hq, he]
  · obtain ⟨v, hv, hc⟩ := ha.launched now pid client hl
    exact ⟨v, hv, hc, ha.ended ending he v hv hc⟩

/-- The moves of a run that is terminated while its server starts, and whose child dies of the first
signal. -/
def interruptedLaunch : List Move :=
  [.answer (.metadata ⟨.ofString "app.war", "app.war", .ofString "target"⟩ true),
    .answer (.home (.ofString "/srv")), .answer (.environment none), .answer .created,
    .answer (.server (.launched 4242 none)), .request, .notice, .answer .cancelled, .notice,
    .exit (-15), .stopAnswer (.exited (-15)), .stopAnswer .done, .stopAnswer .done]

/-- Such a run has entered its callback and left it, and its child is dead. -/
theorem cleanUp_of_interruptedLaunch :
    ∃ s, Reaches (.ofRun { settings := default, cwd := .ofString "/work" } fun _ => true)
        interruptedLaunch s ∧
      (∃ works, (∀ x ∈ works, x = .working ∨ x = .created) ∧
        (.created ∈ works ↔ s.run.server ≠ none) ∧
        s.marks = .registered :: works ++ .sequenceEnded ::
          (if .created ∈ works then [.callbackEntered, .callbackLeft] else []) ++
            [.unregistered, .ended]) ∧
      ∃ v, s.run.server = some v ∧ v.child ≠ none ∧ v.IsGone := by
  have hrun : (interruptedLaunch.foldlM step?
      (.ofRun { settings := default, cwd := .ofString "/work" } fun _ => true)).any (fun s =>
        (s.supervisor matches .ended _) &&
        (s.history.all fun x => !(x.2 matches .effect (.signal .kill))) &&
        s.history.any fun x => x.2.launched? == some 4242) = true := by
    decide +kernel
  rw [Option.any_eq_true] at hrun
  obtain ⟨s, hs, hrun⟩ := hrun
  have hr := leads_iff.mpr hs
  simp only [Bool.and_eq_true, List.all_eq_true, List.any_eq_true] at hrun
  obtain ⟨⟨he, hk⟩, ⟨now, e⟩, hmem, hl⟩ := hrun
  obtain ⟨ending, he⟩ : ∃ ending, s.supervisor = .ended ending := by
    cases hv : s.supervisor <;> rw [hv] at he
    case ended ending => exact ⟨ending, rfl⟩
    all_goals cases he
  obtain ⟨client, rfl⟩ := Event.answered_of_launched? (eq_of_beq hl)
  have h := cleanUp_of_ended default (.ofString "/work") id (fun _ => true) interruptedLaunch s
    ending hr he fun before after t hms ht => by
      obtain ⟨t', ht', hs'⟩ := (hms ▸ hr).cut
      rw [ht.unique ht']
      refine obliges_of_reaches ht' hs' (fun _ _ h => by cases h) (fun m hm f hf => ?_)
        fun since hm => ?_
      · have hmem : m ∈ interruptedLaunch := by
          rw [hms]
          exact List.mem_append_left _ hm
        subst hf
        simp [interruptedLaunch] at hmem
      · have := hk _ hm
        simp at this
  exact ⟨s, hr, h.1, h.2 now 4242 client hmem⟩

end System

end ServerRun.Run
