import ServerRun.Proofs.Run.Sign
import ServerRun.Proofs.Run.Phases

/-! The order of a run's steps. The signs of the sequence come in one order, which the settings, the
build, the installation root and the environment lay down as a plan; whatever happens, what a run
has shown at any time are the first signs of its plan, and no more come after a failure. -/

namespace ServerRun

/-- The directories of an installation are there. -/
structure Installation.IsThere (i : Installation) (isDirectory : Path → Bool) : Prop where
  home : isDirectory i.home = true
  modules : isDirectory i.modules = true
  bundles : isDirectory i.bundles = true

theorem Installation.isThere_of_lacking? {i : Installation} {cwd : Path} {isDirectory : Path → Bool}
    (h : i.lacking? cwd isDirectory = none) : i.IsThere isDirectory := by
  rw [lacking?, Option.map_eq_none_iff, List.find?_eq_none] at h
  have is (d : String × Path) (hd : d ∈ i.directories) : isDirectory d.2 = true := by
    simpa using h d hd
  exact ⟨is ("Server home", i.home) (by simp [directories]),
    is ("Modules path", i.modules) (by simp [directories]),
    is ("Bundles path", i.bundles) (by simp [directories])⟩

namespace Run

/-! ### signs and plans -/

def Effect.signs : Effect → List Sign
  | .registered => [.registered]
  | .banner .. => [.checked]
  | .entered .failed | .entered .shutDown => []
  | .entered p => [.entered p]
  | _ => []

def Wait.signs : Wait → List Sign
  | .createServer _ i => [.creating i]
  | .server w => w.signs
  | _ => []

def Answer.signs : Answer → List Sign
  | .metadata m isThere => if isThere then [.found m] else []
  | .home path => [.provisioned path]
  | .created => [.created]
  | .server a => a.signs
  | _ => []

/-- What an event shows of the sequence. What the supervisor does shows nothing of it. -/
def Event.signs : Event → List Sign
  | .effect e => e.signs
  | .waits w => w.signs
  | .answered a => a.signs
  | .sequenceEnded (.ok code) => [.exited code]
  | .sequenceEnded (.error f) => [.failed f]
  | _ => []

/-- What a run has shown of its sequence, in order. -/
def System.signs (s : System) : List Sign := s.history.flatMap fun e => e.2.signs

/-- The signs of a run that enters its running phase, when the build says `m`, the installation root
is `home`, and the environment names `inherited` as the home of the virtual machine. -/
def plan (settings : Settings) (m : Project.Metadata) (home : Path) (inherited : Option String) :
    List Sign :=
  let i := settings.installation home inherited
  [.registered, .found m, .entered .provisioning, .provisioned home, .entered .validating, .checked,
    .entered .launching, .creating i, .created, .launching i.commandLine i.home, .launched,
    .running, .entered .preCommands] ++
    settings.before.ahead (
      [.entered .deploying, .deploying m.file m.name, .accepted, .entered .postCommands] ++
        settings.after.ahead [.entered .running])

/-- The signs of a plan that are left when the call of a step is done. -/
def left (settings : Settings) (m : Project.Metadata) : Step → List Sign
  | .exit => []
  | .after => [.entered .running]
  | .deploy => .entered .postCommands :: settings.after.ahead [.entered .running]
  | .before =>
    [.entered .deploying, .deploying m.file m.name, .accepted, .entered .postCommands] ++
      settings.after.ahead [.entered .running]
  | .start =>
    .entered .preCommands :: settings.before.ahead (
      [.entered .deploying, .deploying m.file m.name, .accepted, .entered .postCommands] ++
        settings.after.ahead [.entered .running])

def Outcome.signs : Outcome → List Sign
  | .paused _ wait => wait.signs
  | .returned code => [.exited code]
  | .raised f => [.failed f]

/-- What a turn of the sequence shows. -/
def Turn.signs (u : Turn) : List Sign := u.effects.flatMap Effect.signs ++ u.outcome.signs

/-- What a run has shown of its plan, `signs`, and what stands behind it: the directories that were
checked are there, and the stop of the server that was created is attached to the shutdown. -/
structure Along (r : Run) (isDirectory : Path → Bool) (m : Project.Metadata) (home : Path)
    (inherited : Option String) (signs : List Sign) : Prop where
  shown : signs <+: plan r.settings m home inherited
  checked : .checked ∈ signs → (r.settings.installation home inherited).IsThere isDirectory
  created : .created ∈ signs → r.shutdown.callback = some ()

/-- Where the sequence of a run is, by the signs that the run has shown. -/
inductive Place (r : Run) (isDirectory : Path → Bool) : SequenceState → List Sign → Prop
  | resolving {wait since} : Place r isDirectory (.waiting .resolving wait since) [.registered]
  | provisioning {m : Project.Metadata} {wait since}
      (hd : r.deployment = some ⟨m.file, m.name⟩) :
      Place r isDirectory (.waiting .provisioning wait since)
        [.registered, .found m, .entered .provisioning]
  | readingJavaHome {m : Project.Metadata} {home wait since}
      (hd : r.deployment = some ⟨m.file, m.name⟩) :
      Place r isDirectory (.waiting (.readingJavaHome home) wait since)
        [.registered, .found m, .entered .provisioning, .provisioned home, .entered .validating]
  | creatingServer {m : Project.Metadata} {home inherited wait since}
      (hd : r.deployment = some ⟨m.file, m.name⟩)
      (hc : (r.settings.installation home inherited).IsThere isDirectory) :
      Place r isDirectory
        (.waiting (.creatingServer (r.settings.installation home inherited)) wait since)
        [.registered, .found m, .entered .provisioning, .provisioned home, .entered .validating,
          .checked, .entered .launching, .creating (r.settings.installation home inherited)]
  | onServer {m : Project.Metadata} {home inherited step p wait since signs}
      (hd : r.deployment = some ⟨m.file, m.name⟩)
      (hc : (r.settings.installation home inherited).IsThere isDirectory)
      (ha : r.shutdown.callback = some ()) (hp : p.concern ≠ .stop)
      (hs : signs ++ p.ahead (left r.settings m step) = plan r.settings m home inherited)
      (he : .entered step.phase ∈ signs) :
      Place r isDirectory (.waiting (.onServer step p) wait since) signs
  | parked {m home inherited wait since signs} (h : Along r isDirectory m home inherited signs) :
      Place r isDirectory (.waiting .parked wait since) signs
  | failed {m home inherited f signs} (h : Along r isDirectory m home inherited signs) :
      Place r isDirectory (.ended (.error f)) (signs ++ [.failed f])
  | exited {m home inherited code}
      (h : Along r isDirectory m home inherited (plan r.settings m home inherited))
      (he : .entered .running ∈ plan r.settings m home inherited) :
      Place r isDirectory (.ended (.ok code)) (plan r.settings m home inherited ++ [.exited code])

section

variable {r : Run} {w : Surroundings} {u : Turn} {isDirectory : Path → Bool}
  {m : Project.Metadata} {home : Path} {inherited : Option String} {signs : List Sign}

theorem plan_eq (settings : Settings) :
    plan settings m home inherited =
      ([.registered, .found m, .entered .provisioning, .provisioned home, .entered .validating,
        .checked, .entered .launching, .creating (settings.installation home inherited),
        .created] : List Sign) ++
      Sign.launching (settings.installation home inherited).commandLine
        (settings.installation home inherited).home :: Sign.launched :: Sign.running ::
      left settings m .start := rfl

/-- The running phase is entered at the end, if at all. -/
def EndsRunning (l : List Sign) : Prop :=
  ∀ before after, l = before ++ .entered .running :: after → after = []

theorem EndsRunning.append {xs l : List Sign} (h : EndsRunning l) (hx : .entered .running ∉ xs) :
    EndsRunning (xs ++ l) := by
  induction xs with
  | nil => exact h
  | cons x xs ih =>
    intro before after he
    cases before with
    | nil =>
      obtain ⟨rfl, -⟩ := List.cons.inj he
      exact absurd List.mem_cons_self hx
    | cons y before =>
      exact ih (fun hm => hx (List.mem_cons_of_mem x hm)) before after (List.cons.inj he).2

theorem EndsRunning.ahead {l : List Sign} (h : EndsRunning l) (b : Batch) :
    EndsRunning (b.ahead l) := by
  unfold Batch.ahead
  split
  · exact h.append (by simp [Batch.exchanges])
  · intro before after he
    cases before <;> cases he

theorem plan_endsRunning (settings : Settings) : EndsRunning (plan settings m home inherited) := by
  have last : EndsRunning [.entered .running] := by
    intro before after he
    cases before with
    | nil => exact (List.cons.inj he).2.symm
    | cons y before => cases before <;> cases he
  exact (((last.ahead _).append (by simp)).ahead _).append (by simp)

/-- A run that has entered its running phase has shown all of its plan. -/
theorem Along.eq_plan (h : Along r isDirectory m home inherited signs)
    (hr : .entered .running ∈ signs) : signs = plan r.settings m home inherited := by
  obtain ⟨more, hm⟩ := h.shown
  obtain ⟨before, after, rfl⟩ := List.append_of_mem hr
  rw [List.append_assoc, List.cons_append] at hm
  obtain ⟨-, rfl⟩ := List.append_eq_nil_iff.mp (plan_endsRunning _ before _ hm.symm)
  rw [← hm, List.append_nil]

theorem left_of_next? {step next : Step} (hn : step.next? = some next)
    (hd : r.deployment = some ⟨m.file, m.name⟩) (v : Server) :
    left r.settings m step =
      .entered next.phase :: v.ahead (left r.settings m next) (r.stepCall next) := by
  cases step <;> cases hn
  case before => simp only [stepCall, hd]; rfl
  all_goals rfl

theorem Along.of_append {more : List Sign}
    (hc : (r.settings.installation home inherited).IsThere isDirectory)
    (ha : r.shutdown.callback = some ())
    (hs : signs ++ more = plan r.settings m home inherited) :
    Along r isDirectory m home inherited signs :=
  ⟨⟨more, hs⟩, fun _ => hc, fun _ => ha⟩

/-- A run whose sequence waits has shown the first signs of some plan. -/
theorem Place.along {p : Point} {wait : Wait} {since : Seconds}
    (h : Place r isDirectory (.waiting p wait since) signs) :
    ∃ m home inherited, Along r isDirectory m home inherited signs := by
  cases h with
  | resolving =>
    exact ⟨⟨default, "", default⟩, default, none, ⟨_, rfl⟩, by simp, by simp⟩
  | @provisioning m => exact ⟨m, default, none, ⟨_, rfl⟩, by simp, by simp⟩
  | @readingJavaHome m home => exact ⟨m, home, none, ⟨_, rfl⟩, by simp, by simp⟩
  | @creatingServer m home inherited _ _ hd hc =>
    exact ⟨m, home, inherited, ⟨_, rfl⟩, fun _ => hc, by simp⟩
  | @onServer m home inherited _ _ _ _ _ hd hc ha hp hs he =>
    exact ⟨m, home, inherited, .of_append hc ha hs⟩
  | @parked m home inherited _ _ _ h => exact ⟨m, home, inherited, h⟩

/-- What a run has shown, wherever its sequence is. -/
theorem Place.order {q : SequenceState} (h : Place r isDirectory q signs) :
    ∃ m home inherited,
      (signs <+: plan r.settings m home inherited ∨
        (∃ done f, signs = done ++ [.failed f] ∧ done <+: plan r.settings m home inherited) ∨
        ∃ code, signs = plan r.settings m home inherited ++ [.exited code] ∧
          .entered .running ∈ signs) ∧
      (.checked ∈ signs → (r.settings.installation home inherited).IsThere isDirectory) ∧
      (.created ∈ signs → r.shutdown.callback = some ()) ∧
      (.entered .running ∈ signs → plan r.settings m home inherited <+: signs) := by
  cases q with
  | waiting p wait since =>
    obtain ⟨m, home, inherited, ha⟩ := h.along
    refine ⟨m, home, inherited, .inl ha.shown, ha.checked, ha.created, fun hr => ?_⟩
    exact ⟨[], (List.append_nil _).trans (ha.eq_plan hr).symm⟩
  | ended result =>
    cases h with
    | @failed m home inherited f done ha =>
      refine ⟨m, home, inherited, .inr (.inl ⟨done, f, rfl, ha.shown⟩), fun hc => ha.checked ?_,
        fun hc => ha.created ?_, fun hr => ?_⟩
      · simpa using hc
      · simpa using hc
      · rw [← ha.eq_plan (by simpa using hr)]
        exact List.prefix_append _ _
    | @exited m home inherited code ha he =>
      refine ⟨m, home, inherited, .inr (.inr ⟨code, rfl, List.mem_append_left _ he⟩),
        fun hc => ha.checked ?_, fun hc => ha.created ?_, fun _ => List.prefix_append _ _⟩
      · simpa using hc
      · simpa using hc

/-! ### turns of the sequence -/

@[simp] theorem Turn.after_signs (es : List Effect) :
    (u.after es).signs = es.flatMap Effect.signs ++ u.signs := by
  simp [Turn.signs]

@[simp] theorem flatMap_signs_serverEffect (es : List Server.Effect) :
    (es.map serverEffect).flatMap Effect.signs = [] := by
  rw [List.flatMap_eq_nil_iff]
  intro e he
  obtain ⟨f, -, rfl⟩ := List.mem_map.mp he
  cases f <;> rfl

/-- A turn in a step shows the signs that are ahead in the step, and in those that it comes to. -/
theorem StepTurn.place {step : Step} {t : Server.Turn} (h : StepTurn w r step t u)
    {ahead : List Sign} (ht : t.KeepsTo (left r.settings m step) ahead)
    (hd : r.deployment = some ⟨m.file, m.name⟩)
    (hc : (r.settings.installation home inherited).IsThere isDirectory)
    (ha : r.shutdown.callback = some ())
    (hs : signs ++ ahead = plan r.settings m home inherited) (he : .entered step.phase ∈ signs)
    (now : Seconds) : Place u.run isDirectory (u.outcome.state now) (signs ++ u.signs) := by
  induction h generalizing ahead signs with
  | waits ho =>
    simp only [Turn.signs, flatMap_signs_serverEffect, Outcome.signs, Wait.signs, List.nil_append]
    cases ht with
    | waits hp hw =>
      cases ho
      refine .onServer hd hc ha hp ?_ (List.mem_append_left _ he)
      rw [List.append_assoc, hw]
      exact hs
    | returns | raises => cases ho
  | raises ho =>
    simp only [Turn.signs, flatMap_signs_serverEffect, Outcome.signs, List.nil_append]
    exact .failed (.of_append hc ha hs)
  | @exits r step t code ho hn =>
    simp only [Turn.signs, flatMap_signs_serverEffect, Outcome.signs, List.nil_append]
    cases ht with
    | returns =>
      obtain rfl : step = .exit := by cases step <;> first | rfl | cases hn
      rw [left, List.append_nil] at hs
      subst hs
      exact .exited (.of_append hc ha (List.append_nil _)) he
    | waits | raises => cases ho
  | parks ho hn hter =>
    simp only [Turn.signs, flatMap_signs_serverEffect, Outcome.signs, Wait.signs, List.append_nil]
    exact .parked (.of_append hc ha hs)
  | @goesOn r step t code next u ho hn hf hu ih =>
    cases ht with
    | returns =>
      rw [left_of_next? hn hd, List.append_cons] at hs
      have hp := ih (Server.firstTurn_keepsTo (stepCall_concern r next)) hd hc ha hs (by simp)
      have he : Effect.signs (.entered next.phase) = [.entered next.phase] := by cases next <;> rfl
      simpa [he] using hp
    | waits | raises => cases ho

theorem InstallTurn.place (h : InstallTurn r w (r.settings.installation home inherited) u)
    (hd : r.deployment = some ⟨m.file, m.name⟩) (now : Seconds) :
    Place u.run w.isDirectory (u.outcome.state now)
      ([.registered, .found m, .entered .provisioning, .provisioned home, .entered .validating] ++
        u.signs) := by
  cases h with
  | lacks hl =>
    have ha : Along r w.isDirectory m home inherited
        [.registered, .found m, .entered .provisioning, .provisioned home, .entered .validating] :=
      ⟨⟨_, rfl⟩, by simp, by simp⟩
    exact .failed ha
  | parks hl =>
    have ha : Along r w.isDirectory m home inherited
        [.registered, .found m, .entered .provisioning, .provisioned home, .entered .validating,
          .checked] :=
      ⟨⟨_, rfl⟩, fun _ => Installation.isThere_of_lacking? hl, by simp⟩
    exact .parked ha
  | creates hl => exact .creatingServer hd (Installation.isThere_of_lacking? hl)

/-- An answer to the sequence, and the turn after it, show signs that are ahead. -/
theorem AnswerTurn.place {p : Point} {a : Answer} {wait : Wait} {since : Seconds}
    (h : AnswerTurn r w p a u) (hp : Place r w.isDirectory (.waiting p wait since) signs)
    (hf : r.IsFresh) (now : Seconds) :
    Place u.run w.isDirectory (u.outcome.state now) (signs ++ (a.signs ++ u.signs)) := by
  cases h with
  | cancelled | failed =>
    obtain ⟨m, home, inherited, ha⟩ := hp.along
    exact .failed ha
  | missing =>
    obtain ⟨m, home, inherited, ha⟩ := hp.along
    exact .failed ha
  | @foundParks m =>
    cases hp with
    | resolving =>
      have ha : Along { r with deployment := some ⟨m.file, m.name⟩ } w.isDirectory m default none
          [.registered, .found m] := ⟨⟨_, rfl⟩, by simp, by simp⟩
      exact .parked ha
  | found =>
    cases hp with
    | resolving => exact .provisioning rfl
  | @homeParks home =>
    cases hp with
    | @provisioning m _ _ hd =>
      have ha : Along r w.isDirectory m home none
          [.registered, .found m, .entered .provisioning, .provisioned home] :=
        ⟨⟨_, rfl⟩, by simp, by simp⟩
      exact .parked ha
  | homeAsks =>
    cases hp with
    | provisioning hd => exact .readingJavaHome hd
  | homeInstalls ht ha hu =>
    cases hp with
    | provisioning hd =>
      have hp := hu.place hd now
      simpa [Answer.signs, Effect.signs] using hp
  | environment hu =>
    cases hp with
    | readingJavaHome hd => exact hu.place hd now
  | @created _ u hu =>
    cases hp with
    | @creatingServer m home inherited _ _ hd hc =>
      let v := r.newServer (r.settings.installation home inherited)
      have hk : (v.firstTurn w.toSurroundings sequenceId .start).KeepsTo
          (left r.settings m .start) (v.ahead (left r.settings m .start) .start) :=
        Server.firstTurn_keepsTo (stepCall_concern r .start)
      have ha : (r.shutdown.attach ()).callback = some () := by simp [Shutdown.attach, hf.done]
      have hp := hu.place hk hd hc ha (plan_eq r.settings).symm (by simp [Step.phase]) now
      simpa [Answer.signs, Effect.signs] using hp
  | @onServer step p a b v t u hb hv ht hu =>
    cases hp with
    | @onServer m home inherited _ _ _ _ _ hd hc ha hp hs he =>
      obtain ⟨more, hm, hk⟩ : ∃ more, b.signs ++ more = p.ahead (left r.settings m step) ∧
          t.KeepsTo (left r.settings m step) more := Server.nextTurn?_keepsTo hp ht
      rw [← hm, ← List.append_assoc] at hs
      have hab : a.signs = b.signs := by cases a <;> cases hb <;> rfl
      rw [hab, ← List.append_assoc]
      exact hu.place hk hd hc ha hs (List.mem_append_left _ he) now

/-- A sequence that comes to its running phase shows so. -/
theorem StepTurn.running {step : Step} {t : Server.Turn} (h : StepTurn w r step t u)
    (hp : .running ∈ u.run.phases) : .running ∈ r.phases ∨ .entered .running ∈ u.signs := by
  induction h with
  | waits | raises | exits | parks => exact .inl hp
  | @goesOn r step t code next u ho hn hf hu ih =>
    rw [Turn.after_signs]
    rcases ih hp with hr | hs
    · simp only [enter, List.mem_append, List.mem_singleton] at hr
      rcases hr with hr | hr
      · exact .inl hr
      · exact .inr (by simp [← hr, Effect.signs])
    · exact .inr (List.mem_append_right _ hs)

theorem InstallTurn.running {i : Installation} (h : InstallTurn r w i u)
    (hp : .running ∈ u.run.phases) : .running ∈ r.phases := by
  cases h with
  | lacks | parks => exact hp
  | creates => simpa [enter] using hp

theorem AnswerTurn.running {p : Point} {a : Answer} (h : AnswerTurn r w p a u)
    (hp : .running ∈ u.run.phases) : .running ∈ r.phases ∨ .entered .running ∈ u.signs := by
  cases h with
  | cancelled | failed | missing | foundParks | homeParks => exact .inl hp
  | found | homeAsks => exact .inl (by simpa [enter] using hp)
  | homeInstalls ht ha hu => exact .inl (by simpa [enter] using hu.running hp)
  | environment hu => exact .inl (hu.running hp)
  | created hu =>
    rw [Turn.after_signs]
    exact (hu.running hp).imp_right (List.mem_append_right _)
  | onServer hb hv ht hu => exact hu.running hp

/-! ### what else happens -/

/-- What anything but a turn of the sequence keeps of what the sequence goes by. -/
structure Beside (r r' : Run) : Prop where
  settings : r'.settings = r.settings
  deployment : r'.deployment = r.deployment
  callback : r'.shutdown.callback = r.shutdown.callback
  running : .running ∈ r'.phases → .running ∈ r.phases

theorem Along.of_beside {r' : Run} (h : Along r isDirectory m home inherited signs)
    (hb : Beside r r') : Along r' isDirectory m home inherited signs where
  shown := by
    rw [hb.settings]
    exact h.shown
  checked := by
    rw [hb.settings]
    exact h.checked
  created := by
    rw [hb.callback]
    exact h.created

theorem Place.of_beside {r' : Run} {q : SequenceState} (h : Place r isDirectory q signs)
    (hb : Beside r r') : Place r' isDirectory q signs := by
  cases h with
  | resolving => exact .resolving
  | provisioning hd => exact .provisioning (hb.deployment.trans hd)
  | readingJavaHome hd => exact .readingJavaHome (hb.deployment.trans hd)
  | creatingServer hd hc =>
    rw [← hb.settings] at hc ⊢
    exact .creatingServer (hb.deployment.trans hd) hc
  | onServer hd hc ha hp hs he =>
    rw [← hb.settings] at hc hs
    exact .onServer (hb.deployment.trans hd) hc (hb.callback.trans ha) hp hs he
  | parked h => exact .parked (h.of_beside hb)
  | failed h => exact .failed (h.of_beside hb)
  | exited h he =>
    have h := h.of_beside hb
    rw [← hb.settings] at h he ⊢
    exact .exited h he

theorem failed_beside (r : Run) (f : Failure) : Beside r (r.failed f) := by
  cases f with
  | run e => exact ⟨rfl, rfl, rfl, by simp [failed, enter]⟩
  | _ => exact ⟨rfl, rfl, rfl, id⟩

theorem ShutdownTurn.beside {ending : Ending} {x : SupervisorTurn} (h : ShutdownTurn r ending x) :
    Beside r x.run ∧ ∀ e ∈ x.effects, e.IsClosing := by
  cases h with
  | waits hp hi hk he => exact ⟨⟨rfl, rfl, hk, id⟩, he⟩
  | ends hk he => exact ⟨⟨rfl, rfl, hk, by simp [enter]⟩, he⟩

theorem Effect.signs_of_isClosing {e : Effect} (h : e.IsClosing) : e.signs = [] := by
  cases e with
  | registered | banner => exact h.elim
  | entered p => rcases h with rfl | rfl <;> rfl
  | _ => rfl

theorem flatMap_signs_of_isClosing {es : List Effect} (h : ∀ e ∈ es, e.IsClosing) :
    es.flatMap Effect.signs = [] := by
  rw [List.flatMap_eq_nil_iff]
  exact fun e he => Effect.signs_of_isClosing (h e he)

end

namespace System

variable {s u : System} {m : Move}

theorem Event.signs_effect (e : Effect) : (Event.effect e).signs = e.signs := rfl

@[simp] theorem record_signs (s : System) (e : Event) :
    (s.record e).signs = s.signs ++ e.signs := by
  simp [signs]

@[simp] theorem take_signs (s : System) (t : Turn) : (s.take t).signs = s.signs ++ t.signs := by
  have ho : t.outcome.event.signs = t.outcome.signs := by cases t.outcome <;> rfl
  simp [signs, Turn.events, Turn.signs, Event.signs_effect, List.flatMap_map, ho]

theorem recordEffects_signs (s : System) {es : List Effect} (h : ∀ e ∈ es, e.IsClosing) :
    (s.recordEffects es).signs = s.signs := by
  have he := flatMap_signs_of_isClosing h
  simp [signs, Event.signs_effect, List.flatMap_map, he]

theorem takeSupervisor_signs (s : System) {x : SupervisorTurn} (h : ∀ e ∈ x.effects, e.IsClosing) :
    (s.takeSupervisor x).signs = s.signs := by
  have he := flatMap_signs_of_isClosing h
  have ho : x.outcome.events.flatMap Event.signs = [] := by cases x.outcome <;> rfl
  simp [signs, SupervisorTurn.events, Event.signs_effect, List.flatMap_map, he, ho]

/-- A move that is no answer to the sequence keeps the sequence, what it goes by and what it has
shown. -/
theorem Sound.beside (h : Sound s) (hm : s.step? m = some u) (hn : ∀ a, m ≠ .answer a) :
    s.run.Beside u.run ∧ u.sequence = s.sequence ∧ u.isDirectory = s.isDirectory ∧
      u.signs = s.signs := by
  have turn {e : Event} {x : SupervisorTurn} (he : e.signs = [])
      (hx : s.run.Beside x.run ∧ ∀ e ∈ x.effects, e.IsClosing) :
      s.run.Beside ((s.record e).takeSupervisor x).run ∧
        ((s.record e).takeSupervisor x).sequence = s.sequence ∧
        ((s.record e).takeSupervisor x).isDirectory = s.isDirectory ∧
        ((s.record e).takeSupervisor x).signs = s.signs := by
    rw [takeSupervisor_signs _ hx.2, record_signs, he, List.append_nil]
    exact ⟨by simpa using hx.1, by simp, by rw [takeSupervisor_eq]; rfl, rfl⟩
  cases moved_of_step? hm with
  | @answer a => exact absurd rfl (hn a)
  | notice ht =>
    refine turn rfl ?_
    have fails (f : Failure) :
        s.run.Beside (s.run.fail f).run ∧ ∀ e ∈ (s.run.fail f).effects, e.IsClosing := by
      obtain ⟨es, hc, he⟩ := fail_eq s.run f
      rw [he]
      exact ⟨failed_beside s.run f, hc⟩
    cases ht with
    | fails => exact fails _
    | failsLate => exact fails _
    | cancels => exact ⟨⟨rfl, rfl, rfl, id⟩, by simp⟩
    | @interrupts p _ hp => exact ((h.poised _ hp).fresh.interrupt s.surroundings p).beside
    | abandons hp => exact ((h.poised _ hp).fresh.shutDown s.surroundings _).beside
    | settles hp => exact ((h.poised _ hp).fresh.shutDown s.surroundings _).beside
  | @stopAnswer a ending p wait since v t hs ha hv ht =>
    exact turn rfl (h.shutdownTurn hs ha ht).beside
  | request =>
    have he : ∀ e ∈ s.run.requestTermination.2, e.IsClosing := by
      unfold requestTermination
      split
      · intro e he
        rw [List.mem_singleton.mp he]
        trivial
      · simp
    refine ⟨?_, by simp, by rw [recordEffects_eq]; rfl, ?_⟩
    · rw [recordEffects_run, record_run]
      unfold requestTermination
      split <;> exact ⟨rfl, rfl, rfl, id⟩
    · rw [recordEffects_signs _ he, record_signs]
      exact List.append_nil _
  | exit => exact ⟨⟨rfl, rfl, rfl, id⟩, rfl, rfl, by rw [record_signs]; exact List.append_nil _⟩
  | time => exact ⟨⟨rfl, rfl, rfl, id⟩, rfl, rfl, rfl⟩

/-- A run keeps to the order of its plan. -/
structure Ordered (settings : Settings) (isDirectory : Path → Bool) (s : System) : Prop where
  settings : s.run.settings = settings
  there : s.isDirectory = isDirectory
  place : Place s.run isDirectory s.sequence s.signs
  running : .running ∈ s.run.phases → .entered .running ∈ s.signs

theorem ordered_ofRun (settings : Settings) (cwd : Path) (rounding : Seconds → Seconds)
    (isDirectory : Path → Bool) :
    Ordered settings isDirectory (.ofRun { settings, cwd, rounding } isDirectory) :=
  ⟨rfl, rfl, .resolving, fun h => by simp [ofRun, start, firstTurn] at h⟩

/-- Each move keeps a run to the order of its plan. -/
theorem ordered_step {settings : Settings} {isDirectory : Path → Bool} (h : Sound s)
    (ho : Ordered settings isDirectory s) (hm : s.step? m = some u) :
    Ordered settings isDirectory u := by
  by_cases hn : ∃ a, m = .answer a
  · obtain ⟨a, rfl⟩ := hn
    cases moved_of_step? hm with
    | @answer _ p wait since t hs ha ht =>
      have hp := ho.place
      rw [hs, ← ho.there] at hp
      obtain ⟨q, hq⟩ : ∃ q, s.supervisor = .watching q := by
        rcases h.watched p wait since hs with hv | ⟨q, hv⟩ <;> exact ⟨_, hv⟩
      refine ⟨?_, ?_, ?_, fun hr => ?_⟩
      · rw [take_run]
        exact ht.keeps.settings.trans ho.settings
      · rw [take_eq]
        exact ho.there
      · rw [take_run, take_sequence, take_signs, record_signs, List.append_assoc, ← ho.there]
        exact ht.place hp (h.poised q hq).fresh s.now
      · rw [take_run] at hr
        rw [take_signs, record_signs, List.append_assoc]
        rcases ht.running hr with hr | hr
        · exact List.mem_append_left _ (ho.running hr)
        · exact List.mem_append_right _ (List.mem_append_right _ hr)
    | time hn => exact absurd rfl (hn a)
  · obtain ⟨hb, hq, hd, hs⟩ := h.beside hm fun a ha => hn ⟨a, ha⟩
    refine ⟨hb.settings.trans ho.settings, hd.trans ho.there, ?_, fun hr => ?_⟩
    · rw [hq, hs]
      exact ho.place.of_beside hb
    · rw [hs]
      exact ho.running (hb.running hr)

/-- The steps of a run come in the order of a plan, each only when all before it have succeeded: the
signs that a run has shown are the first ones of the plan, and a failure ends them, or the exit of
the server that is running. The directories that were checked are there, the stop of a server that
was created is attached to the shutdown, and a run is a success only if it has shown all of its
plan. -/
theorem order_of_reaches (settings : Settings) (cwd : Path) (rounding : Seconds → Seconds)
    (isDirectory : Path → Bool) (ms : List Move) (s : System)
    (h : Reaches (.ofRun { settings, cwd, rounding } isDirectory) ms s) :
    ∃ m home inherited,
      (s.signs <+: plan settings m home inherited ∨
        (∃ done f, s.signs = done ++ [.failed f] ∧ done <+: plan settings m home inherited) ∨
        ∃ code, s.signs = plan settings m home inherited ++ [.exited code] ∧
          .entered .running ∈ s.signs) ∧
      (.checked ∈ s.signs → (settings.installation home inherited).IsThere isDirectory) ∧
      (.created ∈ s.signs → s.run.shutdown.callback = some ()) ∧
      ∀ p, s.supervisor = .ended (.stopped 0 p) →
        .entered .running ∈ s.signs ∧ plan settings m home inherited <+: s.signs := by
  have ho : Ordered settings isDirectory s :=
    (sound_ofRun settings cwd rounding isDirectory).keeps h
      (ordered_ofRun settings cwd rounding isDirectory) fun _ _ _ hm hs ho =>
        ordered_step hs ho hm.step
  obtain ⟨m, home, inherited, horder, hchecked, hcreated, hplan⟩ := ho.place.order
  rw [ho.settings] at horder hchecked hplan
  refine ⟨m, home, inherited, horder, hchecked, hcreated, fun p he => ?_⟩
  have hrunning : .entered .running ∈ s.signs := by
    obtain ⟨_, _, t, _, _, _, _, hlast, hps, hcode⟩ := request_of_stopped h (by rw [he]; rfl)
    have hp : p = .running := by
      refine Classical.byContradiction fun hp => ?_
      rw [if_neg hp] at hcode
      cases hcode
    subst hp
    refine ho.running ?_
    rw [hps]
    exact List.mem_append_left _ (List.mem_of_getLast? hlast)
  exact ⟨hrunning, hplan hrunning⟩

/-- Settings with two commands before the deployment, and two that run as one after it. -/
def commandSettings : Settings :=
  { (default : Settings) with
    before := { commands := [":whoami", "/subsystem=ee:read-resource"] }
    after := { commands := [":whoami", ":reload"], atomic := true } }

/-- The moves of a run that comes to its running phase, and is terminated then. -/
def fullRun : List Move :=
  [.answer (.metadata ⟨.ofString "app.war", "app.war", .ofString "target"⟩ true),
    .answer (.home (.ofString "/srv")), .answer (.environment none), .answer .created,
    .answer (.server (.launched 4242 none)), .answer (.server (.state (some "running"))),
    .answer (.server .done), .answer (.server .done), .answer (.server .done),
    .answer (.server .done), .request, .notice, .answer .cancelled, .notice, .exit 0,
    .stopAnswer .done, .stopAnswer (.exited 0), .stopAnswer .done, .stopAnswer .done]

/-- Such a run is a success, and has shown all of its plan. -/
theorem order_of_fullRun :
    ∃ s, Reaches (.ofRun { settings := commandSettings, cwd := .ofString "/work" } fun _ => true)
        fullRun s ∧
      s.supervisor = .ended (.stopped 0 .running) ∧
      ∃ m home inherited, .entered .running ∈ s.signs ∧
        plan commandSettings m home inherited <+: s.signs ∧
        s.run.shutdown.callback = some () := by
  have hrun : (fullRun.foldlM step?
      (.ofRun { settings := commandSettings, cwd := .ofString "/work" } fun _ => true)).any
        (fun s => s.supervisor matches .ended (.stopped 0 .running)) = true := by
    decide +kernel
  rw [Option.any_eq_true] at hrun
  obtain ⟨s, hs, hend⟩ := hrun
  have hr := leads_iff.mpr hs
  have he : s.supervisor = .ended (.stopped 0 .running) := by
    split at hend
    · rename_i h
      exact h
    · cases hend
  obtain ⟨m, home, inherited, -, -, hcreated, hall⟩ :=
    order_of_reaches commandSettings (.ofString "/work") id (fun _ => true) fullRun s hr
  obtain ⟨hrunning, hplan⟩ := hall .running he
  have hattached := hcreated (hplan.subset (by simp [plan]))
  exact ⟨s, hr, he, m, home, inherited, hrunning, hplan, hattached⟩

end System

end Run

end ServerRun
