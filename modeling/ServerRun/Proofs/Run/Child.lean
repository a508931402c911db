import ServerRun.Proofs.Run.Sound
import ServerRun.Proofs.Server.Death

/-! The child of a run. A run that has ended leaves no child alive: the stop of its server goes on
until the child is dead, where signals are not denied and a child that was killed dies in time. -/

namespace ServerRun

/-- The stop of a server is done and its child is dead. -/
structure Server.IsGone (s : Server) : Prop where
  exited : s.exitCode? ≠ none
  released : s.released = true
  state : s.state = .stopped ∨ s.state = .failed

namespace Run

section

variable {r : Run} {w : Surroundings} {u : Turn}

/-- The server that a run has after an answer: the one it had, and nothing of it is lost, or one
that was just made. -/
theorem AnswerTurn.keeps_server {p : Point} {wait : Wait} {since : Seconds} {a : Answer}
    (h : AnswerTurn r w p a u) (hp : Poised r (.waiting p wait since)) :
    (∀ v, r.server = some v → ∃ v', u.run.server = some v' ∧ v.Keeps v') ∧
      ∀ v', u.run.server = some v' →
        v'.grace = .ofBinary64 r.settings.gracePeriod ∨ ∃ v, r.server = some v ∧ v.Keeps v' := by
  have same (hs : u.run.server = r.server) :
      (∀ v, r.server = some v → ∃ v', u.run.server = some v' ∧ v.Keeps v') ∧
        ∀ v', u.run.server = some v' →
          v'.grace = .ofBinary64 r.settings.gracePeriod ∨ ∃ v, r.server = some v ∧ v.Keeps v' :=
    ⟨fun v hv => ⟨v, hs.trans hv, .refl v⟩, fun v hv => .inr ⟨v, hs.symm.trans hv, .refl v⟩⟩
  cases h with
  | homeInstalls ht ha hu =>
    have hs := hu.server
    exact same hs
  | environment hu => exact same hu.server
  | @created i u hu =>
    have hn : r.server = none := hp.apart _ _ _ rfl (by simp [Point.IsApart]) (by simp)
    obtain ⟨v, q, ps, hr, hk⟩ := hu.frame
    have hs : u.run.server = some v := by rw [hr]
    refine ⟨fun v' hv => ?_, fun v' hv => .inl ?_⟩
    · rw [hn] at hv
      cases hv
    · rw [Turn.after_run, hs, Option.some.injEq] at hv
      subst hv
      exact hk.grace
  | @onServer step q a b v t u hb hv ht hu =>
    obtain ⟨hkeeps, -⟩ := Server.nextTurn?_keeps (hp.onServer _ _ _ _ rfl) ht
    obtain ⟨v', q', ps, hr, hk⟩ := hu.frame
    have hs : u.run.server = some v' := by rw [hr]
    refine ⟨fun x hx => ?_, fun x hx => .inr ⟨v, hv, ?_⟩⟩
    · rw [hv, Option.some.injEq] at hx
      subst hx
      exact ⟨v', hs, hkeeps.trans hk⟩
    · rw [hs, Option.some.injEq] at hx
      subst hx
      exact hkeeps.trans hk
  | _ => exact same rfl

/-- A run that is told that its child was launched has a server with a child. -/
theorem AnswerTurn.child_of_launched {p : Point} {pid : Int} {client : Option Failure}
    (h : AnswerTurn r w p (.server (.launched pid client)) u) :
    ∃ v, u.run.server = some v ∧ v.child ≠ none := by
  cases h with
  | @onServer step q a b v t u hb hv ht hu =>
    cases hb
    obtain ⟨v', q', ps, hr, hk⟩ := hu.frame
    refine ⟨v', by rw [hr], hk.child ?_⟩
    cases q <;> simp [Server.nextTurn?] at ht
    case launching =>
      have ht' :
          v.nextTurn? w.toSurroundings sequenceId .launching (.launched pid client) = some t :=
        congrArg some ht
      obtain ⟨c, ht', -⟩ := Server.nextTurn?_launched ht'
      exact (Server.Keeps.of_startupTurn ht').child (by simp)

end

namespace System

variable {s u : System} {m : Move} {grace : Span}

/-- What is assumed of a child: no signal to it is denied, and once it was killed it is dead when
the grace period is over. -/
structure Obliges (grace : Span) (s : System) : Prop where
  signals : ∀ signal message, s.refusal signal ≠ some (.denied message)
  killed : ∀ since v, (since, .effect (.signal .kill)) ∈ s.history →
    grace.reachedBy (s.now - since) = true → s.run.server = some v → v.exitCode? ≠ none

/-- A child that was never killed obliges, where its ways never change. -/
theorem obliges_of_reaches {before after : List Move} {t : System} (hb : Reaches s before t)
    (ha : Reaches t after u) (hs : ∀ signal message, s.refusal signal ≠ some (.denied message))
    (hr : ∀ m ∈ before, ∀ f, m ≠ .refuse f)
    (hk : ∀ since, (since, .effect (.signal .kill)) ∉ u.history) : Obliges grace t where
  signals := by
    rw [(history_of_reaches hb).2 hr]
    exact hs
  killed since _ hm := absurd ((history_of_reaches ha).1.subset hm) (hk since)

/-- What is known of a server whose stop waits at a point since a moment. -/
structure StopWaits (grace : Span) (s : System) (v : Server) (p : Server.Point) (wait : Server.Wait)
    (since : Seconds) : Prop where
  child : v.child ≠ none
  knows : v.Knows p
  state : ∀ previous, p.previous? = some previous →
    v.state = if previous = .failed then .failed else .stopping
  killed : ∀ previous, p = .awaitingDeath previous [] →
    wait = .exit (some grace) ∧ (since, .effect (.signal .kill)) ∈ s.history

/-- What is known of the child of a run at all times. -/
structure Attended (grace : Span) (s : System) : Prop where
  settings : .ofBinary64 s.run.settings.gracePeriod = grace
  server : ∀ v, s.run.server = some v → v.grace = grace
  launched : ∀ now pid client, (now, .answered (.server (.launched pid client))) ∈ s.history →
    ∃ v, s.run.server = some v ∧ v.child ≠ none
  stopping : ∀ ending p wait since,
    s.supervisor = .stopping (.shuttingDown ending p) wait since →
      ∃ v, s.run.server = some v ∧ StopWaits grace s v p wait since
  ended : ∀ ending, s.supervisor = .ended ending → ∀ v, s.run.server = some v → v.child ≠ none →
    v.IsGone

theorem attended_ofRun (settings : Settings) (cwd : Path) (rounding : Seconds → Seconds)
    (isDirectory : Path → Bool) :
    Attended (.ofBinary64 settings.gracePeriod)
      (.ofRun { settings, cwd, rounding } isDirectory) where
  settings := rfl
  server _ h := by cases h
  launched now pid client h := by
    have hh : (ofRun { settings, cwd, rounding } isDirectory).history =
        [(0, .effect .registered), (0, .waits .metadata)] := rfl
    rw [hh] at h
    simp at h
  stopping _ _ _ _ h := by cases h
  ended _ h := by cases h

/-- A move that leaves the server as it is and does not shut it down. -/
theorem Attended.of_idle (h : Attended grace s) (hs : u.run.settings = s.run.settings)
    (hv : u.run.server = s.run.server)
    (hp : u.supervisor = s.supervisor ∨ ∃ q, u.supervisor = .watching q)
    (hh : s.history <+: u.history)
    (hl : ∀ now a, (now, .answered a) ∈ u.history → (now, .answered a) ∈ s.history) :
    Attended grace u := by
  constructor
  · rw [hs]
    exact h.settings
  · rw [hv]
    exact h.server
  · intro now pid client hm
    rw [hv]
    exact h.launched now pid client (hl now _ hm)
  · intro ending p wait since hp'
    have hp := hp.resolve_right fun ⟨q, hq⟩ => by
      rw [hq] at hp'
      cases hp'
    obtain ⟨v, hv', hw⟩ := h.stopping ending p wait since (hp ▸ hp')
    refine ⟨v, hv.trans hv', hw.child, hw.knows, hw.state, fun previous hq => ?_⟩
    obtain ⟨h1, h2⟩ := hw.killed previous hq
    exact ⟨h1, hh.subset h2⟩
  · intro ending he
    have hp := hp.resolve_right fun ⟨q, hq⟩ => by
      rw [hq] at he
      cases he
    rw [hv]
    exact h.ended ending (hp ▸ he)

/-- The sequence takes a turn. -/
theorem Attended.of_answer (h : Attended grace s) {p : Point} {wait : Wait} {since : Seconds}
    (hp : Poised s.run (.waiting p wait since)) {q : SupervisorPoint}
    (hv : s.supervisor = .watching q) {a : Answer} {t : Turn}
    (ht : AnswerTurn s.run s.surroundings p a t) :
    Attended grace ((s.record (.answered a)).take t) := by
  obtain ⟨hkeep, hfrom⟩ := ht.keeps_server hp
  constructor
  · rw [take_run, ht.keeps.settings]
    exact h.settings
  · intro v hv
    rw [take_run] at hv
    rcases hfrom v hv with hg | ⟨v', hv', hk⟩
    · exact hg.trans h.settings
    · exact hk.grace.trans (h.server v' hv')
  · intro now pid client hl
    rw [take_run]
    rw [take_history, record_history, List.append_assoc, List.mem_append] at hl
    rcases hl with hl | hl
    · obtain ⟨v, hv, hc⟩ := h.launched now pid client hl
      obtain ⟨v', hv', hk⟩ := hkeep v hv
      exact ⟨v', hv', hk.child hc⟩
    · rw [List.mem_append, List.mem_singleton] at hl
      rcases hl with hl | hl
      · simp only [Prod.mk.injEq, Event.answered.injEq] at hl
        rw [← hl.2] at ht
        exact ht.child_of_launched
      · obtain ⟨e, he, hx⟩ := List.mem_map.mp hl
        rw [Prod.mk.injEq] at hx
        exact absurd (hx.2 ▸ he) (answered_notMem_events t _)
  · intro ending p wait since hs
    rw [take_supervisor, record_supervisor, hv] at hs
    cases hs
  · intro ending hs
    rw [take_supervisor, record_supervisor, hv] at hs
    cases hs

/-- A turn of the supervisor that stops the server, after which the child is still waited for or is
gone. -/
theorem Attended.of_stopTurn (h : Attended grace s) {e : Event} {ending : Ending} {r : Run}
    (hr : r.settings = s.run.settings) {v : Server} (hg : v.grace = grace) (hc : v.child ≠ none)
    {previous : Server.State}
    (hst : v.state = if previous = .failed then .failed else .stopping) {t : Server.Turn}
    (ht : v.StopTurn previous false t) (hd : Server.DeathTurn grace t) {es : List Effect} :
    Attended grace ((s.record e).takeSupervisor ((r.afterStopTurn ending t).after es)) := by
  have hchild : t.server.child = v.child ∧ t.server.grace = v.grace := by
    cases ht <;> exact ⟨rfl, rfl⟩
  have hrun : (r.afterStopTurn ending t).run.settings = r.settings ∧
      (r.afterStopTurn ending t).run.server = some t.server := by
    cases ht with
    | waits => rw [afterStopTurn_of_paused rfl]; exact ⟨rfl, rfl⟩
    | ends => rw [afterStopTurn_of_returned rfl]; exact ⟨rfl, rfl⟩
  constructor
  · rw [takeSupervisor_run, SupervisorTurn.after_run, hrun.1, hr]
    exact h.settings
  · intro x hx
    rw [takeSupervisor_run, SupervisorTurn.after_run, hrun.2, Option.some.injEq] at hx
    rw [← hx, hchild.2, hg]
  · intro _ _ _ _
    rw [takeSupervisor_run, SupervisorTurn.after_run]
    exact ⟨_, hrun.2, by rw [hchild.1]; exact hc⟩
  · intro ending' p wait since hs
    rw [takeSupervisor_supervisor, SupervisorTurn.after_outcome] at hs
    rw [takeSupervisor_run, SupervisorTurn.after_run]
    refine ⟨_, hrun.2, ?_⟩
    cases ht with
    | waits released hp hi =>
      rw [afterStopTurn_of_paused rfl] at hs ⊢
      cases hs
      refine ⟨hc, hd.knows rfl, fun q hq => ?_, fun q hq => ?_⟩
      · rw [hp, Option.some.injEq] at hq
        exact hq ▸ hst
      · subst hq
        cases hd with
        | asks ho => cases ho
        | waits ho hl hk =>
          cases ho
          refine ⟨rfl, ?_⟩
          rw [takeSupervisor_history, SupervisorTurn.events, SupervisorTurn.after_effects]
          refine List.mem_append_right _ (List.mem_map.mpr ⟨.effect (.signal .kill), ?_, rfl⟩)
          refine List.mem_append_left _ (List.mem_map.mpr ⟨.signal .kill, ?_, rfl⟩)
          exact List.mem_append_right _ (List.mem_map.mpr ⟨.signal .kill, hk rfl, rfl⟩)
        | releases ho hp hr he =>
          cases ho
          obtain ⟨_, _, hp | hp⟩ := hp <;> cases hp
        | ends hn => exact absurd rfl (hn _ _)
    | ends released =>
      rw [afterStopTurn_of_returned rfl] at hs
      cases hs
  · intro ending' hs x hx _
    rw [takeSupervisor_supervisor, SupervisorTurn.after_outcome] at hs
    rw [takeSupervisor_run, SupervisorTurn.after_run, hrun.2, Option.some.injEq] at hx
    subst hx
    cases ht with
    | waits released hp hi =>
      rw [afterStopTurn_of_paused rfl] at hs
      cases hs
    | ends released =>
      have hgone : (Server.stoppedState v previous = .stopped ∨
          Server.stoppedState v previous = .failed) := by
        unfold Server.stoppedState
        split
        · rename_i hp
          rw [hst, if_pos hp]
          exact .inr rfl
        · exact .inl rfl
      cases hd with
      | asks ho => cases ho
      | waits ho => cases ho
      | releases ho => cases ho
      | ends hn hr he => exact ⟨he, hr, hgone⟩

/-- A turn of the supervisor that ends a run without a child. -/
theorem Attended.of_childless (h : Attended grace s)
    (hc : ∀ v, s.run.server = some v → v.child = none) {x : SupervisorTurn}
    (hs : x.run.settings = s.run.settings) (hv : x.run.server = s.run.server) {ending : Ending}
    (hx : x.outcome = .ended ending) : Attended grace ((s.record .noticed).takeSupervisor x) := by
  constructor
  · rw [takeSupervisor_run, hs]
    exact h.settings
  · rw [takeSupervisor_run, hv]
    exact h.server
  · intro now pid client hl
    rw [takeSupervisor_run, hv]
    exact h.launched now pid client (answered_of_takeSupervisor (by simp) hl)
  · intro ending' p wait since hp
    simp [hx, SupervisorOutcome.state] at hp
  · intro _ _ v hv' hn
    rw [takeSupervisor_run, hv] at hv'
    exact absurd (hc v hv') hn

/-- The shutdown begins: a child that was launched is stopped. -/
theorem Attended.of_shutDown (h : Attended grace s) (ho : Obliges grace s) {q : SequenceState}
    (hp : Poised s.run q) (ending : Ending) (es : List Effect) :
    Attended grace ((s.record .noticed).takeSupervisor
      ((s.run.shutDown s.surroundings ending).after es)) := by
  cases hv : s.run.server with
  | none =>
    obtain ⟨k, -, hk⟩ : ∃ k, k.callback = s.run.shutdown.callback ∧
      s.run.shutDown s.surroundings ending =
        ⟨{ s.run with shutdown := k }.enter .shutDown, [.unregistered, .entered .shutDown],
          .ended ending⟩ := shutDown_of_none hp.fresh hv
    rw [hk]
    exact h.of_childless (by simp [hv]) rfl rfl rfl
  | some v =>
    obtain ⟨k, -, hk⟩ : ∃ k, k.callback = s.run.shutdown.callback ∧
      s.run.shutDown s.surroundings ending =
        ({ s.run with shutdown := k }.afterStopTurn ending
          (v.firstTurn s.surroundings.toSurroundings supervisorId .stop)).after
            [.callbackEntered] := shutDown_of_some hp.fresh hv
    have hun := hp.unstopped v hv
    rw [hk]
    by_cases hc : v.child = none
    · have hi : v.firstTurn s.surroundings.toSurroundings supervisorId .stop = v.finish :=
        Server.firstTurn_stop_idle fun ha => ha.2.2.1 hc
      rw [hi, afterStopTurn_of_returned rfl]
      refine h.of_childless (fun v' hv' => ?_) rfl hv.symm rfl
      rw [hv, Option.some.injEq] at hv'
      rw [← hv', hc]
    · have ha : v.StopActs :=
        ⟨hun.state.1, hun.state.2, hc, hun.stopping, hun.released⟩
      have hd : Server.DeathTurn v.grace
          (v.firstTurn s.surroundings.toSurroundings supervisorId .stop) :=
        Server.firstTurn_stop_death ha ho.signals
      rw [h.server v hv] at hd
      rw [SupervisorTurn.after_after]
      exact h.of_stopTurn (v := v.stopBegun) (r := { s.run with shutdown := k }) rfl
        (h.server v hv) hc rfl (Server.firstTurn_stop ha) hd

/-- The stop of the server is answered. -/
theorem Attended.of_stopAnswer (hs : Sound s) (h : Attended grace s) (ho : Obliges grace s)
    {ending : Ending} {p : Server.Point} {wait : Server.Wait} {since : Seconds}
    (hp : s.supervisor = .stopping (.shuttingDown ending p) wait since) {a : Server.Answer}
    (ha : s.admitsServer wait since a = true) {v : Server} (hv : s.run.server = some v)
    {t : Server.Turn}
    (ht : v.nextTurn? s.surroundings.toSurroundings supervisorId p a = some t) :
    Attended grace
      ((s.record (.stopAnswered a)).takeSupervisor (s.run.afterStopTurn ending t)) := by
  obtain ⟨hstop, -⟩ := hs.stopping _ _ _ _ hp
  obtain ⟨previous, hprev, hst⟩ := hs.stopTurn hp ha ht
  obtain ⟨v', hv', hw⟩ := h.stopping _ _ _ _ hp
  rw [hv, Option.some.injEq] at hv'
  subst hv'
  have hc := ne_cancelled_of_admitsServer ha
  have hx : ∀ code, a = .exited code → v.exitCode? ≠ none := by
    intro code hcode
    subst hcode
    simp only [admitsServer, hv, Option.bind_some, beq_iff_eq] at ha
    simp [ha]
  have hl : ∀ previous, a = .elapsed → p = .awaitingDeath previous [] → v.exitCode? ≠ none := by
    intro previous hcode hq
    subst hcode
    obtain ⟨hwait, hkill⟩ := hw.killed previous hq
    subst hwait
    simp only [admitsServer, Server.Wait.limit?, Option.any_some] at ha
    exact ho.killed since v hkill ha hv
  have hd : Server.DeathTurn v.grace t :=
    Server.nextTurn?_death hstop hc hw.knows ho.signals hx hl ht
  rw [h.server v hv] at hd
  have hu : Attended grace ((s.record (.stopAnswered a)).takeSupervisor
      ((s.run.afterStopTurn ending t).after [])) :=
    h.of_stopTurn rfl (h.server v hv) hw.child (hw.state _ hprev) hst hd
  exact hu

/-- The supervisor takes notice of a failure. -/
theorem Attended.of_fail (h : Attended grace s) (f : Failure) :
    Attended grace ((s.record .noticed).takeSupervisor (s.run.fail f)) := by
  refine h.of_idle ?_ ?_ (.inr ?_) (history_takeSupervisor _ _ _) fun now a =>
    answered_of_takeSupervisor (by simp)
  · rw [takeSupervisor_run]
    cases f <;> rfl
  · rw [takeSupervisor_run]
    cases f <;> rfl
  · rw [takeSupervisor_supervisor]
    cases f <;> exact ⟨_, rfl⟩

/-- The child dies. -/
theorem Attended.of_exit (h : Attended grace s) {v : Server} (hv : s.run.server = some v)
    (hc : v.child ≠ none) (he : v.exitCode? = none) (code : Int) :
    Attended grace
      ({ s with run := { s.run with server := some (v.withExit code) } }.record
        (.exited code)) := by
  have hexit : (v.withExit code).exitCode? ≠ none := by simp [Server.exitCode?_withExit hc code]
  have hchild : (v.withExit code).child ≠ none := Server.child_of_exitCode? hexit
  constructor
  · exact h.settings
  · intro x hx
    rw [record_run, Option.some.injEq] at hx
    subst hx
    exact h.server v hv
  · intro _ _ _ _
    exact ⟨_, rfl, hchild⟩
  · intro ending p wait since hp
    obtain ⟨x, hx, hw⟩ := h.stopping ending p wait since hp
    rw [hv, Option.some.injEq] at hx
    subst hx
    refine ⟨_, rfl, hchild, ?_, hw.state, fun previous hq => ?_⟩
    · have hk := hw.knows
      cases p with
      | closing | draining => exact ⟨hk.1, hexit⟩
      | awaitingDeath => exact hk
      | _ => trivial
    · obtain ⟨h1, h2⟩ := hw.killed previous hq
      exact ⟨h1, List.mem_append_left _ h2⟩
  · intro ending hs _ _ _
    exact absurd he (h.ended ending hs v hv hc).exited

/-- Each move of a sound run keeps what is known of its child, where the child obliges. -/
theorem attended_step (hs : Sound s) (h : Attended grace s) (ho : Obliges grace s)
    (hm : s.step? m = some u) : Attended grace u := by
  cases moved_of_step? hm with
  | @answer a p wait since t hq ha ht =>
    rcases hs.watched p wait since hq with hv | ⟨q, hv⟩
    · exact h.of_answer (hq ▸ hs.poised _ hv) hv ht
    · exact h.of_answer (hq ▸ hs.poised _ hv) hv ht
  | notice ht =>
    cases ht with
    | @fails result hp hq => exact h.of_fail (failureOf result)
    | @failsLate f p hp hq hf => exact h.of_fail f
    | @cancels p wait since hp hq ht =>
      exact h.of_idle (by simp) (by simp) (.inr ⟨_, by rw [takeSupervisor_supervisor]; rfl⟩)
        (history_takeSupervisor _ _ _) fun now a => answered_of_takeSupervisor (by simp)
    | @interrupts p result hp hq hr =>
      unfold Run.interrupt
      split
      · exact h.of_shutDown ho (hs.poised _ hp) _ []
      · exact h.of_shutDown ho (hs.poised _ hp) _ _
    | @abandons result hp hq => exact h.of_shutDown ho (hs.poised _ hp) _ []
    | @settles ending hp => exact h.of_shutDown ho (hs.poised _ hp) _ []
  | @stopAnswer a ending p wait since v t hp ha hv ht => exact h.of_stopAnswer hs ho hp ha hv ht
  | request =>
    refine h.of_idle ?_ ?_ (.inl (by simp)) (history_of_step? hm).1 fun now a hl => ?_
    case refine_3 => simpa using hl
    all_goals
      unfold requestTermination
      split <;> rfl
  | @exit code v hv hc he => exact h.of_exit hv hc he code
  | time ha hr now refusal hf =>
    exact h.of_idle rfl rfl (.inl rfl) List.prefix_rfl fun _ _ hl => hl

end System

end Run

end ServerRun
