import ServerRun.Run.System
import ServerRun.Proofs.Run.Turn

/-! What one move does to a run among its surroundings: its sequence takes a turn, or its supervisor
does, a termination is requested, the child dies, or only the time or the child's ways change. -/

namespace ServerRun.Run

/-- Where a turn leaves the sequence. -/
def Outcome.state (now : Seconds) : Outcome → SequenceState
  | .paused point wait => .waiting point wait now
  | .returned code => .ended (.ok code)
  | .raised f => .ended (.error f)

/-- What the end of a turn of the sequence adds to the history. -/
def Outcome.event : Outcome → Event
  | .paused _ wait => .waits wait
  | .returned code => .sequenceEnded (.ok code)
  | .raised f => .sequenceEnded (.error f)

/-- What a turn of the sequence adds to the history. -/
def Turn.events (t : Turn) : List Event := t.effects.map .effect ++ [t.outcome.event]

/-- Where a turn leaves the supervisor. -/
def SupervisorOutcome.state (now : Seconds) : SupervisorOutcome → SupervisorState
  | .watching point | .cancelSequence point => .watching point
  | .shuttingDown point wait => .stopping point wait now
  | .ended ending => .ended ending

/-- Whether a turn of the supervisor cancels the sequence. -/
def SupervisorOutcome.cancels : SupervisorOutcome → Bool
  | .cancelSequence _ => true
  | _ => false

/-- What the end of a turn of the supervisor adds to the history. -/
def SupervisorOutcome.events : SupervisorOutcome → List Event
  | .watching _ | .cancelSequence _ => []
  | .shuttingDown _ wait => [.stopWaits wait]
  | .ended ending => [.ended ending]

/-- What a turn of the supervisor adds to the history. -/
def SupervisorTurn.events (t : SupervisorTurn) : List Event :=
  t.effects.map .effect ++ t.outcome.events

/-- The failure that the end of the sequence is for a run whose termination was not requested. -/
def failureOf : Except Failure (Option Int) → Failure
  | .ok code => .run (.exited code)
  | .error f => f

namespace System

variable {s u : System} {m : Move}

theorem recordEffects_eq (s : System) (es : List Effect) :
    s.recordEffects es =
      { s with history := s.history ++ es.map fun e => (s.now, .effect e) } := by
  unfold recordEffects
  induction es generalizing s with
  | nil => simp
  | cons e es ih => rw [List.foldl_cons, ih]; simp [record]

theorem take_eq (s : System) (t : Turn) :
    s.take t =
      { s with
        run := t.run
        sequence := t.outcome.state s.now
        cancelPending := false
        history := s.history ++ t.events.map fun e => (s.now, e) } := by
  unfold take
  rw [recordEffects_eq]
  cases h : t.outcome <;> simp [record, Turn.events, Outcome.state, Outcome.event, h]

theorem takeSupervisor_eq (s : System) (t : SupervisorTurn) :
    s.takeSupervisor t =
      { s with
        run := t.run
        supervisor := t.outcome.state s.now
        cancelPending := s.cancelPending || t.outcome.cancels
        history := s.history ++ t.events.map fun e => (s.now, e) } := by
  unfold takeSupervisor
  rw [recordEffects_eq]
  cases h : t.outcome <;>
    simp [record, SupervisorTurn.events, SupervisorOutcome.state, SupervisorOutcome.cancels,
      SupervisorOutcome.events, h]

section

variable {t : Turn} {x : SupervisorTurn} {e : Event} {es : List Effect}

@[simp] theorem record_run : (s.record e).run = s.run := rfl

@[simp] theorem record_sequence : (s.record e).sequence = s.sequence := rfl

@[simp] theorem record_supervisor : (s.record e).supervisor = s.supervisor := rfl

@[simp] theorem record_now : (s.record e).now = s.now := rfl

@[simp] theorem record_history : (s.record e).history = s.history ++ [(s.now, e)] := rfl

@[simp] theorem take_run : (s.take t).run = t.run := by rw [take_eq]

@[simp] theorem take_sequence : (s.take t).sequence = t.outcome.state s.now := by rw [take_eq]

@[simp] theorem take_supervisor : (s.take t).supervisor = s.supervisor := by rw [take_eq]

@[simp] theorem take_history :
    (s.take t).history = s.history ++ t.events.map fun e => (s.now, e) := by rw [take_eq]

@[simp] theorem takeSupervisor_run : (s.takeSupervisor x).run = x.run := by rw [takeSupervisor_eq]

@[simp] theorem takeSupervisor_sequence : (s.takeSupervisor x).sequence = s.sequence := by
  rw [takeSupervisor_eq]

@[simp] theorem takeSupervisor_supervisor :
    (s.takeSupervisor x).supervisor = x.outcome.state s.now := by rw [takeSupervisor_eq]

@[simp] theorem takeSupervisor_history :
    (s.takeSupervisor x).history = s.history ++ x.events.map fun e => (s.now, e) := by
  rw [takeSupervisor_eq]

@[simp] theorem recordEffects_run : (s.recordEffects es).run = s.run := by rw [recordEffects_eq]


@[simp] theorem recordEffects_sequence : (s.recordEffects es).sequence = s.sequence := by
  rw [recordEffects_eq]

@[simp] theorem recordEffects_supervisor : (s.recordEffects es).supervisor = s.supervisor := by
  rw [recordEffects_eq]

@[simp] theorem recordEffects_history :
    (s.recordEffects es).history = s.history ++ es.map fun e => (s.now, .effect e) := by
  rw [recordEffects_eq]

end

/-- No turn adds an answer to the history. -/
theorem answered_notMem_events (t : Turn) (a : Answer) : .answered a ∉ t.events := by
  cases ho : t.outcome <;> simp [Turn.events, Outcome.event, ho]

theorem answered_notMem_supervisorEvents (x : SupervisorTurn) (a : Answer) :
    .answered a ∉ x.events := by
  cases ho : x.outcome <;> simp [SupervisorTurn.events, SupervisorOutcome.events, ho]

theorem history_takeSupervisor (s : System) (e : Event) (x : SupervisorTurn) :
    s.history <+: ((s.record e).takeSupervisor x).history := by
  rw [takeSupervisor_history, record_history, List.append_assoc]
  exact List.prefix_append _ _

theorem answered_of_takeSupervisor {e : Event} {x : SupervisorTurn} {now : Seconds} {a : Answer}
    (he : e ≠ .answered a) (h : (now, .answered a) ∈ ((s.record e).takeSupervisor x).history) :
    (now, .answered a) ∈ s.history := by
  rw [takeSupervisor_history, record_history, List.append_assoc, List.mem_append] at h
  refine h.resolve_right fun h => ?_
  rcases List.mem_append.mp h with h | h
  · rw [List.mem_singleton, Prod.mk.injEq] at h
    exact he h.2.symm
  · obtain ⟨e', he', hx⟩ := List.mem_map.mp h
    rw [Prod.mk.injEq] at hx
    exact answered_notMem_supervisorEvents x a (hx.2 ▸ he')

/-- The turns of the supervisor that takes notice of something. -/
inductive NoticeTurn (s : System) : SupervisorTurn → Prop
  | fails {result} (hp : s.supervisor = .watching .watching) (hs : s.sequence = .ended result) :
      NoticeTurn s (s.run.fail (failureOf result))
  | failsLate {f p} (hp : s.supervisor = .watching (.cancelling (some p)))
      (hs : s.sequence = .ended (.error f)) (hf : f ≠ .cancelled) : NoticeTurn s (s.run.fail f)
  | cancels {point wait since} (hp : s.supervisor = .watching .watching)
      (hs : s.sequence = .waiting point wait since) (ht : s.run.terminated = true) :
      NoticeTurn s ⟨s.run, [],
        .cancelSequence (.cancelling (some (s.run.interrupted.getD s.run.phase)))⟩
  | interrupts {p result} (hp : s.supervisor = .watching (.cancelling (some p)))
      (hs : s.sequence = .ended result) (hr : ∀ f, result = .error f → f = .cancelled) :
      NoticeTurn s (s.run.interrupt s.surroundings p)
  | abandons {result} (hp : s.supervisor = .watching (.cancelling none))
      (hs : s.sequence = .ended result) :
      NoticeTurn s (s.run.shutDown s.surroundings (.raised .cancelled))
  | settles {ending} (hp : s.supervisor = .watching (.settling ending)) :
      NoticeTurn s (s.run.shutDown s.surroundings ending)

theorem noticeTurn_of_supervise? {p : SupervisorPoint} {n : News} {t : SupervisorTurn}
    (hp : s.supervisor = .watching p) (hn : s.news? p = some n)
    (ht : s.run.supervise? s.surroundings p n = some t) : NoticeTurn s t := by
  cases p with
  | settling ending =>
    cases hn
    cases ht
    exact .settles hp
  | shuttingDown ending point =>
    cases hs : s.sequence with
    | waiting point wait since => simp [news?, hs] at hn
    | ended result =>
      simp only [news?, hs, Option.some.injEq] at hn
      subst hn
      cases ht
  | watching =>
    cases hs : s.sequence with
    | waiting point wait since =>
      simp only [news?, hs, Option.ite_none_right_eq_some, Option.some.injEq] at hn
      obtain ⟨ht', rfl⟩ := hn
      cases ht
      exact .cancels hp hs ht'
    | ended result =>
      simp only [news?, hs, Option.some.injEq] at hn
      subst hn
      cases result <;> cases ht <;> exact .fails hp hs
  | cancelling interrupted =>
    cases hs : s.sequence with
    | waiting point wait since => simp [news?, hs] at hn
    | ended result =>
      simp only [news?, hs, Option.some.injEq] at hn
      subst hn
      cases interrupted with
      | none =>
        cases ht
        exact .abandons hp hs
      | some p =>
        cases result with
        | ok code =>
          cases ht
          exact .interrupts hp hs fun f h => by cases h
        | error f =>
          cases f with
          | cancelled =>
            cases ht
            exact .interrupts hp hs fun f h => by cases h; rfl
          | _ =>
            cases ht
            exact .failsLate hp hs (by simp)

/-- What a move comes to: the sequence or the supervisor takes a turn, a termination is requested,
the child dies, or only the time or the child's ways change. -/
inductive Moved (s : System) : Move → System → Prop
  | answer {a p wait since t} (hs : s.sequence = .waiting p wait since)
      (ha : s.admits since wait a = true) (ht : AnswerTurn s.run s.surroundings p a t) :
      Moved s (.answer a) ((s.record (.answered a)).take t)
  | notice {t} (ht : NoticeTurn s t) : Moved s .notice ((s.record .noticed).takeSupervisor t)
  | stopAnswer {a ending p wait since v t}
      (hs : s.supervisor = .stopping (.shuttingDown ending p) wait since)
      (ha : s.admitsServer wait since a = true) (hv : s.run.server = some v)
      (ht : v.nextTurn? s.surroundings.toSurroundings supervisorId p a = some t) :
      Moved s (.stopAnswer a)
        ((s.record (.stopAnswered a)).takeSupervisor (s.run.afterStopTurn ending t))
  | request :
      Moved s .request
        (({ s with run := s.run.requestTermination.1 }.record .requested).recordEffects
          s.run.requestTermination.2)
  | exit {code v} (hv : s.run.server = some v) (hc : v.child ≠ none) (he : v.exitCode? = none) :
      Moved s (.exit code)
        ({ s with run := { s.run with server := some (v.withExit code) } }.record (.exited code))
  | time {n : Move} (ha : ∀ a, n ≠ .answer a) (hr : n ≠ .request) (now : Seconds)
      (refusal : Server.Signal → Option Server.Refusal)
      (hf : (∀ f, n ≠ .refuse f) → refusal = s.refusal) : Moved s n { s with now, refusal }

/-- Each move is one of those listed. -/
theorem moved_of_step? (h : s.step? m = some u) : Moved s m u := by
  cases m with
  | answer a =>
    simp only [step?] at h
    split at h
    · rename_i p wait since hs
      split at h
      · rename_i ha
        obtain ⟨t, ht, rfl⟩ := Option.map_eq_some_iff.mp h
        exact .answer hs ha (answerTurn_of_nextTurn? ht)
      · cases h
    · cases h
  | notice =>
    simp only [step?] at h
    split at h
    · rename_i p hp
      split at h
      · cases h
      · obtain ⟨n, hn, h⟩ := Option.bind_eq_some_iff.mp h
        obtain ⟨t, ht, rfl⟩ := Option.map_eq_some_iff.mp h
        exact .notice (noticeTurn_of_supervise? hp hn ht)
    · cases h
  | stopAnswer a =>
    simp only [step?] at h
    split at h
    · rename_i p wait since hs
      split at h
      · rename_i ha
        obtain ⟨t, ht, rfl⟩ := Option.map_eq_some_iff.mp h
        cases p with
        | shuttingDown ending p =>
          obtain ⟨v, hv, hn⟩ := Option.bind_eq_some_iff.mp ht
          obtain ⟨x, hx, rfl⟩ := Option.map_eq_some_iff.mp hn
          exact .stopAnswer hs ha hv hx
        | watching => cases ht
        | cancelling interrupted => cases interrupted <;> cases ht
        | settling ending => cases ht
      · cases h
    · cases h
  | request =>
    cases h
    exact .request
  | exit code =>
    simp only [step?] at h
    split at h
    · rename_i v hv
      split at h
      · rename_i hc
        cases h
        simp only [Bool.and_eq_true, Option.isSome_iff_ne_none, Option.isNone_iff_eq_none] at hc
        exact .exit hv hc.1 hc.2
      · cases h
    · cases h
  | pass length =>
    simp only [step?] at h
    split at h
    · cases h
      exact .time (fun a hm => by cases hm) (fun hm => by cases hm) _ _ fun _ => rfl
    · cases h
  | lag length =>
    simp only [step?] at h
    split at h
    · cases h
      exact .time (fun a hm => by cases hm) (fun hm => by cases hm) _ _ fun _ => rfl
    · cases h
  | refuse refusal =>
    cases h
    exact .time (fun a hm => by cases hm) (fun hm => by cases hm) _ _ fun hf =>
      absurd rfl (hf refusal)

/-- The stop of the server is not cancelled. -/
theorem ne_cancelled_of_admitsServer {wait : Server.Wait} {since : Seconds} {a : Server.Answer}
    (h : s.admitsServer wait since a = true) : a ≠ .cancelled := by
  rintro rfl
  simp [admitsServer] at h

/-- A move only adds to the history, and keeps the child's ways unless it changes them. -/
theorem history_of_step? (h : s.step? m = some u) :
    s.history <+: u.history ∧ ((∀ f, m ≠ .refuse f) → u.refusal = s.refusal) := by
  cases moved_of_step? h with
  | answer hs ha ht =>
    rw [take_history, record_history, List.append_assoc]
    exact ⟨List.prefix_append _ _, fun _ => by rw [take_eq]; rfl⟩
  | notice ht =>
    exact ⟨history_takeSupervisor _ _ _, fun _ => by rw [takeSupervisor_eq]; rfl⟩
  | stopAnswer hs ha hv ht =>
    exact ⟨history_takeSupervisor _ _ _, fun _ => by rw [takeSupervisor_eq]; rfl⟩
  | request =>
    rw [recordEffects_history, record_history, List.append_assoc]
    exact ⟨List.prefix_append _ _, fun _ => by rw [recordEffects_eq]; rfl⟩
  | exit hv hc he => exact ⟨List.prefix_append _ _, fun _ => rfl⟩
  | time ha hr now refusal hf => exact ⟨List.prefix_rfl, hf⟩

theorem history_of_reaches {ms : List Move} (h : Reaches s ms u) :
    s.history <+: u.history ∧ ((∀ m ∈ ms, ∀ f, m ≠ .refuse f) → u.refusal = s.refusal) := by
  induction h with
  | refl => exact ⟨List.prefix_rfl, fun _ => rfl⟩
  | step hm _ ih =>
    obtain ⟨hp, hf⟩ := history_of_step? hm
    refine ⟨hp.trans ih.1, fun hn => ?_⟩
    exact (ih.2 fun m hm => hn m (List.mem_cons_of_mem _ hm)).trans (hf (hn _ List.mem_cons_self))

end System

end ServerRun.Run
