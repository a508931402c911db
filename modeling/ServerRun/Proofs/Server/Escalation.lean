import ServerRun.Proofs.Server.Once
import ServerRun.Proofs.Server.Trace

/-! How a stop escalates. It sends one signal after the other and waits the grace period after each,
until the child is dead or no signal is left. The way is cut short where the stop is cancelled on
it, and where a signal is denied: the signals that are left are then not sent at all. -/

namespace ServerRun.Server

def Act.signal? : Act → Option Signal
  | .signal x => some x
  | _ => none

/-- The signals that a turn sends. -/
def Turn.signals (t : Turn) : List Signal := t.acts.filterMap Act.signal?

/-- The turns of a stop with signals left that is not cancelled: all of them stay left, the next one
is sent and the child's death awaited, or the stop waits for the child's death no more, which is so
when the child is dead, no signal was left or the next one is denied. -/
inductive EscalationTurn (s : Server) (w : Surroundings) (left : List Signal) (t : Turn) : Prop
  | stays {p wait} (hp : p.left? = some left) (hs : t.signals = [])
      (ho : t.outcome = .paused p wait)
  | sends {signal rest previous} (effects : List Effect) (hl : left = signal :: rest)
      (hr : ∀ message, w.refusal signal ≠ some (.denied message)) (hs : t.signals = [signal])
      (he : t.effects = effects ++ [.signal signal])
      (ho : t.outcome = .paused (.awaitingDeath previous rest) (.exit (some s.grace)))
  | leaves (hd : s.exitCode? ≠ none ∨ left = []) (hs : t.signals = [])
      (ho : ∀ p wait, t.outcome = .paused p wait → p.left? = none)
  | denied {signal rest message} (hl : left = signal :: rest) (hd : s.exitCode? = none)
      (hr : w.refusal signal = some (.denied message)) (hs : t.signals = [signal])
      (ho : ∀ p wait, t.outcome = .paused p wait → p.left? = none)

section

variable {s v : Server} {w : Surroundings} {id : Nat} {t : Turn} {es : List Effect}
  {previous : State} {interrupted : Bool} {left : List Signal} {p : Point} {wait : Wait}

theorem signals_of_acts (h : t.acts = []) : t.signals = [] := by rw [Turn.signals, h]; rfl

theorem Point.left?_of_isActing (h : p.isActing = false) : p.left? = none := by
  cases p <;> simp_all [Point.isActing, Point.left?]

theorem signals_after (h : es.filterMap Effect.act? = []) : (t.after es).signals = t.signals := by
  simp [Turn.signals, h]

theorem EscalationTurn.after (h : EscalationTurn s w left t) (hs : es.filterMap Effect.act? = []) :
    EscalationTurn s w left (t.after es) := by
  have hsame : (t.after es).signals = t.signals := signals_after hs
  cases h with
  | stays hp hn ho => exact .stays hp (hsame.trans hn) ho
  | sends effects hl hr hn he ho =>
    refine .sends (es ++ effects) hl hr (hsame.trans hn) ?_ ho
    rw [Turn.after_effects, he, List.append_assoc]
  | leaves hd hn ho => exact .leaves hd (hsame.trans hn) ho
  | denied hl hd hr hn ho => exact .denied hl hd hr (hsame.trans hn) ho

theorem EscalationTurn.of_same (h : EscalationTurn v w left t) (hc : v.child = s.child)
    (hg : v.grace = s.grace) : EscalationTurn s w left t := by
  have hexit : v.exitCode? = s.exitCode? := by rw [exitCode?, hc, exitCode?]
  cases h with
  | stays hp hn ho => exact .stays hp hn ho
  | sends effects hl hr hn he ho => exact .sends effects hl hr hn he (hg ▸ ho)
  | leaves hd hn ho => exact .leaves (hexit ▸ hd) hn ho
  | denied hl hd hr hn ho => exact .denied hl (hexit ▸ hd) hr hn ho

theorem release_signals : (s.release previous interrupted).signals = [] := by
  simp only [release]
  split
  · rfl
  · exact signals_of_acts drain_acts

theorem release_left? (ho : (s.release previous interrupted).outcome = .paused p wait) :
    p.left? = none := by
  simp only [release] at ho
  split at ho
  · cases ho
    rfl
  · exact Point.left?_of_isActing (drain_isActing p wait ho)

theorem release_escalation (hd : s.exitCode? ≠ none ∨ left = []) :
    EscalationTurn s w left (s.release previous interrupted) :=
  .leaves hd release_signals fun _ _ => release_left?

theorem escalate_escalation : EscalationTurn s w left (s.escalate w previous left) := by
  cases left with
  | nil => exact (release_escalation (.inr rfl)).after rfl
  | cons signal left =>
    simp only [escalate]
    split
    · rename_i hd
      exact release_escalation (.inl (Option.isSome_iff_ne_none.mp hd))
    · rename_i hd
      split
      · rename_i message hr
        refine .denied rfl (by simpa using hd) hr ?_ fun _ _ => release_left?
        have hs : (s.giveUp previous message).signals = [] :=
          (signals_after rfl).trans release_signals
        rw [Turn.signals, acts_after, List.filterMap_append]
        exact congrArg ([signal] ++ ·) hs
      · rename_i hr
        exact .sends [] rfl (fun message h => hr message h) rfl rfl rfl

theorem nextTurn?_escalation {a : Answer} (hp : p.left? = some left) (ha : a ≠ .cancelled)
    (hx : ∀ code, a = .exited code → s.exitCode? ≠ none) (ht : s.nextTurn? w id p a = some t) :
    EscalationTurn s w left t := by
  cases p <;> simp [Point.left?] at hp <;> subst hp <;> cases a <;> simp [nextTurn?] at ht <;>
    subst ht
  case awaitingDeath.exited code => exact release_escalation (.inl (hx code rfl))
  case awaitingDeath.elapsed => exact escalate_escalation
  case askingShutdown.cancelled | awaitingDeath.cancelled => exact absurd rfl ha
  all_goals exact .stays rfl rfl rfl

/-- A stop that is cancelled on its way releases what the server holds. -/
theorem nextTurn?_cancelled_of_left (hp : p.left? ≠ none)
    (ht : s.nextTurn? w id p .cancelled = some t) : ∃ previous, t = s.release previous true := by
  cases p <;> simp [Point.left?] at hp <;> simp [nextTurn?] at ht
  · exact ⟨_, ht.symm⟩
  · exact ⟨_, ht.symm⟩

theorem firstTurn_stop_escalation (h : s.StopActs) :
    EscalationTurn s w [.terminate, .kill] (s.firstTurn w id .stop) := by
  rw [firstTurn_stop_eq h]
  refine EscalationTurn.after ?_ rfl
  split
  · exact .stays (p := .askingShutdown s.state) rfl rfl rfl
  · have hb : EscalationTurn s.stopBegun w [.terminate, .kill]
        (s.stopBegun.escalate w s.state [.terminate, .kill]) := escalate_escalation
    exact hb.of_same rfl rfl

/-- A call that does not begin to stop the server sends no signal, now or later. -/
theorem firstTurn_signals (id : Nat) {c : Call} (h : c = .stop → ¬ s.StopActs) :
    (s.firstTurn w id c).signals = [] ∧ (s.firstTurn w id c).server.stopping = s.stopping ∧
      ∀ p wait, (s.firstTurn w id c).outcome = .paused p wait → p.left? = none := by
  by_cases hc : c.concern = .stop
  · cases c <;> cases hc
    rw [firstTurn_stop_idle (h rfl)]
    exact ⟨rfl, rfl, fun p wait ho => absurd ho (finish_ends p wait)⟩
  · by_cases hs : c = .start ∧ s.state = .notStarted
    · obtain ⟨rfl, hs⟩ := hs
      obtain ⟨hv, ha, wait, ho⟩ := firstTurn_start hs w id
      refine ⟨by rw [Turn.signals, ha]; rfl, by rw [hv], fun p wait' ho' => ?_⟩
      rw [ho] at ho'
      cases ho'
      rfl
    · have hn : c = .start → s.state ≠ .notStarted := fun hcall hn => hs ⟨hcall, hn⟩
      obtain ⟨hk, hw⟩ := firstTurn_sameChild hc hn w id
      exact ⟨signals_of_acts (firstTurn_acts hc hn), hk.stopping,
        fun p wait ho => Point.left?_of_isActing (hw p wait ho)⟩

theorem nextTurn?_stopping {a : Answer} (ht : s.nextTurn? w id p a = some t) :
    t.server.stopping = s.stopping := by
  by_cases hc : p.concern = .stop
  · obtain ⟨previous, hp⟩ := Point.previous?_of_concern hc
    rcases nextTurn?_stop hp ht with ⟨interrupted, -, h⟩ | ⟨-, rfl⟩
    · exact (SameChild.of_stopTurn h).stopping
    · rfl
  · exact (nextTurn?_keeps hc ht).1.stopping

end

namespace System

variable {s u : System} {m : Move} {left : List Signal}

/-- The signals that were sent. -/
def signals (s : System) : List Signal := s.acts.filterMap Act.signal?

/-- No stop waits for the child's death, now or later. -/
def IsPast (s : System) : Prop := ∀ x ∈ s.waiting, x.point.left? = none

/-- A stop that was sending a signal waited for the child's death then, for the whole grace
period. -/
def WaitedOut (s : System) (x : Signal) : Prop :=
  ∃ id sent told, [(sent, .effect id (.signal x)), (sent, .waits id (.exit (some s.server.grace))),
    (told, .answered id .elapsed)] <:+: s.trace id ∧ s.server.grace.reachedBy (told - sent) = true

/-- What a move is for the escalation: nothing, a turn of the stop with signals left, or its
cancellation. -/
inductive EscalationMove (s : System) (m : Move) (u : System) : Prop
  | aside (hp : u.server.stopping = s.server.stopping) (hs : u.signals = s.signals)
      (hw : ∀ x, x.point.left? ≠ none → (x ∈ u.waiting ↔ x ∈ s.waiting))
  | turn (id : Nat) (left : List Signal) (t : Turn)
      (hb : s.server.stopping = true → ¬ s.IsPast) (hn : ∀ id, m ≠ .answer id .cancelled)
      (ht : EscalationTurn s.server s.surroundings left t)
      (hl : s.signals ++ left = [.terminate, .kill]) (hp : u.server.stopping = true)
      (hd : u.server.exitCode? = s.server.exitCode?) (hs : u.signals = s.signals ++ t.signals)
      (hw : ∀ x ∈ u.waiting, x.point.left? ≠ none → t.outcome = .paused x.point x.wait)
      (ho : ∀ p wait, t.outcome = .paused p wait → ∃ call, ⟨id, call, p, wait, s.now⟩ ∈ u.waiting)
      (hr : ∃ past, u.trace id = past ++ (t.events id).map fun e => (s.now, e))
  | cut (x : Waiting) (hm : m = .answer x.id .cancelled) (hx : x ∈ s.waiting)
      (hl : x.point.left? ≠ none) (hs : u.signals = s.signals)

theorem Point.isActing_of_left? {p : Point} (h : p.left? ≠ none) : p.isActing = true := by
  cases hp : p.left? with
  | none => exact absurd hp h
  | some left => simp [Point.isActing, hp]

theorem filterMap_signal? (sent : List Signal) :
    (sent.map Act.signal).filterMap Act.signal? = sent := by
  simp [List.filterMap_map, Function.comp_def, Act.signal?]

theorem mem_acting {x : Waiting} (hx : x ∈ s.waiting) (hl : x.point.left? ≠ none) : x ∈ s.acting :=
  List.mem_filter.mpr ⟨hx, Point.isActing_of_left? hl⟩

/-- The signals that were sent and those that are left to a stop are all there are. -/
theorem Stage.of_left (h : Stage s) {x : Waiting} (hx : x ∈ s.waiting)
    (hl : x.point.left? = some left) :
    s.server.stopping = true ∧ s.signals ++ left = [.terminate, .kill] ∧ s.acting = [x] := by
  have hx := mem_acting hx (by simp [hl])
  cases h with
  | fresh hc hp hw | running hf hc hp hw => simp [hw] at hx
  | launching hf hc hp hw =>
    rcases hw with hw | ⟨y, hw, hy⟩
    · simp [hw] at hx
    · rw [hw, List.mem_singleton] at hx
      simp [hx, hy, Point.left?] at hl
  | stopping asked sent closes hf hc hp hk hcl hs hw ha =>
    rcases hw with hw | ⟨-, y, left', hw, hy, hall⟩
    · simp [hw] at hx
    · rw [hw, List.mem_singleton] at hx
      subst hx
      rw [hl, Option.some.injEq] at hy
      subst hy
      have hasked : asked.filterMap Act.signal? = [] :=
        List.filterMap_eq_nil_iff.mpr fun a ha => by
          rw [List.mem_singleton.mp (hk.subset ha)]
          rfl
      have hcloses : closes.filterMap Act.signal? = [] :=
        List.filterMap_eq_nil_iff.mpr fun a ha => by
          rw [List.mem_singleton.mp (hcl.subset ha)]
          rfl
      refine ⟨hp, ?_, hw⟩
      rw [signals, ha]
      simp only [List.filterMap_append, hasked, hcloses, filterMap_signal?, List.append_nil]
      exact hall

theorem Stage.signals_of_stopActs (h : Stage s) (hb : s.server.StopActs) : s.signals = [] := by
  rw [signals, (h.of_stopActs hb).2.2]
  rfl

theorem isPast_of_acting (h : s.acting = []) : s.IsPast := by
  intro x hx
  refine Classical.byContradiction fun hl => ?_
  have hmem := mem_acting hx hl
  simp [h] at hmem

theorem escalationMove_of_call (h : Stage s) {id : Nat} {call : Call} :
    EscalationMove s (.call id call)
      (({ s with begun := id :: s.begun }.record (.began id call)).take id call
        (s.server.firstTurn s.surroundings id call)) := by
  by_cases hb : call = .stop ∧ s.server.StopActs
  · obtain ⟨rfl, hb⟩ := hb
    have hnone := isPast_of_acting (h.of_stopActs hb).2.1
    have hk : SameChild s.server.stopBegun (s.server.firstTurn s.surroundings id .stop).server :=
      .of_stopTurn (firstTurn_stop hb)
    refine .turn id [.terminate, .kill] (s.server.firstTurn s.surroundings id .stop)
      (fun hp => by simp [hb.2.2.2.1] at hp) (by simp) (firstTurn_stop_escalation hb)
      (by rw [h.signals_of_stopActs hb]; rfl) ?_ ?_ ?_ ?_ ?_ ⟨_, trace_take⟩
    · rw [take_server]
      exact hk.stopping
    · rw [take_server, exitCode?, hk.child]
      rfl
    · rw [signals, acts_call, List.filterMap_append]
      rfl
    · intro x hx hl
      rw [take_waiting, List.mem_append] at hx
      exact (mem_waitAfter (hx.resolve_left fun hx => hl (hnone x hx))).1
    · intro p wait ho
      exact ⟨.stop, by simp [waitAfter, ho]⟩
  · obtain ⟨hs, hp, ho⟩ := firstTurn_signals (w := s.surroundings) id fun hcall ha =>
      hb ⟨hcall, ha⟩
    refine .aside ?_ ?_ fun x hl => ?_
    · rw [take_server]
      exact hp
    · rw [signals, acts_call, List.filterMap_append]
      exact (congrArg (s.signals ++ ·) hs).trans (List.append_nil _)
    · rw [take_waiting, List.mem_append]
      exact ⟨fun hx => hx.resolve_right fun hx => hl (ho _ _ (mem_waitAfter hx).1), .inl⟩

theorem signals_answer {id : Nat} {call : Call} {a : Answer} {t : Turn} :
    (({ s with waiting := s.waiting.filter (·.id != id) }.record (.answered id a)).take id
      call t).signals = s.signals ++ t.signals := by
  rw [signals, acts_answer, List.filterMap_append, List.filterMap_append]
  cases a <;> rfl

theorem escalationMove_of_answer (hr : Registered s) (h : Stage s) {a : Answer} {t : Turn}
    {x : Waiting} (hx : x ∈ s.waiting) (ha : s.admits x a = true)
    (ht : s.server.nextTurn? s.surroundings x.id x.point a = some t) :
    EscalationMove s (.answer x.id a)
      (({ s with waiting := s.waiting.filter (·.id != x.id) }.record (.answered x.id a)).take x.id
        x.call t) := by
  cases hl : x.point.left? with
  | none =>
    refine .aside ?_ ?_ fun y hy => ?_
    · rw [take_server]
      exact nextTurn?_stopping ht
    · rw [signals_answer, signals_of_acts (nextTurn?_acts hl ht), List.append_nil]
    · have hne (hmem : y ∈ s.waiting) : y.id ≠ x.id := by
        intro hi
        rw [hr.eq_of_id hmem hx hi] at hy
        exact hy hl
      rw [take_waiting, List.mem_append, record_waiting, List.mem_filter]
      constructor
      · rintro (hmem | hmem)
        · exact hmem.1
        · have hacting := nextTurn?_isActing hl ht (mem_waitAfter hmem).1
          exact absurd (Point.left?_of_isActing hacting) hy
      · exact fun hmem => .inl ⟨hmem, by simpa using hne hmem⟩
  | some left =>
    by_cases hc : a = .cancelled
    · subst hc
      refine .cut x rfl hx (by simp [hl]) ?_
      obtain ⟨previous, rfl⟩ := nextTurn?_cancelled_of_left (by simp [hl]) ht
      rw [signals_answer, release_signals, List.append_nil]
    · obtain ⟨hstopping, hall, hacting⟩ := h.of_left hx hl
      have hlaunch : x.point ≠ .launching := fun hp => by simp [hp, Point.left?] at hl
      have hk : SameChild s.server t.server := nextTurn?_sameChild hlaunch ht
      refine .turn x.id left t (fun _ hpast => by simp [hpast x hx] at hl)
        (fun y hy => hc (Move.answer.inj hy).2) (nextTurn?_escalation hl hc ?_ ht) hall ?_ ?_
        signals_answer ?_ ?_ ⟨_, trace_take⟩
      · rintro code rfl
        have hcode : s.server.exitCode? = some code := by simpa [admits] using ha
        simp [hcode]
      · rw [take_server, hk.stopping]
        exact hstopping
      · rw [take_server, exitCode?, hk.child, exitCode?]
      · intro y hy hyl
        rw [take_waiting, List.mem_append, record_waiting, List.mem_filter] at hy
        refine (mem_waitAfter (hy.resolve_left fun hold => ?_)).1
        have hmem := mem_acting hold.1 hyl
        rw [hacting, List.mem_singleton] at hmem
        simp [hmem] at hold
      · intro p wait ho
        exact ⟨x.call, by simp [waitAfter, ho]⟩

theorem escalationMove_of_step? (hr : Registered s) (h : Stage s) (hm : s.step? m = some u) :
    EscalationMove s m u := by
  cases stepped_of_step? hm with
  | call id call hn => exact escalationMove_of_call h
  | answer id a t x hx ha ht =>
    obtain rfl : x.id = id := by simpa using List.find?_some hx
    exact escalationMove_of_answer hr h (List.mem_of_find?_eq_some hx) ha ht
  | exit code hc he =>
    refine .aside rfl ?_ fun x _ => .rfl
    simp [signals, acts, Event.act?]
  | time m hm hc now refusal => exact .aside rfl rfl fun x _ => .rfl

end System

end ServerRun.Server
