import ServerRun.Proofs.Server.Act
import ServerRun.Proofs.Server.Life
import ServerRun.Proofs.Server.Serial

/-! What a start makes of a child that dies. Once the child is dead, a start that waits ends with at
most two more answers: it tells the exit code of the child, or that the time was over, and the
server has failed. All runs without a stop are like this but those in which the answer that the
server is running comes when the child is dead: the exit code is looked at before each question and
not again after the answer. -/

namespace ServerRun.Server

/-- The answers of the client, or of the clock, to a start that waits for the server. -/
def Answer.isReading : Answer → Bool
  | .state _ | .elapsed | .failed (.timedOut _) => true
  | _ => false

/-- The ends of a start that do not hide the death of the child: its exit code is told, or that the
time was over. -/
inductive TellsDeath (code : Int) : Except Failure (Option Int) → Prop
  | exited : TellsDeath code (.error (.run (.exited (some code))))
  | late (elapsed limit : Number) :
      TellsDeath code (.error (.run (.startupTimeout elapsed limit)))

/-- How many answers a start takes, at most, that waits at a point when the child is dead. -/
def Point.answersLeft : Point → Nat
  | .sleeping _ => 1
  | _ => 2

/-- A turn of a start whose child is dead: it sleeps once more, or ends. -/
inductive DeadTurn (s : Server) (code : Int) (p : Point) (t : Turn) : Prop
  | sleeps {since since' wait} (hp : p = .readingState since)
      (ho : t.outcome = .paused (.sleeping since') wait) (hs : t.server = s)
  | ends {f} (ho : t.outcome = .raised f) (hs : t.server.state = .failed)
      (hf : TellsDeath code (.error f))

section

variable {s : Server} {w : Surroundings} {id : Nat} {t : Turn} {code : Int}

theorem sleepOrGiveUp_dead (since : Seconds) {p : Point} (hp : p = .readingState since) :
    DeadTurn s code p (s.sleepOrGiveUp w since) := by
  simp only [sleepOrGiveUp]
  split
  · exact .ends rfl rfl (.late _ _)
  · exact .sleeps hp rfl rfl

/-- Only the answer that the server is running makes a start forget that the child is dead. -/
theorem nextTurn?_dead {p : Point} {a : Answer} (hp : p.concern = .startup) (hl : p ≠ .launching)
    (hs : s.state = .starting) (hc : s.exitCode? = some code) (ha : a.isReading = true)
    (hr : ∀ since, p = .readingState since → a ≠ .state (some "running"))
    (ht : s.nextTurn? w id p a = some t) : DeadTurn s code p t := by
  cases p <;> simp [Point.concern] at hp hl <;> cases a <;> simp [Answer.isReading] at ha <;>
    simp [nextTurn?] at ht <;> subst ht
  case readingState.state since value =>
    have hv : value ≠ some "running" := fun hv => hr since rfl (by rw [hv])
    rw [stateRead, if_neg hv]
    exact sleepOrGiveUp_dead since rfl
  case readingState.elapsed since =>
    rw [stateRead, if_neg (by simp)]
    exact sleepOrGiveUp_dead since rfl
  case readingState.failed since f =>
    obtain ⟨message, rfl⟩ : ∃ message, f = .timedOut message := by
      cases f <;> simp at ha
      exact ⟨_, rfl⟩
    rw [stateFailed, stateRead, if_neg (by simp)]
    exact sleepOrGiveUp_dead since rfl
  case sleeping.elapsed since =>
    simp only [look, hs, hc, ne_eq, not_true_eq_false, ite_false]
    exact .ends rfl rfl .exited

/-- A start returns only where the answer is that the server is running. -/
theorem nextTurn?_returned {p : Point} {a : Answer} {c : Option Int} (hp : p.concern = .startup)
    (ht : s.nextTurn? w id p a = some t) (ho : t.outcome = .returned c) :
    (∃ since, p = .readingState since) ∧ a = .state (some "running") ∧
      t.server.exitCode? = s.exitCode? := by
  have look {v : Server} {since : Seconds} : (v.look w since).outcome ≠ .returned c := by
    unfold look
    split
    · exact fun h => by cases h
    · split <;> exact fun h => by cases h
  have giveUp {since : Seconds} : (s.sleepOrGiveUp w since).outcome ≠ .returned c := by
    simp only [sleepOrGiveUp]
    split <;> exact fun h => by cases h
  cases p <;> simp [Point.concern] at hp <;> cases a <;> simp [nextTurn?] at ht <;> subst ht
  case launching.launched pid client =>
    cases client with
    | none => exact absurd ho look
    | some f => cases ho
  case launching.failed f =>
    rcases s.launchFailed_cases f with ⟨_, -, h⟩ | ⟨-, h⟩ <;> rw [h] at ho <;> cases ho
  case readingState.state since value =>
    by_cases hv : value = some "running"
    · refine ⟨⟨since, rfl⟩, by rw [hv], ?_⟩
      rw [stateRead, if_pos hv]
      rfl
    · rw [stateRead, if_neg hv] at ho
      exact absurd ho giveUp
  case readingState.elapsed since =>
    rw [stateRead, if_neg (by simp)] at ho
    exact absurd ho giveUp
  case readingState.failed since f =>
    rcases s.stateFailed_cases w since f with ⟨_, -, h⟩ | ⟨-, h⟩ <;> rw [h] at ho
    · rw [stateRead, if_neg (by simp)] at ho
      exact absurd ho giveUp
    · cases ho
  case sleeping.elapsed since => exact absurd ho look
  all_goals cases ho

theorem start_not_returned (c : Option Int) : s.start.outcome ≠ .returned c := by
  unfold start
  split <;> exact fun h => by cases h

theorem Keeps.unstopped {v : Server} (h : Keeps s v)
    (hs : s.state ≠ .stopping ∧ s.state ≠ .stopped) : v.state ≠ .stopping ∧ v.state ≠ .stopped := by
  rcases h.state with hv | hv | hv | hv
  · rwa [hv]
  all_goals simp [hv]

theorem SameChild.exitCode? {v : Server} (h : SameChild s v) : v.exitCode? = s.exitCode? := by
  rw [Server.exitCode?, h.child]
  rfl

end

theorem ended_mem_events {i id : Nat} {t : Turn} {r : Except Failure (Option Int)} :
    .ended i r ∈ t.events id ↔ t.outcome.event id = .ended i r := by
  simp [Turn.events, eq_comm]

theorem Outcome.event_ended {i id : Nat} {o : Outcome} {r : Except Failure (Option Int)}
    (h : o.event id = .ended i r) : i = id ∧ ∀ p w, o ≠ .paused p w := by
  cases o <;> cases h <;> exact ⟨rfl, fun _ _ ho => Outcome.noConfusion ho⟩

/-- The call whose end tells an exit code, and that code. -/
def Event.toldExit? : Event → Option (Nat × Int)
  | .ended i (.error (.run (.exited (some code)))) => some (i, code)
  | _ => none

theorem eq_of_toldExit? {e : Event} {i : Nat} {code : Int} (h : e.toldExit? = some (i, code)) :
    e = .ended i (.error (.run (.exited (some code)))) := by
  unfold Event.toldExit? at h
  split at h <;> cases h
  rfl

def Move.answers (id : Nat) : Move → Bool
  | .answer i _ => i == id
  | _ => false

namespace System

variable {s u : System} {m : Move} {id : Nat}

/-- A start hears that the server is running when the child is dead. -/
def IsPosthumous (s : System) (m : Move) : Prop :=
  ∃ id x since, m = .answer id (.state (some "running")) ∧
    s.waiting.find? (·.id == id) = some x ∧ x.point = .readingState since ∧
    s.server.exitCode? ≠ none

/-- The child of a start that has just returned is alive. -/
def ReturnsAlive (s : System) : Prop :=
  ∀ id code, .began id .start ∈ s.events → s.events.getLast? = some (.ended id (.ok code)) →
    s.server.exitCode? = none

/-- A run in which no start reports success for a dead child: the child of a start that has just
returned is alive, and a start that waits when the child is dead ends with at most two more answers,
telling of it, and leaves a server that has failed. -/
structure Truthful (s : System) (ms : List Move) : Prop where
  alive : ∀ before after t, ms = before ++ after → Leads step? s before t → t.ReturnsAlive
  dead : ∀ before between after t u x code, ms = before ++ between ++ after →
    Leads step? s before t → Leads step? t between u → x ∈ t.waiting → x.call = .start →
    t.server.exitCode? = some code → (∀ a, .answer x.id a ∈ between → a.isReading = true) →
    (∀ result, .ended x.id result ∈ u.events →
      TellsDeath code result ∧ u.server.state = .failed) ∧
    (2 ≤ between.countP (·.answers x.id) → ∃ result, .ended x.id result ∈ u.events)

/-! ### runs without a stop -/

/-- What a system keeps to as long as no call stops the server. -/
structure Unstopped (s : System) : Prop where
  registered : Registered s
  orderly : Orderly s
  told : Told s
  state : s.server.state ≠ .stopping ∧ s.server.state ≠ .stopped
  apart : ∀ x ∈ s.waiting, x.call.concern ≠ .stop
  past : ∀ i r, .ended i r ∈ s.events → i ∈ s.begun ∧ ∀ x ∈ s.waiting, x.id ≠ i

theorem unstopped_ofServer (info : Installation) (poll : Seconds) (grace : Span)
    (rounding : Seconds → Seconds) : Unstopped (.ofServer { info, poll, grace, rounding }) where
  registered := registered_ofServer _
  orderly := orderly_ofServer ..
  told := told_ofServer _
  state := by simp [ofServer]
  apart x hx := by cases hx
  past i r h := by cases h

theorem Unstopped.starting (h : Unstopped s) {x : Waiting} (hx : x ∈ s.waiting)
    (hc : x.point.concern = .startup) : s.server.state = .starting := by
  rcases h.orderly.starting x hx hc with hs | hs | hs
  · exact hs
  · exact absurd hs h.state.1
  · exact absurd hs h.state.2

theorem Unstopped.concern (h : Unstopped s) {x : Waiting} (hx : x ∈ s.waiting)
    (hc : x.call = .start) : x.point.concern = .startup := by
  rw [h.registered.concern x hx, hc]
  rfl

theorem Unstopped.not_isLate (h : Unstopped s) (m : Move) : ¬ s.IsLate m := by
  rintro ⟨id, a, x, since, -, hx, hp, -, hs⟩
  exact hs (h.starting (List.mem_of_find?_eq_some hx) (by rw [hp]; rfl))

/-- A call that has ended neither waits nor begins again. -/
theorem over_of_turn (call : Call) {t : Turn} {e : Event}
    (h : ∀ i r, .ended i r ∈ s.events → i ∈ s.begun ∧ ∀ x ∈ s.waiting, x.id ≠ i)
    (hid : ∀ r, .ended id r ∉ s.events) (hi : id ∈ u.begun) (hb : ∀ i ∈ s.begun, i ∈ u.begun)
    (he : u.events = s.events ++ e :: t.events id) (hn : ∀ i r, e ≠ .ended i r)
    (hw : ∀ x ∈ u.waiting, x ∈ s.waiting ∧ x.id ≠ id ∨ x ∈ waitAfter s.now id call t) :
    ∀ i r, .ended i r ∈ u.events → i ∈ u.begun ∧ ∀ x ∈ u.waiting, x.id ≠ i := by
  intro i r hr
  rw [he, List.mem_append, List.mem_cons, ended_mem_events] at hr
  rcases hr with hr | hr | hr
  · obtain ⟨hib, hiw⟩ := h i r hr
    refine ⟨hb i hib, fun x hx => ?_⟩
    rcases hw x hx with ⟨hx, -⟩ | hx
    · exact hiw x hx
    · rw [(mem_waitAfter hx).2]
      exact fun hii => hid r (hii ▸ hr)
  · exact absurd hr.symm (hn i r)
  · obtain ⟨rfl, ho⟩ := Outcome.event_ended hr
    refine ⟨hi, fun x hx => ?_⟩
    rcases hw x hx with ⟨-, hx⟩ | hx
    · exact hx
    · exact absurd (mem_waitAfter hx).1 (ho _ _)

theorem Unstopped.of_step? (h : Unstopped s) (hm : s.step? m = some u)
    (hn : ∀ id, m ≠ .call id .stop) : Unstopped u := by
  have hreg := h.registered.of_step? hm
  have hord := (h.orderly.of_step? hm (h.not_isLate m)).1
  have htold := h.told.of_step? h.registered hm
  cases stepped_of_step? hm with
  | call id call hb =>
    have hc : call.concern ≠ .stop := by
      cases call <;> simp [Call.concern]
      exact hn id rfl
    have hk : Keeps s.server (s.server.firstTurn s.surroundings id call).server :=
      (firstTurn_keeps hc).1
    refine ⟨hreg, hord, htold, ?_, fun x hx => ?_, ?_⟩
    · rw [take_server]
      exact hk.unstopped h.state
    · rw [take_waiting, List.mem_append] at hx
      rcases hx with hx | hx
      · exact h.apart x hx
      · rw [(waitAfter_of_mem hx).2]
        exact hc
    · refine over_of_turn call h.past (fun r hr => hb (h.past id r hr).1) ?_ ?_
        (by rw [take_events, record_events, events_mk, List.append_assoc]; rfl) (by simp)
        fun x hx => ?_
      · simp
      · exact fun i hi => by simp [hi]
      · rw [take_waiting, List.mem_append] at hx
        exact hx.imp_left fun hx => ⟨hx, fun hi => hb (hi ▸ h.registered.known x hx)⟩
  | answer id a t x hx ha ht =>
    have hmem : x ∈ s.waiting := List.mem_of_find?_eq_some hx
    have hid : x.id = id := by simpa using List.find?_some hx
    have hc : x.point.concern ≠ .stop := by
      rw [h.registered.concern x hmem]
      exact h.apart x hmem
    obtain ⟨hk, -⟩ := nextTurn?_keeps hc ht
    refine ⟨hreg, hord, htold, ?_, fun y hy => ?_, ?_⟩
    · rw [take_server]
      exact hk.unstopped h.state
    · rw [take_waiting, List.mem_append] at hy
      rcases hy with hy | hy
      · exact h.apart y (List.mem_filter.mp hy).1
      · rw [(waitAfter_of_mem hy).2]
        exact h.apart x hmem
    · refine over_of_turn x.call h.past (fun r hr => (h.past id r hr).2 x hmem hid) ?_ ?_
        (by rw [take_events, record_events, events_mk, List.append_assoc]; rfl) (by simp)
        fun y hy => ?_
      · rw [take_begun]
        exact hid ▸ h.registered.known x hmem
      · exact fun i hi => by rwa [take_begun]
      · rw [take_waiting, List.mem_append] at hy
        exact hy.imp_left fun hy => by simpa using hy
  | exit code hc he =>
    refine ⟨hreg, hord, htold, h.state, h.apart, fun i r hr => ?_⟩
    rw [record_events, List.mem_append] at hr
    exact h.past i r (hr.resolve_right (by simp))
  | time m hm hc now refusal => exact ⟨hreg, hord, htold, h.state, h.apart, h.past⟩

theorem Unstopped.exitCode?_of_step? (h : Unstopped s) (hm : s.step? m = some u)
    (hn : ∀ id, m ≠ .call id .stop) {code : Int} (hc : s.server.exitCode? = some code) :
    u.server.exitCode? = some code := by
  have hchild : s.server.child ≠ none := child_of_exitCode? (by simp [hc])
  cases stepped_of_step? hm with
  | call id call hb =>
    have hstop : call.concern ≠ .stop := by
      cases call <;> simp [Call.concern]
      exact hn id rfl
    obtain ⟨hk, -⟩ := firstTurn_sameChild (s := s.server) hstop
      (fun _ hs => hchild (h.orderly.fresh hs)) s.surroundings id
    rw [take_server, hk.exitCode?, hc]
  | answer id a t x hx ha ht =>
    have hp : x.point ≠ .launching := fun hp =>
      hchild (h.orderly.launching x (List.mem_of_find?_eq_some hx) hp).2
    rw [take_server, (nextTurn?_sameChild hp ht).exitCode?, hc]
  | exit _ _ he => simp [hc] at he
  | time => exact hc

theorem Unstopped.ended_of_step? (h : Unstopped s) (hm : s.step? m = some u)
    {i : Nat} (hi : ∃ r, .ended i r ∈ s.events) (r : Except Failure (Option Int)) :
    .ended i r ∈ u.events ↔ .ended i r ∈ s.events := by
  obtain ⟨r₀, hi⟩ := hi
  obtain ⟨hb, hw⟩ := h.past i r₀ hi
  have other {id : Nat} {t : Turn} (hid : id ≠ i) : .ended i r ∉ t.events id := by
    rw [ended_mem_events]
    exact fun ho => hid (Outcome.event_ended ho).1.symm
  cases stepped_of_step? hm with
  | call id call hn =>
    have hid : id ≠ i := fun hid => hn (hid ▸ hb)
    simp [other hid]
  | answer id a t x hx ha ht =>
    have hid : id ≠ i := by
      have hx' : x.id = id := by simpa using List.find?_some hx
      exact hx' ▸ hw x (List.mem_of_find?_eq_some hx)
    simp [other hid]
  | exit => simp
  | time => rfl

/-- A start that has told of the child's death leaves it at that. -/
theorem Unstopped.failed_of_leads {ms : List Move} (h : Unstopped s) (hl : Leads step? s ms u)
    (hn : ∀ id, .call id .stop ∉ ms) {i : Nat} {r₀ : Except Failure (Option Int)}
    (hi : .ended i r₀ ∈ s.events) (hs : s.server.state = .failed) :
    (∀ r, .ended i r ∈ u.events ↔ .ended i r ∈ s.events) ∧ u.server.state = .failed := by
  induction hl with
  | refl => exact ⟨fun r => .rfl, hs⟩
  | step hm hr ih =>
    have hm' : ∀ id, _ ≠ Move.call id .stop := fun id he => hn id (he ▸ List.mem_cons_self)
    have hevents := h.ended_of_step? hm ⟨r₀, hi⟩
    obtain ⟨-, hstep⟩ := h.orderly.of_step? hm (h.not_isLate _)
    obtain ⟨hu, hf⟩ := ih (h.of_step? hm hm') (fun id hc => hn id (List.mem_cons_of_mem _ hc))
      ((hevents r₀).mpr hi) (by rw [hs] at hstep; exact hstep.failed)
    exact ⟨fun r => (hu r).trans (hevents r), hf⟩

/-- What a move comes to for a start that waits when the child is dead: it waits on as before, it
was answered and sleeps once more, or it has told of the death. -/
inductive DeadMove (m : Move) (u : System) (x : Waiting) (code : Int) : Prop
  | stays (hx : x ∈ u.waiting) (hm : m.answers x.id = false)
  | sleeps (y : Waiting) (hy : y ∈ u.waiting) (hi : y.id = x.id) (hc : y.call = x.call)
      (hl : y.point.answersLeft < x.point.answersLeft)
  | ends {f} (he : .ended x.id (.error f) ∈ u.events)
      (ho : ∀ r, .ended x.id r ∈ u.events → r = .error f) (hf : TellsDeath code (.error f))
      (hs : u.server.state = .failed)

theorem Unstopped.dead_step (h : Unstopped s) (hm : s.step? m = some u) (hp : ¬ s.IsPosthumous m)
    {x : Waiting} (hx : x ∈ s.waiting) (hcall : x.call = .start) {code : Int}
    (hc : s.server.exitCode? = some code) (ha : ∀ a, m = .answer x.id a → a.isReading = true) :
    DeadMove m u x code := by
  have hconcern := h.concern hx hcall
  have hlaunch : x.point ≠ .launching := fun hl =>
    child_of_exitCode? (by simp [hc]) (h.orderly.launching x hx hl).2
  cases stepped_of_step? hm with
  | call id call hb =>
    refine .stays ?_ rfl
    rw [take_waiting]
    exact List.mem_append_left _ hx
  | exit => exact .stays hx rfl
  | time m hma =>
    refine .stays hx ?_
    cases m with
    | answer id a => exact absurd rfl (hma id a)
    | _ => rfl
  | answer id a t y hy haa ht =>
    have hyid : y.id = id := by simpa using List.find?_some hy
    by_cases hid : id = x.id
    · subst hid
      obtain rfl : y = x := h.registered.eq_of_id (List.mem_of_find?_eq_some hy) hx hyid
      have hrunning : ∀ since, y.point = .readingState since → a ≠ .state (some "running") :=
        fun since hpoint hrun => hp ⟨y.id, y, since, by rw [hrun], hy, hpoint, by simp [hc]⟩
      cases nextTurn?_dead hconcern hlaunch (h.starting hx hconcern) hc (ha a rfl) hrunning ht with
      | @sleeps since since' wait hpoint ho hs =>
        refine .sleeps ⟨y.id, y.call, .sleeping since', wait, s.now⟩ ?_ rfl rfl ?_
        · simp [waitAfter, ho]
        · simp [hpoint, Point.answersLeft]
      | @ends f ho hs hf =>
        have hevent : t.outcome.event y.id = .ended y.id (.error f) := by rw [ho]; rfl
        refine .ends (f := f) ?_ (fun r hr => ?_) hf (by rw [take_server, hs])
        · rw [take_events, List.mem_append, ended_mem_events]
          exact .inr hevent
        · rw [take_events, record_events, events_mk, List.mem_append, List.mem_append,
            ended_mem_events, hevent] at hr
          rcases hr with (hr | hr) | hr
          · exact absurd rfl ((h.past _ r hr).2 y hx)
          · simp at hr
          · simpa using hr.symm
    · refine .stays ?_ (by simpa [Move.answers] using hid)
      rw [take_waiting]
      exact List.mem_append_left _ (by simpa [hx] using Ne.symm hid)

/-- A start that waits when the child is dead tells of it, with at most as many answers as are left
at its point: each of them leaves fewer, or ends it. -/
theorem Unstopped.tells_of_leads {ms : List Move} (h : Unstopped s) (hl : Leads step? s ms u)
    (hn : ∀ id, .call id .stop ∉ ms)
    (hp : ∀ t m v, Makes step? s ms t m v → ¬ t.IsPosthumous m)
    {x : Waiting} (hx : x ∈ s.waiting) (hcall : x.call = .start) {code : Int}
    (hc : s.server.exitCode? = some code)
    (ha : ∀ a, .answer x.id a ∈ ms → a.isReading = true) :
    (∀ result, .ended x.id result ∈ u.events →
      TellsDeath code result ∧ u.server.state = .failed) ∧
    (x.point.answersLeft ≤ ms.countP (·.answers x.id) →
      ∃ result, .ended x.id result ∈ u.events) := by
  induction hl generalizing x with
  | refl s =>
    refine ⟨fun r hr => absurd rfl ((h.past _ r hr).2 x hx), fun hle => ?_⟩
    cases hpoint : x.point <;> simp [hpoint, Point.answersLeft] at hle
  | @step s t u m ms hm hr ih =>
    have hm' : ∀ id, m ≠ .call id .stop := fun id he => hn id (he ▸ List.mem_cons_self)
    have hn' : ∀ id, .call id .stop ∉ ms := fun id hc => hn id (List.mem_cons_of_mem _ hc)
    have ht := h.of_step? hm hm'
    have ih {y : Waiting} (hy : y ∈ t.waiting) (hycall : y.call = .start) (hyi : y.id = x.id) :=
      ih ht hn' (fun v n w hv => hp v n w (hv.cons hm)) hy hycall
        (h.exitCode?_of_step? hm hm' hc) fun a ham => ha a (List.mem_cons_of_mem _ (hyi ▸ ham))
    cases h.dead_step hm (hp _ _ _ (.first hm)) hx hcall hc
      (fun a he => ha a (he ▸ List.mem_cons_self)) with
    | stays hxt hans =>
      rw [List.countP_cons_of_neg (by simp [hans])]
      exact ih hxt hcall rfl
    | sleeps y hy hi hyc hlt =>
      obtain ⟨hsafe, hends⟩ := ih hy (hyc.trans hcall) hi
      rw [hi] at hsafe hends
      refine ⟨hsafe, fun hle => hends ?_⟩
      have : (m :: ms).countP (·.answers x.id) ≤ ms.countP (·.answers x.id) + 1 := by
        rw [List.countP_cons]
        split <;> omega
      omega
    | ends he ho hf hs =>
      obtain ⟨hevents, hfailed⟩ := ht.failed_of_leads hr hn' he hs
      refine ⟨fun r hr => ⟨?_, hfailed⟩, fun _ => ⟨_, (hevents _).mpr he⟩⟩
      rw [ho r ((hevents r).mp hr)]
      exact hf

theorem getLast?_take {call : Call} {t : Turn} :
    (s.take id call t).events.getLast? = some (t.outcome.event id) := by
  rw [take_events, Turn.events, ← List.append_assoc, List.getLast?_concat]

/-- A start returns with a living child, unless the answer comes when the child is dead. -/
theorem Unstopped.returnsAlive_of_step? (h : Unstopped s) (hm : s.step? m = some u)
    (hp : ¬ s.IsPosthumous m) (hs : s.ReturnsAlive) : u.ReturnsAlive := by
  intro i code hb hlast
  cases stepped_of_step? hm with
  | exit => simp at hlast
  | time => exact hs i code hb hlast
  | call id call hn =>
    rw [getLast?_take, Option.some.injEq] at hlast
    obtain ⟨rfl, -⟩ := Outcome.event_ended hlast
    have hcall : call = .start := by
      rw [take_events, record_events, List.mem_append, List.mem_append, List.mem_singleton] at hb
      rcases hb with (hb | hb) | hb
      · exact absurd (h.told.begun _ _ hb) hn
      · exact (Event.began.inj hb).2.symm
      · exact absurd hb began_notMem_events
    subst hcall
    cases ho : (s.server.firstTurn s.surroundings i .start).outcome with
    | returned c => exact absurd ho (start_not_returned c)
    | paused p w => simp [ho, Outcome.event] at hlast
    | raised f => simp [ho, Outcome.event] at hlast
  | answer id a t x hx ha ht =>
    have hmem : x ∈ s.waiting := List.mem_of_find?_eq_some hx
    have hid : x.id = id := by simpa using List.find?_some hx
    rw [getLast?_take, Option.some.injEq] at hlast
    obtain ⟨rfl, -⟩ := Outcome.event_ended hlast
    have hcall : x.call = .start := by
      rw [take_events, record_events, List.mem_append, List.mem_append, List.mem_singleton] at hb
      rcases hb with (hb | hb) | hb
      · exact (h.told.same x hmem _ (hid ▸ hb)).symm
      · cases hb
      · exact absurd hb began_notMem_events
    cases ho : t.outcome with
    | returned c =>
      obtain ⟨⟨since, hpoint⟩, rfl, hc⟩ := nextTurn?_returned (h.concern hmem hcall) ht ho
      rw [take_server, hc]
      exact Classical.byContradiction fun hn => hp ⟨i, x, since, rfl, hx, hpoint, hn⟩
    | paused p w => simp [ho, Outcome.event] at hlast
    | raised f => simp [ho, Outcome.event] at hlast

/-- An answer that the server is running, when the child is dead, lets the start return. -/
theorem Unstopped.returned_of_isPosthumous (h : Unstopped s) (hm : s.step? m = some u)
    (hp : s.IsPosthumous m) : ∃ x ∈ s.waiting, ∃ code, x.call = .start ∧
      m = .answer x.id (.state (some "running")) ∧ s.server.exitCode? = some code ∧
      .ended x.id (.ok none) ∈ u.events := by
  obtain ⟨id, x, since, rfl, hx, hpoint, hc⟩ := hp
  obtain ⟨code, hc⟩ := Option.ne_none_iff_exists'.mp hc
  have hmem : x ∈ s.waiting := List.mem_of_find?_eq_some hx
  have hid : x.id = id := by simpa using List.find?_some hx
  have hcall : x.call = .start := by
    have hconcern := h.registered.concern x hmem
    rw [hpoint] at hconcern
    cases hx' : x.call <;> simp [hx', Point.concern, Call.concern] at hconcern
    rfl
  refine ⟨x, hmem, code, hcall, by rw [hid], hc, ?_⟩
  cases stepped_of_step? hm with
  | time _ hn => exact absurd rfl (hn _ _)
  | answer _ _ t y hy ha ht =>
    rw [hx, Option.some.injEq] at hy
    subst hy
    rw [hpoint] at ht
    simp only [nextTurn?, stateRead, ite_true, Option.some.injEq] at ht
    rw [take_events, hid, List.mem_append, ended_mem_events, ← ht]
    exact .inr rfl

/-- Without a stop, no start of a server reports success for a dead child exactly if no start hears
that the server is running when the child is dead. -/
theorem truthful_iff_no_posthumous_answer (info : Installation) (poll : Seconds) (grace : Span)
    (rounding : Seconds → Seconds) {ms : List Move} (hn : ∀ id, .call id .stop ∉ ms) :
    Truthful (.ofServer { info, poll, grace, rounding }) ms ↔
      ∀ t m u, Makes step? (.ofServer { info, poll, grace, rounding }) ms t m u →
        ¬ t.IsPosthumous m := by
  have unstopped {before after : List Move} {t : System} (hms : ms = before ++ after)
      (hb : Leads step? (.ofServer { info, poll, grace, rounding }) before t) : Unstopped t := by
    refine hb.keeps (unstopped_ofServer info poll grace rounding) fun v m w hv h => ?_
    obtain ⟨first, last, rfl, -, hs⟩ := hv
    exact h.of_step? hs fun id he => hn id (by simp [hms, he])
  constructor
  · rintro ht t m u ⟨before, after, hms, hb, hm⟩ hp
    obtain ⟨x, hx, code, hcall, rfl, hc, he⟩ :=
      (unstopped hms hb).returned_of_isPosthumous hm hp
    have hdead := ht.dead before [.answer x.id (.state (some "running"))] after t u x code
      (by simp [hms]) hb (.step hm (.refl u)) hx hcall hc
      (by simp [Answer.isReading])
    cases (hdead.1 _ he).1
  · intro hp
    constructor
    · intro before after t hms hb
      have h : Unstopped t ∧ t.ReturnsAlive := by
        refine hb.keeps (P := fun t => Unstopped t ∧ t.ReturnsAlive)
          ⟨unstopped_ofServer info poll grace rounding, fun i code h => by cases h⟩
          fun v m w hv h => ?_
        have hmade := hv.append after
        rw [← hms] at hmade
        obtain ⟨first, last, rfl, -, hs⟩ := hv
        exact ⟨h.1.of_step? hs fun id he => hn id (by simp [hms, he]),
          h.1.returnsAlive_of_step? hs (hp v m w hmade) h.2⟩
      exact h.2
    · intro before between after t u x code hms hb hu hx hcall hc ha
      have hsplit : ms = before ++ (between ++ after) := by simp [hms]
      have ht := unstopped hsplit hb
      have hmade (v m w) (hv : Makes step? t between v m w) : ¬ v.IsPosthumous m := by
        obtain ⟨first, last, rfl, hl, hs⟩ := hv
        exact hp v m w ⟨before ++ first, last ++ after, by simp [hms], hb.append hl, hs⟩
      obtain ⟨hsafe, hends⟩ := ht.tells_of_leads hu (fun id hi => hn id (by simp [hms, hi])) hmade
        hx hcall hc ha
      refine ⟨hsafe, fun hle => hends (Nat.le_trans ?_ hle)⟩
      cases x.point <;> simp [Point.answersLeft]

/-- A server whose child dies before the first answer about its state. -/
def mortalServer : Server :=
  { info :=
      { home := .ofString "/opt/server", modules := .ofString "/opt/server/modules",
        bundles := .ofString "/opt/server/bundles", java := "java" }
    poll := 1
    grace := .finite 10 }

/-- The child dies while the first answer is awaited, which is that the server still starts. -/
def earlyDeath : List Move :=
  [.call 0 .start, .answer 0 (.launched 4242 none), .exit 1, .answer 0 (.state (some "starting")),
    .pass 1, .answer 0 .elapsed]

theorem truthful_of_earlyDeath :
    (∀ id, Move.call id .stop ∉ earlyDeath) ∧ Truthful (.ofServer mortalServer) earlyDeath ∧
      ∃ u, Reaches (.ofServer mortalServer) earlyDeath u ∧ u.server.state = .failed ∧
        .ended 0 (.error (.run (.exited (some 1)))) ∈ u.events := by
  have hn : ∀ id, Move.call id .stop ∉ earlyDeath := fun id h => by simp [earlyDeath] at h
  refine ⟨hn, (truthful_iff_no_posthumous_answer _ _ _ _ hn).mpr ?_, ?_⟩
  · rintro t m u ⟨before, after, hms, -, -⟩ ⟨id, x, since, rfl, -⟩
    have hm : Move.answer id (.state (some "running")) ∈ earlyDeath := by simp [hms]
    simp [earlyDeath] at hm
  · have hrun : ((earlyDeath.foldlM step? (.ofServer mortalServer)).any fun u =>
        u.server.state == .failed && u.events.any (·.toldExit? == some (0, 1))) = true := by
      decide +kernel
    obtain ⟨u, hu, hfacts⟩ := (Option.any_eq_true ..).mp hrun
    simp only [Bool.and_eq_true, beq_iff_eq, List.any_eq_true] at hfacts
    obtain ⟨hstate, e, he, hexited⟩ := hfacts
    exact ⟨u, leads_iff.mpr hu, hstate, eq_of_toldExit? hexited ▸ he⟩

/-- The child dies while the first answer is awaited, and another server gives it: the start
returns, though the child is dead. -/
theorem not_truthful_of_posthumous_running :
    ¬ Truthful (.ofServer mortalServer)
      [.call 0 .start, .answer 0 (.launched 4242 none), .exit 1,
        .answer 0 (.state (some "running"))] := by
  intro h
  have halive := h.alive _ [] _ (List.append_nil _).symm (leads_iff.mpr rfl) 0 none
    (List.mem_of_mem_head? rfl) rfl
  cases halive

end System

end ServerRun.Server
