import ServerRun.Proofs.Server.Startup
import ServerRun.Proofs.Server.Trace

/-! How a start ends. A start that is neither cancelled nor raced by a stop leaves a server that is
started, or one that has failed, together with an error that tells why. All runs are like this but
those in which a failure comes that a start passes on as it is: one of the launch that is no error
of the operating system, one of making the client, or one of asking the client for the state. -/

namespace ServerRun.Server

/-- The ends of a start, each with the state it leaves. -/
inductive Settles : Except Failure (Option Int) → State → Prop
  | ready : Settles (.ok none) .started
  | precondition (message : String) (path : Path) :
      Settles (.error (.run (.precondition message path))) .failed
  | exited (code : Option Int) : Settles (.error (.run (.exited code))) .failed
  | late (elapsed limit : Number) :
      Settles (.error (.run (.startupTimeout elapsed limit))) .failed

/-- Whether a start that waits at a point passes an answer on as its own failure. -/
def Point.passesOn : Point → Answer → Bool
  | .launching, .failed f => f.systemText?.isNone
  | .launching, .launched _ (some _) => true
  | .readingState _, .failed (.timedOut _) => false
  | .readingState _, .failed _ => true
  | _, _ => false

section

variable {s : Server} {w : Surroundings} {id : Nat} {t : Turn}

theorem not_settles_starting (r : Except Failure (Option Int)) : ¬ Settles r .starting := by
  intro h
  cases h

theorem look_settles (hs : s.state = .starting) {since : Seconds} {i : Nat}
    {r : Except Failure (Option Int)} (h : (s.look w since).outcome.event i = .ended i r) :
    Settles r (s.look w since).server.state := by
  simp only [look, hs, ne_eq, not_true_eq_false, ite_false] at h ⊢
  split at h
  · rename_i code hc
    cases h
    exact .exited _
  · cases h

theorem sleepOrGiveUp_settles {since : Seconds} {i : Nat} {r : Except Failure (Option Int)}
    (h : (s.sleepOrGiveUp w since).outcome.event i = .ended i r) :
    Settles r (s.sleepOrGiveUp w since).server.state := by
  simp only [sleepOrGiveUp] at h ⊢
  split at h
  · rename_i hr
    cases h
    rw [if_pos hr]
    exact .late _ _
  · cases h

theorem stateRead_settles {since : Seconds} {value : Option String} {i : Nat}
    {r : Except Failure (Option Int)}
    (h : (s.stateRead w since value).outcome.event i = .ended i r) :
    Settles r (s.stateRead w since value).server.state := by
  by_cases hv : value = some "running"
  · simp only [stateRead, hv, ite_true] at h ⊢
    cases h
    exact .ready
  · simp only [stateRead, hv, ite_false] at h ⊢
    exact sleepOrGiveUp_settles h

/-- A turn of a start that ends it settles it, unless the start was cancelled or passes on what it
was answered. -/
theorem nextTurn?_settles {p : Point} {a : Answer} (hp : p.concern = .startup)
    (hs : s.state = .starting) (ha : a ≠ .cancelled) (hn : p.passesOn a = false)
    (ht : s.nextTurn? w id p a = some t) {i : Nat} {r : Except Failure (Option Int)}
    (h : t.outcome.event i = .ended i r) : Settles r t.server.state := by
  cases p <;> simp [Point.concern] at hp <;> cases a <;> simp [nextTurn?] at ht <;> subst ht
  case launching.launched pid client =>
    cases client with
    | none =>
      have hl : ({ s with child := some { pid }, listening := true, connected := true } :
        Server).state = .starting := hs
      exact look_settles hl h
    | some f => simp [Point.passesOn] at hn
  case launching.failed f =>
    obtain ⟨message, hm⟩ : ∃ message, f.systemText? = some message := by
      simpa [Point.passesOn, ← Option.isSome_iff_exists] using hn
    rcases s.launchFailed_cases f with ⟨_, -, hl⟩ | ⟨hnone, -⟩
    · rw [hl] at h ⊢
      cases h
      exact .precondition _ _
    · simp [hm] at hnone
  case readingState.state since value => exact stateRead_settles h
  case readingState.elapsed since => exact stateRead_settles h
  case readingState.failed since f =>
    cases f <;> simp [Point.passesOn] at hn
    exact stateRead_settles h
  case sleeping.elapsed since => exact look_settles hs h
  all_goals exact absurd rfl ha

/-- What is passed on ends the start and leaves the state as it is. -/
theorem nextTurn?_passesOn {p : Point} {a : Answer} (hn : p.passesOn a = true)
    (ht : s.nextTurn? w id p a = some t) :
    p.concern = .startup ∧ t.server.state = s.state ∧ ∃ f, t.outcome = .raised f := by
  cases p <;> cases a <;> simp [Point.passesOn] at hn <;> simp [nextTurn?] at ht <;> subst ht
  case launching.launched pid client =>
    cases client with
    | none => simp at hn
    | some f => exact ⟨rfl, rfl, f, rfl⟩
  case launching.failed f =>
    rcases s.launchFailed_cases f with ⟨_, hm, -⟩ | ⟨-, hl⟩
    · simp [hm] at hn
    · exact ⟨rfl, by rw [hl]; rfl, f, by rw [hl]; rfl⟩
  case readingState.failed since f =>
    rcases s.stateFailed_cases w since f with ⟨_, rfl, -⟩ | ⟨-, hf⟩
    · simp at hn
    · exact ⟨rfl, by rw [hf]; rfl, f, by rw [hf]; rfl⟩

end

/-- What a willing child and a willing client answer to a start, and the passing of time. -/
inductive Move.Helps (id : Nat) : Move → Prop
  | launched (pid : Int) : Helps id (.answer id (.launched pid none))
  | running : Helps id (.answer id (.state (some "running")))
  | elapsed : Helps id (.answer id .elapsed)
  | lag (length : Seconds) : Helps id (.lag length)

namespace System

variable {s u : System} {m : Move}

/-- No stop begins while a start waits. -/
def Unraced (s : System) (ms : List Move) : Prop :=
  ∀ t id u, Makes step? s ms t (.call id .stop) u → ∀ x ∈ t.waiting, x.call ≠ .start

/-- A start gets an answer that it passes on as its own failure. -/
def IsPassedOn (s : System) (m : Move) : Prop :=
  ∃ id a x, m = .answer id a ∧ s.waiting.find? (·.id == id) = some x ∧ x.point.passesOn a = true

/-- What a system keeps to as long as no stop begins while a start waits: the server of a start
that waits is starting, and no stop waits beside it. -/
structure Starting (s : System) : Prop where
  registered : Registered s
  orderly : Orderly s
  starting : ∀ x ∈ s.waiting, x.point.concern = .startup → s.server.state = .starting

theorem starting_ofServer (info : Installation) (poll : Seconds) (grace : Span)
    (rounding : Seconds → Seconds) : Starting (.ofServer { info, poll, grace, rounding }) where
  registered := registered_ofServer _
  orderly := orderly_ofServer ..
  starting x hx := by cases hx

theorem Starting.concern (h : Starting s) {x : Waiting} (hx : x ∈ s.waiting) :
    x.point.concern = .startup ↔ x.call = .start := by
  rw [h.registered.concern x hx]
  cases x.call <;> simp [Call.concern]

theorem Starting.not_isLate (h : Starting s) (m : Move) : ¬ s.IsLate m := by
  rintro ⟨id, a, x, since, -, hx, hp, -, hs⟩
  exact hs (h.starting x (List.mem_of_find?_eq_some hx) (by rw [hp]; rfl))

/-- No stop waits while a start waits. -/
theorem Starting.not_stop (h : Starting s) {x y : Waiting} (hx : x ∈ s.waiting)
    (hc : x.point.concern = .startup) (hy : y ∈ s.waiting) : y.point.concern ≠ .stop := by
  intro hs
  obtain ⟨previous, hp⟩ := Point.previous?_of_concern hs
  have hstate := (h.orderly.stopping y hy previous hp).2.2
  rw [h.starting x hx hc] at hstate
  split at hstate <;> cases hstate

/-- A call that begins leaves the state to a start that waits, unless it is a stop. -/
theorem Starting.starting_of_call (h : Starting s) {id : Nat} {call : Call}
    (hn : call = .stop → ∀ x ∈ s.waiting, x.point.concern ≠ .startup)
    (hs : u.server = (s.server.firstTurn s.surroundings id call).server)
    (hw : u.waiting = s.waiting ++
      waitAfter s.now id call (s.server.firstTurn s.surroundings id call)) :
    ∀ x ∈ u.waiting, x.point.concern = .startup → u.server.state = .starting := by
  intro x hx hc
  rw [hw, List.mem_append] at hx
  rw [hs]
  have hwaits : (s.server.firstTurn s.surroundings id call).WaitsOn call.concern :=
    firstTurn_waitsOn call
  have old (hcall : call.concern ≠ .startup) : x ∈ s.waiting := by
    refine hx.resolve_right fun hx => hcall ?_
    rw [← hwaits _ _ (mem_waitAfter hx).1, hc]
  cases hcall : call.concern with
  | work | exit =>
    obtain ⟨q, hq⟩ : ∃ q, (s.server.firstTurn s.surroundings id call).server =
        { s.server with turns := q } := firstTurn_server_of_work (by simp [hcall])
    rw [hq]
    exact h.starting x (old (by simp [hcall])) hc
  | stop =>
    cases call <;> cases hcall
    exact absurd hc (hn rfl x (old (by simp [Call.concern])))
  | startup =>
    cases call <;> cases hcall
    by_cases hst : s.server.state = .notStarted
    · simp [firstTurn, start, hst]
    · have ht : s.server.firstTurn s.surroundings id .start =
          s.server.raise (s.server.notReady "start") := by
        simp [firstTurn, start, hst]
      rw [ht] at hx ⊢
      exact h.starting x (hx.resolve_right fun hx => raise_ends _ _ _ (mem_waitAfter hx).1) hc

/-- A call that is answered leaves the state to a start that waits. -/
theorem Starting.starting_of_answer (h : Starting s) {a : Answer} {t : Turn} {x : Waiting}
    (hx : x ∈ s.waiting) (ht : s.server.nextTurn? s.surroundings x.id x.point a = some t)
    (hs : u.server = t.server)
    (hw : u.waiting = s.waiting.filter (·.id != x.id) ++ waitAfter s.now x.id x.call t) :
    ∀ y ∈ u.waiting, y.point.concern = .startup → u.server.state = .starting := by
  intro y hy hc
  rw [hw, List.mem_append, List.mem_filter] at hy
  rw [hs]
  have hwaits : t.WaitsOn x.point.concern := nextTurn?_waitsOn ht
  have old (hcx : x.point.concern ≠ .startup) : y ∈ s.waiting := by
    refine (hy.resolve_right fun hy => hcx ?_).1
    rw [← hwaits _ _ (mem_waitAfter hy).1, hc]
  cases hcx : x.point.concern with
  | work | exit =>
    obtain ⟨q, hq⟩ := nextTurn?_server_of_work (by simp [hcx]) ht
    rw [hq]
    exact h.starting y (old (by simp [hcx])) hc
  | stop => exact absurd hcx (h.not_stop (old (by simp [hcx])) hc hx)
  | startup =>
    have hst := h.starting x hx hcx
    have ended (he : t.Ends) : t.server.state = .starting := by
      have hold := hy.resolve_right fun hy => he _ _ (mem_waitAfter hy).1
      simp [h.orderly.oneStart y hold.1 x hx hc hcx] at hold
    by_cases hl : x.point = .launching
    · rw [hl] at ht
      by_cases hla : ∃ pid client, a = .launched pid client
      · obtain ⟨pid, client, rfl⟩ := hla
        obtain ⟨c, -, hstate⟩ := nextTurn?_launched ht
        exact hstate.trans hst
      · have hne := nextTurn?_not_launched (fun pid client he => hla ⟨pid, client, he⟩) ht
        exact ended hne.1
    · rcases (nextTurn?_startup hcx hl ht).settled.2 with hsame | ⟨he, -⟩
      · rw [hsame]
        exact hst
      · exact ended he

theorem Starting.of_step? (h : Starting s) (hm : s.step? m = some u)
    (hn : ∀ id, m = .call id .stop → ∀ x ∈ s.waiting, x.point.concern ≠ .startup) :
    Starting u := by
  refine ⟨h.registered.of_step? hm, (h.orderly.of_step? hm (h.not_isLate m)).1, ?_⟩
  cases moved_of_step? hm with
  | exit code hs hw =>
    rw [hs, hw]
    exact h.starting
  | time m hm hs hw =>
    rw [hs, hw]
    exact h.starting
  | call id call hs hw => exact h.starting_of_call (fun hc => hn id (hc ▸ rfl)) hs hw
  | answer id a t x hx ha ht hs hw =>
    obtain rfl : x.id = id := by simpa using List.find?_some hx
    exact h.starting_of_answer (List.mem_of_find?_eq_some hx) ht hs hw

theorem Unraced.starting_of_leads {before after : List Move} (h : Starting s)
    (hr : Unraced s (before ++ after)) (hb : Leads step? s before u) : Starting u := by
  refine hb.keeps h fun t m v hm ht => ht.of_step? hm.step fun id hid x hx hc => ?_
  subst hid
  exact hr t id v (hm.append after) x hx ((ht.concern hx).mp hc)

/-! ### the end of a start -/

/-- A start has just ended, and has settled. -/
def HasSettled (id : Nat) (s : System) : Prop :=
  ∃ r, s.events.getLast? = some (.ended id r) ∧ Settles r s.server.state

/-- A start that waits can be brought to an end, which it settles. -/
abbrev CanSettle (s : System) (id : Nat) : Prop :=
  CanLead step? (fun _ m => m.Helps id) (HasSettled id) s

/-- A run whose starts settle. A start that is called on a server which was not started before
waits, and when it ends otherwise than by its cancellation it leaves a server that is started, or
one that has failed and an error that tells why; and a start that waits can be brought to an end. -/
structure SettlesStarts (s : System) (ms : List Move) : Prop where
  begins : ∀ t id u, Makes step? s ms t (.call id .start) u → t.server.state = .notStarted →
    ∃ x ∈ u.waiting, x.id = id ∧ x.call = .start
  ends : ∀ t u x a r, Makes step? s ms t (.answer x.id a) u → x ∈ t.waiting → x.call = .start →
    a ≠ .cancelled → u.events.getLast? = some (.ended x.id r) → Settles r u.server.state
  canEnd : ∀ before after t x, ms = before ++ after → Leads step? s before t → x ∈ t.waiting →
    x.call = .start → t.CanSettle x.id

theorem begins_of_call {id : Nat} (hm : s.step? (.call id .start) = some u)
    (hs : s.server.state = .notStarted) : ∃ x ∈ u.waiting, x.id = id ∧ x.call = .start := by
  cases ownMove_of_step? hm id with
  | aside hc => exact absurd rfl (hc .start)
  | answered x a t hm => cases hm
  | begins call t hm hb hf hs' hw =>
    cases hm
    obtain ⟨-, -, wait, ho⟩ := firstTurn_start hs s.surroundings id
    rw [← hf] at ho
    refine ⟨⟨id, .start, .launching, wait, s.now⟩, ?_, rfl, rfl⟩
    simp [hw, waitAfter, ho]

/-- The turn that an answer to a waiting call leads to. -/
theorem turn_of_answer (hr : Registered s) {x : Waiting} {a : Answer} (hx : x ∈ s.waiting)
    (hm : s.step? (.answer x.id a) = some u) :
    ∃ t, s.server.nextTurn? s.surroundings x.id x.point a = some t ∧ u.server = t.server ∧
      u.events.getLast? = some (t.outcome.event x.id) := by
  cases stepped_of_step? hm with
  | time _ hn => exact absurd rfl (hn x.id a)
  | answer _ _ t y hy ha ht =>
    obtain rfl : y = x := by
      rw [hr.once x hx, Option.some.injEq] at hy
      exact hy.symm
    exact ⟨t, ht, take_server, getLast?_take⟩

theorem Starting.ends_of_answer (h : Starting s) {x : Waiting} {a : Answer}
    {r : Except Failure (Option Int)} (hx : x ∈ s.waiting) (hc : x.call = .start)
    (hm : s.step? (.answer x.id a) = some u) (ha : a ≠ .cancelled)
    (hp : ¬ s.IsPassedOn (.answer x.id a)) (he : u.events.getLast? = some (.ended x.id r)) :
    Settles r u.server.state := by
  obtain ⟨t, ht, hs, hlast⟩ := turn_of_answer h.registered hx hm
  have hconcern := (h.concern hx).mpr hc
  have hpass : x.point.passesOn a = false := by
    rw [Bool.eq_false_iff]
    exact fun hpass => hp ⟨x.id, a, x, rfl, h.registered.once x hx, hpass⟩
  rw [hlast, Option.some.injEq] at he
  rw [hs]
  exact nextTurn?_settles hconcern (h.starting x hx hconcern) ha hpass ht he

/-- What is passed on leaves a server that is starting, with no start that waits. -/
theorem Starting.not_settles_of_isPassedOn (h : Starting s) (hm : s.step? m = some u)
    (hp : s.IsPassedOn m) : ∃ x ∈ s.waiting, ∃ a r, x.call = .start ∧ m = .answer x.id a ∧
      a ≠ .cancelled ∧ u.events.getLast? = some (.ended x.id r) ∧
      ¬ Settles r u.server.state := by
  obtain ⟨id, a, x, rfl, hx, hpass⟩ := hp
  have hmem : x ∈ s.waiting := List.mem_of_find?_eq_some hx
  obtain rfl : x.id = id := by simpa using List.find?_some hx
  obtain ⟨t, ht, hs, hlast⟩ := turn_of_answer h.registered hmem hm
  obtain ⟨hconcern, hstate, f, ho⟩ := nextTurn?_passesOn hpass ht
  refine ⟨x, hmem, a, .error f, (h.concern hmem).mp hconcern, rfl, ?_, ?_, ?_⟩
  · rintro rfl
    cases hq : x.point <;> simp [hq, Point.passesOn] at hpass
  · rw [hlast, ho]
    rfl
  · rw [hs, hstate, h.starting x hmem hconcern]
    exact not_settles_starting _

theorem Starting.canSettle_of_reading (h : Starting s) {x : Waiting} {since : Seconds}
    (hx : x ∈ s.waiting) (hp : x.point = .readingState since) : CanSettle s x.id := by
  have hm := h.registered.step?_answer (a := .state (some "running")) hx rfl (by rw [hp]; rfl)
  refine .of_step? (.of_goal ⟨_, getLast?_take, ?_⟩) hm .running
  rw [take_server]
  exact .ready

/-- A start that looks at the server waits for an answer then, unless the child is dead. -/
theorem Starting.canSettle_of_look (h : Starting s) {x : Waiting} {a : Answer} {v : Server}
    {since : Seconds} (hx : x ∈ s.waiting) (ha : s.admits x a = true)
    (hh : (Move.answer x.id a).Helps x.id) (hv : v.state = .starting)
    (ht : s.server.nextTurn? s.surroundings x.id x.point a = some (v.look s.surroundings since)) :
    CanSettle s x.id := by
  have hm := h.registered.step?_answer hx ha ht
  cases hc : v.exitCode? with
  | some code =>
    have hlook : v.look s.surroundings since =
        ({ v with state := .failed } : Server).raise (.run (.exited (some code))) := by
      simp [look, hv, hc]
    rw [hlook] at hm
    refine .of_step? (.of_goal ⟨_, getLast?_take, ?_⟩) hm hh
    rw [take_server]
    exact .exited _
  | none =>
    obtain ⟨wait, hlook⟩ : ∃ wait, v.look s.surroundings since =
        v.pause (.readingState since) wait := by
      simp [look, hv, hc]
    rw [hlook] at hm
    refine CanLead.of_step? ?_ hm hh
    have hnext := h.of_step? hm fun id hid => by cases hid
    refine hnext.canSettle_of_reading (x := ⟨x.id, x.call, .readingState since, wait, s.now⟩) ?_ rfl
    simp [waitAfter, pause]

theorem Starting.canSettle (h : Starting s) {x : Waiting} (hx : x ∈ s.waiting)
    (hc : x.call = .start) : CanSettle s x.id := by
  have hconcern := (h.concern hx).mpr hc
  have hst := h.starting x hx hconcern
  have hfits := h.registered.fits x hx
  cases hp : x.point <;> rw [hp] at hconcern hfits <;> simp [Point.concern] at hconcern
  case launching =>
    refine h.canSettle_of_look (a := .launched 1 none) hx rfl (.launched 1) ?_ (by rw [hp]; rfl)
    exact hst
  case readingState since => exact h.canSettle_of_reading hx hp
  case sleeping since =>
    cases hw : x.wait <;> rw [hw] at hfits <;> try exact hfits.elim
    rename_i length
    have hd : 0 ≤ max 0 (x.since + length - s.now) := le_max_left _ _
    have hlag : s.step? (.lag (max 0 (x.since + length - s.now))) =
        some { s with now := s.now + max 0 (x.since + length - s.now) } := by
      simp only [step?, hd, ite_true]
    refine CanLead.of_step? ?_ hlag (.lag _)
    have hnext := h.of_step? hlag fun id hid => by cases hid
    refine hnext.canSettle_of_look (a := .elapsed) hx ?_ .elapsed hst (by rw [hp]; rfl)
    have hmax := le_max_right 0 (x.since + length - s.now)
    simp only [admits, hw, Wait.limit?, Option.any_some, Span.reachedBy, decide_eq_true_eq]
    linarith

/-- As long as no stop begins while a start waits, the starts of a run settle exactly if none of
them passes on a failure that it is answered. -/
theorem settlesStarts_iff_none_passed_on (info : Installation) (poll : Seconds) (grace : Span)
    (rounding : Seconds → Seconds) {ms : List Move}
    (hr : Unraced (.ofServer { info, poll, grace, rounding }) ms) :
    SettlesStarts (.ofServer { info, poll, grace, rounding }) ms ↔
      ∀ t m u, Makes step? (.ofServer { info, poll, grace, rounding }) ms t m u →
        ¬ t.IsPassedOn m := by
  have starting {before after : List Move} {t : System} (hms : ms = before ++ after)
      (hb : Leads step? (.ofServer { info, poll, grace, rounding }) before t) : Starting t :=
    Unraced.starting_of_leads (starting_ofServer info poll grace rounding) (hms ▸ hr) hb
  constructor
  · intro hs t m u hmade hp
    obtain ⟨before, after, hms, hb, hm⟩ := hmade
    obtain ⟨x, hx, a, r, hc, rfl, ha, he, hnot⟩ :=
      (starting hms hb).not_settles_of_isPassedOn hm hp
    exact hnot (hs.ends t u x a r ⟨before, after, hms, hb, hm⟩ hx hc ha he)
  · intro hp
    constructor
    · exact fun t id u hmade hst => begins_of_call hmade.step hst
    · intro t u x a r hmade hx hc ha he
      have hnot := hp _ _ _ hmade
      obtain ⟨before, after, hms, hb, hm⟩ := hmade
      exact (starting hms hb).ends_of_answer hx hc hm ha hnot he
    · exact fun before after t x hms hb hx hc => (starting hms hb).canSettle hx hc

theorem unraced_of_no_stop {ms : List Move} (h : ∀ id, .call id .stop ∉ ms) : Unraced s ms := by
  rintro t id u ⟨before, after, rfl, -, -⟩
  exact absurd (List.mem_append_right _ List.mem_cons_self) (h id)

/-- A start whose first answer tells nothing of the state. -/
def slowStart : List Move :=
  [.call 0 .start, .answer 0 (.launched 4242 none), .answer 0 (.state none), .pass 1,
    .answer 0 .elapsed, .answer 0 (.state (some "running"))]

theorem settlesStarts_of_slowStart :
    Unraced (.ofServer mortalServer) slowStart ∧
      SettlesStarts (.ofServer mortalServer) slowStart ∧
      ∃ u, Reaches (.ofServer mortalServer) slowStart u ∧ u.server.state = .started := by
  have hr : Unraced (.ofServer mortalServer) slowStart :=
    unraced_of_no_stop fun id h => by simp [slowStart] at h
  refine ⟨hr, (settlesStarts_iff_none_passed_on _ _ _ _ hr).mpr ?_, ?_⟩
  · rintro t m u ⟨before, after, hms, -, -⟩ ⟨id, a, x, rfl, -, hpass⟩
    have hm : Move.answer id a ∈ slowStart := by simp [hms]
    simp [slowStart] at hm
    rcases hm with ⟨-, rfl⟩ | ⟨-, rfl⟩ | ⟨-, rfl⟩ | ⟨-, rfl⟩ <;>
      cases hq : x.point <;> simp [hq, Point.passesOn] at hpass
  · have hrun : ((slowStart.foldlM step? (.ofServer mortalServer)).any fun u =>
        u.server.state == .started) = true := by
      decide +kernel
    obtain ⟨u, hu, hstate⟩ := (Option.any_eq_true ..).mp hrun
    exact ⟨u, leads_iff.mpr hu, by simpa using hstate⟩

/-- The client crashes when it is first asked for the state: the start passes the crash on, and the
server is left starting. -/
theorem not_settlesStarts_of_crashing_client :
    Unraced (.ofServer mortalServer)
        [.call 0 .start, .answer 0 (.launched 4242 none), .answer 0 (.failed (.crash "boom"))] ∧
      ¬ SettlesStarts (.ofServer mortalServer)
        [.call 0 .start, .answer 0 (.launched 4242 none), .answer 0 (.failed (.crash "boom"))] := by
  refine ⟨unraced_of_no_stop fun id h => by simp at h, fun h => ?_⟩
  have hs := h.ends _ _ ⟨0, .start, .readingState 0, _, 0⟩ (.failed (.crash "boom"))
    (.error (.crash "boom"))
    ⟨[.call 0 .start, .answer 0 (.launched 4242 none)], [], rfl, leads_iff.mpr rfl, rfl⟩
    List.mem_cons_self rfl (by simp) rfl
  cases hs

end System

end ServerRun.Server
