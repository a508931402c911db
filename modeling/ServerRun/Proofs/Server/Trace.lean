import Mathlib.Data.Rat.Floor
import Mathlib.Tactic.Linarith
import ServerRun.Proofs.Server.Queue

/-! One call among the others: its own part of the history, and the time that its waits take. What
the other calls do leaves both as they are, so that a fact about one call is a fact about its turns.
As long as no alarm of the clock is late, no wait is overrun, and where only one wait has an end,
the clock can go on to it. -/

namespace ServerRun.Server

/-- What a server is given when it is made and keeps for its life. -/
structure SameSetup (s t : Server) : Prop where
  info : t.info = s.info
  poll : t.poll = s.poll
  grace : t.grace = s.grace
  rounding : t.rounding = s.rounding

section

variable {s : Server} {w : Surroundings} {id : Nat} {t : Turn}

theorem SameSetup.refl (s : Server) : SameSetup s s := ⟨rfl, rfl, rfl, rfl⟩

theorem SameSetup.trans {t u : Server} (h : SameSetup s t) (hu : SameSetup t u) : SameSetup s u :=
  ⟨hu.info.trans h.info, hu.poll.trans h.poll, hu.grace.trans h.grace,
    hu.rounding.trans h.rounding⟩

theorem SameSetup.of_turns {v : Server} {q : List Nat} (h : v = { s with turns := q }) :
    SameSetup s v := by
  subst h
  exact ⟨rfl, rfl, rfl, rfl⟩

theorem SameSetup.of_startupTurn (h : StartupTurn s t) : SameSetup s t.server := by
  cases h <;> exact ⟨rfl, rfl, rfl, rfl⟩

theorem SameSetup.of_stopTurn {previous : State} {interrupted : Bool}
    (h : StopTurn s previous interrupted t) : SameSetup s t.server := by
  cases h <;> exact ⟨rfl, rfl, rfl, rfl⟩

theorem firstTurn_sameSetup (c : Call) : SameSetup s (s.firstTurn w id c).server := by
  cases hc : c.concern with
  | work | exit =>
    obtain ⟨q, hq⟩ : ∃ q, (s.firstTurn w id c).server = { s with turns := q } :=
      firstTurn_server_of_work (by simp [hc])
    exact .of_turns hq
  | startup =>
    cases c <;> cases hc
    simp only [firstTurn, start]
    split <;> exact ⟨rfl, rfl, rfl, rfl⟩
  | stop =>
    cases c <;> cases hc
    by_cases ha : s.StopActs
    · have h : SameSetup s.stopBegun (s.firstTurn w id .stop).server :=
        .of_stopTurn (firstTurn_stop ha)
      exact ⟨h.info, h.poll, h.grace, h.rounding⟩
    · rw [firstTurn_stop_idle ha]
      exact .refl s

theorem nextTurn?_sameSetup {p : Point} {a : Answer} (ht : s.nextTurn? w id p a = some t) :
    SameSetup s t.server := by
  cases hc : p.concern with
  | work | exit =>
    obtain ⟨q, hq⟩ := nextTurn?_server_of_work (by simp [hc]) ht
    exact .of_turns hq
  | stop =>
    obtain ⟨previous, hp⟩ := Point.previous?_of_concern hc
    rcases nextTurn?_stop hp ht with ⟨interrupted, -, h⟩ | ⟨-, rfl⟩
    · exact .of_stopTurn h
    · exact .refl s
  | startup =>
    by_cases hl : p = .launching
    · subst hl
      by_cases ha : ∃ pid client, a = .launched pid client
      · obtain ⟨pid, client, rfl⟩ := ha
        obtain ⟨c, h, -⟩ := nextTurn?_launched ht
        have h := SameSetup.of_startupTurn h
        exact ⟨h.info, h.poll, h.grace, h.rounding⟩
      · obtain ⟨-, h | h⟩ := nextTurn?_not_launched (fun pid client hn => ha ⟨pid, client, hn⟩) ht
        · rw [h]
          exact .refl s
        · rw [h]
          exact ⟨rfl, rfl, rfl, rfl⟩
    · exact .of_startupTurn (nextTurn?_startup hc hl ht)

end

/-- The call that something happens to. -/
def Event.caller? : Event → Option Nat
  | .began id _ | .effect id _ | .waits id _ | .answered id _ | .ended id _ => some id
  | .exited _ => none

theorem caller?_of_mem_events {id : Nat} {t : Turn} {e : Event} (h : e ∈ t.events id) :
    e.caller? = some id := by
  rw [Turn.events, List.mem_append, List.mem_map, List.mem_singleton] at h
  rcases h with ⟨_, -, rfl⟩ | rfl
  · rfl
  · cases t.outcome <;> rfl

/-- A wait without an end of its own is one for another call or for the child. -/
theorem Point.Fits.limit? {p : Point} {w : Wait} (h : p.Fits w)
    (hp : p.concern = .work ∨ p.concern = .exit) : w.limit? = none := by
  cases p <;> simp [Point.concern] at hp <;> cases w <;> first | exact h.elim | rfl | skip
  rename_i limit
  cases limit with
  | none => rfl
  | some l => exact h.elim

namespace System

variable {s u : System} {m : Move} {id : Nat} {call : Call} {t : Turn} {e : Event}

theorem sameSetup_of_step? (hm : s.step? m = some u) : SameSetup s.server u.server := by
  cases stepped_of_step? hm with
  | call id call hn =>
    rw [take_server]
    exact firstTurn_sameSetup call
  | answer id a t x hx ha ht =>
    rw [take_server]
    exact nextTurn?_sameSetup ht
  | exit code hc he => exact ⟨rfl, rfl, rfl, rfl⟩
  | time m hm hc now refusal => exact .refl _

theorem sameSetup_of_leads {ms : List Move} (h : Leads step? s ms u) :
    SameSetup s.server u.server :=
  h.keeps (P := fun u => SameSetup s.server u.server) (.refl _) fun _ _ _ hm ht =>
    ht.trans (sameSetup_of_step? hm.step)

/-! ### the trace of a call -/

/-- What has happened to a call, in its order. -/
def trace (s : System) (id : Nat) : List (Seconds × Event) :=
  s.history.filter (·.2.caller? == some id)

@[simp] theorem record_history : (s.record e).history = s.history ++ [(s.now, e)] := rfl

@[simp] theorem take_now : (s.take id call t).now = s.now := by rw [take_eq]

@[simp] theorem take_history :
    (s.take id call t).history = s.history ++ (t.events id).map fun e => (s.now, e) := by
  rw [take_eq]

theorem trace_append (id : Nat) {new : List (Seconds × Event)} (h : u.history = s.history ++ new) :
    u.trace id = s.trace id ++ new.filter (·.2.caller? == some id) := by
  rw [trace, h, List.filter_append]
  rfl

theorem mem_history_of_mem_trace {x : Seconds × Event} (h : x ∈ s.trace id) : x ∈ s.history :=
  (List.mem_filter.mp h).1

theorem mem_trace {x : Seconds × Event} (hx : x.2.caller? = some id) :
    x ∈ s.trace id ↔ x ∈ s.history := by
  simp [trace, hx]

theorem filter_events {i : Nat} {now : Seconds} :
    ((t.events i).map fun e => (now, e)).filter (·.2.caller? == some id) =
      if i = id then (t.events i).map fun e => (now, e) else [] := by
  split
  · rename_i hi
    refine List.filter_eq_self.mpr fun x hx => ?_
    obtain ⟨e, he, rfl⟩ := List.mem_map.mp hx
    simpa [hi] using caller?_of_mem_events he
  · rename_i hi
    refine List.filter_eq_nil_iff.mpr fun x hx => ?_
    obtain ⟨e, he, rfl⟩ := List.mem_map.mp hx
    simpa [caller?_of_mem_events he] using hi

theorem trace_take :
    (s.take id call t).trace id = s.trace id ++ (t.events id).map fun e => (s.now, e) := by
  rw [trace_append id take_history, filter_events, if_pos rfl]

/-- What a move is for one call: it is about something else, or the call takes its first turn, or
the turn after an answer. -/
inductive OwnMove (s : System) (m : Move) (u : System) (id : Nat) : Prop
  | aside (hc : ∀ call, m ≠ .call id call) (ha : ∀ a, m ≠ .answer id a)
      (ht : u.trace id = s.trace id) (hw : ∀ x, x.id = id → (x ∈ u.waiting ↔ x ∈ s.waiting))
  | begins (call : Call) (t : Turn) (hm : m = .call id call) (hb : id ∉ s.begun)
      (hf : t = s.server.firstTurn s.surroundings id call) (hs : u.server = t.server)
      (hw : u.waiting = s.waiting ++ waitAfter s.now id call t) (hn : u.now = s.now)
      (ht : u.trace id =
        s.trace id ++ (s.now, .began id call) :: (t.events id).map fun e => (s.now, e))
  | answered (x : Waiting) (a : Answer) (t : Turn) (hm : m = .answer id a) (hx : x ∈ s.waiting)
      (hi : x.id = id) (ha : s.admits x a = true)
      (hf : s.server.nextTurn? s.surroundings id x.point a = some t) (hs : u.server = t.server)
      (hw : u.waiting = s.waiting.filter (·.id != id) ++ waitAfter s.now id x.call t)
      (hn : u.now = s.now)
      (ht : u.trace id =
        s.trace id ++ (s.now, .answered id a) :: (t.events id).map fun e => (s.now, e))

theorem ownMove_of_step? (hm : s.step? m = some u) (id : Nat) : OwnMove s m u id := by
  cases stepped_of_step? hm with
  | call i call hn =>
    have ht := trace_append (s := s) id
      (u := ({ s with begun := i :: s.begun }.record (.began i call)).take i call
        (s.server.firstTurn s.surroundings i call))
      (by rw [take_history, record_history, List.append_assoc])
    rw [List.filter_append, record_now, filter_events] at ht
    by_cases hi : i = id
    · subst hi
      exact .begins call _ rfl hn rfl take_server take_waiting take_now
        (by simpa [Event.caller?] using ht)
    · refine .aside (fun c hc => hi (Move.call.inj hc).1) (fun a ha => by cases ha) ?_
        fun x hx => ?_
      · simpa [Event.caller?, hi] using ht
      · rw [take_waiting, List.mem_append, record_waiting]
        exact ⟨fun h => h.resolve_right fun h => hi ((mem_waitAfter h).2.symm.trans hx), .inl⟩
  | answer i a t x hx ha hf =>
    have hxi : x.id = i := by simpa using List.find?_some hx
    have ht := trace_append (s := s) id
      (u := ({ s with waiting := s.waiting.filter (·.id != i) }.record (.answered i a)).take i
        x.call t)
      (by rw [take_history, record_history, List.append_assoc])
    rw [List.filter_append, record_now, filter_events] at ht
    by_cases hi : i = id
    · subst hi
      exact .answered x a t rfl (List.mem_of_find?_eq_some hx) hxi ha hf take_server take_waiting
        take_now (by simpa [Event.caller?] using ht)
    · refine .aside (fun c hc => by cases hc) (fun b hb => hi (Move.answer.inj hb).1) ?_
        fun y hy => ?_
      · simpa [Event.caller?, hi] using ht
      · rw [take_waiting, List.mem_append, record_waiting, List.mem_filter]
        constructor
        · rintro (h | h)
          · exact h.1
          · exact absurd ((mem_waitAfter h).2.symm.trans hy) hi
        · exact fun h => .inl ⟨h, by simpa [hy] using Ne.symm hi⟩
  | exit code hc he =>
    refine .aside (fun c hc => by cases hc) (fun a ha => by cases ha) ?_ fun x _ => .rfl
    have ht := trace_append (s := s) id
      (u := { s with server := s.server.withExit code }.record (.exited code)) record_history
    simpa [Event.caller?] using ht
  | time m ha hc now refusal => exact .aside (hc id) (ha id) rfl fun x _ => .rfl

theorem mem_begun_of_step? (hm : s.step? m = some u) (h : id ∈ s.begun) :
    id ∈ u.begun := by
  cases stepped_of_step? hm with
  | call i call hn =>
    rw [take_begun]
    exact List.mem_cons_of_mem _ h
  | answer =>
    rw [take_begun]
    exact h
  | exit | time => exact h

theorem mem_begun_of_call (hm : s.step? (.call id call) = some u) : id ∈ u.begun := by
  cases stepped_of_step? hm with
  | call =>
    rw [take_begun]
    exact List.mem_cons_self
  | time m hn hc => exact absurd rfl (hc id call)

theorem Registered.mem_begun_of_answer {a : Answer} (h : Registered s)
    (hm : s.step? (.answer id a) = some u) : id ∈ s.begun := by
  cases stepped_of_step? hm with
  | answer _ _ _ x hx =>
    obtain rfl : x.id = id := by simpa using List.find?_some hx
    exact h.known x (List.mem_of_find?_eq_some hx)
  | time _ hn => exact absurd rfl (hn id a)

/-- Nothing has happened to a call that has not begun. -/
theorem trace_of_not_begun {v : Server} {ms : List Move} (h : Leads step? (.ofServer v) ms s)
    (hn : id ∉ s.begun) : s.trace id = [] := by
  have hall : Registered s ∧ (id ∉ s.begun → s.trace id = []) := by
    refine h.keeps (P := fun s => Registered s ∧ (id ∉ s.begun → s.trace id = []))
      ⟨registered_ofServer v, fun _ => rfl⟩ fun t m w hm ⟨hr, ht⟩ => ?_
    refine ⟨hr.of_step? hm.step, fun hw => ?_⟩
    have hb : id ∉ t.begun := fun hb => hw (mem_begun_of_step? hm.step hb)
    cases ownMove_of_step? hm.step id with
    | aside hc ha htr =>
      rw [htr]
      exact ht hb
    | begins c _ hc =>
      subst hc
      exact absurd (mem_begun_of_call hm.step) hw
    | answered x a _ hc hx hi => exact absurd (hi ▸ hr.known x hx) hb
  exact hall.2 hn

/-! ### the time that waits take -/

theorem mayPass_of_step? {d : Seconds} (hm : s.step? (.pass d) = some u) :
    0 ≤ d ∧ u = { s with now := s.now + d } ∧ ∀ x ∈ s.waiting, ∀ l,
      x.wait.limit? = some (.finite l) → s.now + d - x.since ≤ l := by
  simp only [step?] at hm
  split at hm
  · rename_i hp
    simp only [mayPass, Bool.and_eq_true, decide_eq_true_eq, List.all_eq_true] at hp
    refine ⟨hp.1, (Option.some.inj hm).symm, fun x hx l hl => ?_⟩
    simpa [hl] using hp.2 x hx
  · cases hm

theorem step?_pass {d : Seconds} (hd : 0 ≤ d)
    (h : ∀ x ∈ s.waiting, ∀ l, x.wait.limit? = some (.finite l) → s.now + d - x.since ≤ l) :
    s.step? (.pass d) = some { s with now := s.now + d } := by
  have hp : s.mayPass d = true := by
    simp only [mayPass, Bool.and_eq_true, decide_eq_true_eq, List.all_eq_true]
    refine ⟨hd, fun x hx => ?_⟩
    split
    · rename_i l hl
      simpa using h x hx l hl
    · rfl
  simp only [step?, hp, ite_true]

theorem now_of_step? (hm : s.step? m = some u) (hp : ∀ d, m ≠ .pass d) (hl : ∀ d, m ≠ .lag d) :
    u.now = s.now := by
  cases stepped_of_step? hm with
  | call | answer => rw [take_now, record_now]
  | exit => rfl
  | time m ha hc now refusal =>
    cases m with
    | call id c => exact absurd rfl (hc id c)
    | answer id a => exact absurd rfl (ha id a)
    | pass d => exact absurd rfl (hp d)
    | lag d => exact absurd rfl (hl d)
    | refuse r => cases hm; rfl
    | exit code =>
      simp only [step?, Option.ite_none_right_eq_some, Option.some.injEq] at hm
      have hnow := congrArg System.now hm.2
      exact hnow.symm

/-- A call does not wait beyond the end of its wait. -/
def InTime (s : System) (id : Nat) : Prop :=
  ∀ x ∈ s.waiting, x.id = id → x.since ≤ s.now ∧
    ∀ l, x.wait.limit? = some (.finite l) → s.now ≤ x.since + max l 0

theorem InTime.of_step? (h : InTime s id) (hm : s.step? m = some u) (hl : ∀ d, m ≠ .lag d) :
    InTime u id := by
  by_cases hp : ∃ d, m = .pass d
  · obtain ⟨d, rfl⟩ := hp
    obtain ⟨hd, rfl, hends⟩ := mayPass_of_step? hm
    intro x hx hi
    refine ⟨(h x hx hi).1.trans (by simpa using hd), fun l hxl => ?_⟩
    have hend := hends x hx l hxl
    have hmax := le_max_left l 0
    show s.now + d ≤ x.since + max l 0
    linarith
  · have hnow := now_of_step? hm (fun d hd => hp ⟨d, hd⟩) hl
    have new {x : Waiting} {c : Call} {t : Turn} (hx : x ∈ waitAfter s.now id c t) :
        x.since ≤ u.now ∧ ∀ l, x.wait.limit? = some (.finite l) → u.now ≤ x.since + max l 0 := by
      have hs : x.since = s.now := by
        unfold waitAfter at hx
        split at hx
        · exact congrArg Waiting.since (List.mem_singleton.mp hx)
        · cases hx
      rw [hs, hnow]
      exact ⟨le_refl _, fun l _ => le_add_of_nonneg_right (le_max_right l 0)⟩
    intro x hx hi
    cases ownMove_of_step? hm id with
    | aside hc ha ht hw =>
      rw [hnow]
      exact h x ((hw x hi).mp hx) hi
    | begins call t hc hb hf hs hw =>
      rw [hw, List.mem_append] at hx
      rcases hx with hx | hx
      · rw [hnow]
        exact h x hx hi
      · exact new hx
    | answered y a t hc hy hyi ha hf hs hw =>
      rw [hw, List.mem_append] at hx
      rcases hx with hx | hx
      · rw [hnow]
        exact h x (List.mem_filter.mp hx).1 hi
      · exact new hx

theorem inTime_ofServer (v : Server) (id : Nat) : InTime (.ofServer v) id := by
  intro x hx
  cases hx

theorem InTime.of_leads {ms : List Move} (h : InTime s id) (hl : Leads step? s ms u)
    (hn : ∀ d, .lag d ∉ ms) : InTime u id := by
  refine hl.keeps (P := fun u => InTime u id) h fun t m v hm ht => ?_
  obtain ⟨before, after, rfl, -, hstep⟩ := hm
  exact ht.of_step? hstep fun d hd => hn d (by simp [hd])

/-- Beside the only call that starts or stops the server no wait has an end. -/
theorem Registered.unlimited (h : Registered s) {x y : Waiting} (hx : x ∈ s.waiting)
    (hy : y ∈ s.waiting) (hne : y ≠ x)
    (ho : y.point.concern = .startup ∨ y.point.concern = .stop → y.id = x.id) (d : Seconds) :
    y.wait.limit? ≠ some (.finite d) := by
  have hfits := h.fits y hy
  cases hc : y.point.concern with
  | startup => exact absurd (h.eq_of_id hy hx (ho (.inl hc))) hne
  | stop => exact absurd (h.eq_of_id hy hx (ho (.inr hc))) hne
  | work => simp [hfits.limit? (.inl hc)]
  | exit => simp [hfits.limit? (.inr hc)]

/-- The clock can go on to the end of the only wait that has an end. -/
theorem exists_passing {x : Waiting} {l : Seconds} (hl : x.wait.limit? = some (.finite l))
    (ho : ∀ y ∈ s.waiting, y ≠ x → ∀ l', y.wait.limit? ≠ some (.finite l')) :
    ∃ more now, Leads step? s more { s with now } ∧ (∀ m ∈ more, ∃ d, m = .pass d) ∧
      s.now ≤ now ∧ l ≤ now - x.since := by
  by_cases hd : l ≤ s.now - x.since
  · exact ⟨[], s.now, .refl s, by simp, le_refl _, hd⟩
  · have hlt := not_le.mp hd
    have hstep : s.step? (.pass (x.since + l - s.now)) = some { s with now := x.since + l } := by
      rw [step?_pass (by linarith)]
      · rw [show s.now + (x.since + l - s.now) = x.since + l by linarith]
      · intro y hy l' hl'
        by_cases hyx : y = x
        · subst hyx
          rw [hl, Option.some.injEq, Span.finite.injEq] at hl'
          linarith
        · exact absurd hl' (ho y hy hyx l')
    exact ⟨_, _, .step hstep (.refl _), by simp, by linarith, by linarith⟩

end System

end ServerRun.Server
