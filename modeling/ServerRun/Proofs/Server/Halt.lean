import ServerRun.Proofs.Server.Escalation
import ServerRun.Proofs.Server.Pause
import ServerRun.Proofs.Server.Polling

/-! How long a stop takes. A stop waits for the grace period at most four times, or twice where the
server was not started, then for the client to close and at most a second for the output. It never
fails unless it is cancelled, and leaves a server that is stopped or has failed before. -/

namespace ServerRun.Server

/-- How long time passes in a move, as long as the clock is on time. -/
def Move.length? : Move → Option Seconds
  | .pass length => some length
  | _ => none

theorem Wait.act?_eq_close {w : Wait} : w.act? = some .close ↔ w = .close := by
  cases w <;> simp [Wait.act?]

namespace System

variable {s t u v : System} {m : Move} {id : Nat}

/-! ### stops that do not act -/

/-- A system in which a call has begun and ended at once. -/
def idled (s : System) (id : Nat) (call : Call) : System :=
  { s with
    begun := id :: s.begun
    history := s.history ++ [(s.now, .began id call), (s.now, .ended id (.ok none))] }

theorem idled_of_stop (ha : ¬ s.server.StopActs) (hm : s.step? (.call id .stop) = some u) :
    u = s.idled id .stop := by
  cases stepped_of_step? hm with
  | call i c hn =>
    rw [firstTurn_stop_idle ha]
    simp [take_eq, idled, record, finish, Turn.events, Outcome.event, waitAfter]
  | time _ _ hc => exact absurd rfl (hc id .stop)

/-- All that tells of a stop comes with the mark that one has begun to act. -/
def Marked (s : System) : Prop :=
  s.server.stopping = false → s.server.released = false ∧ s.server.state ≠ .stopping ∧
    s.server.state ≠ .stopped ∧ ∀ x ∈ s.waiting, x.point.concern ≠ .stop

theorem marked_ofServer (info : Installation) (poll : Seconds) (grace : Span)
    (rounding : Seconds → Seconds) : Marked (.ofServer { info, poll, grace, rounding }) :=
  fun _ => ⟨rfl, by simp [ofServer], by simp [ofServer], fun x hx => by cases hx⟩

theorem Marked.of_keeps (h : Marked s) (hk : Keeps s.server u.server)
    (hw : ∀ x ∈ u.waiting, x ∈ s.waiting ∨ x.point.concern ≠ .stop) : Marked u := by
  intro hp
  obtain ⟨hr, hstopping, hstopped, hnone⟩ := h (hk.stopping.symm.trans hp)
  refine ⟨hk.released.trans hr, ?_, ?_, fun x hx => (hw x hx).elim (hnone x) id⟩
  · rcases hk.state with hs | hs | hs | hs <;> simp [hs, hstopping]
  · rcases hk.state with hs | hs | hs | hs <;> simp [hs, hstopped]

theorem Marked.of_step? (h : Marked s) (hm : s.step? m = some u) : Marked u := by
  cases moved_of_step? hm with
  | exit code hs hw =>
    refine h.of_keeps ?_ fun x hx => .inl (hw ▸ hx)
    rw [hs]
    exact ⟨rfl, rfl, rfl, .inl rfl, fun hc => by simpa [withExit] using hc⟩
  | time m hn hs hw => exact h.of_keeps (hs ▸ .refl _) fun x hx => .inl (hw ▸ hx)
  | call i c hs hw =>
    by_cases hc : c.concern = .stop
    · cases c <;> cases hc
      by_cases ha : s.server.StopActs
      · intro hp
        have hk : SameChild s.server.stopBegun
            (s.server.firstTurn s.surroundings i .stop).server := .of_stopTurn (firstTurn_stop ha)
        rw [hs, hk.stopping] at hp
        cases hp
      · rw [firstTurn_stop_idle ha] at hs hw
        refine h.of_keeps (hs ▸ .refl _) fun x hx => .inl ?_
        simpa [hw, waitAfter, finish] using hx
    · obtain ⟨hk, hwaits⟩ :
          Keeps s.server (s.server.firstTurn s.surroundings i c).server ∧
            (s.server.firstTurn s.surroundings i c).WaitsOn c.concern := firstTurn_keeps hc
      refine h.of_keeps (hs ▸ hk) fun x hx => ?_
      rw [hw, List.mem_append] at hx
      refine hx.imp_right fun hx => ?_
      rwa [hwaits _ _ (mem_waitAfter hx).1]
  | answer i a t x hx ha ht hs hw =>
    have hmem : x ∈ s.waiting := List.mem_of_find?_eq_some hx
    by_cases hc : x.point.concern = .stop
    · intro hp
      rw [hs, nextTurn?_stopping ht] at hp
      exact absurd hc ((h hp).2.2.2 x hmem)
    · obtain ⟨hk, hwaits⟩ := nextTurn?_keeps hc ht
      refine h.of_keeps (hs ▸ hk) fun y hy => ?_
      rw [hw, List.mem_append, List.mem_filter] at hy
      refine hy.imp And.left fun hy => ?_
      rwa [hwaits _ _ (mem_waitAfter hy).1]

theorem Marked.stopActs_iff (h : Marked s) :
    s.server.StopActs ↔ s.server.child ≠ none ∧ s.server.stopping = false := by
  constructor
  · exact fun ha => ⟨ha.2.2.1, ha.2.2.2.1⟩
  · rintro ⟨hc, hp⟩
    obtain ⟨hr, hstopping, hstopped, -⟩ := h hp
    exact ⟨hstopping, hstopped, hc, hp, hr⟩

/-- A stop that has begun to act is remembered. -/
theorem stopping_of_step? (h : s.server.stopping = true) (hm : s.step? m = some u) :
    u.server.stopping = true := by
  cases moved_of_step? hm with
  | exit code hs => rw [hs]; exact h
  | time m hn hs => rw [hs]; exact h
  | call i c hs =>
    have ha : ¬ s.server.StopActs := fun ha => by simp [ha.2.2.2.1] at h
    rw [hs, (firstTurn_signals i fun _ => ha).2.1, h]
  | answer i a t x hx ha ht hs => rw [hs, nextTurn?_stopping ht, h]

theorem stopping_of_leads {ms : List Move} (h : s.server.stopping = true)
    (hu : Leads step? s ms u) : u.server.stopping = true :=
  hu.keeps (P := fun u => u.server.stopping = true) h fun _ _ _ hm ht =>
    stopping_of_step? ht hm.step

/-! ### the stop that acts -/

/-- The moment at which a stop that begins to act has taken all its grace periods. -/
def latest (s : System) (g : Seconds) : Seconds :=
  s.now + ((if s.server.state = .started then 4 else 2 : Nat) : Seconds) * max g 0

/-- A stop that began to act in `s` waits in `u`, or it has ended. -/
inductive Halting (s : System) (id : Nat) (u : System) : Prop
  | waits (x : Waiting) (hx : x ∈ u.waiting) (hi : x.id = id)
      (hp : x.point.previous? = some s.server.state) (hn : x.point.interrupted = false)
      (hw : x.point.stopWait? s.server.grace = some x.wait)
      (hs : u.server.state = s.server.stopBegun.state)
      (ht : ∀ g, s.server.grace = .finite g → x.since + x.point.periods g ≤ s.latest g)
      (hc : x.wait = .close → u.now = x.since) (he : ∀ e ∈ u.trace id, ∀ r, e.2 ≠ .ended id r)
  | ended (past : List (Seconds × Event)) (finish : Seconds)
      (htr : u.trace id = past ++ [(finish, .ended id (.ok none))])
      (he : ∀ e ∈ past, ∀ r, e.2 ≠ .ended id r)
      (hs : u.server.state = if s.server.state = .failed then .failed else .stopped)
      (hw : ∀ x ∈ u.waiting, x.id ≠ id)
      (ht : ∀ g, s.server.grace = .finite g → finish ≤ s.latest g + 1)

/-- A server that one stop stops and no start starts. -/
structure Calm (grace : Span) (id : Nat) (u : System) : Prop where
  registered : Registered u
  begun : id ∈ u.begun
  grace : u.server.grace = grace
  stopping : u.server.stopping = true
  fresh : u.server.state ≠ .notStarted
  noStart : ∀ x ∈ u.waiting, x.point.concern ≠ .startup
  oneStop : ∀ x ∈ u.waiting, x.point.concern = .stop → x.id = id
  inTime : InTime u id

section

variable {grace : Span}

theorem Calm.firstTurn (h : Calm grace id u) (i : Nat) (c : Call) :
    (u.server.firstTurn u.surroundings i c).server.state = u.server.state ∧
      ∀ p wait, (u.server.firstTurn u.surroundings i c).outcome = .paused p wait →
        p.concern = .work ∨ p.concern = .exit := by
  cases hc : c.concern with
  | work | exit =>
    obtain ⟨q, hq⟩ : ∃ q, (u.server.firstTurn u.surroundings i c).server =
        { u.server with turns := q } := firstTurn_server_of_work (by simp [hc])
    rw [hq]
    refine ⟨rfl, fun p wait ho => ?_⟩
    have hp := firstTurn_waitsOn c p wait ho
    simp [hp, hc]
  | startup =>
    cases c <;> cases hc
    have ht : u.server.firstTurn u.surroundings i .start =
        u.server.raise (u.server.notReady "start") := by
      simp [Server.firstTurn, start, h.fresh]
    rw [ht]
    exact ⟨rfl, fun p wait ho => absurd ho (raise_ends _ p wait)⟩
  | stop =>
    cases c <;> cases hc
    have ha : ¬ u.server.StopActs := fun ha => by simp [StopActs, h.stopping] at ha
    rw [firstTurn_stop_idle ha]
    exact ⟨rfl, fun p wait ho => absurd ho (finish_ends p wait)⟩

theorem Calm.nextTurn?_state (h : Calm grace id u) {x : Waiting} {a : Answer} {t : Turn}
    (hx : x ∈ u.waiting) (ht : u.server.nextTurn? u.surroundings x.id x.point a = some t) :
    t.server.state = u.server.state ∨ x.id = id ∧ t.server.state = .stopped := by
  cases hc : x.point.concern with
  | startup => exact absurd hc (h.noStart x hx)
  | work | exit =>
    obtain ⟨q, hq⟩ := nextTurn?_server_of_work (by simp [hc]) ht
    rw [hq]
    exact .inl rfl
  | stop =>
    obtain ⟨previous, hp⟩ := Point.previous?_of_concern hc
    rcases nextTurn?_stop hp ht with ⟨interrupted, -, hs⟩ | ⟨-, rfl⟩
    · cases hs with
      | waits released => exact .inl rfl
      | ends released =>
        simp only [stoppedState]
        split
        · exact .inl rfl
        · exact .inr ⟨h.oneStop x hx hc, rfl⟩
    · exact .inl rfl

theorem Calm.of_step? (h : Calm grace id u) (hm : u.step? m = some v) (hl : ∀ d, m ≠ .lag d) :
    Calm grace id v := by
  have calm (hf : v.server.state ≠ .notStarted)
      (hw : ∀ x ∈ v.waiting, x ∈ u.waiting ∨
        x.point.concern ≠ .startup ∧ (x.point.concern = .stop → x.id = id)) : Calm grace id v := by
    refine ⟨h.registered.of_step? hm, mem_begun_of_step? hm h.begun,
      (sameSetup_of_step? hm).grace.trans h.grace, stopping_of_step? h.stopping hm, hf,
      fun x hx => ?_, fun x hx => ?_, h.inTime.of_step? hm hl⟩
    · exact (hw x hx).elim (h.noStart x) And.left
    · exact (hw x hx).elim (h.oneStop x) And.right
  cases moved_of_step? hm with
  | exit code hs hw => exact calm (hs ▸ h.fresh) fun x hx => .inl (hw ▸ hx)
  | time m hn hs hw => exact calm (hs ▸ h.fresh) fun x hx => .inl (hw ▸ hx)
  | call i c hs hw =>
    obtain ⟨hstate, hnew⟩ := h.firstTurn i c
    refine calm (by rw [hs, hstate]; exact h.fresh) fun x hx => ?_
    rw [hw, List.mem_append] at hx
    refine hx.imp_right fun hx => ?_
    rcases hnew _ _ (mem_waitAfter hx).1 with hc | hc <;> simp [hc]
  | answer i a t x hx ha ht hs hw =>
    have hmem : x ∈ u.waiting := List.mem_of_find?_eq_some hx
    obtain rfl : x.id = i := by simpa using List.find?_some hx
    refine calm ?_ fun y hy => ?_
    · rw [hs]
      rcases h.nextTurn?_state hmem ht with hstate | ⟨-, hstate⟩
      · rw [hstate]
        exact h.fresh
      · simp [hstate]
    · rw [hw, List.mem_append, List.mem_filter] at hy
      refine hy.imp And.left fun hy => ?_
      rw [nextTurn?_waitsOn ht _ _ (mem_waitAfter hy).1, (mem_waitAfter hy).2]
      exact ⟨h.noStart x hmem, h.oneStop x hmem⟩

theorem Calm.state_of_step? (h : Calm grace id u) (hm : u.step? m = some v)
    (hn : ∀ a, m ≠ .answer id a) : v.server.state = u.server.state := by
  cases moved_of_step? hm with
  | exit code hs =>
    rw [hs]
    rfl
  | time m hn hs => rw [hs]
  | call i c hs =>
    rw [hs]
    exact (h.firstTurn i c).1
  | answer i a t x hx ha ht hs =>
    have hmem : x ∈ u.waiting := List.mem_of_find?_eq_some hx
    obtain rfl : x.id = i := by simpa using List.find?_some hx
    rw [hs]
    refine (h.nextTurn?_state hmem ht).resolve_right fun hc => ?_
    exact hn a (by rw [hc.1])

/-- A turn of the stop leaves it waiting, or is its last one. -/
theorem Halting.of_stopTurn {w : Server} {n : Nat} {call : Call} {t : Turn} {rest : List Waiting}
    {past : List (Seconds × Event)} (ht : StopTurn w s.server.state false t)
    (hw : w.state = s.server.stopBegun.state) (hb : t.IsBrief s.server.grace n)
    (hs : v.server = t.server) (hwait : v.waiting = rest ++ waitAfter v.now id call t)
    (hrest : ∀ x ∈ rest, x.id ≠ id)
    (htr : v.trace id = past ++ (t.events id).map fun e => (v.now, e))
    (hpast : ∀ e ∈ past, ∀ r, e.2 ≠ .ended id r)
    (hlate : ∀ g, s.server.grace = .finite g → v.now ≤ s.latest g + 1 ∧
      ∀ p wait, t.outcome = .paused p wait → v.now + p.periods g ≤ s.latest g) :
    Halting s id v := by
  cases ht with
  | @waits released effects point wait hp hi =>
    refine .waits ⟨id, call, point, wait, v.now⟩ ?_ rfl hp hi (hb point wait rfl).1 ?_ ?_ ?_ ?_
    · rw [hwait]
      exact List.mem_append_right _ List.mem_cons_self
    · rw [hs]
      exact hw
    · exact fun g hg => (hlate g hg).2 point wait rfl
    · exact fun _ => rfl
    · rw [htr]
      refine List.forall_mem_append.mpr ⟨hpast, List.forall_mem_map.mpr ?_⟩
      simp only [Turn.events, List.forall_mem_append, List.forall_mem_map]
      simp [Outcome.event]
  | @ends released effects =>
    refine .ended (past ++ (effects.map (.effect id)).map fun e => (v.now, e)) v.now ?_ ?_ ?_ ?_ ?_
    · rw [htr, Turn.events, List.map_append, List.append_assoc]
      rfl
    · refine List.forall_mem_append.mpr ⟨hpast, ?_⟩
      simp
    · rw [hs]
      simp only [stoppedState, hw, stopBegun]
      split <;> rfl
    · rw [hwait]
      refine List.forall_mem_append.mpr ⟨hrest, fun x hx => ?_⟩
      cases (mem_waitAfter hx).1
    · exact fun g hg => (hlate g hg).1

/-- No time passes in a move while a call waits for the client to close. -/
def IsPrompt (s : System) (id : Nat) (m : Move) : Prop :=
  ∀ d ∈ m.length?, ∀ x ∈ s.waiting, x.id = id → x.wait = .close → d = 0

theorem Halting.of_step? (h : Halting s id u) (hc : Calm s.server.grace id u)
    (hm : u.step? m = some v) (ha : m ≠ .answer id .cancelled) (hd : u.IsPrompt id m)
    (hl : ∀ d, m ≠ .lag d) : Halting s id v := by
  cases ownMove_of_step? hm id with
  | begins call t hcall hb => exact absurd hc.begun hb
  | aside hcall hanswer htr hw =>
    have hstate := hc.state_of_step? hm hanswer
    cases h with
    | ended past finish htr' he hs hnone ht =>
      exact .ended past finish (htr.trans htr') he (hstate.trans hs)
        (fun x hx hi => hnone x ((hw x hi).mp hx) hi) ht
    | waits x hx hi hp hn hwait hs ht hclose he =>
      refine .waits x ((hw x hi).mpr hx) hi hp hn hwait (hstate.trans hs) ht (fun hwc => ?_)
        (htr ▸ he)
      rw [← hclose hwc]
      by_cases hpass : ∃ d, m = .pass d
      · obtain ⟨d, rfl⟩ := hpass
        obtain ⟨-, rfl, -⟩ := mayPass_of_step? hm
        simp [hd d rfl x hx hi hwc]
      · exact now_of_step? hm (fun d hd => hpass ⟨d, hd⟩) hl
  | answered y a t hmove hy hyi had hf hs hw hnow htr =>
    cases h with
    | ended past finish htr' he hstate hnone => exact absurd hyi (hnone y hy)
    | waits x hx hi hp hn hwait hstate ht hclose he =>
      obtain rfl := hc.registered.eq_of_id hy hx (hyi.trans hi.symm)
      have hcancel : a ≠ .cancelled := fun hcancel => ha (hcancel ▸ hmove)
      have hpause : StopPause s.server.grace y.point y.wait := Point.stopPause hwait
      have hbrief := nextTurn?_isBrief (Point.concern_of_previous? hp) hcancel hf
      rw [hc.grace] at hbrief
      obtain ⟨hsince, hend⟩ := hc.inTime y hy hi
      rcases nextTurn?_stop hp hf with ⟨interrupted, hsame, hturn⟩ | ⟨hcan, -⟩
      · obtain rfl : interrupted = false := (hsame hcancel).trans hn
        rw [← hnow] at hw htr
        rw [List.append_cons] at htr
        refine .of_stopTurn hturn hstate hbrief hs hw ?_ htr ?_ ?_
        · exact fun x hx => by simpa using (List.mem_filter.mp hx).2
        · refine List.forall_mem_append.mpr ⟨he, ?_⟩
          simp
        · intro g hg
          rw [hg] at hpause hbrief
          have hlast := ht g hg
          rw [hnow]
          refine ⟨?_, fun p wait ho => ?_⟩
          · have hle := hpause.now_le hend hclose
            linarith
          · obtain ⟨hpw, hlt⟩ := hbrief p wait ho
            have hpos : 0 < p.stages := by
              cases Point.stopPause hpw <;> omega
            have hle := hpause.periods_le hlt hend hclose hpos
            linarith
      · exact absurd hcan hcancel

/-! ### the beginning of the stop -/

theorem Call.eq_start_of_concern {c : Call} (h : c.concern = .startup) : c = .start := by
  cases c <;> cases h
  rfl

theorem calm_of_stop (hr : Registered s) (hk : Marked s) (hn : ∀ x ∈ s.waiting, x.call ≠ .start)
    (ha : s.server.StopActs) (hm : s.step? (.call id .stop) = some t) :
    Calm s.server.grace id t := by
  cases ownMove_of_step? hm id with
  | aside hc => exact absurd rfl (hc .stop)
  | answered x a _ hc => cases hc
  | begins call tn hc hb hf hs hw =>
    cases hc
    obtain ⟨-, -, -, hnone⟩ := hk ha.2.2.2.1
    have hchild : SameChild s.server.stopBegun tn.server := hf ▸ .of_stopTurn (firstTurn_stop ha)
    have hstop : ∀ x ∈ t.waiting, x ∈ s.waiting ∨ x.point.concern = .stop ∧ x.id = id := by
      intro x hx
      rw [hw, List.mem_append] at hx
      refine hx.imp_right fun hx => ⟨?_, (mem_waitAfter hx).2⟩
      have ho := (mem_waitAfter hx).1
      rw [hf] at ho
      exact firstTurn_waitsOn .stop _ _ ho
    refine ⟨hr.of_step? hm, mem_begun_of_call hm, (sameSetup_of_step? hm).grace, ?_, ?_,
      fun x hx hc => ?_, fun x hx hc => ?_, ?_⟩
    · rw [hs, hchild.stopping]
      rfl
    · rw [hs]
      exact fun hf => stopBegun_state _ (hchild.fresh hf)
    · rcases hstop x hx with hx | ⟨hp, -⟩
      · exact hn x hx (Call.eq_start_of_concern ((hr.concern x hx).symm.trans hc))
      · cases hp.symm.trans hc
    · rcases hstop x hx with hx | ⟨-, hi⟩
      · exact absurd hc (hnone x hx)
      · exact hi
    · have hin : InTime s id := fun x hx hi => absurd (hi ▸ hr.known x hx) hb
      exact hin.of_step? hm (by simp)

theorem halting_of_stop (hr : Registered s) (htrace : id ∉ s.begun → s.trace id = [])
    (ha : s.server.StopActs) (hm : s.step? (.call id .stop) = some t) : Halting s id t := by
  cases ownMove_of_step? hm id with
  | aside hc => exact absurd rfl (hc .stop)
  | answered x a _ hc => cases hc
  | begins call tn hc hb hf hs hw hnow htr =>
    cases hc
    have hturn : StopTurn s.server.stopBegun s.server.state false tn := hf ▸ firstTurn_stop ha
    have hbrief : tn.IsBrief s.server.grace (if s.server.state = .started then 7 else 5) :=
      hf ▸ firstTurn_stop_isBrief ha
    rw [← hnow] at hw htr
    rw [htrace hb, List.append_cons] at htr
    refine .of_stopTurn hturn rfl hbrief hs hw (fun x hx hi => hb (hi ▸ hr.known x hx)) htr
      (by simp) fun g hg => ?_
    have hg : 0 ≤ max g 0 := le_max_right g 0
    rw [hnow]
    constructor
    · have hmul := mul_nonneg (Nat.cast_nonneg' (if s.server.state = .started then 4 else 2)) hg
      simp only [latest]
      linarith
    · intro p wait ho
      have hlt := (hbrief p wait ho).2
      have hle : p.stages - 2 ≤ if s.server.state = .started then 4 else 2 := by
        split at hlt <;> split <;> first | contradiction | omega
      have hle : ((p.stages - 2 : Nat) : Seconds) ≤
          ((if s.server.state = .started then 4 else 2 : Nat) : Seconds) := by
        exact_mod_cast hle
      have hmul := mul_le_mul_of_nonneg_right hle hg
      simp only [latest, Point.periods]
      linarith

/-! ### whole runs of the stop -/

/-- In no move of a run does time pass while a call waits for the client to close. -/
def ClosesAtOnce (id : Nat) (s : System) (ms : List Move) : Prop :=
  ∀ t m u, Makes step? s ms t m u → t.IsPrompt id m

theorem closesAtOnce_cons {ms : List Move} :
    ClosesAtOnce id s (m :: ms) ↔
      ∀ t, s.step? m = some t → s.IsPrompt id m ∧ ClosesAtOnce id t ms := by
  constructor
  · exact fun h t hm => ⟨h s m t (.first hm), fun v n w hn => h v n w (hn.cons hm)⟩
  · intro h t n u hn
    rcases makes_cons.mp hn with ⟨rfl, rfl, hs⟩ | ⟨v, hv, hn⟩
    · exact (h u hs).1
    · exact (h v hv).2 t n u hn

instance (s : System) (id : Nat) (m : Move) : Decidable (s.IsPrompt id m) :=
  have (x : Waiting) : Decidable (x.wait = .close) := decidable_of_iff _ Wait.act?_eq_close
  inferInstanceAs (Decidable (∀ d ∈ m.length?, _))

instance decidableClosesAtOnce (id : Nat) :
    (s : System) → (ms : List Move) → Decidable (ClosesAtOnce id s ms)
  | s, [] => .isTrue fun t m u ⟨before, after, hms, _⟩ => by simp at hms
  | s, m :: ms =>
    match hm : s.step? m with
    | none => .isTrue (closesAtOnce_cons.mpr (by simp [hm]))
    | some t =>
      have := decidableClosesAtOnce id t ms
      decidable_of_iff (s.IsPrompt id m ∧ ClosesAtOnce id t ms) (by simp [closesAtOnce_cons, hm])

theorem Halting.of_leads {ms : List Move} (h : Halting s id u) (hc : Calm s.server.grace id u)
    (hv : Leads step? u ms v) (ha : .answer id .cancelled ∉ ms) (hd : ClosesAtOnce id u ms)
    (hl : ∀ d, .lag d ∉ ms) : Halting s id v ∧ Calm s.server.grace id v := by
  refine hv.keeps (P := fun v => Halting s id v ∧ Calm s.server.grace id v) ⟨h, hc⟩
    fun t m w hm ⟨ht, hct⟩ => ?_
  have hmem : m ∈ ms := by
    obtain ⟨before, after, rfl, -⟩ := hm
    simp
  have hlag : ∀ d, m ≠ .lag d := fun d hmd => hl d (hmd ▸ hmem)
  exact ⟨ht.of_step? hct hm.step (fun hma => ha (hma ▸ hmem)) (hd t m w hm) hlag,
    hct.of_step? hm.step hlag⟩

/-- The moves that the clock makes alone, and those of a client that has closed. -/
inductive Unaided (id : Nat) (s : System) : Move → Prop
  | ticks {m : Move} (hm : m.Ticks id) : Unaided id s m
  | closes {x : Waiting} (hx : x ∈ s.waiting) (hi : x.id = id) (hw : x.wait = .close) :
      Unaided id s (.answer id .done)

/-- A stop has come to its end by a moment. -/
def HasHalted (id : Nat) (latest : Seconds) (s : System) : Prop :=
  ∃ finish, (finish, .ended id (.ok none)) ∈ s.history ∧ finish ≤ latest

/-- The clock alone, with a client that closes at once, can bring a stop to its end by a
moment. -/
abbrev CanHalt (id : Nat) (latest : Seconds) (s : System) : Prop :=
  CanLead step? (Unaided id) (HasHalted id latest) s

theorem canHalt_of_ended {latest finish : Seconds} {past : List (Seconds × Event)}
    (htr : u.trace id = past ++ [(finish, .ended id (.ok none))]) (hn : finish ≤ latest) :
    CanHalt id latest u := by
  have he : (finish, .ended id (.ok none)) ∈ u.trace id := by simp [htr]
  exact .of_goal ⟨finish, mem_history_of_mem_trace he, hn⟩

/-- A stop that is answered goes on with fewer pauses. -/
theorem Halting.exists_answer (h : Halting s id u) (hc : Calm s.server.grace id u) {x : Waiting}
    {a : Answer} {tn : Turn} (hx : x ∈ u.waiting) (hi : x.id = id) (hp : x.point.concern = .stop)
    (had : u.admits x a = true) (ha : a ≠ .cancelled)
    (ht : u.server.nextTurn? u.surroundings id x.point a = some tn) :
    ∃ v, u.step? (.answer id a) = some v ∧ Halting s id v ∧ Calm s.server.grace id v ∧
      ∀ y ∈ v.waiting, y.id = id → y.point.stages < x.point.stages := by
  subst hi
  have hm := hc.registered.step?_answer hx had ht
  refine ⟨_, hm, h.of_step? hc hm (by simpa using ha) (fun d hd => by cases hd) (by simp),
    hc.of_step? hm (by simp), fun y hy hi => ?_⟩
  rw [take_waiting, List.mem_append, record_waiting, List.mem_filter] at hy
  rcases hy with hy | hy
  · simp [hi] at hy
  · exact (nextTurn?_isBrief hp ha ht _ _ (mem_waitAfter hy).1).2

/-- The clock goes on to the end of a wait of the stop. -/
theorem Halting.exists_passing (h : Halting s id u) (hc : Calm s.server.grace id u) {x : Waiting}
    {l : Seconds} (hx : x ∈ u.waiting) (hi : x.id = id) (hl : x.wait.limit? = some (.finite l)) :
    ∃ ms now, Leads step? u ms { u with now } ∧ (∀ m ∈ ms, ∃ d, m = .pass d) ∧
      l ≤ now - x.since ∧ Halting s id { u with now } ∧ Calm s.server.grace id { u with now } := by
  obtain ⟨ms, now, hlead, hpass, -, hle⟩ := System.exists_passing hl fun y hy hne =>
    hc.registered.unlimited hx hy hne fun hcy =>
      hcy.elim (fun hcy => absurd hcy (hc.noStart y hy)) fun hcy =>
        (hc.oneStop y hy hcy).trans hi.symm
  refine ⟨ms, now, hlead, hpass, hle, h.of_leads hc hlead ?_ ?_ ?_⟩
  · exact fun hmem => by simpa using hpass _ hmem
  · intro t m v hm d _ y hy hyi hyw
    have hsame : t.waiting = u.waiting := by
      obtain ⟨before, after, rfl, hb, -⟩ := hm
      refine hb.keeps (P := fun t => t.waiting = u.waiting) rfl fun t m w hm ht => ?_
      obtain ⟨e, rfl⟩ : ∃ e, m = .pass e := by
        obtain ⟨first, last, rfl, -⟩ := hm
        exact hpass m (by simp)
      obtain ⟨-, rfl, -⟩ := mayPass_of_step? hm.step
      exact ht
    obtain rfl := hc.registered.eq_of_id (hsame ▸ hy) hx (hyi.trans hi.symm)
    simp [hyw, Wait.limit?] at hl
  · exact fun d hmem => by simpa using hpass _ hmem

/-- The pauses that are left to a stop bound the answers that it still needs. -/
theorem Halting.canHalt {g : Seconds} (h : Halting s id u) (hc : Calm s.server.grace id u)
    (hg : s.server.grace = .finite g) (n : Nat)
    (hn : ∀ x ∈ u.waiting, x.id = id → x.point.stages < n) :
    CanHalt id (s.latest g + 1) u := by
  induction n generalizing u with
  | zero =>
    cases h with
    | waits x hx hi => exact absurd (hn x hx hi) (Nat.not_lt_zero _)
    | ended past finish htr he hs hw ht =>
      exact canHalt_of_ended htr (ht g hg)
  | succ n ih =>
    cases h with
    | ended past finish htr he hs hw ht =>
      exact canHalt_of_ended htr (ht g hg)
    | waits x hx hi hp hi' hw hs ht hclose he =>
      have h : Halting s id u := .waits x hx hi hp hi' hw hs ht hclose he
      have hstop := Point.concern_of_previous? hp
      have fewer {v : System} (hv : ∀ y ∈ v.waiting, y.id = id → y.point.stages < x.point.stages) :
          ∀ y ∈ v.waiting, y.id = id → y.point.stages < n := by
        intro y hy hyi
        have hlt := hv y hy hyi
        have hx := hn x hx hi
        omega
      have elapse {l : Seconds} (hl : x.wait.limit? = some (.finite l))
          (ht : ∀ (s : Server) w id, ∃ t, s.nextTurn? w id x.point .elapsed = some t) :
          CanHalt id (s.latest g + 1) u := by
        obtain ⟨ms, now, hlead, hpass, hle, hv, hcv⟩ := h.exists_passing hc hx hi hl
        obtain ⟨tn, htn⟩ := ht u.server ⟨now, u.refusal⟩ id
        obtain ⟨v, hstep, hv, hcv, hfew⟩ := hv.exists_answer (a := .elapsed) hcv hx hi hstop
          (by simpa [admits, hl, Span.reachedBy] using hle) (by simp) htn
        refine ((ih hv hcv (fewer hfew)).of_step? hstep (.ticks .elapsed)).of_leads hlead ?_
        intro t m hm
        obtain ⟨d, rfl⟩ := hpass m hm
        exact .ticks (.pass d)
      cases Point.stopPause hw with
      | grace _ hl ht => exact elapse (hg ▸ hl) ht
      | drain _ hl ht => exact elapse hl ht
      | close _ hwc ht =>
        obtain ⟨tn, htn⟩ := ht u.server u.surroundings id
        obtain ⟨v, hstep, hv, hcv, hfew⟩ := h.exists_answer (a := .done) hc hx hi hstop rfl
          (by simp) htn
        exact (ih hv hcv (fewer hfew)).of_step? hstep (.closes hx hi hwc)

end

/-- What a stop that begins to act in `s` comes to. It returns, whatever happens, and leaves a
server that is stopped or has failed before; and it can always come to its end by a moment, before
which it ends in any case. -/
structure Halts (s : System) (id : Nat) (u : System) : Prop where
  returns : ∀ finish r, (finish, .ended id r) ∈ u.history → r = .ok none ∧
    u.server.state = (if s.server.state = .failed then .failed else .stopped) ∧
      ∀ g, s.server.grace = .finite g → finish ≤ s.latest g + 1
  within : ∀ g, s.server.grace = .finite g →
    (∃ finish, (finish, .ended id (.ok none)) ∈ u.history) ∨ u.now ≤ s.latest g + 1
  canHalt : ∀ g, s.server.grace = .finite g → CanHalt id (s.latest g + 1) u

theorem Halting.halts (h : Halting s id u) (hc : Calm s.server.grace id u) : Halts s id u where
  returns finish r hr := by
    have hr : (finish, .ended id r) ∈ u.trace id := (mem_trace rfl).mpr hr
    cases h with
    | waits x hx hi hp hn hw hs ht hclose he => exact absurd rfl (he _ hr r)
    | ended past finish' htr he hs hw ht =>
      rw [htr, List.mem_append, List.mem_singleton] at hr
      rcases hr with hr | hr
      · exact absurd rfl (he _ hr r)
      · cases hr
        exact ⟨rfl, hs, ht⟩
  within g hg := by
    cases h with
    | ended past finish htr =>
      have he : (finish, .ended id (.ok none)) ∈ u.trace id := by simp [htr]
      exact .inl ⟨finish, mem_history_of_mem_trace he⟩
    | waits x hx hi hp hn hw hs ht hclose =>
      have hpause := Point.stopPause hw
      rw [hg] at hpause
      have hle := hpause.now_le (hc.inTime x hx hi).2 hclose
      have hlast := ht g hg
      exact .inr (by linarith)
  canHalt g hg := by
    obtain ⟨n, hn⟩ : ∃ n, ∀ x ∈ u.waiting, x.id = id → x.point.stages < n := by
      by_cases hx : ∃ x ∈ u.waiting, x.id = id
      · obtain ⟨x, hx, hi⟩ := hx
        refine ⟨x.point.stages + 1, fun y hy hyi => ?_⟩
        rw [hc.registered.eq_of_id hy hx (hyi.trans hi.symm)]
        exact Nat.lt_succ_self _
      · exact ⟨0, fun y hy hyi => absurd ⟨y, hy, hyi⟩ hx⟩
    exact h.canHalt hc hg n hn

/-- A stop on a server that no start starts at the time, with a clock on time, a client that closes
at once and no cancellation: it halts if it is the first one on a launched child, and any stop that
comes after that is idle, as is a stop on a server without a child. -/
theorem halts_of_stop (info : Installation) (poll : Seconds) (grace : Span)
    (rounding : Seconds → Seconds) {before after : List Move}
    (hb : Reaches (.ofServer { info, poll, grace, rounding }) before s)
    (hn : ∀ x ∈ s.waiting, x.call ≠ .start) (hs : s.step? (.call id .stop) = some t)
    (hu : Reaches t after u) (hl : ∀ d, .lag d ∉ after) (hc : .answer id .cancelled ∉ after)
    (hd : ClosesAtOnce id t after) :
    ((s.server.child = none ∨ s.server.stopping = true) ∧ t = s.idled id .stop) ∨
      s.server.child ≠ none ∧ s.server.stopping = false ∧ Halts s id u ∧
        ∀ ms v w j, Reaches t ms v → v.step? (.call j .stop) = some w → w = v.idled j .stop := by
  obtain ⟨hr, hk⟩ : Registered s ∧ Marked s :=
    hb.keeps (P := fun s => Registered s ∧ Marked s)
      ⟨registered_ofServer _, marked_ofServer info poll grace rounding⟩
      fun _ _ _ hm ht => ⟨ht.1.of_step? hm.step, ht.2.of_step? hm.step⟩
  by_cases ha : s.server.StopActs
  · obtain ⟨hchild, hstop⟩ := hk.stopActs_iff.mp ha
    have hcalm := calm_of_stop hr hk hn ha hs
    obtain ⟨hlast, hcalmlast⟩ := (halting_of_stop hr (trace_of_not_begun hb) ha hs).of_leads hcalm
      hu hc hd hl
    refine .inr ⟨hchild, hstop, hlast.halts hcalmlast, fun ms v w j hv hw => ?_⟩
    have hstopping : v.server.stopping = true := stopping_of_leads hcalm.stopping hv
    exact idled_of_stop (fun ha => by simp [ha.2.2.2.1] at hstopping) hw
  · refine .inl ⟨?_, idled_of_stop ha hs⟩
    rw [hk.stopActs_iff] at ha
    by_cases hchild : s.server.child = none
    · exact .inl hchild
    · exact .inr (by simpa [hchild] using ha)

/-- The child ignores all signals and its output has no end, so that the stop takes all its time. -/
def obstinateRun : List Move :=
  [.pass 10, .answer 1 .elapsed, .pass 10, .answer 1 .elapsed, .pass 10, .answer 1 .elapsed,
    .pass 10, .answer 1 .elapsed, .answer 1 .done, .pass 1, .answer 1 .elapsed]

theorem halts_of_obstinateRun :
    ∃ s t u, Reaches (.ofServer { info := default, poll := 1, grace := .finite 10 })
        [.call 0 .start, .answer 0 (.launched 4242 none), .answer 0 (.state (some "running"))] s ∧
      s.step? (.call 1 .stop) = some t ∧ Reaches t obstinateRun u ∧
      u.now = 41 ∧ s.latest 10 + 1 = 41 ∧ u.server.state = .stopped ∧ Halts s 1 u := by
  have hrun : (([.call 0 .start, .answer 0 (.launched 4242 none),
      .answer 0 (.state (some "running"))].foldlM step?
        (.ofServer { info := default, poll := 1, grace := .finite 10 })).any fun s =>
      s.waiting.isEmpty && s.server.child != none && !s.server.stopping &&
        s.latest 10 + 1 == 41 && (s.step? (.call 1 .stop)).any fun t =>
          decide (ClosesAtOnce 1 t obstinateRun) && (obstinateRun.foldlM step? t).any fun u =>
            u.now == 41 && u.server.state == .stopped) = true := by
    decide +kernel
  obtain ⟨s, hs, hfacts⟩ := (Option.any_eq_true ..).mp hrun
  simp only [Bool.and_eq_true, List.isEmpty_iff, bne_iff_ne, ne_eq, Bool.not_eq_true',
    beq_iff_eq] at hfacts
  obtain ⟨⟨⟨⟨hnone, hchild⟩, hstop⟩, hlatest⟩, hfacts⟩ := hfacts
  obtain ⟨t, ht, hfacts⟩ := (Option.any_eq_true ..).mp hfacts
  rw [Bool.and_eq_true, decide_eq_true_eq] at hfacts
  obtain ⟨u, hu, hlast⟩ := (Option.any_eq_true ..).mp hfacts.2
  simp only [Bool.and_eq_true, beq_iff_eq] at hlast
  rcases halts_of_stop default 1 (.finite 10) id (leads_iff.mpr hs) (by simp [hnone]) ht
    (leads_iff.mpr hu) (by simp [obstinateRun]) (by simp [obstinateRun]) hfacts.1 with
    ⟨hidle | hidle, -⟩ | ⟨-, -, hhalts, -⟩
  · exact absurd hidle hchild
  · simp [hstop] at hidle
  · exact ⟨s, t, u, leads_iff.mpr hs, ht, leads_iff.mpr hu, hlast.1, hlatest, hlast.2, hhalts⟩

end System

end ServerRun.Server
