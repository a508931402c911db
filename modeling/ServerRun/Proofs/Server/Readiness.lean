import ServerRun.Proofs.Server.Queue

/-! When calls may work on a server. A call that begins on a server that is not started is refused.
Whether the server is started is not asked again when the turn of a call comes, so the calls of a
run work on a started server only exactly if no turn comes late, when the server is no longer
started. -/

namespace ServerRun.Server

/-- A batch that fails before its first request has a text that is not read. -/
theorem start_raised {b : Batch} {excess? : String → Option Command.Excess} {f : Failure}
    (h : (b.start excess?).2 = .raised f) :
    ∃ text, Command.parseUnless excess? text = .error f := by
  have hr (texts : List String) (e : Failure) (he : Batch.requests excess? texts = .error e) :
      ∃ text, Command.parseUnless excess? text = .error e := by
    induction texts with
    | nil => cases he
    | cons text rest ih =>
      simp only [Batch.requests] at he
      split at he
      · cases he
        exact ⟨text, ‹_›⟩
      · split at he
        · cases he
          exact ih ‹_›
        · cases he
  unfold Batch.start at h
  split at h
  · cases h
  · split at h
    · cases h
      exact hr _ _ ‹_›
    · rename_i all _
      split at h
      · cases h
      · cases all <;> cases h

theorem parseUnless_ne_notReady {excess? : String → Option Command.Excess} {text : String}
    (v : Server) (operation : String) :
    Command.parseUnless excess? text ≠ .error (v.notReady operation) := by
  intro h
  unfold Command.parseUnless at h
  split at h
  · rename_i x _
    cases x <;> cases h
  · split at h <;> cases h

/-- A call whose turn comes is not refused, whatever the state of the server. -/
theorem beginWork_not_refused (s v : Server) (id : Nat) (work : Work) (operation : String) :
    (s.beginWork id work).outcome ≠ .raised (v.notReady operation) := by
  intro h
  cases work with
  | deploy file name => cases h
  | execute b =>
    have hb {f : Failure} (hf : (b.start Command.Limits.standard.excess?).2 = .raised f) :=
      start_raised hf
    simp only [beginWork] at h
    generalize b.start _ = x at h hb
    obtain ⟨logs, progress⟩ := x
    cases progress with
    | send request p => cases h
    | finished => cases h
    | raised f =>
      obtain ⟨text, ht⟩ := hb rfl
      cases h
      exact parseUnless_ne_notReady v operation ht

/-- The moves with which a call comes to work on the server: it begins and has something to do, or
its turn comes. -/
inductive Move.Brings (id : Nat) : Move → Prop
  | deploy (file : Path) (name : String) : Brings id (.call id (.deploy file name))
  | execute (b : Batch) (h : b.isEmpty = false) : Brings id (.call id (.execute b))
  | turn : Brings id (.answer id .turn)

namespace System

variable {s u : System} {m : Move} {id : Nat}

/-- The turn of a call comes when the server is no longer started. -/
def IsLateTurn (s : System) (m : Move) : Prop :=
  ∃ id, m = .answer id .turn ∧ s.server.state ≠ .started

/-- A run in which calls work on a started server only: a call first asks for something at the
client while the server is started, and a call that comes to work at any other moment ends at once,
since the server is not ready for it, and never asks for anything. -/
structure Guarded (s : System) (ms : List Move) : Prop where
  begins : ∀ t m u id w, Makes step? s ms t m u → u.requests = t.requests ++ [(id, w)] →
    (∀ r ∈ t.requests, r.1 ≠ id) → t.server.state = .started
  refuses : ∀ before after t m u id, ms = before ++ m :: after → Leads step? s before t →
    t.step? m = some u → m.Brings id → t.server.state ≠ .started →
    (∃ operation, u.events.getLast? = some (.ended id (.error (t.server.notReady operation)))) ∧
      ∀ v, Leads step? u after v → ∀ r ∈ v.requests, r.1 ≠ id

/-- A call that has asked for nothing at the client and does not wait to do so. -/
structure Silent (s : System) (id : Nat) : Prop where
  begun : id ∈ s.begun
  idle : ∀ x ∈ s.waiting, x.call.concern = .work → x.id ≠ id
  silent : ∀ r ∈ s.requests, r.1 ≠ id

theorem Silent.of_step? (h : Silent s id) (hs : Registered s) (hq : Queued s)
    (hm : s.step? m = some u) : Silent u id := by
  cases queueMove_of_step? hs hq hm with
  | aside new ht hw hb he hr =>
    refine ⟨?_, fun x hx hc => h.idle x ((hw x hc).mp hx) hc, ?_⟩
    · rcases hb with hb | ⟨i, -, hb⟩
      · exact hb ▸ h.begun
      · exact hb ▸ List.mem_cons_of_mem _ h.begun
    · rw [requests_of_events he hr]
      exact h.silent
  | joins x new hc hst hn hq' hb ht hw he hr =>
    have hx : x.id ≠ id := fun hi => hn (hi ▸ h.begun)
    refine ⟨hb ▸ List.mem_cons_of_mem _ h.begun, fun y hy hcy => ?_, fun r hrm => ?_⟩
    · rw [hw, List.mem_append, List.mem_singleton] at hy
      rcases hy with hy | rfl
      · exact h.idle y hy hcy
      · exact hx
    · rw [requests_of_waits he hr, List.mem_append] at hrm
      rcases hrm with hrm | hrm
      · exact h.silent r hrm
      · split at hrm
        · rw [List.mem_singleton] at hrm
          exact hrm ▸ hx
        · cases hrm
  | asks x y a new hm hy hi hx hh hc hf hb ht hw he hr =>
    have hx' : x.id ≠ id := hi ▸ h.idle y hy hc.2
    refine ⟨hb ▸ h.begun, fun z hz hcz => ?_, fun r hrm => ?_⟩
    · rw [hw, List.mem_append, List.mem_singleton] at hz
      rcases hz with hz | rfl
      · exact h.idle z (List.mem_filter.mp hz).1 hcz
      · exact hx'
    · rw [requests_of_waits he hr, if_pos hx, List.mem_append, List.mem_singleton] at hrm
      rcases hrm with hrm | rfl
      · exact h.silent r hrm
      · exact hx'
  | leaves y a new hm hy hc hb ht hw he hr =>
    refine ⟨hb ▸ h.begun, fun z hz hcz => ?_, ?_⟩
    · rw [hw, List.mem_filter] at hz
      exact h.idle z hz.1 hcz
    · rw [requests_of_events he hr]
      exact h.silent

theorem Silent.of_reaches {ms : List Move} (h : Silent s id) (hq : Registered s ∧ Queued s)
    (hr : Reaches s ms u) : Silent u id := by
  have hk : (Registered u ∧ Queued u) ∧ Silent u id := by
    refine hr.keeps (P := fun s => (Registered s ∧ Queued s) ∧ Silent s id) ⟨hq, h⟩
      fun t m w hm ht => ?_
    exact ⟨queued_step ht.1 hm.step, ht.2.of_step? ht.1.1 ht.1.2 hm.step⟩
  exact hk.2

/-- A call first asks for something while the server is started, unless its turn is late. -/
theorem Queued.state_of_first (h : Queued s) (hs : Registered s) (hm : s.step? m = some u)
    (hl : ¬ s.IsLateTurn m) {w : Wait} (hu : u.requests = s.requests ++ [(id, w)])
    (hn : ∀ r ∈ s.requests, r.1 ≠ id) : s.server.state = .started := by
  have none {e : u.requests = s.requests} : s.server.state = .started := by
    simp [hu] at e
  cases queueMove_of_step? hs h hm with
  | aside new ht hw hb he hr => exact none (e := requests_of_events he hr)
  | leaves y a new hm hy hc hb ht hw he hr => exact none (e := requests_of_events he hr)
  | joins x new hc hst => exact hst
  | asks x y a new hm hy hi hx hh hc hf hb ht hw he hr =>
    rw [requests_of_waits he hr, if_pos hx] at hu
    obtain ⟨rfl, -⟩ : x.id = id ∧ x.wait = w := by simpa using hu
    rcases hf with rfl | hf
    · exact Classical.byContradiction fun hst => hl ⟨_, hm, hst⟩
    · exact absurd hi.symm (hn _ (h.asked y hy hf))

/-- A call that begins on a server that is not started is refused. -/
theorem firstTurn_refused {v : Server} {w : Surroundings} {c : Call} (hst : v.state ≠ .started)
    (hb : Move.Brings id (.call id c)) :
    ∃ operation, v.firstTurn w id c = v.raise (v.notReady operation) := by
  have hn : v.isStarted = false := by simpa [isStarted] using hst
  cases hb with
  | deploy file name =>
    refine ⟨"deploy '" ++ name ++ "'", ?_⟩
    simp [firstTurn, deploy, hn]
  | execute b hb =>
    refine ⟨"use the management client", ?_⟩
    simp [firstTurn, execute, hb, clientFailure?, hn]

theorem Silent.of_call {c : Call} (h : Queued s) (hs : Registered s)
    (hst : s.server.state ≠ .started) (hm : s.step? (.call id c) = some u)
    (hb : Move.Brings id (.call id c)) :
    (∃ operation, u.events.getLast? = some (.ended id (.error (s.server.notReady operation)))) ∧
      Silent u id := by
  obtain ⟨operation, ht⟩ := firstTurn_refused (w := s.surroundings) hst hb
  cases stepped_of_step? hm with
  | call _ _ hn =>
    rw [ht] at hm ⊢
    have hreq : (((({ s with begun := id :: s.begun } : System).record (.began id c)).take id c
        (s.server.raise (s.server.notReady operation)))).requests = s.requests := by
      simp [requests, Turn.events, Outcome.event, raise, Event.request?]
    refine ⟨⟨operation, by simp [Turn.events, Outcome.event, raise]⟩, by simp, fun x hx _ => ?_, ?_⟩
    · have hx : x ∈ s.waiting := by simpa [waitAfter, raise] using hx
      exact fun hi => hn (hi ▸ hs.known x hx)
    · rw [hreq]
      exact fun r hr hi => hn (hi ▸ h.known r hr)
  | time _ _ hc => exact absurd rfl (hc id c)

/-- The turn of a call comes: the call begins its work. -/
theorem outcome_of_turn (hm : s.step? (.answer id .turn) = some u) :
    ∃ work, u.events.getLast? = some ((s.server.beginWork id work).outcome.event id) := by
  cases stepped_of_step? hm with
  | answer _ _ t x hx ha ht =>
    obtain ⟨work, hp⟩ : ∃ work, x.point = .awaitingTurn work := by
      cases hp : x.point <;> simp [hp, nextTurn?] at ht
      exact ⟨_, rfl⟩
    simp only [hp, nextTurn?, Option.some.injEq] at ht
    subst ht
    refine ⟨work, ?_⟩
    rw [take_events, Turn.events, ← List.append_assoc, List.getLast?_concat]
  | time _ hn => exact absurd rfl (hn id .turn)

/-- A run is guarded exactly if no call gets its turn when the server is no longer started. -/
theorem guarded_iff (hq : Registered s ∧ Queued s) (ms : List Move) :
    Guarded s ms ↔ ∀ t m u, Makes step? s ms t m u → ¬ t.IsLateTurn m := by
  constructor
  · rintro hg t m u ⟨before, after, rfl, hb, hm⟩ ⟨id, rfl, hst⟩
    obtain ⟨⟨operation, ho⟩, -⟩ := hg.refuses before after t _ u id rfl hb hm .turn hst
    obtain ⟨work, hw⟩ := outcome_of_turn hm
    rw [hw, Option.some.injEq] at ho
    refine beginWork_not_refused t.server t.server id work operation ?_
    cases hout : (t.server.beginWork id work).outcome with
    | paused p w => simp [hout, Outcome.event] at ho
    | returned code => simp [hout, Outcome.event] at ho
    | raised f =>
      simp only [hout, Outcome.event, Event.ended.injEq, Except.error.injEq, true_and] at ho
      rw [ho]
  · intro hl
    constructor
    · intro t m u id w hm hu hn
      have ht : Registered t ∧ Queued t := by
        obtain ⟨before, after, -, hb, -⟩ := hm
        exact queued_of_reaches hq hb
      exact ht.2.state_of_first ht.1 hm.step (hl t m u hm) hu hn
    · rintro before after t m u id rfl hb hm hbr hst
      have ht := queued_of_reaches hq hb
      obtain ⟨c, rfl⟩ : ∃ c, m = .call id c := by
        cases hbr with
        | deploy file name => exact ⟨_, rfl⟩
        | execute b h => exact ⟨_, rfl⟩
        | turn => exact absurd ⟨id, rfl, hst⟩ (hl t _ u ⟨before, after, rfl, hb, hm⟩)
      obtain ⟨ho, hsil⟩ := Silent.of_call ht.2 ht.1 hst hm hbr
      refine ⟨ho, fun v hv => ?_⟩
      exact (hsil.of_reaches (queued_step ht hm) hv).silent

/-- Calls on a server work on it only while it is started exactly if no call gets its turn when the
server is no longer started: any calls, in any order, with any answers. -/
theorem guarded_iff_no_late_turn (info : Installation) (poll : Seconds) (grace : Span)
    (rounding : Seconds → Seconds) (ms : List Move) :
    Guarded (.ofServer { info, poll, grace, rounding }) ms ↔
      ∀ t m u, Makes step? (.ofServer { info, poll, grace, rounding }) ms t m u →
        ¬ t.IsLateTurn m :=
  guarded_iff ⟨registered_ofServer _, queued_ofServer rfl⟩ ms

/-- The moves of two deployments and a stop: the second deployment waits behind the first one until
the server was stopped. -/
def stopBeforeTurn : List Move :=
  [.call 0 .start, .answer 0 (.launched 4242 none), .answer 0 (.state (some "running")),
    .call 1 (.deploy (.ofString "a.war") "a.war"), .call 2 (.deploy (.ofString "b.war") "b.war"),
    .call 3 .stop, .exit 0, .answer 3 .done, .answer 3 (.exited 0), .answer 3 .done,
    .answer 3 .done, .answer 1 .done]

/-- A deployment that waited behind another one is begun on a server that was stopped meanwhile, at
a client that was closed. -/
theorem not_guarded_of_stop_before_turn :
    ¬ Guarded
      (.ofServer
        { info :=
            { home := .ofString "/opt/server", modules := .ofString "/opt/server/modules",
              bundles := .ofString "/opt/server/bundles", java := "java" }
          poll := 1
          grace := .finite 10 })
      (stopBeforeTurn ++ [.answer 2 .turn]) := by
  intro h
  have hs := h.begins _ _ _ 2 (.deploy (.ofString "b.war") "b.war")
    ⟨stopBeforeTurn, [], rfl, leads_iff.mpr rfl, rfl⟩ rfl (by decide)
  cases hs

end System

end ServerRun.Server
