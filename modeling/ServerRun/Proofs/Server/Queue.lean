import ServerRun.Proofs.Server.Move
import ServerRun.Proofs.Server.Wait

/-! The queue of the calls that work on a server. A call joins the queue when it begins, unless it
is refused or has nothing to do; only the first call of the queue asks for something at the
management client, and a call that ends leaves the queue wherever it stands. -/

namespace ServerRun.Server

/-- The turns of a call that stands in the queue: it asks for something at the client, or it ends
and leaves the queue. -/
inductive WorkTurn (s : Server) (id : Nat) : Turn → Prop
  | asks {effects p w} (hw : w.isRequest = true) : WorkTurn s id ⟨s, effects, .paused p w⟩
  | ends {effects outcome} (ho : ∀ p w, outcome ≠ .paused p w) :
      WorkTurn s id ⟨s.passTurn id, effects, outcome⟩

/-- The first turn of a call leaves the queue as it is, or the call joins the queue of a started
server, where it asks for something at once exactly if no other call is in the queue. -/
inductive FirstTurn (s : Server) (id : Nat) (c : Call) (t : Turn) : Prop
  | aside (hs : t.server.turns = s.turns)
      (hw : ∀ p w, t.outcome = .paused p w → c.concern ≠ .work)
  | joins {p w} (hc : c.concern = .work) (hr : s.state = .started)
      (hs : t.server.turns = s.turns ++ [id]) (ho : t.outcome = .paused p w)
      (hw : w.isRequest = true ↔ s.turns = [])

section

variable {s : Server} {w : Surroundings} {id : Nat} {t : Turn} {es : List Effect}

theorem WorkTurn.after (h : WorkTurn s id t) : WorkTurn s id (t.after es) := by
  cases h with
  | asks hw => exact .asks hw
  | ends ho => exact .ends ho

theorem continueBatch_work (b : Batch) (x : List Log.Record × Batch.Progress) :
    WorkTurn s id (s.continueBatch id b x) := by
  obtain ⟨logs, progress⟩ := x
  refine WorkTurn.after ?_
  cases progress with
  | send request p => exact .asks rfl
  | finished | raised => exact .ends fun p w h => by cases h

theorem beginWork_work (work : Work) : WorkTurn s id (s.beginWork id work) := by
  cases work with
  | deploy file name => exact WorkTurn.after (.asks rfl)
  | execute b => exact continueBatch_work b (b.start _)

/-- Every turn of a call that stands in the queue is one of these, also where it is cancelled before
its turn has come. -/
theorem nextTurn?_work {p : Point} {a : Answer} (hp : p.concern = .work)
    (ht : s.nextTurn? w id p a = some t) : WorkTurn s id t := by
  cases p <;> simp [Point.concern] at hp <;> cases a <;> simp [nextTurn?] at ht <;> subst ht
  case awaitingTurn.turn work => exact beginWork_work work
  case executing.done b p _ => exact continueBatch_work b _
  case executing.failed b p _ f => exact continueBatch_work b _
  all_goals exact .ends fun p w h => by cases h

/-- A call that stands in the queue and asks for something has just got its turn or was answered on
what it had asked for. -/
theorem nextTurn?_asks {p q : Point} {a : Answer} {wait wait' : Wait} (hp : p.concern = .work)
    (hf : p.Fits wait) (ht : s.nextTurn? w id p a = some t) (ho : t.outcome = .paused q wait') :
    a = .turn ∨ wait.isRequest = true := by
  cases p <;> simp [Point.concern] at hp <;> cases wait <;>
    first | exact hf.elim | exact .inr rfl | skip
  cases a <;> simp [nextTurn?] at ht <;> subst ht
  · exact .inl rfl
  · cases ho

/-- A call that ends in its first turn has not joined the queue, even if its turn had come. -/
theorem takeTurn_first {c : Call} (work : Work) (hc : c.concern = .work) (hr : s.state = .started) :
    FirstTurn s id c (s.takeTurn id work) := by
  unfold takeTurn
  split
  · rename_i hq
    have h : WorkTurn { s with turns := [id] } id
        (({ s with turns := [id] } : Server).beginWork id work) := beginWork_work work
    generalize beginWork _ id work = t at h ⊢
    cases h with
    | asks hw => exact .joins hc hr (by rw [hq]; rfl) rfl (by simp [hw, hq])
    | ends ho => exact .aside (by simp [passTurn, hq]) fun p w h => absurd h (ho p w)
  · rename_i hq
    exact .joins hc hr rfl rfl (by simp [Wait.isRequest, hq])

/-! ### calls that do not work on the server -/

theorem StartupTurn.turns (h : StartupTurn s t) : t.server.turns = s.turns := by
  cases h <;> rfl

theorem StopTurn.turns {previous : State} {interrupted : Bool}
    (h : StopTurn s previous interrupted t) : t.server.turns = s.turns := by
  cases h <;> rfl

theorem StopTurn.waitsOn {previous : State} {interrupted : Bool}
    (h : StopTurn s previous interrupted t) : t.WaitsOn .stop := by
  intro p w ho
  cases h with
  | waits released hp hi =>
    cases ho
    exact Point.concern_of_previous? hp
  | ends released => cases interrupted <;> cases ho

theorem firstTurn_waitsOn (c : Call) : (s.firstTurn w id c).WaitsOn c.concern := by
  by_cases hc : c.concern = .stop
  · cases c <;> cases hc
    by_cases ha : s.StopActs
    · exact (firstTurn_stop ha).waitsOn
    · rw [firstTurn_stop_idle ha]
      exact finish_ends.waitsOn _
  · exact (firstTurn_keeps hc).2

theorem nextTurn?_waitsOn {p : Point} {a : Answer} (ht : s.nextTurn? w id p a = some t) :
    t.WaitsOn p.concern := by
  by_cases hp : p.concern = .stop
  · obtain ⟨previous, hq⟩ := Point.previous?_of_concern hp
    rw [hp]
    rcases nextTurn?_stop hq ht with ⟨interrupted, -, h⟩ | ⟨-, rfl⟩
    · exact h.waitsOn
    · exact (raise_ends _).waitsOn _
  · exact (nextTurn?_keeps hp ht).2

theorem firstTurn_first (c : Call) : FirstTurn s id c (s.firstTurn w id c) := by
  cases c with
  | start =>
    refine .aside ?_ fun p w _ => by simp [Call.concern]
    simp only [firstTurn, start]
    split <;> rfl
  | stop =>
    refine .aside ?_ fun p w _ => by simp [Call.concern]
    by_cases ha : s.StopActs
    · exact (firstTurn_stop ha).turns
    · rw [firstTurn_stop_idle ha]
      rfl
  | deploy file name =>
    simp only [firstTurn, deploy]
    split
    · exact .aside rfl fun p w h => by cases h
    · rename_i hr
      split
      · exact .aside rfl fun p w h => by cases h
      · exact takeTurn_first _ rfl (by simpa [isStarted] using hr)
  | execute b =>
    simp only [firstTurn, execute]
    split
    · exact .aside rfl fun p w h => by cases h
    · split
      · exact .aside rfl fun p w h => by cases h
      · rename_i hf
        refine takeTurn_first _ rfl ?_
        by_cases hr : s.isStarted = true
        · simpa [isStarted] using hr
        · simp [clientFailure?, hr] at hf
  | waitForExit =>
    refine .aside ?_ fun p w _ => by simp [Call.concern]
    simp only [firstTurn]
    split
    · rfl
    · split <;> rfl

theorem nextTurn?_turns {p : Point} {a : Answer} (hp : p.concern ≠ .work)
    (ht : s.nextTurn? w id p a = some t) : t.server.turns = s.turns := by
  cases hc : p.concern with
  | work => exact absurd hc hp
  | stop =>
    obtain ⟨previous, hq⟩ := Point.previous?_of_concern hc
    rcases nextTurn?_stop hq ht with ⟨interrupted, -, h⟩ | ⟨-, rfl⟩
    · exact h.turns
    · rfl
  | exit =>
    cases p <;> simp [Point.concern] at hc
    cases a <;> simp [nextTurn?] at ht <;> subst ht <;> rfl
  | startup =>
    by_cases hl : p = .launching
    · subst hl
      by_cases ha : ∃ pid client, a = .launched pid client
      · obtain ⟨pid, client, rfl⟩ := ha
        obtain ⟨c, h, -⟩ := nextTurn?_launched ht
        exact h.turns
      · obtain ⟨-, h | h⟩ := nextTurn?_not_launched (fun pid client hn => ha ⟨pid, client, hn⟩) ht
        · rw [h]
        · rw [h]
    · exact (nextTurn?_startup hc hl ht).turns

end

/-- What is asked for at the client, and by which call. -/
def Event.request? : Event → Option (Nat × Wait)
  | .waits id wait => if wait.isRequest then some (id, wait) else none
  | _ => none

@[simp] theorem filterMap_request?_effects (id : Nat) (es : List Effect) :
    (es.map (Event.effect id)).filterMap Event.request? = [] := by
  simp [List.filterMap_map, Function.comp_def, Event.request?]

namespace System

/-- What the calls have asked for at the client, in its order. -/
def requests (s : System) : List (Nat × Wait) := s.events.filterMap Event.request?

variable {s u : System} {m : Move}

/-- What a system knows of its calls: each has begun once and waits at most once, for what fits the
point where it waits. -/
structure Registered (s : System) : Prop where
  begun : s.begun.Nodup
  known : ∀ x ∈ s.waiting, x.id ∈ s.begun
  once : ∀ x ∈ s.waiting, s.waiting.find? (·.id == x.id) = some x
  fits : ∀ x ∈ s.waiting, x.point.Fits x.wait
  concern : ∀ x ∈ s.waiting, x.point.concern = x.call.concern

theorem registered_ofServer (v : Server) : Registered (.ofServer v) where
  begun := List.nodup_nil
  known x hx := by cases hx
  once x hx := by cases hx
  fits x hx := by cases hx
  concern x hx := by cases hx

theorem Registered.eq_of_id (h : Registered s) {x y : Waiting} (hx : x ∈ s.waiting)
    (hy : y ∈ s.waiting) (he : x.id = y.id) : x = y := by
  have hxy := h.once x hx
  rw [he, h.once y hy, Option.some.injEq] at hxy
  exact hxy.symm

theorem Registered.nodup (h : Registered s) : s.begun.reverse.Nodup :=
  List.pairwise_reverse.mpr (h.begun.imp Ne.symm)

theorem Registered.work (h : Registered s) {x : Waiting} (hx : x ∈ s.waiting)
    (hw : x.wait.isRequest = true) : x.call.concern = .work := by
  rw [← h.concern x hx]
  exact (h.fits x hx).concern hw

/-- A waiting call takes the turn that an answer leads to. -/
theorem Registered.step?_answer (h : Registered s) {x : Waiting} {a : Answer} {t : Turn}
    (hx : x ∈ s.waiting) (ha : s.admits x a = true)
    (ht : s.server.nextTurn? s.surroundings x.id x.point a = some t) :
    s.step? (.answer x.id a) =
      some (({ s with waiting := s.waiting.filter (·.id != x.id) }.record (.answered x.id a)).take
        x.id x.call t) := by
  simp only [step?, h.once x hx, Option.bind_some, ha, ite_true, ht, Option.map_some]

/-- A call that has begun and does not wait takes a turn. -/
theorem Registered.take (h : Registered s) {id : Nat} {call : Call} {t : Turn} (hb : id ∈ s.begun)
    (hn : ∀ x ∈ s.waiting, x.id ≠ id) (hf : t.Fits) (hw : t.WaitsOn call.concern) :
    Registered (s.take id call t) := by
  constructor
  · rw [take_begun]
    exact h.begun
  all_goals
    intro x hx
    rw [take_waiting, List.mem_append] at hx
  · rw [take_begun]
    rcases hx with hx | hx
    · exact h.known x hx
    · rw [(mem_waitAfter hx).2]
      exact hb
  · rw [take_waiting, List.find?_append]
    rcases hx with hx | hx
    · rw [h.once x hx]
      rfl
    · have hi : x.id = id := (mem_waitAfter hx).2
      rw [(waitAfter_of_mem hx).1, List.find?_eq_none.mpr fun y hy => by simpa [hi] using hn y hy]
      simp
  · rcases hx with hx | hx
    · exact h.fits x hx
    · exact hf _ _ (mem_waitAfter hx).1
  · rcases hx with hx | hx
    · exact h.concern x hx
    · rw [(waitAfter_of_mem hx).2]
      exact hw _ _ (mem_waitAfter hx).1

theorem Registered.of_step? (h : Registered s) (hm : s.step? m = some u) : Registered u := by
  cases stepped_of_step? hm with
  | call id call hn =>
    have hb : Registered ({ s with begun := id :: s.begun }.record (.began id call)) :=
      ⟨List.nodup_cons.mpr ⟨hn, h.begun⟩, fun x hx => List.mem_cons_of_mem _ (h.known x hx), h.once,
        h.fits, h.concern⟩
    refine hb.take List.mem_cons_self (fun x hx he => hn (he ▸ h.known x hx)) (firstTurn_fits call)
      (firstTurn_waitsOn call)
  | answer id a t x hx ha ht =>
    have hxm : x ∈ s.waiting := List.mem_of_find?_eq_some hx
    have hxi : x.id = id := by simpa using List.find?_some hx
    have sub {y : Waiting} (hy : y ∈ s.waiting.filter (·.id != id)) :
        y ∈ s.waiting ∧ y.id ≠ id := by
      simpa using hy
    have hb : Registered
        ({ s with waiting := s.waiting.filter (·.id != id) }.record (.answered id a)) := by
      refine ⟨h.begun, fun y hy => h.known y (sub hy).1, fun y hy => ?_,
        fun y hy => h.fits y (sub hy).1, fun y hy => h.concern y (sub hy).1⟩
      obtain ⟨hy, hn⟩ := sub hy
      rw [record_waiting, List.find?_filter, ← h.once y hy]
      congr 1
      funext z
      by_cases hz : z.id = y.id
      · simp [hz, hn]
      · simp [hz]
    refine hb.take (hxi ▸ h.known x hxm) (fun y hy => (sub hy).2) (nextTurn?_fits ht) ?_
    rw [← h.concern x hxm]
    exact nextTurn?_waitsOn ht
  | exit code hc he => exact ⟨h.begun, h.known, h.once, h.fits, h.concern⟩
  | time m hm hc now refusal => exact ⟨h.begun, h.known, h.once, h.fits, h.concern⟩

/-! ### the queue -/

theorem requests_of_events {new : List Event} (he : u.events = s.events ++ new)
    (hr : new.filterMap Event.request? = []) : u.requests = s.requests := by
  rw [requests, he, List.filterMap_append, hr, List.append_nil]
  rfl

theorem requests_of_waits {new : List Event} {id : Nat} {w : Wait}
    (he : u.events = s.events ++ new ++ [.waits id w]) (hr : new.filterMap Event.request? = []) :
    u.requests = s.requests ++ if w.isRequest then [(id, w)] else [] := by
  rw [requests, he, List.filterMap_append, List.filterMap_append, hr, List.append_nil]
  by_cases hw : w.isRequest = true <;> simp [Event.request?, hw, requests]

/-- The queue of the calls that work on the server: it holds those that wait, in the order in which
they began, and only the first one has asked for something at the client. -/
structure Queued (s : System) : Prop where
  order : s.server.turns.Sublist s.begun.reverse
  member : ∀ id ∈ s.server.turns, ∃ x ∈ s.waiting, x.id = id ∧ x.call.concern = .work
  queued : ∀ x ∈ s.waiting, x.call.concern = .work → x.id ∈ s.server.turns
  head : ∀ x ∈ s.waiting, x.wait.isRequest = true → s.server.turns.head? = some x.id
  asked : ∀ x ∈ s.waiting, x.wait.isRequest = true → (x.id, x.wait) ∈ s.requests
  known : ∀ r ∈ s.requests, r.1 ∈ s.begun

theorem queued_ofServer {v : Server} (h : v.turns = []) : Queued (.ofServer v) where
  order := by simp [ofServer, h]
  member id hid := by simp [ofServer, h] at hid
  queued x hx := by cases hx
  head x hx := by cases hx
  asked x hx := by cases hx
  known r hr := by cases hr

/-- What a move is for the queue: it is left as it is, a call joins it at its end, its first call
asks for more, or a call leaves it. -/
inductive QueueMove (s : System) (m : Move) (u : System) : Prop
  | aside (new : List Event) (ht : u.server.turns = s.server.turns)
      (hw : ∀ x, x.call.concern = .work → (x ∈ u.waiting ↔ x ∈ s.waiting))
      (hb : u.begun = s.begun ∨ ∃ id ∉ s.begun, u.begun = id :: s.begun)
      (he : u.events = s.events ++ new) (hr : new.filterMap Event.request? = [])
  | joins (x : Waiting) (new : List Event) (hc : x.call.concern = .work)
      (hs : s.server.state = .started) (hn : x.id ∉ s.begun)
      (hq : x.wait.isRequest = true ↔ s.server.turns = []) (hb : u.begun = x.id :: s.begun)
      (ht : u.server.turns = s.server.turns ++ [x.id]) (hw : u.waiting = s.waiting ++ [x])
      (he : u.events = s.events ++ new ++ [.waits x.id x.wait])
      (hr : new.filterMap Event.request? = [])
  | asks (x y : Waiting) (a : Answer) (new : List Event) (hm : m = .answer y.id a)
      (hy : y ∈ s.waiting) (hi : x.id = y.id) (hx : x.wait.isRequest = true)
      (hh : s.server.turns.head? = some y.id) (hc : x.call = y.call ∧ y.call.concern = .work)
      (hf : a = .turn ∨ y.wait.isRequest = true) (hb : u.begun = s.begun)
      (ht : u.server.turns = s.server.turns)
      (hw : u.waiting = s.waiting.filter (·.id != y.id) ++ [x])
      (he : u.events = s.events ++ .answered y.id a :: new ++ [.waits x.id x.wait])
      (hr : new.filterMap Event.request? = [])
  | leaves (y : Waiting) (a : Answer) (new : List Event) (hm : m = .answer y.id a)
      (hy : y ∈ s.waiting) (hc : y.call.concern = .work) (hb : u.begun = s.begun)
      (ht : u.server.turns = s.server.turns.filter (· != y.id))
      (hw : u.waiting = s.waiting.filter (·.id != y.id))
      (he : u.events = s.events ++ .answered y.id a :: new)
      (hr : new.filterMap Event.request? = [])

/-- A turn of a call that does not ask for anything at the client. -/
theorem filterMap_request?_events {id : Nat} {t : Turn}
    (h : ∀ p w, t.outcome = .paused p w → w.isRequest = false) :
    (t.events id).filterMap Event.request? = [] := by
  rw [Turn.events, List.filterMap_append, filterMap_request?_effects]
  cases ho : t.outcome with
  | paused p w => simp [Outcome.event, Event.request?, h p w ho]
  | returned code => rfl
  | raised f => rfl

/-- A turn of a call that does not stand in the queue. -/
theorem isRequest_of_waitsOn {c : Concern} {t : Turn} (hc : c ≠ .work) (hf : t.Fits)
    (hw : t.WaitsOn c) {p : Point} {w : Wait} (ho : t.outcome = .paused p w) :
    w.isRequest = false := by
  refine Bool.eq_false_iff.mpr fun hr => ?_
  have hp : p.concern = .work := (hf p w ho).concern hr
  exact hc ((hw p w ho).symm.trans hp)

theorem mem_waiting_iff_of_aside {now : Seconds} {id : Nat} {call : Call} {t : Turn}
    {ws : List Waiting} (h : ∀ p w, t.outcome = .paused p w → call.concern ≠ .work) (x : Waiting)
    (hx : x.call.concern = .work) : x ∈ ws ++ waitAfter now id call t ↔ x ∈ ws := by
  refine ⟨fun hm => (List.mem_append.mp hm).resolve_right fun hm => ?_, List.mem_append_left _⟩
  exact h _ _ (mem_waitAfter hm).1 ((waitAfter_of_mem hm).2 ▸ hx)

theorem queueMove_of_step? (hr : Registered s) (hq : Queued s) (hm : s.step? m = some u) :
    QueueMove s m u := by
  cases stepped_of_step? hm with
  | call id call hn =>
    have hf : FirstTurn s.server id call (s.server.firstTurn s.surroundings id call) :=
      firstTurn_first call
    have hfits : (s.server.firstTurn s.surroundings id call).Fits := firstTurn_fits call
    have hwaits : (s.server.firstTurn s.surroundings id call).WaitsOn call.concern :=
      firstTurn_waitsOn call
    generalize s.server.firstTurn s.surroundings id call = t at hf hfits hwaits ⊢
    cases hf with
    | aside hs hw =>
      refine .aside (.began id call :: t.events id) (by simpa using hs) ?_
        (.inr ⟨id, hn, by simp⟩) (by simp) ?_
      · intro x hx
        rw [take_waiting]
        exact mem_waiting_iff_of_aside hw x hx
      · exact filterMap_request?_events fun p w ho =>
          isRequest_of_waitsOn (hw p w ho) hfits hwaits ho
    | joins hc hst hs ho hw =>
      rename_i p w
      refine .joins ⟨id, call, p, w, s.now⟩ (.began id call :: t.effects.map (.effect id)) hc hst
        hn hw (by simp) (by simpa using hs) ?_ ?_ (by simp [Event.request?])
      · simp [waitAfter, ho]
      · simp [Turn.events, ho, Outcome.event]
  | answer id a t x hx ha ht =>
    have hxm : x ∈ s.waiting := List.mem_of_find?_eq_some hx
    obtain rfl : x.id = id := by simpa using List.find?_some hx
    by_cases hc : x.call.concern = .work
    · have hp : x.point.concern = .work := (hr.concern x hxm).trans hc
      cases nextTurn?_work hp ht with
      | asks hw =>
        rename_i effects p w
        have hf : a = .turn ∨ x.wait.isRequest = true := nextTurn?_asks hp (hr.fits x hxm) ht rfl
        have hh : s.server.turns.head? = some x.id := by
          rcases hf with rfl | hf
          · simpa [admits] using ha
          · exact hq.head x hxm hf
        exact .asks ⟨x.id, x.call, p, w, s.now⟩ x a (effects.map (.effect x.id)) rfl hxm rfl hw hh
          ⟨rfl, hc⟩ hf (by simp) (by simp) (by simp [waitAfter])
          (by simp [Turn.events, Outcome.event]) (filterMap_request?_effects _ _)
      | ends ho =>
        rename_i effects outcome
        refine .leaves x a (Turn.events x.id ⟨s.server.passTurn x.id, effects, outcome⟩) rfl hxm hc
          (by simp) (by simp [passTurn]) ?_ (by simp) ?_
        · cases outcome with
          | paused p w => exact absurd rfl (ho p w)
          | returned code => simp [waitAfter]
          | raised f => simp [waitAfter]
        · exact filterMap_request?_events fun p w h => absurd h (ho p w)
    · have hp : x.point.concern ≠ .work := fun h => hc ((hr.concern x hxm).symm.trans h)
      have hw : t.WaitsOn x.point.concern := nextTurn?_waitsOn ht
      refine .aside (.answered x.id a :: t.events x.id) ?_ ?_ (.inl (by simp))
        (by simp) ?_
      · simpa using nextTurn?_turns hp ht
      · intro y hy
        rw [take_waiting, mem_waiting_iff_of_aside (fun _ _ _ => hc) y hy]
        simp only [record_waiting, List.mem_filter, bne_iff_ne, ne_eq, and_iff_left_iff_imp]
        rintro hym he
        exact hc (hr.eq_of_id hym hxm he ▸ hy)
      · exact filterMap_request?_events fun p w ho =>
          isRequest_of_waitsOn hp (nextTurn?_fits ht) hw ho
  | exit code =>
    exact .aside [.exited code] rfl (fun x _ => .rfl) (.inl rfl) (by simp) rfl
  | time m hm hc now refusal =>
    exact .aside [] rfl (fun x _ => .rfl) (.inl rfl) (by simp) rfl

theorem Queued.of_step? (h : Queued s) (hs : Registered s) (hm : s.step? m = some u) :
    Queued u := by
  have hu : Registered u := hs.of_step? hm
  cases queueMove_of_step? hs h hm with
  | aside new ht hw hb he hr =>
    constructor
    · rw [ht]
      rcases hb with hb | ⟨id, -, hb⟩
      · rw [hb]
        exact h.order
      · rw [hb, List.reverse_cons]
        exact h.order.trans (List.sublist_append_left _ _)
    · intro id hid
      obtain ⟨x, hx, hi, hc⟩ := h.member id (ht ▸ hid)
      exact ⟨x, (hw x hc).mpr hx, hi, hc⟩
    · intro x hx hc
      rw [ht]
      exact h.queued x ((hw x hc).mp hx) hc
    · intro x hx hq
      rw [ht]
      exact h.head x ((hw x (hu.work hx hq)).mp hx) hq
    · intro x hx hq
      rw [requests_of_events he hr]
      exact h.asked x ((hw x (hu.work hx hq)).mp hx) hq
    · intro r hrm
      rw [requests_of_events he hr] at hrm
      rcases hb with hb | ⟨id, -, hb⟩
      · exact hb ▸ h.known r hrm
      · exact hb ▸ List.mem_cons_of_mem _ (h.known r hrm)
  | joins x new hc hst hn hq hb ht hw he hr =>
    have hreq := requests_of_waits he hr
    constructor
    · rw [ht, hb, List.reverse_cons]
      exact h.order.append (List.Sublist.refl _)
    · intro id hid
      rw [ht, List.mem_append, List.mem_singleton] at hid
      rcases hid with hid | rfl
      · obtain ⟨y, hy, hi, hcy⟩ := h.member id hid
        exact ⟨y, by simp [hw, hy], hi, hcy⟩
      · exact ⟨x, by simp [hw], rfl, hc⟩
    · intro y hy hcy
      rw [hw, List.mem_append, List.mem_singleton] at hy
      rw [ht, List.mem_append, List.mem_singleton]
      rcases hy with hy | rfl
      · exact .inl (h.queued y hy hcy)
      · exact .inr rfl
    · intro y hy hqy
      rw [hw, List.mem_append, List.mem_singleton] at hy
      rw [ht, List.head?_append]
      rcases hy with hy | rfl
      · rw [h.head y hy hqy]
        rfl
      · rw [hq.mp hqy]
        rfl
    · intro y hy hqy
      rw [hw, List.mem_append, List.mem_singleton] at hy
      rcases hy with hy | rfl
      · simp [hreq, h.asked y hy hqy]
      · simp [hreq, hqy]
    · intro r hrm
      rw [hreq, List.mem_append] at hrm
      rw [hb]
      rcases hrm with hrm | hrm
      · exact List.mem_cons_of_mem _ (h.known r hrm)
      · split at hrm
        · rw [List.mem_singleton] at hrm
          exact hrm ▸ List.mem_cons_self
        · cases hrm
  | asks x y a new hm hy hi hx hh hc hf hb ht hw he hr =>
    have hreq : u.requests = s.requests ++ [(x.id, x.wait)] := by
      rw [requests_of_waits he hr, if_pos hx]
    have old {z : Waiting} (hz : z ∈ u.waiting) : z ∈ s.waiting ∨ z = x := by
      rw [hw, List.mem_append, List.mem_singleton] at hz
      exact hz.imp_left fun hz => (List.mem_filter.mp hz).1
    constructor
    · rw [ht, hb]
      exact h.order
    · intro id hid
      obtain ⟨z, hz, hzi, hcz⟩ := h.member id (ht ▸ hid)
      by_cases hn : z.id = y.id
      · exact ⟨x, by simp [hw], by rw [hi, ← hn, hzi], hc.1 ▸ hc.2⟩
      · exact ⟨z, by simp [hw, hz, hn], hzi, hcz⟩
    · intro z hz hcz
      rw [ht]
      rcases old hz with hz | rfl
      · exact h.queued z hz hcz
      · rw [hi]
        exact h.queued y hy hc.2
    · intro z hz hqz
      rw [ht]
      rcases old hz with hz | rfl
      · exact h.head z hz hqz
      · rw [hi]
        exact hh
    · intro z hz hqz
      rcases old hz with hz | rfl
      · simp [hreq, h.asked z hz hqz]
      · simp [hreq]
    · intro r hrm
      rw [hreq, List.mem_append, List.mem_singleton] at hrm
      rw [hb]
      rcases hrm with hrm | rfl
      · exact h.known r hrm
      · simpa [hi] using hs.known y hy
  | leaves y a new hm hy hc hb ht hw he hr =>
    have old {z : Waiting} (hz : z ∈ u.waiting) : z ∈ s.waiting ∧ z.id ≠ y.id := by
      rw [hw] at hz
      simpa using hz
    constructor
    · rw [ht, hb]
      exact List.filter_sublist.trans h.order
    · intro id hid
      rw [ht, List.mem_filter] at hid
      obtain ⟨z, hz, hzi, hcz⟩ := h.member id hid.1
      have hn : z.id ≠ y.id := by
        rw [hzi]
        simpa using hid.2
      exact ⟨z, by simp [hw, hz, hn], hzi, hcz⟩
    · intro z hz hcz
      obtain ⟨hz, hn⟩ := old hz
      rw [ht, List.mem_filter]
      exact ⟨h.queued z hz hcz, by simpa using hn⟩
    · intro z hz hqz
      obtain ⟨hz, hn⟩ := old hz
      have hh : s.server.turns.head? = some z.id := h.head z hz hqz
      rw [ht]
      cases hq : s.server.turns with
      | nil => simp [hq] at hh
      | cons i rest =>
        rw [hq, List.head?_cons, Option.some.injEq] at hh
        simp [hh, hn]
    · intro z hz hqz
      rw [requests_of_events he hr]
      exact h.asked z (old hz).1 hqz
    · intro r hrm
      rw [requests_of_events he hr] at hrm
      exact hb ▸ h.known r hrm

theorem queued_step (h : Registered s ∧ Queued s) (hm : s.step? m = some u) :
    Registered u ∧ Queued u :=
  ⟨h.1.of_step? hm, h.2.of_step? h.1 hm⟩

/-- The calls on a server stay registered and queued along every run. -/
theorem queued_of_reaches {ms : List Move} (h : Registered s ∧ Queued s) (hr : Reaches s ms u) :
    Registered u ∧ Queued u :=
  hr.keeps (P := fun s => Registered s ∧ Queued s) h fun _ _ _ hm ht => queued_step ht hm.step

end System

end ServerRun.Server
