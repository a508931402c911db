import ServerRun.Proofs.Server.Rounds
import ServerRun.Proofs.Server.Settle

/-! How long a start asks for the state. Where the clock is exact and on time and no stop comes in
between, all that a start does after the launch is its loop, and the clock alone can bring the loop
to its end in time. -/

namespace ServerRun.Server

/-- The moves of the clock for one call. -/
inductive Move.Ticks (id : Nat) : Move → Prop
  | pass (length : Seconds) : Ticks id (.pass length)
  | elapsed : Ticks id (.answer id .elapsed)

namespace System

variable {l : Loop} {s u : System} {m : Move} {loop base : List (Seconds × Event)}

/-- Where the loop of a start stands: it reads the state, it sleeps, or it is over. -/
inductive Looping (l : Loop) (s : System) (loop : List (Seconds × Event)) : Prop
  | reads {n r es x} (h : l.Rounds n r es) (hx : x ∈ s.waiting) (hi : x.id = l.call)
      (hp : x.point = .readingState l.began) (hw : x.wait = .readState (.finite (l.readLimit r)))
      (hs : x.since = r) (hl : loop = es ++ [l.read r])
  | sleeps {n r es x} (a : Answer) (h : l.Rounds n r es) (hr : r ≤ x.since)
      (ht : x.since < l.deadline) (hx : x ∈ s.waiting) (hi : x.id = l.call)
      (hp : x.point = .sleeping l.began) (hw : x.wait = .sleep (l.nap x.since))
      (hl : loop = es ++ l.dozing r a x.since)
  | finished {n r es tail} (h : l.Rounds n r es) (ht : l.Tail r tail)
      (hn : ∀ x ∈ s.waiting, x.id ≠ l.call) (hl : loop = es ++ tail)
      (he : ∃ e ∈ loop, ∃ x, e.2 = .ended l.call x)

/-- What a system keeps to while the loop of a start goes on. -/
structure Steady (l : Loop) (s : System) : Prop where
  starting : Starting s
  begun : l.call ∈ s.begun
  inTime : InTime s l.call
  times : l.Times s.server

theorem Steady.of_step? (h : Steady l s) (hm : s.step? m = some u) (hl : ∀ d, m ≠ .lag d)
    (hn : ∀ id, m = .call id .stop → ∀ x ∈ s.waiting, x.point.concern ≠ .startup) :
    Steady l u where
  starting := h.starting.of_step? hm hn
  begun := mem_begun_of_step? hm h.begun
  inTime := h.inTime.of_step? hm hl
  times := h.times.of_sameSetup (sameSetup_of_step? hm)

theorem not_waiting_of_ends {id : Nat} {now : Seconds} {call : Call} {t : Turn} (ht : t.Ends)
    (hw : u.waiting = s.waiting.filter (·.id != id) ++ waitAfter now id call t) :
    ∀ x ∈ u.waiting, x.id ≠ id := by
  intro x hx
  rw [hw, List.mem_append, List.mem_filter] at hx
  rcases hx with hx | hx
  · simpa using hx.2
  · exact absurd (mem_waitAfter hx).1 (ht _ _)

theorem Looping.of_finishes {n : Nat} {r now : Seconds} {es tail : List (Seconds × Event)}
    {a : Answer} {call : Call} {t : Turn} (h : l.Rounds n r es) (ht : l.Tail r tail)
    (hf : l.Finishes now t) (hn : now ≤ l.deadline + l.poll)
    (hw : u.waiting = s.waiting.filter (·.id != l.call) ++ waitAfter now l.call call t) :
    Looping l u (es ++ tail ++
      (now, .answered l.call a) :: (t.events l.call).map fun e => (now, e)) := by
  obtain ⟨e, he, hend⟩ := hf.ended
  refine .finished h (ht.append ?_ ?_) (not_waiting_of_ends hf.ends hw) (List.append_assoc ..)
    ⟨e, by simp [he], hend⟩
  · exact List.forall_mem_cons.mpr ⟨rfl, fun e he => (hf.of_mem_events hn e he).1⟩
  · exact List.forall_mem_cons.mpr
      ⟨Loop.inBounds_of_le hn (by simp), fun e he => (hf.of_mem_events hn e he).2⟩

/-- The loop looks at the server when whole rounds are over. -/
theorem Looping.of_look {v : Server} {n : Nat} {w : Surroundings} {es : List (Seconds × Event)}
    {call : Call} (hv : l.Times v) (h : l.Rounds n w.now es)
    (hw : u.waiting = s.waiting.filter (·.id != l.call) ++
      waitAfter w.now l.call call (v.look w l.began)) :
    Looping l u (es ++ ((v.look w l.began).events l.call).map fun e => (w.now, e)) := by
  rcases hv.look w with hlook | ⟨v', f, hlook, hf⟩ <;> rw [hlook] at hw ⊢
  · refine .reads (x := ⟨l.call, call, .readingState l.began,
      .readState (.finite (l.readLimit w.now)), w.now⟩) h ?_ rfl rfl rfl rfl rfl
    rw [hw]
    exact List.mem_append_right _ List.mem_cons_self
  · have hfin : l.Finishes w.now (v'.raise f) := Loop.finishes_of_raise hf
    have hn := Loop.le_of_le_deadline h.le_deadline
    obtain ⟨e, he, hend⟩ := hfin.ended
    refine .finished h ⟨⟨_, [], rfl, by simp⟩, ?_⟩ (not_waiting_of_ends hfin.ends hw) rfl
      ⟨e, List.mem_append_right _ he, hend⟩
    exact fun e he => (hfin.of_mem_events hn e he).2

theorem Looping.of_step? (h : Looping l s loop) (hs : Steady l s) (hm : s.step? m = some u)
    (hf : ∀ elapsed limit, m ≠ .answer l.call (.failed (.run (.startupTimeout elapsed limit)))) :
    ∃ new, u.trace l.call = s.trace l.call ++ new ∧ Looping l u (loop ++ new) := by
  cases ownMove_of_step? hm l.call with
  | aside hc ha ht hw =>
    refine ⟨[], by rw [ht, List.append_nil], ?_⟩
    rw [List.append_nil]
    cases h with
    | reads h hx hi hp hwt hsince hl => exact .reads h ((hw _ hi).mpr hx) hi hp hwt hsince hl
    | sleeps a h hr ht hx hi hp hwt hl => exact .sleeps a h hr ht ((hw _ hi).mpr hx) hi hp hwt hl
    | finished h ht hn hl he =>
      exact .finished h ht (fun x hx hi => hn x ((hw x hi).mp hx) hi) hl he
  | begins call t hc hb => exact absurd hs.begun hb
  | answered y a t hc hy hi ha ht hu hw hn htr =>
    refine ⟨_, htr, ?_⟩
    obtain ⟨hsince, hend⟩ := hs.inTime y hy hi
    cases h with
    | finished h htail hnone => exact absurd hi (hnone y hy)
    | @reads n r es x h hx hxi hp hwt hr hloop =>
      obtain rfl := hs.starting.registered.eq_of_id hy hx (hi.trans hxi.symm)
      subst hr hloop
      have hlimit := hend _ (by rw [hwt]; rfl)
      rw [max_eq_left Loop.readLimit_pos.le] at hlimit
      have hnow : s.now ≤ l.deadline + l.poll := hlimit.trans h.add_readLimit_le
      rw [hp] at ht
      rcases hs.times.read (fun elapsed limit he => hf elapsed limit (he ▸ hc)) ht with
        ⟨hd, rfl⟩ | hfin
      · refine .sleeps (x := ⟨l.call, y.call, .sleeping l.began, .sleep (l.nap s.now), s.now⟩) a h
          hsince hd ?_ rfl rfl rfl ?_
        · rw [hw]
          exact List.mem_append_right _ List.mem_cons_self
        · rw [List.append_assoc]
          rfl
      · exact .of_finishes h h.tail_read hfin hnow hw
    | @sleeps n r es x a' h hr htold hx hxi hp hwt hloop =>
      obtain rfl := hs.starting.registered.eq_of_id hy hx (hi.trans hxi.symm)
      subst hloop
      have hlimit := hend _ (by rw [hwt]; rfl)
      rw [max_eq_left (Loop.nap_pos htold).le] at hlimit
      have hnow : s.now ≤ l.deadline := hlimit.trans Loop.add_nap_le
      have hbound := Loop.le_of_le_deadline hnow
      rw [hp] at ht
      cases a <;> simp [nextTurn?] at ht
      case cancelled =>
        subst ht
        exact .of_finishes h (Loop.tail_dozing a' hr htold) (Loop.finishes_of_raise (by simp))
          hbound hw
      case elapsed =>
        subst ht
        have hover : l.nap y.since ≤ s.now - y.since := by
          simpa [admits, hwt, Wait.limit?, Span.reachedBy] using ha
        have heq : y.since + l.nap y.since = s.now := by linarith
        have hnext := h.next a' y.since hr htold
        rw [heq] at hnext
        rw [List.append_assoc, ← List.singleton_append, ← List.append_assoc (l.dozing ..),
          ← List.append_assoc es]
        exact .of_look hs.times hnext hw

theorem Looping.polling (h : Looping l s loop) : l.Polling loop := by
  cases h with
  | reads h hx hi hp hw hs hl => exact hl ▸ h.polling h.tail_read
  | sleeps a h hr ht hx hi hp hw hl => exact hl ▸ h.polling (Loop.tail_dozing a hr ht)
  | finished h ht hn hl he => exact hl ▸ h.polling ht

/-! ### the end of the loop -/

/-- A call has just ended, by a moment. -/
def HasEnded (id : Nat) (latest : Seconds) (s : System) : Prop :=
  (∃ r, s.events.getLast? = some (.ended id r)) ∧ s.now ≤ latest

/-- The clock alone can bring a call to its end by a moment. -/
abbrev CanEnd (s : System) (id : Nat) (latest : Seconds) : Prop :=
  CanLead step? (fun _ m => m.Ticks id) (HasEnded id latest) s

theorem Starting.unlimited (h : Starting s) {x y : Waiting} (hx : x ∈ s.waiting)
    (hc : x.point.concern = .startup) (hy : y ∈ s.waiting) (hne : y ≠ x) (d : Seconds) :
    y.wait.limit? ≠ some (.finite d) := by
  refine h.registered.unlimited hx hy hne (fun hcy => ?_) d
  rcases hcy with hcy | hcy
  · exact h.orderly.oneStart y hy x hx hcy hc
  · exact absurd hcy (h.not_stop hx hc hy)

theorem Steady.of_ticks {id : Nat} {ms : List Move} (h : Steady l s) (hl : Leads step? s ms u)
    (hm : ∀ m ∈ ms, m.Ticks id) : Steady l u := by
  refine hl.keeps h fun t m v hmade ht => ?_
  obtain ⟨before, after, rfl, -, hstep⟩ := hmade
  have htick : m.Ticks id := hm m (by simp)
  refine ht.of_step? hstep ?_ ?_ <;> intro <;> rintro rfl <;> cases htick

/-- The clock goes on to the end of a wait of the start. -/
theorem Steady.exists_ticks (h : Steady l s) {x : Waiting} {d : Seconds} (hx : x ∈ s.waiting)
    (hi : x.id = l.call) (hc : x.point.concern = .startup)
    (hd : x.wait.limit? = some (.finite d)) (hpos : 0 < d) :
    ∃ ms, Leads step? s ms { s with now := x.since + d } ∧ (∀ m ∈ ms, m.Ticks l.call) ∧
      Steady l { s with now := x.since + d } := by
  obtain ⟨ms, now, hl, hpass, -, hle⟩ := exists_passing hd fun y hy hne =>
    h.starting.unlimited hx hc hy hne
  have hm : ∀ m ∈ ms, m.Ticks l.call := by
    intro m hm
    obtain ⟨d, rfl⟩ := hpass m hm
    exact .pass d
  have hsteady := h.of_ticks hl hm
  have hend := (hsteady.inTime x hx hi).2 d hd
  rw [max_eq_left hpos.le] at hend
  obtain rfl : now = x.since + d := le_antisymm hend (by linarith)
  exact ⟨ms, hl, hm, hsteady⟩

theorem canEnd_of_finishes {x : Waiting} {latest : Seconds} {a : Answer} {t : Turn}
    (hm : s.step? (.answer x.id a) = some u) (ha : (Move.answer x.id a).Ticks x.id)
    (ht : u.events.getLast? = some (t.outcome.event x.id)) (hf : t.Ends) (hn : u.now ≤ latest) :
    CanEnd s x.id latest := by
  obtain ⟨r, hr⟩ : ∃ r, t.outcome.event x.id = .ended x.id r := by
    cases ho : t.outcome with
    | paused p w => exact absurd ho (hf p w)
    | returned code => exact ⟨_, rfl⟩
    | raised f => exact ⟨_, rfl⟩
  exact .of_step? (.of_goal ⟨⟨r, by rw [ht, hr]⟩, hn⟩) hm ha

theorem Steady.canEnd_of_reads (h : Steady l s) {n : Nat} {r : Seconds}
    {es : List (Seconds × Event)} {x : Waiting} (hr : l.Rounds n r es) (hx : x ∈ s.waiting)
    (hi : x.id = l.call) (hp : x.point = .readingState l.began)
    (hw : x.wait = .readState (.finite (l.readLimit r))) (hs : x.since = r) :
    CanEnd s l.call (l.deadline + l.poll) := by
  subst hs
  obtain ⟨ms, hlead, hm, hnext⟩ := h.exists_ticks hx hi (by rw [hp]; rfl) (by rw [hw]; rfl)
    Loop.readLimit_pos
  rcases hnext.times.sleepOrGiveUp ⟨x.since + l.readLimit x.since, s.refusal⟩ with
    ⟨hlt, -⟩ | ⟨-, hfin⟩
  · exact absurd hlt (not_lt.mpr Loop.le_add_readLimit)
  · have hstep := hnext.starting.registered.step?_answer (x := x) (a := .elapsed) hx
      (by simp [admits, hw, Wait.limit?, Span.reachedBy])
      (by rw [hp]; simp only [nextTurn?, stateRead, reduceCtorEq, ite_false]; rfl)
    rw [← hi] at hm ⊢
    refine (canEnd_of_finishes hstep .elapsed getLast?_take hfin.ends ?_).of_leads hlead fun _ => hm
    rw [take_now]
    exact hr.add_readLimit_le

theorem Looping.canEnd (h : Looping l s loop) (hs : Steady l s) :
    (∃ e ∈ loop, ∃ x, e.2 = .ended l.call x) ∨
      s.now ≤ l.deadline + l.poll ∧ CanEnd s l.call (l.deadline + l.poll) := by
  cases h with
  | finished h ht hn hl he => exact .inl he
  | @reads n r es x h hx hi hp hw hr hl =>
    subst hr
    have hend := (hs.inTime x hx hi).2 (l.readLimit x.since) (by rw [hw]; rfl)
    rw [max_eq_left Loop.readLimit_pos.le] at hend
    exact .inr ⟨hend.trans h.add_readLimit_le, hs.canEnd_of_reads h hx hi hp hw rfl⟩
  | @sleeps n r es x a h hr ht hx hi hp hw hl =>
    have hnap := Loop.nap_pos ht
    have hend := (hs.inTime x hx hi).2 (l.nap x.since) (by rw [hw]; rfl)
    rw [max_eq_left hnap.le] at hend
    refine .inr ⟨Loop.le_of_le_deadline (hend.trans Loop.add_nap_le), ?_⟩
    obtain ⟨ms, hlead, hm, hnext⟩ := hs.exists_ticks hx hi (by rw [hp]; rfl) (by rw [hw]; rfl) hnap
    have hlook := hnext.times.look ⟨x.since + l.nap x.since, s.refusal⟩
    have hstep := hnext.starting.registered.step?_answer (x := x) (a := .elapsed)
      (t := s.server.look ⟨x.since + l.nap x.since, s.refusal⟩ l.began) hx
      (by simp [admits, hw, Wait.limit?, Span.reachedBy]) (by rw [hp]; rfl)
    rw [← hi] at hm ⊢
    refine CanLead.of_leads ?_ hlead fun _ => hm
    rcases hlook with hlook | ⟨v, f, hlook, -⟩ <;> rw [hlook] at hstep
    · have hread := (hnext.of_step? hstep (by simp) (by simp)).canEnd_of_reads
        (x := ⟨x.id, x.call, .readingState l.began,
          .readState (.finite (l.readLimit (x.since + l.nap x.since))), x.since + l.nap x.since⟩)
        (h.next a x.since hr ht) (by simp [waitAfter, pause]) hi rfl rfl rfl
      rw [← hi] at hread
      exact hread.of_step? hstep .elapsed
    · refine canEnd_of_finishes hstep .elapsed getLast?_take (raise_ends f) ?_
      rw [take_now]
      exact Loop.le_of_le_deadline Loop.add_nap_le

/-- The launch of the child begins the loop. -/
theorem Looping.of_launched {pid : Int} (ht : l.Times s.server) (hnow : s.now = l.began)
    (hm : s.step? (.answer l.call (.launched pid none)) = some u) :
    ∃ loop, u.trace l.call =
      s.trace l.call ++ (l.began, .answered l.call (.launched pid none)) :: loop ∧
        Looping l u loop := by
  cases ownMove_of_step? hm l.call with
  | aside hc ha => exact absurd rfl (ha _)
  | begins call t hc => cases hc
  | answered x a t ha hx hi had hf hu hw hn htr =>
    cases ha
    rw [hnow] at htr hw
    refine ⟨_, htr, ?_⟩
    cases hp : x.point <;> rw [hp] at hf <;> simp [nextTurn?] at hf
    subst hf
    have hlook : s.server.launched s.surroundings pid none =
        ({ s.server with child := some { pid }, listening := true, connected := true } :
          Server).look ⟨l.began, s.refusal⟩ l.began := by
      rw [← hnow]
      rfl
    rw [hlook] at hw ⊢
    refine .of_look (w := ⟨l.began, s.refusal⟩) ?_ .none hw
    exact ht.of_sameSetup ⟨rfl, rfl, rfl, rfl⟩

theorem Unraced.of_step? {ms : List Move} (h : Unraced s (m :: ms)) (hm : s.step? m = some u) :
    Unraced u ms := fun t id v hv => h t id v (hv.cons hm)

theorem Unraced.of_leads {ms ns : List Move} (h : Unraced s (ms ++ ns)) (hl : Leads step? s ms u) :
    Unraced u ns := by
  induction hl with
  | refl => exact h
  | step hm _ ih => exact ih (h.of_step? hm)

theorem Unraced.not_startup {ms : List Move} (h : Unraced s (m :: ms)) (hm : s.step? m = some u)
    (hs : Starting s) (id : Nat) (hid : m = .call id .stop) :
    ∀ x ∈ s.waiting, x.point.concern ≠ .startup := by
  subst hid
  exact fun x hx hc => h s id u (.first hm) x hx ((hs.concern hx).mp hc)

theorem Looping.of_leads {ms : List Move} (h : Looping l s loop) (hs : Steady l s)
    (hr : Unraced s ms) (hl : ∀ d, .lag d ∉ ms)
    (hf : ∀ elapsed limit, .answer l.call (.failed (.run (.startupTimeout elapsed limit))) ∉ ms)
    (hu : Leads step? s ms u) :
    Steady l u ∧ ∃ new, u.trace l.call = s.trace l.call ++ new ∧ Looping l u (loop ++ new) := by
  induction hu generalizing loop with
  | refl s => exact ⟨hs, [], by simp, by simpa using h⟩
  | step hm _ ih =>
    obtain ⟨new, hnew, hnext⟩ := h.of_step? hs hm fun elapsed limit he =>
      hf elapsed limit (he ▸ List.mem_cons_self)
    have hsteady := hs.of_step? hm (fun d hd => hl d (hd ▸ List.mem_cons_self))
      (hr.not_startup hm hs.starting)
    obtain ⟨hlast, more, hmore, hloop⟩ := ih hnext hsteady (hr.of_step? hm)
      (fun d hd => hl d (List.mem_cons_of_mem _ hd))
      fun elapsed limit he => hf elapsed limit (List.mem_cons_of_mem _ he)
    refine ⟨hlast, new ++ more, ?_, ?_⟩
    · rw [hmore, hnew, List.append_assoc]
    · rwa [← List.append_assoc]

/-- The loop of a start that no stop races, on a clock that is exact and on time: it keeps to the
limit and the interval of the server, and as long as it is not over, the clock alone can bring it to
its end in time. -/
theorem polling_of_launched (info : Installation) (grace : Span) (l : Loop)
    {before after : List Move} {pid : Int} {t : System}
    (hlimit : Span.ofBinary64 info.startupTimeout = .finite l.limit)
    (hr : Unraced (.ofServer { info, poll := l.poll, grace })
      (before ++ .answer l.call (.launched pid none) :: after))
    (hl : ∀ d, .lag d ∉ before ++ .answer l.call (.launched pid none) :: after)
    (hf : ∀ elapsed limit, .answer l.call (.failed (.run (.startupTimeout elapsed limit))) ∉ after)
    (hb : Reaches (.ofServer { info, poll := l.poll, grace }) before t) (hnow : t.now = l.began)
    (ha : Reaches t (.answer l.call (.launched pid none) :: after) s) :
    ∃ loop, s.trace l.call =
        t.trace l.call ++ (l.began, .answered l.call (.launched pid none)) :: loop ∧
      l.Polling loop ∧
      ((∃ e ∈ loop, ∃ x, e.2 = .ended l.call x) ∨
        s.now ≤ l.began + l.limit + l.poll ∧ CanEnd s l.call (l.began + l.limit + l.poll)) := by
  have hstarting : Starting t := hr.starting_of_leads (starting_ofServer _ _ _ _) hb
  have htimes : l.Times t.server := by
    have hfirst : l.Times { info, poll := l.poll, grace } := ⟨hlimit, rfl, rfl⟩
    exact hfirst.of_sameSetup (sameSetup_of_leads hb)
  have hinTime : InTime t l.call :=
    (inTime_ofServer _ _).of_leads hb fun d hd => hl d (List.mem_append_left _ hd)
  cases ha with
  | step hlaunch hrest =>
    have hsteady : Steady l t :=
      ⟨hstarting, hstarting.registered.mem_begun_of_answer hlaunch, hinTime, htimes⟩
    obtain ⟨loop, htrace, hloop⟩ := Looping.of_launched htimes hnow hlaunch
    obtain ⟨hlast, new, hnew, hloop⟩ := hloop.of_leads
      (hsteady.of_step? hlaunch (by simp) (by simp)) ((hr.of_leads hb).of_step? hlaunch)
      (fun d hd => hl d (by simp [hd])) hf hrest
    refine ⟨loop ++ new, ?_, hloop.polling, hloop.canEnd hlast⟩
    rw [hnew, htrace, List.append_assoc, List.cons_append]

/-- A server that is never ready within three seconds, and is looked at every two. -/
def tardyServer : Server :=
  { mortalServer with
    info := { mortalServer.info with startupTimeout := .ofInt 3 }
    poll := 2 }

def tardyLoop : Loop := ⟨0, 3, 2, 0, by decide +kernel, by decide +kernel⟩

/-- The third read begins at the limit and hangs: the loop takes as many reads and as long as it
can. -/
def tardyAnswers : List Move :=
  [.answer 0 (.state (some "starting")), .pass 2, .answer 0 .elapsed,
    .answer 0 (.state (some "starting")), .pass 1, .answer 0 .elapsed, .pass 2, .answer 0 .elapsed]

theorem polling_of_tardyAnswers :
    ∃ t s, Reaches (.ofServer tardyServer) [.call 0 .start] t ∧
      Reaches t (.answer 0 (.launched 4242 none) :: tardyAnswers) s ∧
      s.now = 5 ∧ s.server.state = .failed ∧ (s.trace 0).countP (·.2.isRead) = 3 ∧
      ∃ loop, s.trace 0 = t.trace 0 ++ (0, .answered 0 (.launched 4242 none)) :: loop ∧
        tardyLoop.Polling loop := by
  have hrun : (([.call 0 .start].foldlM step? (.ofServer tardyServer)).any fun t =>
      t.now == 0 && ((.answer 0 (.launched 4242 none) :: tardyAnswers).foldlM step? t).any fun s =>
        s.now == 5 && s.server.state == .failed && (s.trace 0).countP (·.2.isRead) == 3) =
          true := by
    decide +kernel
  obtain ⟨t, ht, hfacts⟩ := (Option.any_eq_true ..).mp hrun
  rw [Bool.and_eq_true, beq_iff_eq] at hfacts
  obtain ⟨s, hs, hlast⟩ := (Option.any_eq_true ..).mp hfacts.2
  simp only [Bool.and_eq_true, beq_iff_eq] at hlast
  obtain ⟨⟨hnow, hstate⟩, hreads⟩ := hlast
  obtain ⟨loop, htrace, hpolling, -⟩ := polling_of_launched tardyServer.info tardyServer.grace
    tardyLoop (by decide +kernel) (unraced_of_no_stop fun id h => by simp [tardyAnswers] at h)
    (fun d h => by simp [tardyAnswers] at h) (fun elapsed limit h => by simp [tardyAnswers] at h)
    (leads_iff.mpr ht) hfacts.1 (leads_iff.mpr hs)
  exact ⟨t, s, leads_iff.mpr ht, leads_iff.mpr hs, hnow, hstate, hreads, loop, htrace, hpolling⟩

end System

end ServerRun.Server
