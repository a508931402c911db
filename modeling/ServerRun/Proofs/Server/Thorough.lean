import ServerRun.Proofs.Server.Escalation

/-! Stops that escalate to the end. A stop that was not cancelled on its way leaves a child that is
dead, or one that was sent every signal and outlived the grace period after each. This is so exactly
where the first signal is never denied. -/

namespace ServerRun.Server.System

variable {s u : System} {m : Move}

/-- A stop is cancelled while it waits for the child's death, now or later. -/
def CutShort (start : System) (ms : List Move) : Prop :=
  ∃ s x u, Makes step? start ms s (.answer x.id .cancelled) u ∧ x ∈ s.waiting ∧
    x.point.left? ≠ none

/-- A run whose stops escalate to the end. When a stop has begun to act, waits for the child's death
no more and was not cancelled before, the child is dead, or every signal was sent and each that was
not denied was waited out. -/
def Thorough (start : System) (ms : List Move) : Prop :=
  ∀ before after s, ms = before ++ after → Leads step? start before s →
    s.server.stopping = true → s.IsPast → ¬ CutShort start before →
      s.server.exitCode? ≠ none ∨
        s.signals = [.terminate, .kill] ∧
          ∀ x t m u, Makes step? start before t m u → u.signals = t.signals ++ [x] →
            (∀ message, t.refusal x ≠ some (.denied message)) → s.WaitedOut x

theorem IsPast.of_step? (h : s.IsPast) (hp : s.server.stopping = true) (hr : Registered s)
    (hst : Stage s) (hm : s.step? m = some u) :
    u.IsPast ∧ u.server.stopping = true := by
  cases escalationMove_of_step? hr hst hm with
  | aside hp' hs hw =>
    refine ⟨fun x hx => Classical.byContradiction fun hl => ?_, hp'.trans hp⟩
    exact hl (h x ((hw x hl).mp hx))
  | turn id left t hb => exact absurd h (hb hp)
  | cut x hm hx hl => exact absurd (h x hx) hl

/-- Past the escalation, the child is dead, or every signal was sent, or the stop was cancelled or
its first signal denied. -/
def Reasoned (cut denied : Prop) (s : System) : Prop :=
  s.server.stopping = true → s.IsPast →
    s.server.exitCode? ≠ none ∨ s.signals = [.terminate, .kill] ∨ cut ∨ denied

theorem Reasoned.of_step? {cut denied : Prop} (h : Reasoned cut denied s) (hr : Registered s)
    (hst : Stage s) (hm : s.step? m = some u)
    (hcut : ∀ x ∈ s.waiting, x.point.left? ≠ none → m = .answer x.id .cancelled → cut)
    (hdenied : u.signals = s.signals ++ [.terminate] →
      ∀ message, s.refusal .terminate = some (.denied message) → denied) :
    Reasoned cut denied u := by
  intro hp hpast
  cases escalationMove_of_step? hr hst hm with
  | aside hp' hs hw =>
    have hold : s.IsPast := fun x hx => Classical.byContradiction fun hl =>
      hl (hpast x ((hw x hl).mpr hx))
    rw [hs]
    refine (h (hp'.symm.trans hp) hold).imp_left fun he => ?_
    exact ((actMove_of_step? hr hm).of_exitCode? hst he).1
  | cut x hm hx hl hs => exact .inr (.inr (.inl (hcut x hx hl hm)))
  | turn id left t hb hn ht hall hp' hd hs hw ho =>
    rw [hd, hs]
    cases ht with
    | stays hl hsig hout =>
      obtain ⟨call, hx⟩ := ho _ _ hout
      rw [hpast _ hx] at hl
      cases hl
    | sends effects hl hr' hsig he hout =>
      obtain ⟨call, hx⟩ := ho _ _ hout
      cases hpast _ hx
    | leaves hdead hsig hout =>
      refine hdead.imp_right fun hl => .inl ?_
      rw [hsig, List.append_nil]
      simpa [hl] using hall
    | @denied signal rest message hl hdead hrefused hsig hout =>
      rw [hl] at hall
      rw [hsig] at hs ⊢
      cases hsent : s.signals with
      | nil =>
        rw [hsent] at hall
        obtain rfl : signal = .terminate := (List.cons.inj hall).1
        exact .inr (.inr (.inr (hdenied hs message hrefused)))
      | cons first more =>
        rw [hsent] at hall
        refine .inr (.inl ?_)
        cases more with
        | nil =>
          simp only [List.cons_append, List.nil_append, List.cons.injEq] at hall
          rw [hall.1, hall.2.1]
          rfl
        | cons second more => simp at hall

/-! ### waiting after a signal -/

/-- A stop has just sent a signal and waits for the child's death. -/
structure Awaits (s : System) (x : Signal) (y : Waiting) : Prop where
  mem : y ∈ s.waiting
  point : ∃ previous rest, y.point = .awaitingDeath previous rest
  wait : y.wait = .exit (some s.server.grace)
  sent : [(y.since, .effect y.id (.signal x)), (y.since, .waits y.id y.wait)] <:+ s.trace y.id

theorem trace_of_step? (hm : s.step? m = some u) (id : Nat) : s.trace id <+: u.trace id := by
  cases ownMove_of_step? hm id with
  | aside hc ha ht => exact ht ▸ List.prefix_refl _
  | begins call t hc hb hf hs hw hn ht =>
    rw [ht]
    exact List.prefix_append ..
  | answered x a t hc hx hi ha hf hs hw hn ht =>
    rw [ht]
    exact List.prefix_append ..

theorem WaitedOut.of_step? {x : Signal} (h : s.WaitedOut x) (hm : s.step? m = some u) :
    u.WaitedOut x := by
  obtain ⟨id, sent, told, hin, htold⟩ := h
  rw [← (sameSetup_of_step? hm).grace] at hin htold
  exact ⟨id, sent, told, hin.trans (trace_of_step? hm id).isInfix, htold⟩

/-- What a move that sends a signal comes to: the stop waits for the child's death after it, or the
signal is denied and the stop is past its escalation. -/
inductive Sending (s u : System) (x : Signal) : Prop
  | awaited (y : Waiting) (hd : ∀ message, s.refusal x ≠ some (.denied message))
      (hy : u.Awaits x y)
  | denied (message : String) (hd : s.refusal x = some (.denied message)) (hu : u.IsPast)
      (hp : u.server.stopping = true) (he : u.server.exitCode? = none)

theorem sending_of_step? {x : Signal} (hr : Registered s) (hst : Stage s) (hm : s.step? m = some u)
    (hs : u.signals = s.signals ++ [x]) :
    Sending s u x ∧ (s.server.stopping = true → ¬ s.IsPast) ∧ ∀ id, m ≠ .answer id .cancelled := by
  have grows {rest : List Signal} (hu : u.signals = s.signals ++ rest) : rest = [x] :=
    List.append_cancel_left (hu.symm.trans hs)
  cases escalationMove_of_step? hr hst hm with
  | aside hp hsame => cases grows (hsame.trans (List.append_nil _).symm)
  | cut y hc hy hl hsame => cases grows (hsame.trans (List.append_nil _).symm)
  | turn id left t hb hn ht hall hp he hsig hw ho htr =>
    refine ⟨?_, hb, hn⟩
    have hsent := grows hsig
    cases ht with
    | stays hl hnone => cases hnone.symm.trans hsent
    | leaves hdead hnone => cases hnone.symm.trans hsent
    | @denied signal rest message hl hdead hrefused hone hout =>
      obtain rfl := (List.cons.inj (hone.symm.trans hsent)).1
      refine .denied message hrefused (fun y hy => ?_) hp (he.trans hdead)
      exact Classical.byContradiction fun hleft => hleft (hout _ _ (hw y hy hleft))
    | @sends signal rest previous effects hl hallowed hone heffects hout =>
      obtain rfl := (List.cons.inj (hone.symm.trans hsent)).1
      obtain ⟨call, hy⟩ := ho _ _ hout
      obtain ⟨past, htr⟩ := htr
      refine .awaited _ hallowed ⟨hy, ⟨previous, rest, rfl⟩, ?_, ?_⟩
      · rw [(sameSetup_of_step? hm).grace]
      · refine ⟨past ++ (effects.map (.effect id)).map fun e => (s.now, e), ?_⟩
        rw [htr, Turn.events, heffects, hout]
        simp [Outcome.event]

/-- The stop still waits after a signal, it has waited for the whole grace period, the child is
dead, or the stop was cancelled. -/
def Pursued (cut : Prop) (s : System) (x : Signal) : Prop :=
  (∃ y, s.Awaits x y) ∨ s.WaitedOut x ∨ s.server.exitCode? ≠ none ∨ cut

theorem Awaits.of_step? {cut : Prop} {x : Signal} {y : Waiting} (h : s.Awaits x y)
    (hr : Registered s) (hst : Stage s) (hm : s.step? m = some u)
    (hcut : m = .answer y.id .cancelled → cut) : Pursued cut u x := by
  have hgrace := (sameSetup_of_step? hm).grace
  obtain ⟨previous, rest, hp⟩ := h.point
  cases ownMove_of_step? hm y.id with
  | aside hc ha ht hw =>
    exact .inl ⟨y, (hw y rfl).mpr h.mem, h.point, hgrace ▸ h.wait, ht ▸ h.sent⟩
  | begins call t hc hb => exact absurd (hr.known y h.mem) hb
  | answered z a t hc hz hi ha hf hs hw hn ht =>
    obtain rfl := hr.eq_of_id hz h.mem hi
    rw [hp] at hf
    cases a <;> simp [nextTurn?] at hf
    case cancelled => exact .inr (.inr (.inr (hcut hc)))
    case exited code =>
      have hcode : s.server.exitCode? = some code := by simpa [admits] using ha
      have hdead := (actMove_of_step? hr hm).of_exitCode? hst (by simp [hcode])
      exact .inr (.inr (.inl hdead.1))
    case elapsed =>
      obtain ⟨past, hsent⟩ := h.sent
      refine .inr (.inl ⟨z.id, z.since, s.now, ⟨past, (t.events z.id).map fun e => (s.now, e), ?_⟩,
        ?_⟩)
      · rw [ht, ← hsent, h.wait, hgrace]
        simp
      · simpa [hgrace, admits, h.wait, Wait.limit?] using ha

theorem Pursued.of_step? {cut : Prop} {x : Signal} (h : Pursued cut s x) (hr : Registered s)
    (hst : Stage s) (hm : s.step? m = some u)
    (hcut : ∀ y ∈ s.waiting, y.point.left? ≠ none → m = .answer y.id .cancelled → cut) :
    Pursued cut u x := by
  rcases h with ⟨y, h⟩ | h | h | h
  · obtain ⟨previous, rest, hp⟩ := h.point
    exact h.of_step? hr hst hm (hcut y h.mem (by simp [hp, Point.left?]))
  · exact .inr (.inl (h.of_step? hm))
  · exact .inr (.inr (.inl ((actMove_of_step? hr hm).of_exitCode? hst h).1))
  · exact .inr (.inr (.inr h))

/-! ### whole runs -/

theorem IsPast.of_leads {ms : List Move} (h : s.IsPast) (hp : s.server.stopping = true)
    (hr : Registered s) (hst : Stage s) (hu : Leads step? s ms u) :
    u.IsPast ∧ u.server.stopping = true := by
  induction hu with
  | refl => exact ⟨h, hp⟩
  | step hm _ ih =>
    obtain ⟨hpast, hstop⟩ := h.of_step? hp hr hst hm
    exact ih hpast hstop (hr.of_step? hm) (hst.of_actMove (actMove_of_step? hr hm))

theorem isPast_of_cancelled {x : Waiting} (hr : Registered s) (hst : Stage s) (hx : x ∈ s.waiting)
    (hl : x.point.left? ≠ none) (hm : s.step? (.answer x.id .cancelled) = some u) :
    u.IsPast ∧ u.server.stopping = true := by
  obtain ⟨left, hleft⟩ := Option.ne_none_iff_exists'.mp hl
  obtain ⟨hp, -, hacting⟩ := hst.of_left hx hleft
  cases ownMove_of_step? hm x.id with
  | aside hc ha => exact absurd rfl (ha .cancelled)
  | begins call t hc => cases hc
  | answered y a t hc hy hi ha hf hs hw =>
    cases hc
    obtain rfl := hr.eq_of_id hy hx hi
    obtain ⟨previous, ht⟩ := nextTurn?_cancelled_of_left hl hf
    refine ⟨fun z hz => Classical.byContradiction fun hzl => ?_, ?_⟩
    · rw [hw, List.mem_append, List.mem_filter] at hz
      rcases hz with hz | hz
      · have hmem := mem_acting hz.1 hzl
        rw [hacting, List.mem_singleton] at hmem
        simp [hmem] at hz
      · have hout := (mem_waitAfter hz).1
        rw [ht] at hout
        exact hzl (release_left? hout)
    · rw [hs, nextTurn?_stopping hf, hp]

/-- A stop that sends a signal was not cut short before. -/
theorem not_cutShort_of_sending {start : System} {before : List Move} {x : Signal}
    (hstage : ∀ ms s, Leads step? start ms s → Registered s ∧ Stage s)
    (hb : Leads step? start before s) (hm : s.step? m = some u)
    (hs : u.signals = s.signals ++ [x]) : ¬ CutShort start (before ++ [m]) := by
  obtain ⟨hr, hst⟩ := hstage _ _ hb
  obtain ⟨-, hpast, hcancel⟩ := sending_of_step? hr hst hm hs
  rintro ⟨v, y, w, ⟨first, last, hms, hv, hstep⟩, hy, hl⟩
  rcases List.eq_nil_or_concat' last with rfl | ⟨last, z, rfl⟩
  · exact hcancel y.id (List.singleton_inj.mp (List.append_inj' hms rfl).2)
  · rw [← List.cons_append, ← List.append_assoc] at hms
    obtain rfl := (List.append_inj' hms rfl).1
    obtain ⟨hrv, hstv⟩ := hstage _ _ hv
    obtain ⟨hw, hp⟩ := isPast_of_cancelled hrv hstv hy hl hstep
    have hrest : Leads step? w last s := by
      have hfirst := hv.append (.step hstep (.refl w))
      refine Leads.rest ?_ hfirst
      rwa [List.append_assoc]
    obtain ⟨hs, hp⟩ := hw.of_leads hp (hrv.of_step? hstep)
      (hstv.of_actMove (actMove_of_step? hrv hstep)) hrest
    exact hpast hp hs

theorem registered_and_stage (info : Installation) (poll : Seconds) (grace : Span)
    (rounding : Seconds → Seconds) (ms : List Move) (s : System)
    (h : Reaches (.ofServer { info, poll, grace, rounding }) ms s) : Registered s ∧ Stage s :=
  h.keeps (P := fun s => Registered s ∧ Stage s) ⟨registered_ofServer _, stage_ofServer rfl rfl⟩
    fun _ _ _ hm ht => ⟨ht.1.of_step? hm.step, ht.2.of_actMove (actMove_of_step? ht.1 hm.step)⟩

section

variable {start : System} {before : List Move}
  (stage : ∀ ms s, Leads step? start ms s → Registered s ∧ Stage s)
include stage

/-- Where no first signal is denied, only the reasons that remain end the escalation. -/
theorem reasoned_of_leads (hb : Leads step? start before s)
    (hs : Reasoned (CutShort start before) False start)
    (hn : ∀ t m u, Makes step? start before t m u → u.signals = t.signals ++ [.terminate] →
      ∀ message, t.refusal .terminate ≠ some (.denied message)) :
    Reasoned (CutShort start before) False s := by
  refine hb.keeps (P := Reasoned _ False) hs fun v m w hm hv => ?_
  obtain ⟨hr, hst⟩ : Registered v ∧ Stage v := by
    obtain ⟨first, last, -, hlead, -⟩ := hm
    exact stage _ _ hlead
  exact hv.of_step? hr hst hm.step (fun x hx hl hc => ⟨v, x, w, hc ▸ hm, hx, hl⟩) (hn v m w hm)

theorem pursued_of_leads {t : System} {x : Signal} (hb : Leads step? start before s)
    (hm : Makes step? start before t m u) (hs : u.signals = t.signals ++ [x])
    (hx : ∀ message, t.refusal x ≠ some (.denied message)) :
    Pursued (CutShort start before) s x := by
  obtain ⟨first, last, rfl, hlead, hstep⟩ := hm
  obtain ⟨hr, hst⟩ := stage _ _ hlead
  have hfirst := hlead.append (.step hstep (.refl u))
  have hall : Leads step? start (first ++ [m] ++ last) s := by rwa [List.append_assoc]
  have hlast : Leads step? u last s := hall.rest hfirst
  cases (sending_of_step? hr hst hstep hs).1 with
  | denied message hd => exact absurd hd (hx message)
  | awaited y hd hy =>
    refine hlast.keeps (P := fun v => Pursued _ v x) (.inl ⟨y, hy⟩) fun v m' w hm hv => ?_
    obtain ⟨hr, hst⟩ : Registered v ∧ Stage v := by
      obtain ⟨between, rest, -, hbetween, -⟩ := hm
      exact stage _ _ (hfirst.append hbetween)
    refine hv.of_step? hr hst hm.step fun y hy hl hc => ⟨v, y, w, ?_, hy, hl⟩
    have hmade := hm.after hfirst
    rwa [List.append_assoc, hc] at hmade

end

/-- The stops of a run escalate to the end exactly if the first signal is never denied. -/
theorem thorough_iff_terminate_not_denied (info : Installation) (poll : Seconds) (grace : Span)
    (rounding : Seconds → Seconds) (ms : List Move) :
    Thorough (.ofServer { info, poll, grace, rounding }) ms ↔
      ∀ t m u, Makes step? (.ofServer { info, poll, grace, rounding }) ms t m u →
        u.signals = t.signals ++ [.terminate] →
          ∀ message, t.refusal .terminate ≠ some (.denied message) := by
  have stage := registered_and_stage info poll grace rounding
  constructor
  · rintro hall t m u ⟨before, after, rfl, hb, hm⟩ hsent message hdenied
    obtain ⟨hr, hst⟩ := stage _ _ hb
    cases (sending_of_step? hr hst hm hsent).1 with
    | awaited y hallowed => exact hallowed message hdenied
    | denied _ _ hpast hstop hdead =>
      have hnot := not_cutShort_of_sending stage hb hm hsent
      rcases hall _ after u (by simp) (hb.append (.step hm (.refl u))) hstop hpast hnot with h | h
      · exact h hdead
      · have hlast := congrArg List.getLast? (hsent.symm.trans h.1)
        simp at hlast
  · rintro hnone before after s rfl hb hstop hpast hcut
    by_cases hdead : s.server.exitCode? = none
    · have hreason := reasoned_of_leads stage hb (fun hp => by cases hp) fun t m u hm =>
        hnone t m u (hm.append after)
      have hall : s.signals = [.terminate, .kill] := by
        rcases hreason hstop hpast with h | h | h | h
        · exact absurd hdead h
        · exact h
        · exact absurd h hcut
        · exact h.elim
      refine .inr ⟨hall, fun x t m u hmade hsent hallowed => ?_⟩
      rcases pursued_of_leads stage hb hmade hsent hallowed with ⟨y, hy⟩ | h | h | h
      · obtain ⟨previous, rest, hp⟩ := hy.point
        have hnone := hpast y hy.mem
        rw [hp] at hnone
        cases hnone
      · exact h
      · exact absurd hdead h
      · exact absurd h hcut
    · exact .inl hdead

/-- The child may not be asked to terminate when its server, which stays up, is stopped. -/
def protectedRun : List Move :=
  [.call 0 .start, .answer 0 (.launched 4242 none), .answer 0 (.state (some "running")),
    .refuse fun x => if x = .terminate then some (.denied "not permitted") else none,
    .call 1 .stop, .answer 1 .done, .pass 10, .answer 1 .elapsed, .answer 1 .done, .pass 1,
    .answer 1 .elapsed]

/-- The stop has ended, the child lives, and it was not killed. -/
theorem not_thorough_of_protectedRun :
    (∃ s, Reaches (.ofServer { info := default, poll := 1, grace := .finite 10 }) protectedRun s ∧
      s.server.state = .stopped ∧ s.server.exitCode? = none ∧ s.signals = [.terminate]) ∧
    ¬ Thorough (.ofServer { info := default, poll := 1, grace := .finite 10 }) protectedRun := by
  have hrun : (protectedRun.foldlM step?
      (.ofServer { info := default, poll := 1, grace := .finite 10 })).any (fun s =>
        s.waiting.isEmpty && s.server.stopping && s.server.state == .stopped &&
          s.server.exitCode? == none && s.signals == [.terminate]) = true := by
    decide +kernel
  obtain ⟨s, hs, hfacts⟩ := (Option.any_eq_true ..).mp hrun
  simp only [Bool.and_eq_true, beq_iff_eq, List.isEmpty_iff] at hfacts
  obtain ⟨⟨⟨⟨hwaiting, hstop⟩, hstate⟩, hdead⟩, hsent⟩ := hfacts
  have hr := leads_iff.mpr hs
  refine ⟨⟨s, hr, hstate, hdead, hsent⟩, fun h => ?_⟩
  have hcut : ¬ CutShort (.ofServer { info := default, poll := 1, grace := .finite 10 })
      protectedRun := by
    rintro ⟨t, x, u, ⟨before, after, hms, -⟩, -⟩
    have hm : Move.answer x.id .cancelled ∈ protectedRun := by simp [hms]
    simp [protectedRun] at hm
  have hpast : s.IsPast := by simp [IsPast, hwaiting]
  rcases h protectedRun [] s (List.append_nil _).symm hr hstop hpast hcut with h | h
  · exact h hdead
  · rw [hsent] at h
    cases h.1

end ServerRun.Server.System
