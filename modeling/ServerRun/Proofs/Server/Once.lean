import ServerRun.Proofs.Server.Act

/-! The acts of a server over its life. Whatever calls start and stop it, at most one call may act
on the child at any time, each act comes at most once, in one order, and none but the close of the
client comes after the child has died. -/

namespace ServerRun.Server

namespace System

variable {s u : System} {m : Move} {id : Nat}

/-- What a server has done to its child and to its client, in order. -/
def acts (s : System) : List Act := s.events.filterMap Event.act?

/-- The calls that may act on the child when they go on. -/
def acting (s : System) : List Waiting := s.waiting.filter (·.point.isActing)

theorem acts_of_events {new : List Event} (he : u.events = s.events ++ new) :
    u.acts = s.acts ++ new.filterMap Event.act? := by
  rw [acts, he, List.filterMap_append]
  rfl

/-- A stop with signals left goes on while `others` may act: it begins to act, or it was waiting for
the child's death, now or later. -/
inductive Stops (s u : System) (left : List Signal) (others : List Waiting) : Prop
  | begins (hb : s.server.StopActs) (hl : left = [.terminate, .kill]) (ho : others = s.acting)
      (hk : SameChild s.server.stopBegun u.server)
  | goesOn (x : Waiting) (hx : x ∈ s.acting) (hl : x.point.left? = some left)
      (ho : others = s.acting.filter (·.id != x.id)) (hk : SameChild s.server u.server)

/-- What a move is for the acts of a server. -/
inductive ActMove (s : System) (m : Move) (u : System) : Prop
  | aside (hk : SameChild s.server u.server) (hw : u.acting = s.acting) (ha : u.acts = s.acts)
  /-- The child dies. -/
  | exits (hc : s.server.child ≠ none) (hu : u.server.exitCode? ≠ none)
      (hp : u.server.stopping = s.server.stopping) (hf : u.server.state = s.server.state)
      (hw : u.acting = s.acting) (ha : u.acts = s.acts)
  /-- A start begins. -/
  | starts (x : Waiting) (hl : x.point = .launching) (hs : s.server.state = .notStarted)
      (hf : u.server.state ≠ .notStarted) (hk : SameChild s.server u.server)
      (hw : u.acting = s.acting ++ [x]) (ha : u.acts = s.acts ++ [.launch])
  /-- The child is launched. -/
  | launched (x : Waiting) (hx : x ∈ s.acting) (hl : x.point = .launching)
      (hc : u.server.child ≠ none) (hp : u.server.stopping = s.server.stopping)
      (hf : u.server.state = s.server.state)
      (hw : u.acting = s.acting.filter (·.id != x.id)) (ha : u.acts = s.acts ++ [.launched])
  /-- The launch of the child fails or is cancelled. -/
  | abandons (x : Waiting) (hx : x ∈ s.acting) (hl : x.point = .launching)
      (hk : SameChild s.server u.server) (hw : u.acting = s.acting.filter (·.id != x.id))
      (ha : u.acts = s.acts)
  /-- A stop begins by asking for a shutdown. -/
  | asks (x : Waiting) (id : Nat) (hm : m = .call id .stop) (hb : s.server.StopActs)
      (hs : s.server.state = .started) (he : s.server.exitCode? = none)
      (hl : x.point.left? = some [.terminate, .kill])
      (hk : SameChild s.server.stopBegun u.server) (hw : u.acting = s.acting ++ [x])
      (ha : u.acts = s.acts ++ [.shutdown])
  /-- A stop sends some of the signals that are left, and may close the client. -/
  | escalates (left sent rest : List Signal) (closes : List Act) (others : List Waiting)
      (hb : Stops s u left others) (hl : sent ++ rest = left)
      (he : sent ≠ [] → s.server.exitCode? = none) (hc : closes <+: [.close])
      (hw : closes = [] ∧ (∃ x, x.point.left? = some rest ∧ u.acting = others ++ [x]) ∨
        u.acting = others)
      (ha : u.acts = s.acts ++ (sent.map .signal ++ closes))

theorem acting_call {call : Call} {t : Turn} :
    (({ s with begun := id :: s.begun }.record (.began id call)).take id call t).acting =
      s.acting ++ (waitAfter s.now id call t).filter (·.point.isActing) := by
  rw [acting, take_waiting, List.filter_append]
  rfl

theorem acts_call {call : Call} {t : Turn} :
    (({ s with begun := id :: s.begun }.record (.began id call)).take id call t).acts =
      s.acts ++ t.acts := by
  rw [acts, take_events, record_events, List.filterMap_append, List.filterMap_append,
    filterMap_act?_events]
  simp [acts, Event.act?]

theorem acting_answer {call : Call} {a : Answer} {t : Turn} :
    (({ s with waiting := s.waiting.filter (·.id != id) }.record (.answered id a)).take id
      call t).acting =
      s.acting.filter (·.id != id) ++ (waitAfter s.now id call t).filter (·.point.isActing) := by
  rw [acting, take_waiting, List.filter_append, record_waiting, List.filter_filter, acting,
    List.filter_filter]
  simp only [Bool.and_comm]
  rfl

theorem acts_answer {call : Call} {a : Answer} {t : Turn} :
    (({ s with waiting := s.waiting.filter (·.id != id) }.record (.answered id a)).take id
      call t).acts = s.acts ++ (a.act?.toList ++ t.acts) := by
  rw [acts, take_events, record_events, List.filterMap_append, List.filterMap_append,
    filterMap_act?_events]
  cases h : a.act? <;> simp [acts, Event.act?, h]

/-- The call of a turn is not one of those that may act. -/
theorem acting_waitAfter {now : Seconds} {call : Call} {t : Turn}
    (h : ∀ p wait, t.outcome = .paused p wait → p.isActing = false) :
    (waitAfter now id call t).filter (·.point.isActing) = [] := by
  refine List.filter_eq_nil_iff.mpr fun x hx => ?_
  simp [h _ _ (mem_waitAfter hx).1]

theorem acting_waitAfter_of_paused {now : Seconds} {call : Call} {t : Turn} {p : Point}
    {wait : Wait} (ho : t.outcome = .paused p wait) (hp : p.isActing = true) :
    (waitAfter now id call t).filter (·.point.isActing) = [⟨id, call, p, wait, now⟩] := by
  simp [waitAfter, ho, hp]

/-- A call that waits at a point from which it does not act is not among those that may act. -/
theorem Registered.filter_acting (h : Registered s) {x : Waiting} (hx : x ∈ s.waiting)
    (hp : x.point.isActing = false) : s.acting.filter (·.id != x.id) = s.acting := by
  refine List.filter_eq_self.mpr fun y hy => ?_
  obtain ⟨hy, hpy⟩ := List.mem_filter.mp hy
  refine bne_iff_ne.mpr fun he => ?_
  rw [h.eq_of_id hy hx he, hp] at hpy
  cases hpy

theorem ActMove.of_escalates {left : List Signal} {others : List Waiting} {now : Seconds}
    {call : Call} {t : Turn} (ht : Escalates s.server left t) (hb : Stops s u left others)
    (hw : u.acting = others ++ (waitAfter now id call t).filter (·.point.isActing))
    (ha : u.acts = s.acts ++ t.acts) : ActMove s m u := by
  cases ht with
  | waits sent rest hl he hacts ho =>
    rw [acting_waitAfter_of_paused ho rfl] at hw
    refine .escalates left sent rest [] others hb hl he List.nil_prefix
      (.inl ⟨rfl, ⟨_, rfl, hw⟩⟩) ?_
    rw [ha, hacts, List.append_nil]
  | releases sent rest closes hl he hc hacts ho =>
    rw [acting_waitAfter ho, List.append_nil] at hw
    exact .escalates left sent rest closes others hb hl he hc (.inr hw) (by rw [ha, hacts])

theorem actMove_of_call {call : Call} : ActMove s (.call id call)
    (({ s with begun := id :: s.begun }.record (.began id call)).take id call
      (s.server.firstTurn s.surroundings id call)) := by
  by_cases hc : call.concern = .stop
  · cases call <;> cases hc
    by_cases hb : s.server.StopActs
    · have hk : SameChild s.server.stopBegun
          (s.server.firstTurn s.surroundings id .stop).server := .of_stopTurn (firstTurn_stop hb)
      rcases firstTurn_stop_acts hb s.surroundings id with h | h
      · obtain ⟨hs, he, ha, wait, ho⟩ := h
        refine .asks ⟨id, .stop, .askingShutdown s.server.state, wait, s.now⟩ id rfl hb hs he rfl
          (by simpa using hk) ?_ (by rw [acts_call, ha])
        rw [acting_call, acting_waitAfter_of_paused ho rfl]
      · exact .of_escalates h (.begins hb rfl rfl (by simpa using hk)) acting_call acts_call
    · refine .aside ?_ ?_ ?_
      all_goals rw [firstTurn_stop_idle hb]
      · exact ⟨by simp [finish], by simp [finish], by simp [finish]⟩
      · rw [acting_call, acting_waitAfter finish_ends.isActing, List.append_nil]
      · rw [acts_call, acts_finish, List.append_nil]
  · by_cases hs : call = .start ∧ s.server.state = .notStarted
    · obtain ⟨rfl, hs⟩ := hs
      obtain ⟨hv, ha, wait, ho⟩ := firstTurn_start hs s.surroundings id
      refine .starts ⟨id, .start, .launching, wait, s.now⟩ rfl hs ?_ ?_ ?_ ?_
      · simp [hv]
      · rw [take_server, hv]
        exact ⟨rfl, rfl, fun h => by cases h⟩
      · rw [acting_call, acting_waitAfter_of_paused ho rfl]
      · rw [acts_call, ha]
    · have hn : call = .start → s.server.state ≠ .notStarted := fun hcall hn => hs ⟨hcall, hn⟩
      obtain ⟨hk, hw⟩ := firstTurn_sameChild hc hn s.surroundings id
      refine .aside (by simpa using hk) ?_ ?_
      · rw [acting_call, acting_waitAfter hw, List.append_nil]
      · rw [acts_call, firstTurn_acts hc hn, List.append_nil]

theorem actMove_of_answer (hr : Registered s) {a : Answer} {t : Turn} {x : Waiting}
    (hx : x ∈ s.waiting) (ht : s.server.nextTurn? s.surroundings x.id x.point a = some t) :
    ActMove s (.answer x.id a)
      (({ s with waiting := s.waiting.filter (·.id != x.id) }.record (.answered x.id a)).take x.id
        x.call t) := by
  have mem (hp : x.point.isActing = true) : x ∈ s.acting := List.mem_filter.mpr ⟨hx, hp⟩
  cases hp : x.point.left? with
  | some left =>
    have hl : x.point ≠ .launching := fun hl => by simp [hl, Point.left?] at hp
    have hk : SameChild s.server t.server := nextTurn?_sameChild hl ht
    refine .of_escalates (nextTurn?_escalates hp ht)
      (.goesOn x (mem (by simp [Point.isActing, hp])) hp rfl (by simpa using hk)) acting_answer ?_
    rw [acts_answer, act?_of_nextTurn? hl ht]
    rfl
  | none =>
    have hw : ∀ p wait, t.outcome = .paused p wait → p.isActing = false :=
      fun p wait => nextTurn?_isActing hp ht
    have hacts : t.acts = [] := nextTurn?_acts hp ht
    by_cases hl : x.point = .launching
    · have hx := mem (by rw [hl]; rfl)
      rw [hl] at ht
      by_cases ha : ∃ pid client, a = .launched pid client
      · obtain ⟨pid, client, rfl⟩ := ha
        obtain ⟨c, hst, hf⟩ := nextTurn?_launched ht
        have hk := SameChild.of_startupTurn hst
        refine .launched x hx hl ?_ ?_ ?_ ?_ ?_
        · simp [hk.child]
        · simpa using hk.stopping
        · simpa using hf
        · rw [acting_answer, acting_waitAfter hw, List.append_nil]
        · rw [acts_answer, hacts]
          rfl
      · obtain ⟨-, hv⟩ := nextTurn?_not_launched (fun pid client h => ha ⟨pid, client, h⟩) ht
        refine .abandons x hx hl ?_ ?_ ?_
        · rcases hv with hv | hv <;> rw [take_server, hv]
          · exact ⟨rfl, rfl, fun h => h⟩
          · exact ⟨rfl, rfl, fun h => by cases h⟩
        · rw [acting_answer, acting_waitAfter hw, List.append_nil]
        · have hact : a.act? = none := by
            cases a with
            | launched pid client => exact absurd ⟨pid, client, rfl⟩ ha
            | _ => rfl
          rw [acts_answer, hacts, hact]
          simp
    · have hk : SameChild s.server t.server := nextTurn?_sameChild hl ht
      have hn : x.point.isActing = false := by
        cases hq : x.point <;> simp_all [Point.isActing, Point.left?]
      refine .aside (by simpa using hk) ?_ ?_
      · rw [acting_answer, acting_waitAfter hw, List.append_nil, hr.filter_acting hx hn]
      · rw [acts_answer, hacts, act?_of_nextTurn? hl ht]
        simp

theorem actMove_of_step? (hr : Registered s) (hm : s.step? m = some u) : ActMove s m u := by
  cases stepped_of_step? hm with
  | call id call hn => exact actMove_of_call
  | answer id a t x hx ha ht =>
    obtain rfl : x.id = id := by simpa using List.find?_some hx
    exact actMove_of_answer hr (List.mem_of_find?_eq_some hx) ht
  | exit code hc he =>
    have ha :
        ({ s with server := s.server.withExit code }.record (.exited code)).acts = s.acts := by
      simp [acts, Event.act?]
    exact .exits hc (by simp [exitCode?_withExit hc code]) rfl rfl rfl ha
  | time m hm hc now refusal => exact .aside ⟨rfl, rfl, fun h => h⟩ rfl rfl

/-! ### how far a server has come -/

/-- How far a server has come with its acts: at most one call may act on the child at any time, and
what it may still do follows what has been done. -/
inductive Stage (s : System) : Prop
  | fresh (hc : s.server.child = none) (hp : s.server.stopping = false) (hw : s.acting = [])
      (ha : s.acts = [])
  | launching (hf : s.server.state ≠ .notStarted) (hc : s.server.child = none)
      (hp : s.server.stopping = false)
      (hw : s.acting = [] ∨ ∃ x, s.acting = [x] ∧ x.point = .launching) (ha : s.acts = [.launch])
  | running (hf : s.server.state ≠ .notStarted) (hc : s.server.child ≠ none)
      (hp : s.server.stopping = false) (hw : s.acting = []) (ha : s.acts = [.launch, .launched])
  | stopping (asked : List Act) (sent : List Signal) (closes : List Act)
      (hf : s.server.state ≠ .notStarted) (hc : s.server.child ≠ none)
      (hp : s.server.stopping = true) (hk : asked <+: [.shutdown]) (hl : closes <+: [.close])
      (hs : sent <+: [.terminate, .kill])
      (hw : s.acting = [] ∨ closes = [] ∧
        ∃ x left, s.acting = [x] ∧ x.point.left? = some left ∧ sent ++ left = [.terminate, .kill])
      (ha : s.acts = [.launch, .launched] ++ asked ++ sent.map .signal ++ closes)

theorem stage_ofServer {v : Server} (hc : v.child = none) (hp : v.stopping = false) :
    Stage (.ofServer v) :=
  .fresh hc hp rfl rfl

/-- Nothing is done, and the server is as far as it was. -/
theorem Stage.of_alike (h : Stage s) (hc : u.server.child = none ↔ s.server.child = none)
    (hp : u.server.stopping = s.server.stopping)
    (hf : u.server.state = .notStarted → s.server.state = .notStarted)
    (hw : u.acting = s.acting) (ha : u.acts = s.acts) : Stage u := by
  cases h with
  | fresh hc' hp' hw' ha' => exact .fresh (hc.mpr hc') (hp.trans hp') (hw.trans hw') (ha.trans ha')
  | launching hf' hc' hp' hw' ha' =>
    exact .launching (fun h => hf' (hf h)) (hc.mpr hc') (hp.trans hp') (hw ▸ hw') (ha.trans ha')
  | running hf' hc' hp' hw' ha' =>
    exact .running (fun h => hf' (hf h)) (fun h => hc' (hc.mp h)) (hp.trans hp') (hw.trans hw')
      (ha.trans ha')
  | stopping asked sent closes hf' hc' hp' hk hl hs hw' ha' =>
    exact .stopping asked sent closes (fun h => hf' (hf h)) (fun h => hc' (hc.mp h)) (hp.trans hp')
      hk hl hs (hw ▸ hw') (ha.trans ha')

theorem filter_bne_singleton (x : Waiting) : [x].filter (·.id != x.id) = [] := by simp

/-- The child of a call that launches one is not there yet. -/
theorem Stage.of_launching (h : Stage s) {x : Waiting} (hx : x ∈ s.acting)
    (hl : x.point = .launching) :
    s.server.state ≠ .notStarted ∧ s.server.child = none ∧ s.server.stopping = false ∧
      s.acting.filter (·.id != x.id) = [] ∧ s.acts = [.launch] := by
  cases h with
  | fresh hc hp hw ha => simp [hw] at hx
  | launching hf hc hp hw ha =>
    rcases hw with hw | ⟨y, hw, -⟩
    · simp [hw] at hx
    · rw [hw, List.mem_singleton] at hx
      subst hx
      exact ⟨hf, hc, hp, hw ▸ filter_bne_singleton x, ha⟩
  | running hf hc hp hw ha => simp [hw] at hx
  | stopping asked sent closes hf hc hp hk hl' hs hw ha =>
    rcases hw with hw | ⟨-, y, left, hw, hy, -⟩
    · simp [hw] at hx
    · rw [hw, List.mem_singleton] at hx
      subst hx
      simp [hl, Point.left?] at hy

/-- A stop begins to act on a server that is running, and no other call acts then. -/
theorem Stage.of_stopActs (h : Stage s) (hb : s.server.StopActs) :
    s.server.state ≠ .notStarted ∧ s.acting = [] ∧ s.acts = [.launch, .launched] := by
  obtain ⟨-, -, hc, hp, -⟩ := hb
  cases h with
  | fresh hc' | launching hf hc' => exact absurd hc' hc
  | running hf hc' hp' hw ha => exact ⟨hf, hw, ha⟩
  | stopping asked sent closes hf hc' hp' => simp [hp] at hp'

theorem stopBegun_state (v : Server) : v.stopBegun.state ≠ .notStarted := by
  unfold stopBegun
  split <;> simp

/-- A stop that goes on is the only call that may act, and the signals that are left to it are those
that were not sent. -/
theorem Stage.of_stops (h : Stage s) {left : List Signal} {others : List Waiting}
    (hb : Stops s u left others) :
    others = [] ∧ u.server.state ≠ .notStarted ∧ u.server.child ≠ none ∧
      u.server.stopping = true ∧
      ∃ (asked : List Act) (before : List Signal), asked <+: [.shutdown] ∧
        before ++ left = [.terminate, .kill] ∧
        s.acts = [.launch, .launched] ++ asked ++ before.map .signal := by
  cases hb with
  | begins hb hleft ho hk =>
    obtain ⟨-, hw, ha⟩ := h.of_stopActs hb
    exact ⟨ho.trans hw, fun hn => stopBegun_state _ (hk.fresh hn), hk.child ▸ hb.2.2.1, hk.stopping,
      [], [], List.nil_prefix, hleft, ha⟩
  | goesOn x hx hleft ho hk =>
    cases h with
    | fresh hc hp hw => simp [hw] at hx
    | running hf hc hp hw => simp [hw] at hx
    | launching hf hc hp hw =>
      rcases hw with hw | ⟨y, hw, hy⟩
      · simp [hw] at hx
      · rw [hw, List.mem_singleton] at hx
        simp [hx, hy, Point.left?] at hleft
    | stopping asked before closes hf hc hp hka hl hs hw ha =>
      rcases hw with hw | ⟨rfl, y, left', hw, hy, hbefore⟩
      · simp [hw] at hx
      · rw [hw, List.mem_singleton] at hx
        subst hx
        rw [hleft, Option.some.injEq] at hy
        subst hy
        exact ⟨by rw [ho, hw, filter_bne_singleton], fun hn => hf (hk.fresh hn), hk.child ▸ hc,
          hk.stopping.trans hp, asked, before, hka, hbefore, by simpa using ha⟩

theorem Stage.of_actMove (h : Stage s) (hm : ActMove s m u) : Stage u := by
  cases hm with
  | aside hk hw ha =>
    exact h.of_alike (by rw [hk.child]) hk.stopping hk.fresh hw ha
  | exits hc hu hp hf hw ha =>
    exact h.of_alike (iff_of_false (child_of_exitCode? hu) hc) hp (fun h => hf ▸ h) hw ha
  | starts x hl hs hf hk hw ha =>
    cases h with
    | fresh hc hp hw' ha' =>
      refine .launching hf (hk.child.trans hc) (hk.stopping.trans hp) (.inr ⟨x, ?_, hl⟩) ?_
      · rw [hw, hw', List.nil_append]
      · rw [ha, ha', List.nil_append]
    | launching hf' | running hf' => exact absurd hs hf'
    | stopping asked sent closes hf' => exact absurd hs hf'
  | launched x hx hl hc hp hf hw ha =>
    obtain ⟨hf', -, hp', hw', ha'⟩ := h.of_launching hx hl
    refine .running (hf ▸ hf') hc (hp.trans hp') (hw.trans hw') ?_
    rw [ha, ha']
    rfl
  | abandons x hx hl hk hw ha =>
    obtain ⟨hf', hc', hp', hw', ha'⟩ := h.of_launching hx hl
    exact .launching (fun hn => hf' (hk.fresh hn)) (hk.child.trans hc') (hk.stopping.trans hp')
      (.inl (hw.trans hw')) (ha.trans ha')
  | asks x id hm hb hs he hl hk hw ha =>
    obtain ⟨-, hw', ha'⟩ := h.of_stopActs hb
    refine .stopping [.shutdown] [] [] (fun hn => stopBegun_state _ (hk.fresh hn))
      (hk.child ▸ hb.2.2.1) hk.stopping (List.prefix_refl _) List.nil_prefix List.nil_prefix
      (.inr ⟨rfl, x, _, ?_, hl, rfl⟩) ?_
    · rw [hw, hw', List.nil_append]
    · rw [ha, ha']
      rfl
  | escalates left sent rest closes others hb hl he hc hw ha =>
    obtain ⟨rfl, hf, hchild, hp, asked, before, hk, hbefore, ha'⟩ := h.of_stops hb
    have hall : (before ++ sent) ++ rest = [.terminate, .kill] := by
      rw [List.append_assoc, hl, hbefore]
    refine .stopping asked (before ++ sent) closes hf hchild hp hk hc ⟨rest, hall⟩ ?_ ?_
    · rcases hw with ⟨hn, x, hx, hw⟩ | hw
      · exact .inr ⟨hn, x, rest, hw, hx, hall⟩
      · exact .inl hw
    · rw [ha, ha', List.map_append]
      simp

theorem Stage.order (h : Stage s) :
    s.acts.Sublist [.launch, .launched, .shutdown, .signal .terminate, .signal .kill, .close] := by
  cases h with
  | fresh hc hp hw ha => simp [ha]
  | launching hf hc hp hw ha => simp [ha]
  | running hf hc hp hw ha => simp [ha]
  | stopping asked sent closes hf hc hp hk hl hs hw ha =>
    rw [ha]
    exact ((((List.Sublist.refl [.launch, .launched]).append hk.sublist).append
      (hs.sublist.map .signal)).append hl.sublist)

theorem Stage.kill (h : Stage s) (hk : .signal .kill ∈ s.acts) : .signal .terminate ∈ s.acts := by
  cases h with
  | fresh hc hp hw ha => simp [ha] at hk
  | launching hf hc hp hw ha => simp [ha] at hk
  | running hf hc hp hw ha => simp [ha] at hk
  | stopping asked sent closes hf hc hp hka hl hs hw ha =>
    have hsent : .kill ∈ sent := by
      have hasked : .signal .kill ∉ asked := fun hm => by simpa using hka.subset hm
      have hcloses : .signal .kill ∉ closes := fun hm => by simpa using hl.subset hm
      simpa [ha, hasked, hcloses] using hk
    obtain ⟨rest, hs⟩ := hs
    cases sent with
    | nil => cases hsent
    | cons signal sent =>
      obtain rfl : signal = .terminate := (List.cons.inj hs).1
      simp [ha]

/-! ### the death of the child -/

theorem Stage.child_of_notStarted (h : Stage s) (hs : s.server.state = .notStarted) :
    s.server.child = none := by
  cases h with
  | fresh hc => exact hc
  | launching hf | running hf => exact absurd hs hf
  | stopping asked sent closes hf => exact absurd hs hf

/-- Once the child's death is known it stays so, and only the client is closed. -/
theorem ActMove.of_exitCode? (hm : ActMove s m u) (h : Stage s)
    (he : s.server.exitCode? ≠ none) :
    u.server.exitCode? ≠ none ∧
      ∃ closes, u.acts = s.acts ++ closes ∧ ∀ a ∈ closes, a = .close := by
  have hchild := child_of_exitCode? he
  have same (hc : u.server.child = s.server.child) : u.server.exitCode? ≠ none := by
    rwa [exitCode?, hc]
  cases hm with
  | aside hk hw ha => exact ⟨same hk.child, [], by simp [ha]⟩
  | exits hc hu hp hf hw ha => exact ⟨hu, [], by simp [ha]⟩
  | starts x hl hs => exact absurd (h.child_of_notStarted hs) hchild
  | launched x hx hl => exact absurd (h.of_launching hx hl).2.1 hchild
  | abandons x hx hl => exact absurd (h.of_launching hx hl).2.1 hchild
  | asks x id hm hb hs hn => exact absurd hn he
  | escalates left sent rest closes others hb hl hn hc hw ha =>
    obtain rfl : sent = [] := Classical.byContradiction fun hs => he (hn hs)
    refine ⟨same ?_, closes, ha, fun a hm => by simpa using hc.subset hm⟩
    cases hb with
    | begins _ _ _ hk | goesOn _ _ _ _ hk => exact hk.child

theorem exited_notMem_events (id : Nat) (t : Turn) (code : Int) :
    .exited code ∉ t.events id := by
  simp only [Turn.events, List.mem_append, List.mem_map, List.mem_singleton]
  rintro (⟨e, -, h⟩ | h)
  · cases h
  · cases ho : t.outcome <;> simp [ho, Outcome.event] at h

/-- A move tells of the child's death only if the child dies. -/
theorem events_of_step? (hm : s.step? m = some u) : ∃ new, u.events = s.events ++ new ∧
    ((∀ code, .exited code ∉ new) ∨
      ∃ code, new = [.exited code] ∧ u.server.exitCode? ≠ none) := by
  cases stepped_of_step? hm with
  | call id call hn =>
    refine ⟨.began id call :: (s.server.firstTurn s.surroundings id call).events id, by simp,
      .inl fun code hc => ?_⟩
    exact exited_notMem_events _ _ _ ((List.mem_cons.mp hc).resolve_left (by simp))
  | answer id a t x hx ha ht =>
    refine ⟨.answered id a :: t.events id, by simp, .inl fun code hc => ?_⟩
    exact exited_notMem_events _ _ _ ((List.mem_cons.mp hc).resolve_left (by simp))
  | exit code hc he =>
    exact ⟨[.exited code], by simp, .inr ⟨code, rfl, by simp [exitCode?_withExit hc code]⟩⟩
  | time m hm hc now refusal => exact ⟨[], by simp, .inl (by simp)⟩

/-- The death of the child is not forgotten, and nothing but the close of the client follows it. -/
structure Spared (s : System) : Prop where
  known : ∀ code, .exited code ∈ s.events → s.server.exitCode? ≠ none
  after : ∀ before code after, s.events = before ++ .exited code :: after →
    ∀ a ∈ after.filterMap Event.act?, a = .close

theorem Spared.of_step? (h : Spared s) (hst : Stage s) (hr : Registered s)
    (hm : s.step? m = some u) : Spared u := by
  have hmove := actMove_of_step? hr hm
  obtain ⟨new, he, hx⟩ := events_of_step? hm
  constructor
  · intro code hcode
    rw [he, List.mem_append] at hcode
    rcases hcode with hcode | hcode
    · exact (hmove.of_exitCode? hst (h.known code hcode)).1
    · rcases hx with hx | ⟨_, -, hx⟩
      · exact absurd hcode (hx code)
      · exact hx
  · intro before code after hsplit a ha
    rcases hx with hx | ⟨code', rfl, -⟩
    · obtain ⟨rest, hs, rfl⟩ := exists_of_append_eq_append_cons (hx code) (he ▸ hsplit)
      rw [List.filterMap_append, List.mem_append] at ha
      rcases ha with ha | ha
      · exact h.after before code rest hs a ha
      · have hc : s.server.exitCode? ≠ none := h.known code (by simp [hs])
        obtain ⟨closes, hacts, hcloses⟩ := (hmove.of_exitCode? hst hc).2
        rw [acts_of_events he, List.append_cancel_left_eq] at hacts
        exact hcloses a (hacts ▸ ha)
    · rcases List.eq_nil_or_concat after with rfl | ⟨after, e, rfl⟩
      · cases ha
      · rw [he, List.concat_eq_append, ← List.cons_append, ← List.append_assoc] at hsplit
        obtain ⟨hs, hlast⟩ := List.append_inj' hsplit rfl
        obtain rfl : .exited code' = e := by simpa using hlast
        exact h.after before code after hs a (by simpa [Event.act?] using ha)

/-! ### all runs -/

/-- What a server does to its child and its client over a run. Each act comes at most once, in one
order: the child is launched, the server is asked to shut down, the child is sent the one signal and
then the other, and the client is closed. The child is killed only if it was sent the other signal
before. A shutdown is asked for only by a stop that begins while the server is started, and neither
that nor a signal comes once the exit code of the child is known, nor at any time after the child
has died. -/
structure ActsOnce (start : System) (ms : List Move) (s : System) : Prop where
  order : s.acts.Sublist
    [.launch, .launched, .shutdown, .signal .terminate, .signal .kill, .close]
  kill : .signal .kill ∈ s.acts → .signal .terminate ∈ s.acts
  shutdown : ∀ t m u, Makes step? start ms t m u → .shutdown ∈ u.acts → .shutdown ∉ t.acts →
    (∃ id, m = .call id .stop) ∧ t.server.state = .started ∧ t.server.exitCode? = none
  signal : ∀ t m u x, Makes step? start ms t m u → .signal x ∈ u.acts → .signal x ∉ t.acts →
    t.server.exitCode? = none
  spared : ∀ before code after, s.events = before ++ .exited code :: after →
    ∀ a ∈ after.filterMap Event.act?, a = .close

theorem ActMove.shutdown (hm : ActMove s m u) (hu : .shutdown ∈ u.acts) (hs : .shutdown ∉ s.acts) :
    (∃ id, m = .call id .stop) ∧ s.server.state = .started ∧ s.server.exitCode? = none := by
  cases hm with
  | asks x id hm hb hr he => exact ⟨⟨id, hm⟩, hr, he⟩
  | escalates left sent rest closes others hb hl he hc hw ha =>
    have hcloses : .shutdown ∉ closes := fun hm => by simpa using hc.subset hm
    simp [ha, hs, hcloses] at hu
  | aside hk hw ha => simp [ha, hs] at hu
  | exits hc he hp hf hw ha => simp [ha, hs] at hu
  | starts x hl hst hf hk hw ha => simp [ha, hs] at hu
  | launched x hx hl hc hp hf hw ha => simp [ha, hs] at hu
  | abandons x hx hl hk hw ha => simp [ha, hs] at hu

theorem ActMove.signal (hm : ActMove s m u) {x : Signal} (hu : .signal x ∈ u.acts)
    (hs : .signal x ∉ s.acts) : s.server.exitCode? = none := by
  cases hm with
  | asks y id hm hb hr he => exact he
  | escalates left sent rest closes others hb hl he hc hw ha =>
    have hcloses : .signal x ∉ closes := fun hm => by simpa using hc.subset hm
    have hsent : x ∈ sent := by simpa [ha, hs, hcloses] using hu
    exact he (List.ne_nil_of_mem hsent)
  | aside hk hw ha => simp [ha, hs] at hu
  | exits hc he hp hf hw ha => simp [ha, hs] at hu
  | starts y hl hst hf hk hw ha => simp [ha, hs] at hu
  | launched y hx hl hc hp hf hw ha => simp [ha, hs] at hu
  | abandons y hx hl hk hw ha => simp [ha, hs] at hu

/-- Any number of starts and stops, among other calls and whatever happens to the child and the
client. -/
theorem actsOnce_of_reaches (info : Installation) (poll : Seconds) (grace : Span)
    (rounding : Seconds → Seconds) (ms : List Move)
    (h : Reaches (.ofServer { info, poll, grace, rounding }) ms s) :
    ActsOnce (.ofServer { info, poll, grace, rounding }) ms s := by
  have keeps {ms : List Move} {s : System}
      (h : Reaches (.ofServer { info, poll, grace, rounding }) ms s) :
      Registered s ∧ Stage s ∧ Spared s := by
    refine h.keeps (P := fun s => Registered s ∧ Stage s ∧ Spared s)
      ⟨registered_ofServer _, stage_ofServer rfl rfl, ⟨by simp [events, ofServer], ?_⟩⟩
      fun t m u hm ⟨hr, hst, hsp⟩ => ?_
    · intro before code after hs
      simp [events, ofServer] at hs
    · have hm := hm.step
      exact ⟨hr.of_step? hm, hst.of_actMove (actMove_of_step? hr hm), hsp.of_step? hst hr hm⟩
  obtain ⟨-, hst, hsp⟩ := keeps h
  have move {t u : System} {m : Move}
      (hm : Makes step? (.ofServer { info, poll, grace, rounding }) ms t m u) : ActMove t m u := by
    obtain ⟨before, after, -, hb, hstep⟩ := hm
    exact actMove_of_step? (keeps hb).1 hstep
  exact ⟨hst.order, hst.kill, fun t m u hm => (move hm).shutdown,
    fun t m u x hm => (move hm).signal, hsp.after⟩

/-- The moves of a server whose child dies only when it is killed, while other calls start and stop
it as well. -/
def stubbornRun : List Move :=
  [.call 0 .start, .call 1 .start, .answer 0 (.launched 4242 none),
    .answer 0 (.state (some "running")), .call 2 .stop, .call 3 .stop, .pass 10, .answer 2 .elapsed,
    .pass 10, .answer 2 .elapsed, .pass 10, .answer 2 .elapsed, .exit (-9),
    .answer 2 (.exited (-9)), .answer 2 .done, .answer 2 .done, .call 4 .stop, .call 5 .start]

theorem actsOnce_of_stubbornRun :
    ∃ s, Reaches (.ofServer { info := default, poll := 1, grace := .finite 10 }) stubbornRun s ∧
      s.acts = [.launch, .launched, .shutdown, .signal .terminate, .signal .kill, .close] ∧
      ActsOnce (.ofServer { info := default, poll := 1, grace := .finite 10 }) stubbornRun s := by
  have hrun : (stubbornRun.foldlM step?
      (.ofServer { info := default, poll := 1, grace := .finite 10 })).any (fun s => s.acts ==
        [.launch, .launched, .shutdown, .signal .terminate, .signal .kill, .close]) = true := by
    decide +kernel
  rw [Option.any_eq_true] at hrun
  obtain ⟨s, hs, hacts⟩ := hrun
  have hr := leads_iff.mpr hs
  exact ⟨s, hr, by simpa using hacts, actsOnce_of_reaches _ _ _ _ _ hr⟩

end System

end ServerRun.Server
