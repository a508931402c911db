import ServerRun.Proofs.Server.Queue
import ServerRun.Proofs.Run.Sign

/-! Calls that work on a server do so one after the other. What they ask for at the management
client falls into blocks, one for each call in the order in which the calls began; nothing is asked
for while an answer is outstanding, and a call gets its turn when those before it have ended, in
whatever way. -/

namespace ServerRun.Server

/-- The signs of a call that works on a server: those of a deployment, or those of the commands of a
batch, each of which is sent only after the one before it was accepted. -/
def Call.script : Call → List Sign
  | .deploy file name => Work.ahead [] (.deploy file name)
  | .execute b => Work.ahead [] (.execute b)
  | _ => []

/-- What shows of a call at the end of a turn. -/
def Outcome.signs : Outcome → List Sign
  | .paused _ wait => wait.signs
  | _ => []

/-- What shows of a call in what happens. -/
def Event.signs (id : Nat) : Event → List Sign
  | .waits i wait => if i = id then wait.signs else []
  | .answered i a => if i = id then a.signs else []
  | _ => []

/-- A call has asked for something at the client and was not answered yet. -/
def Pending (events : List Event) (id : Nat) : Prop :=
  ∃ before wait after, events = before ++ .waits id wait :: after ∧ wait.isRequest = true ∧
    ∀ a, .answered id a ∉ after

section

variable {s : Server} {t : Turn} {ahead : List Sign}

theorem ahead_of_work {c : Call} (hc : c.concern = .work) : s.ahead [] c = c.script := by
  cases c <;> simp [Call.concern] at hc <;> rfl

theorem Turn.KeepsTo.signs (h : t.KeepsTo [] ahead) : t.outcome.signs <+: ahead := by
  cases h with
  | waits hp h => exact ⟨_, h⟩
  | returns | raises => exact List.nil_prefix

theorem Turn.KeepsTo.left (h : t.KeepsTo [] ahead) {p : Point} {wait : Wait}
    (ho : t.outcome = .paused p wait) : wait.signs ++ p.ahead [] = ahead := by
  cases h with
  | waits hp h =>
    cases ho
    exact h
  | returns | raises => cases ho

theorem flatMap_signs_events (i id : Nat) (t : Turn) :
    (t.events i).flatMap (Event.signs id) = if i = id then t.outcome.signs else [] := by
  have none : (t.effects.map (Event.effect i)).flatMap (Event.signs id) = [] := by
    simp [List.flatMap_map, Event.signs]
  rw [Turn.events, List.flatMap_append, none, List.nil_append, List.flatMap_singleton]
  cases t.outcome <;> simp [Outcome.event, Event.signs, Outcome.signs]

theorem began_notMem_events {i id : Nat} {c : Call} : .began id c ∉ t.events i := by
  intro h
  rw [Turn.events, List.mem_append, List.mem_singleton] at h
  rcases h with h | h
  · simp at h
  · cases ho : t.outcome <;> simp [ho, Outcome.event] at h

end

section

variable {events new : List Event} {id : Nat}

theorem isRequest_of_filterMap (hr : new.filterMap Event.request? = []) {wait : Wait}
    (h : .waits id wait ∈ new) : wait.isRequest = false := by
  have := List.filterMap_eq_nil_iff.mp hr _ h
  simpa [Event.request?] using this

/-- Where a part without requests follows, each request stands before it. -/
theorem exists_of_append_eq {before after : List Event} {wait : Wait}
    (hr : new.filterMap Event.request? = []) (hw : wait.isRequest = true)
    (h : events ++ new = before ++ .waits id wait :: after) :
    ∃ rest, events = before ++ .waits id wait :: rest ∧ after = rest ++ new := by
  have hnot : .waits id wait ∉ new := fun hm => by
    have := isRequest_of_filterMap hr hm
    simp [hw] at this
  exact exists_of_append_eq_append_cons hnot h

theorem Pending.of_append (hr : new.filterMap Event.request? = [])
    (h : Pending (events ++ new) id) :
    Pending events id ∧ ∀ a, .answered id a ∉ new := by
  obtain ⟨before, wait, after, he, hw, ha⟩ := h
  obtain ⟨rest, hp, rfl⟩ := exists_of_append_eq hr hw he
  exact ⟨⟨before, wait, rest, hp, hw, fun a h => ha a (List.mem_append_left _ h)⟩,
    fun a h => ha a (List.mem_append_right _ h)⟩

theorem Pending.of_waits {i : Nat} {wait : Wait} (h : Pending (events ++ [.waits i wait]) id) :
    id = i ∧ wait.isRequest = true ∨ Pending events id := by
  by_cases hw : wait.isRequest = true
  · obtain ⟨before, wait', after, he, hw', ha⟩ := h
    rcases List.eq_nil_or_concat after with rfl | ⟨rest, e, rfl⟩
    · have := congrArg List.getLast? he
      simp only [List.getLast?_concat, Option.some.injEq, Event.waits.injEq] at this
      exact .inl ⟨this.1.symm, hw⟩
    · rw [List.concat_eq_append, ← List.cons_append, ← List.append_assoc] at he
      refine .inr ⟨before, wait', rest, (List.append_inj' he rfl).1, hw', fun a h => ha a ?_⟩
      simp [h]
  · exact .inr (h.of_append (by simpa [Event.request?] using hw)).1

end

namespace System

variable {s u : System} {m : Move} {id : Nat}

/-- What shows of a call in what has happened. -/
def signsOf (s : System) (id : Nat) : List Sign := s.events.flatMap (Event.signs id)

/-! ### one block for each call -/

/-- A request of a call after whose begin no other call has asked for anything. -/
theorem blocks_append {α : Type} {past rest : List Nat} {reqs : List (Nat × α)} {w : α}
    (hn : (past ++ id :: rest).Nodup) (hr : ∀ r ∈ reqs, r.1 ∉ rest)
    (h : reqs = (past ++ id :: rest).flatMap fun i => reqs.filter (·.1 == i)) :
    reqs ++ [(id, w)] =
      (past ++ id :: rest).flatMap fun i => (reqs ++ [(id, w)]).filter (·.1 == i) := by
  have other (l : List Nat) (hl : id ∉ l) :
      (l.flatMap fun i => (reqs ++ [(id, w)]).filter (·.1 == i)) =
        l.flatMap fun i => reqs.filter (·.1 == i) := by
    rw [List.flatMap_def, List.flatMap_def]
    refine congrArg _ (List.map_congr_left fun i hi => ?_)
    have : id ≠ i := fun he => hl (he ▸ hi)
    simp [this]
  have late : (rest.flatMap fun i => reqs.filter (·.1 == i)) = [] := by
    refine List.flatMap_eq_nil_iff.mpr fun i hi => List.filter_eq_nil_iff.mpr fun r hrm => ?_
    have : r.1 ≠ i := fun he => hr r hrm (he ▸ hi)
    simp [this]
  obtain ⟨hp, hq⟩ : id ∉ past ∧ id ∉ rest := by
    rw [List.nodup_append, List.nodup_cons] at hn
    exact ⟨fun hi => hn.2.2 id hi id List.mem_cons_self rfl, hn.2.1.1⟩
  rw [List.flatMap_append, List.flatMap_cons, late, List.append_nil] at h
  rw [List.flatMap_append, List.flatMap_cons, other past hp, other rest hq, late, List.append_nil,
    List.filter_append]
  simpa [← List.append_assoc] using h

/-- What is asked for at the client along a run: only the first call of the queue may have asked for
something among those that began no earlier, the requests fall into blocks, and a request comes only
when none is outstanding. -/
structure InLine (s : System) : Prop where
  front : ∀ first others, s.server.turns = first :: others →
    ∃ past rest, s.begun.reverse = past ++ first :: rest ∧ others.Sublist rest ∧
      ∀ r ∈ s.requests, r.1 ∉ rest
  blocks : s.requests = s.begun.reverse.flatMap fun i => s.requests.filter (·.1 == i)
  pending : ∀ i, Pending s.events i → ∃ x ∈ s.waiting, x.id = i ∧ x.wait.isRequest = true
  apart : ∀ before i wait after, s.events = before ++ .waits i wait :: after →
    wait.isRequest = true → ∀ j, ¬ Pending before j

theorem inLine_ofServer {v : Server} (h : v.turns = []) : InLine (.ofServer v) where
  front first others ht := by simp [ofServer, h] at ht
  blocks := rfl
  pending i := by
    rintro ⟨before, wait, after, he, -⟩
    simp [ofServer, events] at he
  apart before i wait after he := by simp [ofServer, events] at he

theorem blocks_of_begun {begun : List Nat} {reqs : List (Nat × Wait)}
    (hk : ∀ r ∈ reqs, r.1 ≠ id)
    (h : reqs = begun.reverse.flatMap fun i => reqs.filter (·.1 == i)) :
    reqs = (id :: begun).reverse.flatMap fun i => reqs.filter (·.1 == i) := by
  have none : reqs.filter (·.1 == id) = [] :=
    List.filter_eq_nil_iff.mpr fun r hr => by simpa using hk r hr
  rw [List.reverse_cons, List.flatMap_append, ← h, List.flatMap_singleton, none, List.append_nil]

/-- A request at the end comes when none is outstanding, if none was before. -/
theorem apart_of_waits {events new : List Event} {i : Nat} {wait : Wait}
    (hr : new.filterMap Event.request? = [])
    (hn : wait.isRequest = true → ∀ j, ¬ Pending (events ++ new) j)
    (h : ∀ before i wait after, events = before ++ Event.waits i wait :: after →
      wait.isRequest = true → ∀ j, ¬ Pending before j) :
    ∀ before j wait' after,
      events ++ new ++ [Event.waits i wait] = before ++ Event.waits j wait' :: after →
        wait'.isRequest = true → ∀ j, ¬ Pending before j := by
  intro before j wait' after he hw
  rcases List.eq_nil_or_concat after with rfl | ⟨after, e, rfl⟩
  · obtain ⟨rfl, hlast⟩ := List.append_inj' he rfl
    simp only [List.cons.injEq, Event.waits.injEq, and_true] at hlast
    obtain ⟨-, rfl⟩ := hlast
    exact hn hw
  · rw [List.concat_eq_append, ← List.cons_append, ← List.append_assoc] at he
    obtain ⟨rest, he, -⟩ := exists_of_append_eq hr hw (List.append_inj' he rfl).1
    exact h before j wait' rest he hw

theorem InLine.of_step? (h : InLine s) (hs : Registered s) (hq : Queued s)
    (hm : s.step? m = some u) : InLine u := by
  have hu : Registered u := hs.of_step? hm
  have hqu : Queued u := hq.of_step? hs hm
  cases queueMove_of_step? hs hq hm with
  | aside new ht hw hb he hr =>
    have hreq : u.requests = s.requests := requests_of_events he hr
    constructor
    · intro first others htu
      obtain ⟨past, rest, hp, ho, hn⟩ := h.front first others (ht ▸ htu)
      rw [hreq]
      rcases hb with hb | ⟨id, hid, hb⟩
      · exact ⟨past, rest, hb ▸ hp, ho, hn⟩
      · refine ⟨past, rest ++ [id], by simp [hb, hp], ho.trans (List.sublist_append_left _ _), ?_⟩
        intro r hrm hri
        rcases List.mem_append.mp hri with hri | hri
        · exact hn r hrm hri
        · exact hid (List.mem_singleton.mp hri ▸ hq.known r hrm)
    · rw [hreq]
      rcases hb with hb | ⟨id, hid, hb⟩
      · rw [hb]
        exact h.blocks
      · rw [hb]
        exact blocks_of_begun (fun r hr hi => hid (hi ▸ hq.known r hr)) h.blocks
    · intro i hi
      rw [he] at hi
      obtain ⟨x, hx, hxi, hxw⟩ := h.pending i (hi.of_append hr).1
      exact ⟨x, (hw x (hs.work hx hxw)).mpr hx, hxi, hxw⟩
    · intro before i wait after hsplit hiw
      rw [he] at hsplit
      obtain ⟨rest, hsplit, -⟩ := exists_of_append_eq hr hiw hsplit
      exact h.apart before i wait rest hsplit hiw
  | joins x new hc hst hn hxq hb ht hw he hr =>
    have hreq := requests_of_waits he hr
    have idle (hx : x.wait.isRequest = true) : ∀ j, ¬ Pending (s.events ++ new) j := by
      intro j hj
      obtain ⟨y, hy, -, hyw⟩ := h.pending j (hj.of_append hr).1
      have hyt := hq.queued y hy (hs.work hy hyw)
      rw [hxq.mp hx] at hyt
      cases hyt
    have fresh : ∀ r ∈ s.requests, r.1 ≠ x.id := fun r hr hi => hn (hi ▸ hq.known r hr)
    constructor
    · intro first others htu
      rw [ht] at htu
      cases hts : s.server.turns with
      | nil =>
        rw [hts, List.nil_append, List.cons.injEq] at htu
        obtain ⟨rfl, rfl⟩ := htu
        exact ⟨s.begun.reverse, [], by simp [hb], .slnil, by simp⟩
      | cons first' others' =>
        have hxw : ¬ x.wait.isRequest = true := fun hx => by simp [hxq.mp hx] at hts
        rw [hts, List.cons_append, List.cons.injEq] at htu
        obtain ⟨rfl, rfl⟩ := htu
        obtain ⟨past, rest, hp, ho, hrest⟩ := h.front _ _ hts
        refine ⟨past, rest ++ [x.id], by simp [hb, hp], ho.append (.refl _), fun r hrm hri => ?_⟩
        rw [hreq, if_neg hxw, List.append_nil] at hrm
        rcases List.mem_append.mp hri with hri | hri
        · exact hrest r hrm hri
        · exact fresh r hrm (List.mem_singleton.mp hri)
    · have hblocks := blocks_of_begun fresh h.blocks
      rw [hreq, hb]
      split
      · rw [List.reverse_cons] at hblocks ⊢
        refine blocks_append ?_ (by simp) hblocks
        rw [← List.reverse_cons, ← hb]
        exact hu.nodup
      · simpa using hblocks
    · intro i hi
      rw [he] at hi
      rw [hw]
      rcases hi.of_waits with ⟨rfl, hxw⟩ | hi
      · exact ⟨x, by simp, rfl, hxw⟩
      · obtain ⟨y, hy, hyi, hyw⟩ := h.pending i (hi.of_append hr).1
        exact ⟨y, by simp [hy], hyi, hyw⟩
    · rw [he]
      exact apart_of_waits hr idle h.apart
  | asks x y a new hm hy hi hx hh hc hf hb ht hw he hr =>
    have hr' : (Event.answered y.id a :: new).filterMap Event.request? = [] := hr
    have hreq : u.requests = s.requests ++ [(x.id, x.wait)] := by
      rw [requests_of_waits he hr', if_pos hx]
    have idle : ∀ j, ¬ Pending (s.events ++ .answered y.id a :: new) j := by
      intro j hj
      obtain ⟨hj, hn⟩ := hj.of_append hr'
      obtain ⟨z, hz, hzi, hzw⟩ := h.pending j hj
      have hzh := hq.head z hz hzw
      rw [hh, Option.some.injEq] at hzh
      refine hn a ?_
      rw [← hzi, ← hzh]
      exact List.mem_cons_self
    obtain ⟨first, others, hts⟩ := List.exists_cons_of_ne_nil
      (l := s.server.turns) (by intro h; simp [h] at hh)
    obtain rfl : first = x.id := by simpa [hts, hi] using hh
    obtain ⟨past, rest, hp, ho, hrest⟩ := h.front _ _ hts
    have hnd : (past ++ x.id :: rest).Nodup := hp ▸ hs.nodup
    constructor
    · intro first others' htu
      rw [ht, hts, List.cons.injEq] at htu
      obtain ⟨rfl, rfl⟩ := htu
      refine ⟨past, rest, hb ▸ hp, ho, fun r hrm => ?_⟩
      rw [hreq, List.mem_append, List.mem_singleton] at hrm
      rcases hrm with hrm | rfl
      · exact hrest r hrm
      · exact (List.nodup_cons.mp (List.nodup_append.mp hnd).2.1).1
    · rw [hreq, hb, hp]
      exact blocks_append hnd hrest (hp ▸ h.blocks)
    · intro i hpi
      rw [he] at hpi
      rcases hpi.of_waits with ⟨rfl, -⟩ | hpi
      · exact ⟨x, by simp [hw], rfl, hx⟩
      · exact absurd hpi (idle i)
    · rw [he]
      exact apart_of_waits hr' (fun _ => idle) h.apart
  | leaves y a new hm hy hc hb ht hw he hr =>
    have hr' : (Event.answered y.id a :: new).filterMap Event.request? = [] := hr
    have hreq : u.requests = s.requests := requests_of_events he hr'
    constructor
    · intro first others htu
      rw [hreq]
      cases hts : s.server.turns with
      | nil => simp [ht, hts] at htu
      | cons first' others' =>
        obtain ⟨past, rest, hp, ho, hrest⟩ := h.front _ _ hts
        by_cases hf : first' = y.id
        · have hsub : (first :: others).Sublist rest := by
            rw [← htu, ht, hts, List.filter_cons_of_neg (by simp [hf])]
            exact List.filter_sublist.trans ho
          obtain ⟨early, late, rfl, hfm, hol⟩ := List.cons_sublist_iff.mp hsub
          obtain ⟨early, mid, rfl⟩ := List.append_of_mem hfm
          refine ⟨past ++ first' :: early, mid ++ late, hb ▸ by simp [hp],
            hol.trans (List.sublist_append_right _ _), fun r hrm hrl => hrest r hrm ?_⟩
          rcases List.mem_append.mp hrl with hrl | hrl <;> simp [hrl]
        · rw [ht, hts, List.filter_cons_of_pos (by simpa using hf), List.cons.injEq] at htu
          obtain ⟨rfl, rfl⟩ := htu
          exact ⟨past, rest, hb ▸ hp, List.filter_sublist.trans ho, hrest⟩
    · rw [hreq, hb]
      exact h.blocks
    · intro i hpi
      rw [he] at hpi
      obtain ⟨hpi, hn⟩ := hpi.of_append hr'
      obtain ⟨z, hz, hzi, hzw⟩ := h.pending i hpi
      have hzy : z.id ≠ y.id := fun hzy => hn a (by rw [← hzi, hzy]; exact List.mem_cons_self)
      exact ⟨z, by simp [hw, hz, hzy], hzi, hzw⟩
    · intro before i wait after hsplit hiw
      rw [he] at hsplit
      obtain ⟨rest, hsplit, -⟩ := exists_of_append_eq hr' hiw hsplit
      exact h.apart before i wait rest hsplit hiw

/-! ### what shows of each call -/

/-- A call that works on the server has shown the first signs of its script, and while it waits it
has the others ahead. -/
structure Told (s : System) : Prop where
  begun : ∀ i c, .began i c ∈ s.events → i ∈ s.begun
  same : ∀ x ∈ s.waiting, ∀ c, .began x.id c ∈ s.events → c = x.call
  fresh : ∀ i ∉ s.begun, s.signsOf i = []
  shown : ∀ i c, .began i c ∈ s.events → c.concern = .work → s.signsOf i <+: c.script
  ahead : ∀ x ∈ s.waiting, x.call.concern = .work →
    s.signsOf x.id ++ x.point.ahead [] = x.call.script

theorem told_ofServer (v : Server) : Told (.ofServer v) where
  begun i c h := by cases h
  same x hx := by cases hx
  fresh i h := rfl
  shown i c h := by cases h
  ahead x hx := by cases hx

theorem signsOf_of_events {new : List Event} (he : u.events = s.events ++ new) (i : Nat) :
    u.signsOf i = s.signsOf i ++ new.flatMap (Event.signs i) := by
  rw [signsOf, he, List.flatMap_append]
  rfl

/-- A call takes a turn after something that concerns no other call. -/
theorem Told.of_turn (h : Told s) (id : Nat) (call : Call) (t : Turn) (e : Event)
    (he : u.events = s.events ++ e :: t.events id)
    (hn : ∀ i, i ≠ id → Event.signs i e = [] ∧ ∀ c, e ≠ .began i c)
    (hc : ∀ c, .began id c ∈ s.events ∨ e = .began id c → c = call)
    (hid : id ∈ u.begun) (hb : ∀ i, i ≠ id → (i ∈ u.begun ↔ i ∈ s.begun))
    (hw : ∀ x ∈ u.waiting, x ∈ s.waiting ∧ x.id ≠ id ∨ x ∈ waitAfter s.now id call t)
    (ht : call.concern = .work → ∃ left,
      s.signsOf id ++ Event.signs id e ++ left = call.script ∧ t.KeepsTo [] left) : Told u := by
  have signs (i : Nat) :
      u.signsOf i = s.signsOf i ++ Event.signs i e ++ if id = i then t.outcome.signs else [] := by
    rw [signsOf_of_events he, List.flatMap_cons, flatMap_signs_events, List.append_assoc]
  have same {i : Nat} (hi : i ≠ id) : u.signsOf i = s.signsOf i := by
    rw [signs, (hn i hi).1, if_neg hi.symm, List.append_nil, List.append_nil]
  have began {i : Nat} {c : Call} (hi : .began i c ∈ u.events) :
      .began i c ∈ s.events ∨ e = .began i c := by
    rw [he, List.mem_append, List.mem_cons] at hi
    rcases hi with hi | hi | hi
    · exact .inl hi
    · exact .inr hi.symm
    · exact absurd hi began_notMem_events
  have old {i : Nat} {c : Call} (hne : i ≠ id) (hi : .began i c ∈ u.events) :
      .began i c ∈ s.events :=
    (began hi).resolve_right ((hn i hne).2 c)
  constructor
  · intro i c hi
    by_cases hne : i = id
    · exact hne ▸ hid
    · exact (hb i hne).mpr (h.begun i c (old hne hi))
  · intro x hx c hi
    rcases hw x hx with ⟨hx, hne⟩ | hx
    · exact h.same x hx c (old hne hi)
    · rw [(mem_waitAfter hx).2] at hi
      rw [hc c (began hi), (waitAfter_of_mem hx).2]
  · intro i hi
    have hne : i ≠ id := fun hne => hi (hne ▸ hid)
    rw [same hne]
    exact h.fresh i fun hm => hi ((hb i hne).mpr hm)
  · intro i c hi hwork
    by_cases hne : i = id
    · subst hne
      obtain rfl := hc c (began hi)
      obtain ⟨left, hl, hk⟩ := ht hwork
      rw [signs, if_pos rfl, ← hl]
      exact (List.prefix_append_right_inj _).mpr hk.signs
    · rw [same hne]
      exact h.shown i c (old hne hi) hwork
  · intro x hx hwork
    rcases hw x hx with ⟨hx, hne⟩ | hx
    · rw [same hne]
      exact h.ahead x hx hwork
    · obtain ⟨ho, rfl⟩ := mem_waitAfter hx
      obtain ⟨-, rfl⟩ := waitAfter_of_mem hx
      obtain ⟨left, hl, hk⟩ := ht hwork
      rw [signs, if_pos rfl, ho, Outcome.signs, List.append_assoc, hk.left ho, hl]

theorem Told.of_step? (h : Told s) (hs : Registered s) (hm : s.step? m = some u) : Told u := by
  cases stepped_of_step? hm with
  | call id call hn =>
    have hk : call.concern = .work →
        (s.server.firstTurn s.surroundings id call).KeepsTo [] call.script := fun hc =>
      ahead_of_work hc ▸ firstTurn_keepsTo (by rw [hc]; simp)
    refine h.of_turn id call (s.server.firstTurn s.surroundings id call) (.began id call) (by simp)
      ?_ ?_ (by simp) ?_ ?_ ?_
    · intro i hi
      exact ⟨rfl, fun c hc => hi (by cases hc; rfl)⟩
    · rintro c (hc | hc)
      · exact absurd (h.begun id c hc) hn
      · cases hc
        rfl
    · intro i hi
      simp [hi]
    · intro x hx
      rw [take_waiting, List.mem_append] at hx
      exact hx.imp_left fun hx => ⟨hx, fun hi => hn (hi ▸ hs.known x hx)⟩
    · intro hc
      exact ⟨call.script, by simp [h.fresh id hn, Event.signs], hk hc⟩
  | answer id a t x hx ha ht =>
    have hxm : x ∈ s.waiting := List.mem_of_find?_eq_some hx
    obtain rfl : x.id = id := by simpa using List.find?_some hx
    have hxb : x.id ∈ s.begun := hs.known x hxm
    refine h.of_turn x.id x.call t (.answered x.id a) (by simp) ?_ ?_
      (by rwa [take_begun, record_begun]) ?_ ?_ ?_
    · intro i hi
      exact ⟨by simp [Event.signs, hi.symm], fun c hc => by cases hc⟩
    · rintro c (hc | hc)
      · exact h.same x hxm c hc
      · cases hc
    · intro i hi
      simp
    · intro y hy
      rw [take_waiting, List.mem_append] at hy
      exact hy.imp_left fun hy => by simpa using hy
    · intro hc
      have hp : x.point.concern ≠ .stop := by
        rw [hs.concern x hxm, hc]
        simp
      obtain ⟨left, hl, hk⟩ : ∃ left, a.signs ++ left = x.point.ahead [] ∧ t.KeepsTo [] left :=
        nextTurn?_keepsTo hp ht
      refine ⟨left, ?_, hk⟩
      rw [Event.signs, if_pos rfl, List.append_assoc, hl]
      exact h.ahead x hxm hc
  | exit code hc he =>
    have signs (i : Nat) :
        (({ s with server := s.server.withExit code } : System).record (.exited code)).signsOf i =
          s.signsOf i := by
      simp [signsOf, Event.signs]
    have began {i : Nat} {c : Call}
        (hi : .began i c ∈ (({ s with server := s.server.withExit code } : System).record
          (.exited code)).events) : .began i c ∈ s.events := by
      simpa using hi
    exact ⟨fun i c hi => h.begun i c (began hi), fun x hx c hi => h.same x hx c (began hi),
      fun i hi => (signs i).trans (h.fresh i hi),
      fun i c hi hc => (signs i).symm ▸ h.shown i c (began hi) hc,
      fun x hx hc => (signs x.id).symm ▸ h.ahead x hx hc⟩
  | time m hm hc now refusal => exact ⟨h.begun, h.same, h.fresh, h.shown, h.ahead⟩

/-! ### one after the other -/

/-- Calls that work on a server one after the other. What they ask for at the client are blocks, one
for each call in the order in which the calls began, and each block is the beginning of what its
call has to do; nothing is asked for while an answer is outstanding. In the queue are those calls
that have not ended. A call that waits for its turn gets it when the calls before it have ended, and
then asks for something or ends; and each call can be cancelled, wherever it waits. -/
structure Serial (s : System) : Prop where
  blocks : s.requests = s.begun.reverse.flatMap fun i => s.requests.filter (·.1 == i)
  script : ∀ i c, .began i c ∈ s.events → c.concern = .work → s.signsOf i <+: c.script
  apart : ∀ before i wait after, s.events = before ++ .waits i wait :: after →
    wait.isRequest = true → ∀ j, ¬ Pending before j
  queue : ∀ i, i ∈ s.server.turns ↔ ∃ x ∈ s.waiting, x.id = i ∧ x.call.concern = .work
  runs : ∀ x ∈ s.waiting, x.wait = .turn →
    (∀ y ∈ s.waiting, y.call.concern = .work → ¬ [y.id, x.id].Sublist s.begun.reverse) →
    ∃ u, s.step? (.answer x.id .turn) = some u ∧
      ∀ y ∈ u.waiting, y.id = x.id → y.wait.isRequest = true
  leaves : ∀ x ∈ s.waiting, x.call.concern = .work →
    ∃ u, s.step? (.answer x.id .cancelled) = some u ∧ ∀ y ∈ u.waiting, y.id ≠ x.id

/-- A call takes its turn if it is the first of the queue. -/
theorem Registered.turn (h : Registered s) {x : Waiting} (hx : x ∈ s.waiting) (hw : x.wait = .turn)
    (hh : s.server.turns.head? = some x.id) :
    ∃ u, s.step? (.answer x.id .turn) = some u ∧
      ∀ y ∈ u.waiting, y.id = x.id → y.wait.isRequest = true := by
  obtain ⟨work, hp⟩ : ∃ work, x.point = .awaitingTurn work := by
    have hf := h.fits x hx
    rw [hw] at hf
    cases hp : x.point with
    | awaitingTurn work => exact ⟨work, rfl⟩
    | _ =>
      rw [hp] at hf
      exact hf.elim
  have ht : s.server.nextTurn? s.surroundings x.id x.point .turn =
      some (s.server.beginWork x.id work) := by
    rw [hp]
    rfl
  have ha : s.admits x .turn = true := by simpa [admits] using hh
  refine ⟨_, h.step?_answer hx ha ht, fun y hy hyx => ?_⟩
  rw [take_waiting, List.mem_append] at hy
  rcases hy with hy | hy
  · simp [hyx] at hy
  · have ho := (mem_waitAfter hy).1
    have hwork : WorkTurn s.server x.id (s.server.beginWork x.id work) := beginWork_work work
    generalize s.server.beginWork x.id work = t at ho hwork
    cases hwork with
    | asks hw =>
      cases ho
      exact hw
    | ends hn => exact absurd ho (hn _ _)

/-- A call that works on the server can be cancelled, wherever it waits. -/
theorem Registered.cancel (h : Registered s) {x : Waiting} (hx : x ∈ s.waiting)
    (hc : x.call.concern = .work) :
    ∃ u, s.step? (.answer x.id .cancelled) = some u ∧ ∀ y ∈ u.waiting, y.id ≠ x.id := by
  have hp : x.point.concern = .work := (h.concern x hx).trans hc
  have ht : s.server.nextTurn? s.surroundings x.id x.point .cancelled =
      some (s.server.endTurn x.id (.raised .cancelled)) := by
    cases hq : x.point <;> simp [hq, Point.concern] at hp <;> rfl
  refine ⟨_, h.step?_answer hx rfl ht, fun y hy hyx => ?_⟩
  simp [waitAfter, endTurn, hyx] at hy

/-- A call that waits behind no other stands first in the queue. -/
theorem Queued.first (h : Queued s) {x : Waiting} (hx : x ∈ s.waiting)
    (hc : x.call.concern = .work)
    (hn : ∀ y ∈ s.waiting, y.call.concern = .work → ¬ [y.id, x.id].Sublist s.begun.reverse) :
    s.server.turns.head? = some x.id := by
  have hm : x.id ∈ s.server.turns := h.queued x hx hc
  cases hts : s.server.turns with
  | nil => simp [hts] at hm
  | cons first others =>
    rw [hts, List.mem_cons] at hm
    rcases hm with hm | hm
    · rw [hm]
      rfl
    · obtain ⟨y, hy, rfl, hcy⟩ := h.member first (by simp [hts])
      refine absurd ?_ (hn y hy hcy)
      refine List.Sublist.trans ?_ h.order
      rw [hts]
      exact (List.singleton_sublist.mpr hm).cons_cons _

/-- Any number of calls on a server, in any order and with any answers of the client, work on it one
after the other. -/
theorem serial_of_reaches (info : Installation) (poll : Seconds) (grace : Span)
    (rounding : Seconds → Seconds) (ms : List Move)
    (h : Reaches (.ofServer { info, poll, grace, rounding }) ms s) : Serial s := by
  have hk : (Registered s ∧ Queued s) ∧ InLine s ∧ Told s := by
    refine h.keeps (P := fun s => (Registered s ∧ Queued s) ∧ InLine s ∧ Told s)
      ⟨⟨registered_ofServer _, queued_ofServer rfl⟩, inLine_ofServer rfl, told_ofServer _⟩
      fun t m v hm ⟨hq, hl, ht⟩ => ?_
    have hm := hm.step
    exact ⟨queued_step hq hm, hl.of_step? hq.1 hq.2 hm, ht.of_step? hq.1 hm⟩
  obtain ⟨⟨hr, hq⟩, hl, ht⟩ := hk
  refine ⟨hl.blocks, ht.shown, hl.apart, fun i => ⟨hq.member i, ?_⟩, fun x hx hw hn => ?_,
    fun x hx hc => hr.cancel hx hc⟩
  · rintro ⟨x, hx, rfl, hc⟩
    exact hq.queued x hx hc
  · have hc : x.call.concern = .work := by
      rw [← hr.concern x hx]
      have hf := hr.fits x hx
      rw [hw] at hf
      cases hp : x.point <;> rw [hp] at hf <;> first | rfl | exact hf.elim
    exact hr.turn hx hw (hq.first hx hc hn)

/-- The moves of calls that share a server: a deployment that fails, one that is cancelled while it
waits, a batch of two commands, and another deployment. -/
def sharedRun : List Move :=
  [.call 0 .start, .answer 0 (.launched 4242 none), .answer 0 (.state (some "running")),
    .call 1 (.deploy (.ofString "a.war") "a.war"), .call 2 (.deploy (.ofString "b.war") "b.war"),
    .call 3 (.execute { commands := [":whoami", ":reload"] }),
    .call 4 (.deploy (.ofString "c.war") "c.war"),
    .answer 1 (.failed (.system "no such file")), .answer 2 .cancelled, .answer 3 .turn,
    .answer 3 .done, .answer 3 .done, .answer 4 .turn]

/-- The server that they share. -/
def sharedServer : Server :=
  { info :=
      { home := .ofString "/opt/server", modules := .ofString "/opt/server/modules",
        bundles := .ofString "/opt/server/bundles", java := "java" }
    poll := 1
    grace := .finite 10 }

theorem serial_of_sharedRun :
    ∃ s, Reaches (.ofServer sharedServer) sharedRun s ∧ s.requests.map (·.1) = [1, 3, 3, 4] ∧
      Serial s := by
  have hrun : (sharedRun.foldlM step? (.ofServer sharedServer)).any
      (fun s => s.requests.map (·.1) == [1, 3, 3, 4]) = true := by
    decide +kernel
  rw [Option.any_eq_true] at hrun
  obtain ⟨s, hs, hreq⟩ := hrun
  have hr := leads_iff.mpr hs
  exact ⟨s, hr, by simpa using hreq, serial_of_reaches _ _ _ _ _ hr⟩

end System

end ServerRun.Server
