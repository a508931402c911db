import ServerRun.Run.ShutdownSystem

/-! A shutdown runs its callback once. The first call has its turn at once and enters the callback
that is attached then, if there is one; every other call ends after that callback has ended, and
what is attached later plays no part. -/

namespace ServerRun.Shutdown

variable {κ : Type}

/-- The callback that is attached. -/
def Event.attached? : Event κ → Option κ
  | .attached k => some k
  | _ => none

/-- The callback that is entered. -/
def Event.entered? : Event κ → Option κ
  | .entered _ k => some k
  | _ => none

/-- A call has ended. -/
def Event.isEnd : Event κ → Bool
  | .ended .. => true
  | _ => false

/-- The callback that was attached last, or the one given at first. -/
def lastAttached (given : Option κ) (events : List (Event κ)) : Option κ :=
  (events.filterMap Event.attached?).getLast?.or given

theorem lastAttached_append_attached (given : Option κ) (events : List (Event κ)) (k : κ) :
    lastAttached given (events ++ [.attached k]) = some k := by
  simp [lastAttached, Event.attached?]

section

variable {h : Shutdown κ} {id : Nat}

theorem attach_of_done (hd : h.done = true) (k : κ) : h.attach k = h := by simp [attach, hd]

theorem attach_of_not_done (hd : h.done = false) (k : κ) :
    h.attach k = { h with callback := some k } := by
  simp [attach, hd]

theorem run_of_idle (hq : h.turns = []) : h.run id = takeTurn { h with turns := [id] } id := by
  simp [run, hq]

theorem run_of_busy (hq : h.turns ≠ []) :
    h.run id = ({ h with turns := h.turns ++ [id] }, .awaitingTurn) := by
  simp [run, hq]

theorem takeTurn_of_done (hd : h.done = true) : h.takeTurn id = (h.passTurn id, .returned) := by
  simp [takeTurn, hd]

theorem takeTurn_of_some {k : κ} (hd : h.done = false) (hk : h.callback = some k) :
    h.takeTurn id =
      ({ h with done := true, invocations := h.invocations + 1 }, .entered k) := by
  simp [takeTurn, hd, hk]

/-- A call whose turn comes ends where there is nothing to enter. -/
theorem takeTurn_of_none (hk : h.done = false → h.callback = none) :
    h.takeTurn id = (passTurn { h with done := true } id, .returned) := by
  cases hd : h.done with
  | true =>
    rw [takeTurn_of_done hd, passTurn, passTurn]
    simp [hd]
  | false => simp [takeTurn, hd, hk hd]

/-- The call that has entered the callback ends with it, and fails only if it was cancelled. -/
theorem callbackEnded_outcome (h : Shutdown κ) (id : Nat) (result : Except Failure Unit) :
    ∃ ended : Except Failure Unit,
      (∀ f, ended = .error f → f = .cancelled ∧ result = .error .cancelled) ∧
      (h.callbackEnded id result).1 = h.passTurn id ∧
      (ended = .ok () ∧ (h.callbackEnded id result).2.2 = .returned ∨
        ∃ f, ended = .error f ∧ (h.callbackEnded id result).2.2 = .raised f) := by
  unfold callbackEnded
  split
  · exact ⟨.ok (), by simp, rfl, .inl ⟨rfl, rfl⟩⟩
  · refine ⟨.error .cancelled, fun f hf => ?_, rfl, .inr ⟨_, rfl, rfl⟩⟩
    cases hf
    exact ⟨rfl, rfl⟩
  · exact ⟨.ok (), by simp, rfl, .inl ⟨rfl, rfl⟩⟩

end

namespace System

variable {s u : System κ} {m : Move κ} {given : Option κ}

/-- The callbacks that were entered, in their order. -/
def entries (s : System κ) : List κ := s.history.filterMap Event.entered?

/-- What a move comes to. -/
inductive Moved (s u : System κ) : Prop
  | attaches (k : κ) (hs : u.shutdown = s.shutdown.attach k) (hw : u.waiting = s.waiting)
      (hi : u.inside = s.inside) (hb : u.begun = s.begun)
      (hh : u.history = s.history ++ [.attached k])
  /-- The first call enters the callback. -/
  | enters (id : Nat) (k : κ) (hk : s.shutdown.callback = some k)
      (hn : s.shutdown.done = false) (hq : s.shutdown.turns = [])
      (hs : u.shutdown =
        { s.shutdown with done := true, invocations := s.shutdown.invocations + 1, turns := [id] })
      (hw : u.waiting = s.waiting) (hi : u.inside = id :: s.inside) (hb : u.begun = id :: s.begun)
      (hh : u.history = s.history ++ [.began id, .entered id k])
  /-- A call ends at once. -/
  | passes (id : Nat) (hk : s.shutdown.done = false → s.shutdown.callback = none)
      (hq : s.shutdown.turns = []) (hs : u.shutdown = { s.shutdown with done := true })
      (hw : u.waiting = s.waiting) (hi : u.inside = s.inside) (hb : u.begun = id :: s.begun)
      (hh : u.history = s.history ++ [.began id, .ended id (.ok ())])
  /-- A call waits for its turn. -/
  | waits (id : Nat) (hn : id ∉ s.begun) (hq : s.shutdown.turns ≠ [])
      (hs : u.shutdown = { s.shutdown with turns := s.shutdown.turns ++ [id] })
      (hw : u.waiting = s.waiting ++ [id]) (hi : u.inside = s.inside) (hb : u.begun = id :: s.begun)
      (hh : u.history = s.history ++ [.began id])
  /-- A call that has waited ends. -/
  | returns (id : Nat) (hm : id ∈ s.waiting) (hq : s.shutdown.turns.head? = some id)
      (hs : u.shutdown = s.shutdown.passTurn id) (hw : u.waiting = s.waiting.filter (· != id))
      (hi : u.inside = s.inside) (hb : u.begun = s.begun)
      (hh : u.history = s.history ++ [.ended id (.ok ())])
  /-- The callback ends, and with it the call that has entered it. -/
  | leaves (id : Nat) (result ended : Except Failure Unit) (hm : id ∈ s.inside)
      (he : ∀ f, ended = .error f → f = .cancelled ∧ result = .error .cancelled)
      (hs : u.shutdown = s.shutdown.passTurn id) (hw : u.waiting = s.waiting)
      (hi : u.inside = s.inside.filter (· != id)) (hb : u.begun = s.begun)
      (hh : u.history = s.history ++ [.left id result, .ended id ended])

theorem moved_of_step? (hd : s.shutdown.turns ≠ [] → s.shutdown.done = true)
    (hm : s.step? m = some u) : Moved s u := by
  cases m with
  | attach k =>
    cases hm
    exact .attaches k rfl rfl rfl rfl rfl
  | call id =>
    simp only [step?] at hm
    split at hm
    · cases hm
    · rename_i hn
      have hn : id ∉ s.begun := by simpa using hn
      cases hm
      by_cases hq : s.shutdown.turns = []
      · by_cases hk : s.shutdown.done = false ∧ ∃ k, s.shutdown.callback = some k
        · obtain ⟨hf, k, hk⟩ := hk
          simp only [record, run_of_idle hq,
            takeTurn_of_some (h := { s.shutdown with turns := [id] }) hf hk, take]
          exact .enters id k hk hf hq rfl rfl rfl rfl (by simp)
        · have hk : s.shutdown.done = false → s.shutdown.callback = none := fun hf => by
            simpa [hf, Option.eq_none_iff_forall_ne_some] using hk
          simp only [record, run_of_idle hq, takeTurn_of_none
            (h := { s.shutdown with turns := [id] }) hk, take]
          exact .passes id hk hq (by simp [passTurn, hq]) rfl rfl rfl (by simp)
      · simp only [record, run_of_busy hq, take]
        exact .waits id hn hq rfl rfl rfl rfl rfl
  | turn id =>
    simp only [step?] at hm
    split at hm
    · rename_i hc
      simp only [Bool.and_eq_true, List.contains_iff_mem, beq_iff_eq] at hc
      have hq : s.shutdown.turns ≠ [] := fun hq => by simp [hq] at hc
      cases hm
      simp only [takeTurn_of_done (hd hq), take, record]
      exact .returns id hc.1 hc.2 rfl rfl rfl rfl rfl
    · cases hm
  | leave id result =>
    simp only [step?] at hm
    split at hm
    · rename_i hc
      cases hm
      obtain ⟨ended, he, ho⟩ := callbackEnded_outcome s.shutdown id result
      generalize s.shutdown.callbackEnded id result = c at ho
      obtain ⟨h', logs, o⟩ := c
      obtain ⟨rfl, ho⟩ := ho
      refine .leaves id result ended (by simpa using hc) he ?_ ?_ ?_ ?_ ?_
      all_goals rcases ho with ⟨rfl, rfl⟩ | ⟨f, rfl, rfl⟩ <;> simp [take, record]
    · cases hm

/-! ### the turns -/

/-- The calls whose turns are to come: one that is in the callback at most, before those that
wait. -/
structure InTurn (s : System κ) : Prop where
  turns : s.shutdown.turns = s.inside ++ s.waiting
  known : ∀ id ∈ s.shutdown.turns, id ∈ s.begun
  nodup : s.shutdown.turns.Nodup

theorem InTurn.inside_of_turns (h : InTurn s) (hq : s.shutdown.turns = []) : s.inside = [] :=
  (List.append_eq_nil_iff.mp (h.turns.symm.trans hq)).1

theorem InTurn.passTurn (h : InTurn s) (id : Nat) (hs : u.shutdown = s.shutdown.passTurn id)
    (hi : u.inside = s.inside.filter (· != id)) (hw : u.waiting = s.waiting.filter (· != id))
    (hb : u.begun = s.begun) : InTurn u where
  turns := by rw [hs, hi, hw, ← List.filter_append, ← h.turns]; rfl
  known i hm := by
    rw [hs] at hm
    exact hb ▸ h.known i (List.mem_filter.mp hm).1
  nodup := by
    rw [hs]
    exact h.nodup.filter _

theorem InTurn.of_moved (h : InTurn s) (hm : Moved s u) : InTurn u := by
  have disjoint {i : Nat} (hi : i ∈ s.inside) (hw : i ∈ s.waiting) : False :=
    (List.nodup_append.mp (h.turns ▸ h.nodup)).2.2 i hi i hw rfl
  cases hm with
  | attaches k hs hw hi hb hh =>
    have ht : u.shutdown.turns = s.shutdown.turns := by
      rw [hs, attach]
      split <;> rfl
    exact ⟨by rw [ht, hi, hw, h.turns], by rw [ht, hb]; exact h.known, ht ▸ h.nodup⟩
  | enters id k hk hd hq hs hw hi hb hh =>
    obtain ⟨hi', hw'⟩ := List.append_eq_nil_iff.mp (h.turns.symm.trans hq)
    exact ⟨by rw [hs, hi, hw, hi', hw']; rfl, by simp [hs, hb], by simp [hs]⟩
  | passes id hk hq hs hw hi hb hh =>
    exact ⟨by rw [hs, hi, hw, ← h.turns], by simp [hs, hq], by simp [hs, hq]⟩
  | waits id hn hq hs hw hi hb hh =>
    refine ⟨by rw [hs, hi, hw, h.turns, List.append_assoc], fun i hm => ?_, ?_⟩
    · rw [hs, List.mem_append, List.mem_singleton] at hm
      rw [hb]
      rcases hm with hm | rfl
      · exact List.mem_cons_of_mem _ (h.known i hm)
      · exact List.mem_cons_self
    · rw [hs]
      exact List.nodup_append.mpr ⟨h.nodup, List.pairwise_singleton _ id, fun i hi j hj he =>
        hn (List.mem_singleton.mp hj ▸ he ▸ h.known i hi)⟩
  | returns id hm hq hs hw hi hb hh =>
    refine h.passTurn id hs ?_ hw hb
    rw [hi, List.filter_eq_self.mpr fun i hi => ?_]
    exact bne_iff_ne.mpr fun he => disjoint hi (he ▸ hm)
  | leaves id result ended hm he hs hw hi hb hh =>
    refine h.passTurn id hs hi ?_ hb
    rw [hw, List.filter_eq_self.mpr fun i hi => ?_]
    exact bne_iff_ne.mpr fun he => disjoint hm (he ▸ hi)

/-! ### the callback -/

/-- The first call has decided what is entered: the callback that was attached last before it, and
nothing if there was none. -/
structure Decided (given : Option κ) (s : System κ) : Prop where
  done : s.shutdown.done = true
  invocations : s.shutdown.invocations = s.entries.length
  entries : ∃ before id after, s.history = before ++ .began id :: after ∧
    (∀ e ∈ before, ∃ k, e = .attached k) ∧ s.entries = (lastAttached given before).toList

/-- What a shutdown keeps to: before the first call there are attached callbacks only. -/
structure Committed (given : Option κ) (s : System κ) : Prop where
  fresh : s.begun = [] → s.shutdown.done = false ∧ s.shutdown.invocations = 0 ∧
    s.shutdown.callback = lastAttached given s.history ∧ ∀ e ∈ s.history, ∃ k, e = .attached k
  used : s.begun ≠ [] → Decided given s

theorem entries_of_history {new : List (Event κ)} (hh : u.history = s.history ++ new) :
    u.entries = s.entries ++ new.filterMap Event.entered? := by
  rw [entries, hh, List.filterMap_append]
  rfl

/-- What was decided stays so, as nothing more is entered. -/
theorem Decided.of_history (h : Decided given s) {new : List (Event κ)}
    (hh : u.history = s.history ++ new) (hn : new.filterMap Event.entered? = [])
    (hd : u.shutdown.done = true) (hv : u.shutdown.invocations = s.shutdown.invocations) :
    Decided given u := by
  have he : u.entries = s.entries := by rw [entries_of_history hh, hn, List.append_nil]
  obtain ⟨before, id, after, hs, hb, hk⟩ := h.entries
  exact ⟨hd, by rw [hv, he, h.invocations], before, id, after ++ new, by simp [hh, hs], hb, he ▸ hk⟩

theorem Committed.entries_of_fresh (h : Committed given s) (hb : s.begun = []) :
    s.entries = [] := by
  refine List.filterMap_eq_nil_iff.mpr fun e he => ?_
  obtain ⟨k, rfl⟩ := (h.fresh hb).2.2.2 e he
  rfl

theorem Committed.done_of_turns (h : Committed given s) (ht : InTurn s)
    (hq : s.shutdown.turns ≠ []) : s.shutdown.done = true := by
  obtain ⟨id, hid⟩ := List.exists_mem_of_ne_nil _ hq
  exact (h.used (List.ne_nil_of_mem (ht.known id hid))).done

theorem Committed.of_moved (h : Committed given s) (ht : InTurn s) (hm : Moved s u) :
    Committed given u := by
  have used (hn : s.shutdown.done = true) : Decided given s := by
    refine h.used fun hb => ?_
    rw [(h.fresh hb).1] at hn
    cases hn
  cases hm with
  | attaches k hs hw hi hb hh =>
    refine ⟨fun hf => ?_, fun hf => ?_⟩
    · obtain ⟨hd, hv, -, he⟩ := h.fresh (hb ▸ hf)
      rw [hs, hh, attach_of_not_done hd, lastAttached_append_attached]
      refine ⟨hd, hv, rfl, fun e hm => ?_⟩
      rw [List.mem_append, List.mem_singleton] at hm
      rcases hm with hm | rfl
      · exact he e hm
      · exact ⟨k, rfl⟩
    · have hd := h.used (hb ▸ hf)
      have ha : u.shutdown = s.shutdown := by rw [hs, attach_of_done hd.done]
      exact hd.of_history hh rfl (ha ▸ hd.done) (by rw [ha])
  | enters id k hk hd hq hs hw hi hb hh =>
    have hf : s.begun = [] := Classical.byContradiction fun hf => by
      rw [(h.used hf).done] at hd
      cases hd
    obtain ⟨-, hv, hc, he⟩ := h.fresh hf
    have hentries : u.entries = [k] := by
      rw [entries_of_history hh, h.entries_of_fresh hf]
      rfl
    refine ⟨fun hn => by simp [hb] at hn, fun _ => ⟨by rw [hs], ?_, s.history, id, _, hh, he, ?_⟩⟩
    · rw [hs, hentries, hv]
      rfl
    · rw [hentries, ← hc, hk]
      rfl
  | passes id hk hq hs hw hi hb hh =>
    refine ⟨fun hn => by simp [hb] at hn, fun _ => ?_⟩
    by_cases hf : s.begun = []
    · obtain ⟨hd, hv, hc, he⟩ := h.fresh hf
      have hentries : u.entries = [] := by
        rw [entries_of_history hh, h.entries_of_fresh hf]
        rfl
      refine ⟨by rw [hs], by rw [hs, hentries, hv]; rfl, s.history, id, _, hh, he, ?_⟩
      rw [hentries, ← hc, hk hd]
      rfl
    · exact (h.used hf).of_history hh rfl (by rw [hs]) (by rw [hs])
  | waits id hn hq hs hw hi hb hh =>
    have hd := h.done_of_turns ht hq
    refine ⟨fun hn => by simp [hb] at hn, fun _ => ?_⟩
    exact (used hd).of_history hh rfl (by rw [hs, hd]) (by rw [hs])
  | returns id hm hq hs hw hi hb hh =>
    have hf : s.begun ≠ [] := List.ne_nil_of_mem (ht.known id (by simp [ht.turns, hm]))
    refine ⟨fun hn => absurd (hb ▸ hn) hf, fun _ => ?_⟩
    exact (h.used hf).of_history hh rfl (by rw [hs]; exact (h.used hf).done) (by rw [hs]; rfl)
  | leaves id result ended hm he hs hw hi hb hh =>
    have hf : s.begun ≠ [] := List.ne_nil_of_mem (ht.known id (by simp [ht.turns, hm]))
    refine ⟨fun hn => absurd (hb ▸ hn) hf, fun _ => ?_⟩
    exact (h.used hf).of_history hh rfl (by rw [hs]; exact (h.used hf).done) (by rw [hs]; rfl)

/-! ### the ends of calls -/

/-- Whatever was entered was left before any call ended. -/
def EndsAwait (events : List (Event κ)) : Prop :=
  ∀ before id result after, events = before ++ .ended id result :: after →
    ∀ i k, .entered i k ∈ events → ∃ r, .left i r ∈ before

theorem EndsAwait.of_append {events new : List (Event κ)} (h : EndsAwait events)
    (hn : ∀ e ∈ new, e.isEnd = false) (he : new.filterMap Event.entered? = []) :
    EndsAwait (events ++ new) := by
  intro before id result after hs i k hk
  obtain ⟨rest, hs, -⟩ := exists_of_append_eq_append_cons (fun hm => by cases hn _ hm) hs
  rw [List.mem_append] at hk
  rcases hk with hk | hk
  · exact h before id result rest hs i k hk
  · cases List.filterMap_eq_nil_iff.mp he _ hk

theorem EndsAwait.of_end {events : List (Event κ)} (h : EndsAwait events)
    (hl : ∀ i k, .entered i k ∈ events → ∃ r, .left i r ∈ events) (id : Nat)
    (result : Except Failure Unit) : EndsAwait (events ++ [.ended id result]) := by
  intro before id' result' after hs i k hk
  have hk : .entered i k ∈ events := by simpa using hk
  rcases List.eq_nil_or_concat after with rfl | ⟨after, e, rfl⟩
  · obtain ⟨rfl, -⟩ := List.append_inj' hs rfl
    exact hl i k hk
  · rw [List.concat_eq_append, ← List.cons_append, ← List.append_assoc] at hs
    exact h before id' result' after (List.append_inj' hs rfl).1 i k hk

/-- Who is in the callback, and how calls have ended. -/
structure Awaited (s : System κ) : Prop where
  inside : ∀ id ∈ s.inside, s.inside = [id] ∧ ∀ e ∈ s.history, e.isEnd = false
  entered : ∀ i k, .entered i k ∈ s.history → i ∈ s.inside ∨ ∃ r, .left i r ∈ s.history
  ends : EndsAwait s.history
  quiet : ∀ id f, .ended id (.error f) ∈ s.history →
    f = .cancelled ∧ .left id (.error .cancelled) ∈ s.history

/-- Whatever was entered was left, where no call is inside. -/
theorem Awaited.left (h : Awaited s) (hi : s.inside = []) (i : Nat) (k : κ)
    (hk : .entered i k ∈ s.history) : ∃ r, .left i r ∈ s.history :=
  (h.entered i k hk).resolve_left fun hm => by simp [hi] at hm

/-- Where nothing is entered and no call ends, all is as before. -/
theorem Awaited.of_append (h : Awaited s) {new : List (Event κ)} (hi : u.inside = s.inside)
    (hh : u.history = s.history ++ new) (hn : ∀ e ∈ new, e.isEnd = false)
    (he : new.filterMap Event.entered? = []) : Awaited u where
  inside id hm := by
    rw [hi] at hm ⊢
    refine ⟨(h.inside id hm).1, fun e hme => ?_⟩
    rw [hh, List.mem_append] at hme
    rcases hme with hme | hme
    · exact (h.inside id hm).2 e hme
    · exact hn e hme
  entered i k hk := by
    rw [hh, List.mem_append] at hk
    rcases hk with hk | hk
    · rw [hi, hh]
      exact (h.entered i k hk).imp_right fun ⟨r, hr⟩ => ⟨r, List.mem_append_left _ hr⟩
    · cases List.filterMap_eq_nil_iff.mp he _ hk
  ends := by
    rw [hh]
    exact h.ends.of_append hn he
  quiet id f hf := by
    rw [hh, List.mem_append] at hf
    rcases hf with hf | hf
    · obtain ⟨hc, hl⟩ := h.quiet id f hf
      exact ⟨hc, hh ▸ List.mem_append_left _ hl⟩
    · cases hn _ hf

/-- A call ends while none is inside. -/
theorem Awaited.of_end (h : Awaited s) (hs : s.inside = []) (id : Nat)
    (result : Except Failure Unit) (hi : u.inside = [])
    (hh : u.history = s.history ++ [.ended id result])
    (hr : ∀ f, result = .error f → f = .cancelled ∧ .left id (.error .cancelled) ∈ s.history) :
    Awaited u where
  inside i hm := by simp [hi] at hm
  entered i k hk := by
    have hk : .entered i k ∈ s.history := by simpa [hh] using hk
    obtain ⟨r, hl⟩ := h.left hs i k hk
    exact .inr ⟨r, hh ▸ List.mem_append_left _ hl⟩
  ends := by
    rw [hh]
    exact h.ends.of_end (h.left hs) id result
  quiet i f hf := by
    rw [hh, List.mem_append, List.mem_singleton] at hf
    have hf : f = .cancelled ∧ .left i (.error .cancelled) ∈ s.history := by
      rcases hf with hf | hf
      · exact h.quiet i f hf
      · cases hf
        exact hr f rfl
    exact ⟨hf.1, hh ▸ List.mem_append_left _ hf.2⟩

theorem Awaited.of_moved (h : Awaited s) (ht : InTurn s) (hc : Committed given s)
    (hm : Moved s u) : Awaited u := by
  cases hm with
  | attaches k hs hw hi hb hh => exact h.of_append hi hh (by simp [Event.isEnd]) rfl
  | waits id hn hq hs hw hi hb hh => exact h.of_append hi hh (by simp [Event.isEnd]) rfl
  | enters id k hk hd hq hs hw hi hb hh =>
    have he : ∀ e ∈ s.history, ∃ k, e = .attached k := by
      refine (hc.fresh (Classical.byContradiction fun hf => ?_)).2.2.2
      rw [(hc.used hf).done] at hd
      cases hd
    have hn : ∀ e ∈ u.history, e.isEnd = false := by
      intro e hm
      rw [hh, List.mem_append] at hm
      rcases hm with hm | hm
      · obtain ⟨k, rfl⟩ := he e hm
        rfl
      · simp at hm
        rcases hm with rfl | rfl <;> rfl
    have hin : u.inside = [id] := by rw [hi, ht.inside_of_turns hq]
    refine ⟨fun i hm => ?_, fun i k hk => ?_, fun before id' result after hsplit => ?_,
      fun i f hf => ?_⟩
    · rw [hin, List.mem_singleton] at hm
      exact ⟨hm ▸ hin, hn⟩
    · rw [hh, List.mem_append] at hk
      rcases hk with hk | hk
      · obtain ⟨k', hk'⟩ := he _ hk
        cases hk'
      · obtain ⟨rfl, -⟩ : i = id ∧ _ := by simpa using hk
        exact .inl (by simp [hin])
    · cases hn _ (by rw [hsplit]; simp : Event.ended id' result ∈ u.history)
    · cases hn _ hf
  | passes id hk hq hs hw hi hb hh =>
    have hin := ht.inside_of_turns hq
    have hbegan : Awaited { s with history := s.history ++ [.began id] } :=
      h.of_append rfl rfl (by simp [Event.isEnd]) rfl
    exact hbegan.of_end hin id (.ok ()) (hi.trans hin) (by simp [hh]) (by simp)
  | returns id hm hq hs hw hi hb hh =>
    have hin : s.inside = [] := by
      refine List.eq_nil_iff_forall_not_mem.mpr fun i hmi => ?_
      have hturns := ht.turns
      rw [(h.inside i hmi).1] at hturns
      obtain rfl : i = id := by simpa [hturns] using hq
      have := ht.nodup
      simp [hturns, hm] at this
    exact h.of_end hin id (.ok ()) (hi.trans hin) hh (by simp)
  | leaves id result ended hm he hs hw hi hb hh =>
    obtain ⟨hin, hn⟩ := h.inside id hm
    have hleft : Awaited
        { s with inside := [], history := s.history ++ [.left id result] } := by
      refine ⟨fun i hm => (by cases hm), fun i k hk => .inr ?_, ?_, fun i f hf => ?_⟩
      · have hk : .entered i k ∈ s.history := by simpa using hk
        rcases h.entered i k hk with hmi | ⟨r, hr⟩
        · rw [hin, List.mem_singleton] at hmi
          exact ⟨result, by simp [hmi]⟩
        · exact ⟨r, by simp [hr]⟩
      · exact h.ends.of_append (by simp [Event.isEnd]) rfl
      · have hf : .ended i (.error f) ∈ s.history := by simpa using hf
        cases hn _ hf
    refine hleft.of_end rfl id ended (by rw [hi, hin]; simp) (by simp [hh])
      fun f hf => ?_
    obtain ⟨rfl, rfl⟩ := he f hf
    exact ⟨rfl, by simp⟩

/-! ### all runs -/

/-- What a shutdown does in a run, from the callback given at first. A callback is entered at most
once, and it is counted. The callback that is entered is the one that was attached last before the
first call, and nothing is entered if there was none or no call has begun. What is attached after
the first call changes nothing. No call ends before what was entered was left, and a call fails only
if it was cancelled in the callback. -/
structure RunsOnce (given : Option κ) (s : System κ) : Prop where
  once : s.entries.length ≤ 1
  counted : s.shutdown.invocations = s.entries.length
  entered : ∀ before id after, s.history = before ++ .began id :: after →
    (∀ i, .began i ∉ before) → s.entries = (lastAttached given before).toList
  unentered : (∀ id, .began id ∉ s.history) → s.entries = []
  ignored : ∀ id, .began id ∈ s.history → ∀ k u, s.step? (.attach k) = some u →
    u.shutdown = s.shutdown
  awaited : ∀ before id result after, s.history = before ++ .ended id result :: after →
    ∀ i k, .entered i k ∈ s.history → ∃ r, .left i r ∈ before
  quiet : ∀ id f, .ended id (.error f) ∈ s.history →
    f = .cancelled ∧ .left id (.error .cancelled) ∈ s.history

theorem entries_length_le (h : Committed given s) : s.entries.length ≤ 1 := by
  by_cases hf : s.begun = []
  · simp [h.entries_of_fresh hf]
  · obtain ⟨before, id, after, -, -, he⟩ := (h.used hf).entries
    rw [he]
    cases lastAttached given before <;> simp

/-- Two ways to find the first call in a history find the same. -/
theorem before_unique {events before after before' after' : List (Event κ)} {id id' : Nat}
    (h : events = before ++ .began id :: after) (h' : events = before' ++ .began id' :: after')
    (hb : ∀ e ∈ before, ∃ k, e = .attached k) (hb' : ∀ i, .began i ∉ before') :
    before = before' := by
  rcases List.append_eq_append_iff.mp (h.symm.trans h') with ⟨mid, rfl, hm⟩ | ⟨mid, rfl, hm⟩
  · cases mid with
    | nil => simp
    | cons e mid =>
      obtain ⟨rfl, -⟩ := List.cons.inj hm
      exact absurd (by simp) (hb' id)
  · cases mid with
    | nil => simp
    | cons e mid =>
      obtain ⟨rfl, -⟩ := List.cons.inj hm
      obtain ⟨k, hk⟩ := hb (.began id') (by simp)
      cases hk

/-- Any number of calls of a shutdown and of callbacks that are attached, in any order. -/
theorem runsOnce_of_reaches {ms : List (Move κ)}
    (h : Reaches { shutdown := { callback := given } } ms s) : RunsOnce given s := by
  have hk : InTurn s ∧ Committed given s ∧ Awaited s := by
    refine h.keeps (P := fun s => InTurn s ∧ Committed given s ∧ Awaited s) ?_
      fun t m u hm ⟨ht, hc, ha⟩ => ?_
    · refine ⟨⟨rfl, by simp, by simp⟩, ⟨fun _ => ⟨rfl, rfl, rfl, by simp⟩, by simp⟩, ?_⟩
      exact ⟨by simp, by simp, fun before id result after hs => by simp at hs, by simp⟩
    · have hm : Moved t u := moved_of_step? (hc.done_of_turns ht) hm.step
      exact ⟨ht.of_moved hm, hc.of_moved ht hm, ha.of_moved ht hc hm⟩
  obtain ⟨ht, hc, ha⟩ := hk
  have used {id : Nat} (hb : .began id ∈ s.history) : Decided given s := by
    refine hc.used fun hf => ?_
    obtain ⟨k, hk⟩ := (hc.fresh hf).2.2.2 _ hb
    cases hk
  refine ⟨entries_length_le hc, ?_, fun before id after hs hb => ?_, fun hn => ?_,
    fun id hb k u hu => ?_, ha.ends, ha.quiet⟩
  · by_cases hf : s.begun = []
    · rw [(hc.fresh hf).2.1, hc.entries_of_fresh hf]
      rfl
    · exact (hc.used hf).invocations
  · have hbegan : .began id ∈ s.history := by simp [hs]
    obtain ⟨before', id', after', hs', hb', he⟩ := (used hbegan).entries
    rw [he, before_unique hs' hs hb' hb]
  · by_cases hf : s.begun = []
    · exact hc.entries_of_fresh hf
    · obtain ⟨before, id, after, hs, -⟩ := (hc.used hf).entries
      exact absurd (by rw [hs]; simp) (hn id)
  · cases hu
    exact attach_of_done (used hb).done k

/-- Two callbacks are attached before the first of three calls and one after it; the callback that
is entered fails while the other calls wait. -/
def contendedRun : List (Move String) :=
  [.attach "stop", .attach "drain", .call 0, .call 1, .attach "late", .call 2,
    .leave 0 (.error (.system "no such process")), .turn 1, .turn 2]

theorem runsOnce_of_contendedRun :
    ∃ s, Reaches { shutdown := { callback := some "first" } } contendedRun s ∧
      s.entries = ["drain"] ∧ s.waiting = [] ∧ RunsOnce (some "first") s := by
  have hrun : (contendedRun.foldlM step? { shutdown := { callback := some "first" } }).any
      (fun s => s.entries == ["drain"] && s.waiting.isEmpty) = true := by
    decide +kernel
  rw [Option.any_eq_true] at hrun
  obtain ⟨s, hs, he⟩ := hrun
  obtain ⟨he, hw⟩ : s.entries = ["drain"] ∧ s.waiting = [] := by simpa using he
  have hr := leads_iff.mpr hs
  exact ⟨s, hr, he, hw, runsOnce_of_reaches hr⟩

end System

end ServerRun.Shutdown
