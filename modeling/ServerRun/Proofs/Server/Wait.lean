import ServerRun.Proofs.Server.Turn

/-! What a call waits for at a point. The point at which a call waits and what is asked of its
surroundings there go together, so what is asked tells how far the call has come. -/

namespace ServerRun.Server

/-- A call that waits at a point may wait for this. -/
def Point.Fits : Point → Wait → Prop
  | .launching, .launch .. | .readingState _, .readState _ | .sleeping _, .sleep _
  | .awaitingTurn _, .turn | .awaitingExit, .exit none | .askingShutdown _, .shutdown _
  | .awaitingDeath .., .exit (some _) | .closing .., .close | .draining .., .drain _ => True
  | .deploying name, .deploy _ name' => name' = name
  | .executing _ _ request, .execute request' => request' = request
  | _, _ => False

/-- What a call asks for at the management client when it works on the server. -/
def Wait.isRequest : Wait → Bool
  | .deploy .. | .execute _ => true
  | _ => false

theorem Point.Fits.concern {p : Point} {w : Wait} (h : p.Fits w) (hw : w.isRequest = true) :
    p.concern = .work := by
  cases p <;> cases w <;> simp_all [Point.Fits, Point.concern, Wait.isRequest]

/-- A turn leaves its call, if it waits, with what fits the point. -/
def Turn.Fits (t : Turn) : Prop := ∀ p w, t.outcome = .paused p w → p.Fits w

section

variable {s : Server} {w : Surroundings} {id : Nat} {t : Turn}

theorem Turn.Ends.fits (h : t.Ends) : t.Fits := fun p w hp => absurd hp (h p w)

theorem Turn.Fits.after (h : t.Fits) (es : List Effect) : (t.after es).Fits := h

theorem pause_fits {p : Point} {wait : Wait} (h : p.Fits wait) : (s.pause p wait).Fits := by
  intro q w hq
  cases hq
  exact h

/-! ### starting -/

theorem look_fits (since : Seconds) : (s.look w since).Fits := by
  unfold look
  split
  · exact (raise_ends _).fits
  · split
    · exact (raise_ends _).fits
    · exact pause_fits trivial

theorem sleepOrGiveUp_fits (since : Seconds) : (s.sleepOrGiveUp w since).Fits := by
  simp only [sleepOrGiveUp]
  split
  · exact (raise_ends _).fits
  · exact pause_fits trivial

theorem stateRead_fits (since : Seconds) (value : Option String) :
    (s.stateRead w since value).Fits := by
  unfold stateRead
  split
  · exact Turn.Ends.fits fun p w h => by cases h
  · exact sleepOrGiveUp_fits since

theorem launched_fits (pid : Int) (client : Option Failure) :
    (s.launched w pid client).Fits := by
  cases client with
  | some f => exact (raise_ends f).fits
  | none => exact look_fits _

/-! ### working -/

theorem continueBatch_fits (b : Batch) (x : List Log.Record × Batch.Progress) :
    (s.continueBatch id b x).Fits := by
  obtain ⟨logs, progress⟩ := x
  cases progress with
  | send request p =>
    refine Turn.Fits.after ?_ _
    exact pause_fits rfl
  | finished | raised => exact Turn.Ends.fits fun p w h => by cases h

theorem beginWork_fits (work : Work) : (s.beginWork id work).Fits := by
  cases work with
  | deploy file name =>
    refine Turn.Fits.after ?_ _
    exact pause_fits rfl
  | execute b => exact continueBatch_fits b (b.start _)

theorem takeTurn_fits (work : Work) : (s.takeTurn id work).Fits := by
  unfold takeTurn
  split
  · exact beginWork_fits work
  · exact pause_fits trivial

/-! ### stopping -/

theorem drain_fits (previous : State) (interrupted : Bool) :
    (s.drain previous interrupted).Fits := by
  unfold drain
  split
  · exact pause_fits trivial
  · exact (stopDone_ends previous interrupted).fits

theorem release_fits (previous : State) (interrupted : Bool) :
    (s.release previous interrupted).Fits := by
  simp only [release]
  split
  · exact pause_fits trivial
  · exact drain_fits previous interrupted

theorem escalate_fits (previous : State) (left : List Signal) :
    (s.escalate w previous left).Fits := by
  cases left with
  | nil => exact (release_fits previous false).after _
  | cons signal left =>
    simp only [escalate]
    split
    · exact release_fits previous false
    · split
      · exact ((release_fits previous false).after _).after _
      · refine Turn.Fits.after ?_ _
        exact pause_fits trivial

/-! ### all calls -/

theorem firstTurn_fits (c : Call) : (s.firstTurn w id c).Fits := by
  cases c with
  | start =>
    simp only [firstTurn, start]
    split
    · exact (raise_ends _).fits
    · intro p w h
      cases h
      trivial
  | stop =>
    by_cases ha : s.StopActs
    · rw [firstTurn_stop_eq ha]
      refine Turn.Fits.after ?_ _
      split
      · exact pause_fits trivial
      · exact escalate_fits _ _
    · rw [firstTurn_stop_idle ha]
      exact finish_ends.fits
  | deploy file name =>
    simp only [firstTurn, deploy]
    split
    · exact (raise_ends _).fits
    · split
      · exact (raise_ends _).fits
      · exact takeTurn_fits _
  | execute b =>
    simp only [firstTurn, execute]
    split
    · exact finish_ends.fits
    · split
      · exact (raise_ends _).fits
      · exact takeTurn_fits _
  | waitForExit =>
    simp only [firstTurn]
    split
    · exact finish_ends.fits
    · split
      · exact Turn.Ends.fits fun p w h => by cases h
      · exact pause_fits trivial

theorem nextTurn?_fits {p : Point} {a : Answer} (ht : s.nextTurn? w id p a = some t) : t.Fits := by
  cases p <;> cases a <;> simp [nextTurn?] at ht <;> subst ht
  case launching.launched pid client => exact launched_fits pid client
  case launching.failed f =>
    rcases s.launchFailed_cases f with ⟨_, -, h⟩ | ⟨-, h⟩ <;> rw [h] <;> exact (raise_ends _).fits
  case readingState.state since value => exact stateRead_fits since value
  case readingState.elapsed since => exact stateRead_fits since none
  case readingState.failed since f =>
    rcases s.stateFailed_cases w since f with ⟨_, -, h⟩ | ⟨-, h⟩ <;> rw [h]
    · exact stateRead_fits since none
    · exact (raise_ends _).fits
  case sleeping.elapsed since => exact look_fits since
  case awaitingTurn.turn work => exact beginWork_fits work
  case executing.done b p _ => exact continueBatch_fits b _
  case executing.failed b p _ f => exact continueBatch_fits b _
  case askingShutdown.done | askingShutdown.failed | askingShutdown.elapsed =>
    exact pause_fits trivial
  case askingShutdown.cancelled => exact release_fits _ true
  case awaitingDeath.exited => exact release_fits _ false
  case awaitingDeath.elapsed => exact escalate_fits _ _
  case awaitingDeath.cancelled => exact release_fits _ true
  case closing.done | closing.failed => exact drain_fits _ _
  case draining.done | draining.failed | draining.elapsed => exact (stopDone_ends _ _).fits
  all_goals exact Turn.Ends.fits fun p w h => by cases h

end

end ServerRun.Server
