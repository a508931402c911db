import Mathlib.Tactic.Linarith
import ServerRun.Proofs.Server.Wait
import ServerRun.Server.System

/-! The pauses of a stop. A stop waits for an answer to its request to shut down, for the child's
death after each step, for the client to close and for the last of the output, the first two of them
for the grace period. With each answer it has fewer pauses left, and with them less time. -/

namespace ServerRun.Server

/-- The pauses that are left to a stop which waits at a point, this one included. -/
def Point.stages : Point → Nat
  | .askingShutdown _ => 6
  | .awaitingDeath _ left => left.length + 3
  | .closing .. => 2
  | .draining .. => 1
  | _ => 0

/-- The grace periods that are left at a point, which are the pauses but for the last two. -/
def Point.periods (p : Point) (grace : Seconds) : Seconds :=
  ((p.stages - 2 : Nat) : Seconds) * max grace 0

/-- What a stop waits for at a point. -/
def Point.stopWait? (grace : Span) : Point → Option Wait
  | .askingShutdown _ => some (.shutdown grace)
  | .awaitingDeath .. => some (.exit (some grace))
  | .closing .. => some .close
  | .draining .. => some (.drain (.finite 1))
  | _ => none

/-- A turn leaves its stop, if it waits, with fewer pauses than a number. -/
def Turn.IsBrief (t : Turn) (grace : Span) (n : Nat) : Prop :=
  ∀ p wait, t.outcome = .paused p wait → p.stopWait? grace = some wait ∧ p.stages < n

section

variable {s : Server} {w : Surroundings} {id n k : Nat} {t : Turn} {grace : Span}
  {previous : State} {interrupted : Bool} {left : List Signal} {p : Point} {wait : Wait}

theorem Turn.Ends.isBrief (h : t.Ends) : t.IsBrief grace n := fun p wait ho => absurd ho (h p wait)

theorem Turn.IsBrief.after (h : t.IsBrief grace n) (es : List Effect) :
    (t.after es).IsBrief grace n := h

theorem Turn.IsBrief.mono (h : t.IsBrief grace n) (hk : n ≤ k) : t.IsBrief grace k :=
  fun p wait ho => ⟨(h p wait ho).1, (h p wait ho).2.trans_le hk⟩

theorem pause_isBrief (hw : p.stopWait? grace = some wait) (hn : p.stages < n) :
    (s.pause p wait).IsBrief grace n := by
  intro q wait' ho
  cases ho
  exact ⟨hw, hn⟩

theorem drain_isBrief : (s.drain previous interrupted).IsBrief grace 2 := by
  unfold drain
  split
  · exact pause_isBrief rfl Nat.one_lt_two
  · exact (stopDone_ends previous interrupted).isBrief

theorem release_isBrief : (s.release previous interrupted).IsBrief grace 3 := by
  simp only [release]
  split
  · exact pause_isBrief rfl (Nat.lt_succ_self 2)
  · exact drain_isBrief.mono (Nat.le_succ 2)

theorem giveUp_isBrief {reason : String} : (s.giveUp previous reason).IsBrief grace 3 :=
  release_isBrief.after _

theorem escalate_isBrief : (s.escalate w previous left).IsBrief s.grace (left.length + 3) := by
  have release {v : Server} : (v.release previous false).IsBrief s.grace (left.length + 3) :=
    release_isBrief.mono (Nat.le_add_left ..)
  cases left with
  | nil => exact giveUp_isBrief
  | cons signal left =>
    simp only [escalate]
    split
    · exact release
    · split
      · exact (release.after _).after _
      · have hp : (Point.awaitingDeath previous left).stages < left.length + 1 + 3 := by
          simp [Point.stages]
        exact Turn.IsBrief.after (pause_isBrief rfl hp) _

/-- A stop that goes on uncancelled has one pause less. -/
theorem nextTurn?_isBrief {a : Answer} (hp : p.concern = .stop) (ha : a ≠ .cancelled)
    (ht : s.nextTurn? w id p a = some t) : t.IsBrief s.grace p.stages := by
  cases p <;> simp [Point.concern] at hp <;> cases a <;> simp [nextTurn?] at ht <;> subst ht
  case askingShutdown.cancelled | awaitingDeath.cancelled | closing.cancelled |
    draining.cancelled => exact absurd rfl ha
  case awaitingDeath.exited => exact release_isBrief.mono (Nat.le_add_left ..)
  case awaitingDeath.elapsed => exact escalate_isBrief
  case closing.done | closing.failed => exact drain_isBrief
  case draining.done | draining.failed | draining.elapsed => exact (stopDone_ends _ _).isBrief
  all_goals exact pause_isBrief rfl (Nat.lt_succ_self 5)

theorem firstTurn_stop_isBrief (h : s.StopActs) :
    (s.firstTurn w id .stop).IsBrief s.grace (if s.state = .started then 7 else 5) := by
  rw [firstTurn_stop_eq h]
  refine Turn.IsBrief.after ?_ _
  split
  · rename_i hs
    rw [if_pos hs.1]
    exact pause_isBrief rfl (Nat.lt_succ_self 6)
  · have hb : (s.stopBegun.escalate w s.state [.terminate, .kill]).IsBrief s.grace 5 :=
      escalate_isBrief
    refine hb.mono ?_
    split <;> decide

/-- A stop waits for the grace period, for the client to close, or for the last of the output, and
goes on when that is over. -/
inductive StopPause (grace : Span) (p : Point) (wait : Wait) : Prop
  | grace (hn : 2 < p.stages) (hl : wait.limit? = some grace)
      (ht : ∀ (s : Server) w id, ∃ t, s.nextTurn? w id p .elapsed = some t)
  | close (hn : p.stages = 2) (hc : wait = .close)
      (ht : ∀ (s : Server) w id, ∃ t, s.nextTurn? w id p .done = some t)
  | drain (hn : p.stages = 1) (hl : wait.limit? = some (.finite 1))
      (ht : ∀ (s : Server) w id, ∃ t, s.nextTurn? w id p .elapsed = some t)

theorem Point.stopPause (h : p.stopWait? grace = some wait) : StopPause grace p wait := by
  cases p <;> simp [Point.stopWait?] at h <;> subst h
  case closing => exact .close rfl rfl fun s w id => ⟨_, rfl⟩
  case draining => exact .drain rfl rfl fun s w id => ⟨_, rfl⟩
  all_goals exact .grace (by simp [Point.stages]) rfl fun s w id => ⟨_, rfl⟩

/-- At the end of a wait the stop has taken one grace period less than it still had, unless all of
them are over. -/
theorem StopPause.periods_le {p q : Point} {wait : Wait} {g since now : Seconds}
    (h : StopPause (.finite g) p wait) (hlt : q.stages < p.stages)
    (hend : ∀ l, wait.limit? = some (.finite l) → now ≤ since + max l 0)
    (hclose : wait = .close → now = since) (hq : 0 < q.stages) :
    now + q.periods g ≤ since + p.periods g := by
  have hg : 0 ≤ max g 0 := le_max_right g 0
  cases h with
  | drain hn => omega
  | close hn hc =>
    have hp : p.stages - 2 = 0 := by omega
    have hq : q.stages - 2 = 0 := by omega
    simp [Point.periods, hp, hq, hclose hc]
  | grace hn hl =>
    obtain ⟨k, hk⟩ : ∃ k, p.stages - 2 = k + 1 := ⟨p.stages - 3, by omega⟩
    have hle : ((q.stages - 2 : Nat) : Seconds) ≤ k := by
      exact_mod_cast (by omega : q.stages - 2 ≤ k)
    have hmul := mul_le_mul_of_nonneg_right hle hg
    have hnow := hend g hl
    simp only [Point.periods, hk]
    push_cast
    linarith

/-- At the end of a wait the stop has a second left at most. -/
theorem StopPause.now_le {p : Point} {wait : Wait} {g since now : Seconds}
    (h : StopPause (.finite g) p wait)
    (hend : ∀ l, wait.limit? = some (.finite l) → now ≤ since + max l 0)
    (hclose : wait = .close → now = since) : now ≤ since + p.periods g + 1 := by
  have hg : 0 ≤ max g 0 := le_max_right g 0
  cases h with
  | drain hn hl =>
    have hnow := hend 1 hl
    have hp : p.periods g = 0 := by simp [Point.periods, hn]
    have hone : max (1 : Seconds) 0 = 1 := max_eq_left zero_le_one
    linarith
  | close hn hc =>
    have hp : p.periods g = 0 := by simp [Point.periods, hn]
    have hnow := hclose hc
    linarith
  | grace hn hl =>
    have hle : (1 : Seconds) ≤ ((p.stages - 2 : Nat) : Seconds) := by
      exact_mod_cast (by omega : 1 ≤ p.stages - 2)
    have hmul := mul_le_mul_of_nonneg_right hle hg
    have hnow := hend g hl
    simp only [Point.periods]
    linarith

end

end ServerRun.Server
