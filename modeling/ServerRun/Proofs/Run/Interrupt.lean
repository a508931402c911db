import ServerRun.Proofs.Run.Ending
import ServerRun.Proofs.Run.Phases

/-! What a termination request comes to. When the sequence of a run has ended, the ending of the run
is in store and nothing changes it any more; so it is decided by the move that ends the sequence. A
run whose termination is requested before that is stopped, unless a failure overtakes the
cancellation of its sequence, or the cancellation is kept from the sequence and it is parked. -/

namespace ServerRun.Run

/-- The ending that is in store at a point of the supervisor when the sequence has ended. -/
def SupervisorPoint.fate (result : Except Failure (Option Int)) : SupervisorPoint → Ending
  | .watching => .raised (failureOf result)
  | .cancelling none => .raised .cancelled
  | .cancelling (some p) =>
    match result with
    | .ok _ | .error .cancelled => endingOf p
    | .error f => .raised f
  | .settling ending | .shuttingDown ending _ => ending

def SupervisorState.fate (result : Except Failure (Option Int)) : SupervisorState → Ending
  | .watching point | .stopping point _ _ => point.fate result
  | .ended ending => ending

theorem ShutdownTurn.fate {r : Run} {ending : Ending} {x : SupervisorTurn}
    (h : ShutdownTurn r ending x) (result : Except Failure (Option Int)) (now : Seconds) :
    (x.outcome.state now).fate result = ending := by
  cases h <;> rfl

theorem fail_fate (r : Run) (f : Failure) (result : Except Failure (Option Int)) (now : Seconds) :
    ((r.fail f).outcome.state now).fate result = .raised f := by
  obtain ⟨es, -, he⟩ := fail_eq r f
  rw [he]
  rfl

/-- A cancelled sequence that comes to its end without a failure of its own interrupts the run. -/
theorem fate_of_cancelling {p : Phase} {result : Except Failure (Option Int)}
    (h : ∀ f, result = .error f → f = .cancelled) :
    (SupervisorPoint.cancelling (some p)).fate result = endingOf p := by
  cases result with
  | ok code => rfl
  | error f =>
    obtain rfl := h f rfl
    rfl

/-- A failure of a sequence that was cancelled is the failure of the run. -/
theorem fate_of_failure {p : Phase} {f : Failure} (h : f ≠ .cancelled) :
    (SupervisorPoint.cancelling (some p)).fate (.error f) = .raised f := by
  cases f with
  | cancelled => exact absurd rfl h
  | _ => rfl

namespace System

variable {s t u : System} {m : Move} {ending : Ending}

/-- The sequence has not ended. -/
def IsUnderway (s : System) : Prop := ∀ result, s.sequence ≠ .ended result

theorem ended_of_not_underway (h : ¬ s.IsUnderway) : ∃ result, s.sequence = .ended result := by
  cases hs : s.sequence with
  | waiting => exact absurd (fun result hr => by simp [hs] at hr) h
  | ended result => exact ⟨result, rfl⟩

/-- The ending that is in store for a run whose sequence has ended. -/
def fate? (s : System) : Option Ending :=
  match s.sequence with
  | .waiting .. => none
  | .ended result => some (s.supervisor.fate result)

theorem fate?_eq {result : Except Failure (Option Int)} (h : s.sequence = .ended result) :
    s.fate? = some (s.supervisor.fate result) := by
  simp [fate?, h]

theorem IsUnderway.fate? (h : s.IsUnderway) : s.fate? = none := by
  cases hs : s.sequence with
  | waiting => simp [System.fate?, hs]
  | ended result => exact absurd hs (h result)

/-- A run that has ended has ended as was in store. -/
theorem Sound.fate?_of_ended (h : Sound s) (he : s.supervisor = .ended ending) :
    s.fate? = some ending := by
  cases hs : s.sequence with
  | waiting p wait since => exact absurd hs (h.ended (by simp [he]) (by simp [he]) p wait since)
  | ended result =>
    rw [fate?_eq hs, he]
    rfl

/-- Each move keeps the ending that is in store. -/
theorem Sound.fate?_of_step? (h : Sound s) (he : s.fate? = some ending)
    (hm : s.step? m = some u) : u.fate? = some ending := by
  obtain ⟨result, hs⟩ := ended_of_not_underway fun hs => by
    rw [hs.fate?] at he
    cases he
  rw [fate?_eq hs, Option.some.injEq] at he
  have same {u : System} (hq : u.sequence = s.sequence) (hv : u.supervisor = s.supervisor) :
      u.fate? = some ending := by
    rw [fate?_eq (hq.trans hs), hv, he]
  have turn {e : Event} {x : SupervisorTurn} (hx : (x.outcome.state s.now).fate result = ending) :
      ((s.record e).takeSupervisor x).fate? = some ending := by
    have hq : ((s.record e).takeSupervisor x).sequence = .ended result := by
      rw [takeSupervisor_sequence, record_sequence, hs]
    rw [fate?_eq hq, takeSupervisor_supervisor]
    exact congrArg some hx
  cases moved_of_step? hm with
  | answer hq ha ht =>
    rw [hs] at hq
    cases hq
  | notice hx =>
    cases hx with
    | fails hp hq =>
      rw [hs] at hq
      cases hq
      refine turn ((fail_fate _ _ _ _).trans ?_)
      rw [← he, hp]
      rfl
    | failsLate hp hq hf =>
      rw [hs] at hq
      cases hq
      refine turn ((fail_fate _ _ _ _).trans ?_)
      rw [← he, hp]
      exact (fate_of_failure hf).symm
    | cancels hp hq ht =>
      rw [hs] at hq
      cases hq
    | @interrupts p _ hp hq hr =>
      rw [hs] at hq
      cases hq
      refine turn ((((h.poised _ hp).fresh.interrupt s.surroundings p).fate _ _).trans ?_)
      rw [← he, hp]
      exact (fate_of_cancelling hr).symm
    | abandons hp hq =>
      refine turn ((((h.poised _ hp).fresh.shutDown s.surroundings _).fate _ _).trans ?_)
      rw [← he, hp]
      rfl
    | settles hp =>
      refine turn ((((h.poised _ hp).fresh.shutDown s.surroundings _).fate _ _).trans ?_)
      rw [← he, hp]
      rfl
  | stopAnswer hp ha hv ht =>
    refine turn (((h.shutdownTurn hp ha ht).fate _ _).trans ?_)
    rw [← he, hp]
    rfl
  | request => exact same (recordEffects_sequence ..) (recordEffects_supervisor ..)
  | exit => exact same rfl rfl
  | time => exact same rfl rfl

theorem Sound.fate?_of_reaches {ms : List Move} (h : Sound s) (he : s.fate? = some ending)
    (hr : Reaches s ms u) : u.fate? = some ending :=
  h.keeps hr he fun _ _ _ hm hs he => hs.fate?_of_step? he hm.step

/-- Between two states of a run that are before and after the end of its sequence there is a move
that ends it. -/
theorem exists_last_underway {ms : List Move} (h : Reaches s ms u) (hs : s.IsUnderway)
    (hu : ¬ u.IsUnderway) :
    ∃ t m v, Makes step? s ms t m v ∧ t.IsUnderway ∧ ¬ v.IsUnderway := by
  induction h with
  | refl => exact absurd hs hu
  | @step s t u m ms hm hr ih =>
    by_cases ht : t.IsUnderway
    · obtain ⟨x, n, v, hv, hx⟩ := ih ht hu
      exact ⟨x, n, v, hv.cons hm, hx⟩
    · exact ⟨s, m, t, .first hm, hs, ht⟩

/-- A failure overtakes the cancellation of a sequence: the sequence ends before it is cancelled, or
it was cancelled and ends with another failure. -/
def Overtakes (s u : System) : Prop :=
  s.IsUnderway ∧ ∃ result, u.sequence = .ended result ∧
    (s.isCancelling = true → ∃ f, result = .error f ∧ f ≠ .cancelled)

/-- The move that ends the sequence decides how the run ends: it is interrupted, unless a failure
overtakes the cancellation. -/
theorem Sound.fate?_of_end (h : Sound s) (hm : s.step? m = some u) (hs : s.IsUnderway)
    (hu : ¬ u.IsUnderway) :
    (s.Overtakes u → ∃ f, u.fate? = some (.raised f)) ∧
      (¬ s.Overtakes u → ∃ p, s.run.interrupted = some p ∧ u.fate? = some (endingOf p)) := by
  obtain ⟨result, hr⟩ := ended_of_not_underway hu
  have hv : u.supervisor = s.supervisor ∧ ∃ p wait since, s.sequence = .waiting p wait since := by
    have idle {u : System} (hq : u.sequence = s.sequence) : u.IsUnderway := by
      unfold IsUnderway
      rw [hq]
      exact hs
    cases moved_of_step? hm with
    | answer hq ha ht => exact ⟨by simp, _, _, _, hq⟩
    | notice => exact absurd (idle (by simp)) hu
    | stopAnswer => exact absurd (idle (by simp)) hu
    | request => exact absurd (idle (by simp)) hu
    | exit => exact absurd (idle rfl) hu
    | time => exact absurd (idle rfl) hu
  obtain ⟨hv, p, wait, since, hq⟩ := hv
  rw [fate?_eq hr, hv]
  rcases h.watched p wait since hq with hw | ⟨q, hw⟩
  · refine ⟨fun _ => ⟨failureOf result, by rw [hw]; rfl⟩, fun hn => absurd ⟨hs, result, hr, ?_⟩ hn⟩
    intro hc
    simp [isCancelling, hw] at hc
  · obtain ⟨ht, hi⟩ := h.cancelling q hw
    have hr' := h.requested
    rw [ht] at hr'
    obtain ⟨q, hq⟩ := Option.isSome_iff_exists.mp hr'.symm
    rw [hq] at hi
    subst hi
    have hc : s.isCancelling = true := by simp [isCancelling, hw]
    rw [hw]
    constructor
    · rintro ⟨-, result', hr', hf⟩
      rw [hr, SequenceState.ended.injEq] at hr'
      subst hr'
      obtain ⟨f, rfl, hne⟩ := hf hc
      exact ⟨f, congrArg some (fate_of_failure hne)⟩
    · intro hn
      refine ⟨q, hq, congrArg some (fate_of_cancelling fun f hf => ?_)⟩
      refine Classical.byContradiction fun hne => hn ⟨hs, result, hr, fun _ => ⟨f, hf, hne⟩⟩

/-- A run whose termination was requested, in the phase `p`, while its sequence was under way ends
stopped exactly if no failure overtakes the cancellation. -/
theorem Sound.stopped_iff {ps : List Phase} {p : Phase} {ms : List Move} (h : Sound s)
    (hq : Requested ps p s) (hs : s.IsUnderway) (hr : Reaches s ms u)
    (he : u.supervisor = .ended ending) :
    ending = endingOf p ↔ ∀ t m v, Makes step? s ms t m v → ¬ t.Overtakes v := by
  have hfate : u.fate? = some ending := (h.of_reaches hr).fate?_of_ended he
  have settled {t v : System} {m : Move} {e : Ending} (hm : Makes step? s ms t m v)
      (hv : v.fate? = some e) : ending = e := by
    obtain ⟨before, after, rfl, hb, hstep⟩ := hm
    obtain ⟨v', hv', ha⟩ := hr.cut
    rw [hb.unique hv'] at hstep
    cases ha with
    | step hstep' ha =>
      rw [hstep, Option.some.injEq] at hstep'
      subst hstep'
      have hsound := ((h.of_reaches hv').of_step? hstep).fate?_of_reaches hv ha
      rw [hfate, Option.some.injEq] at hsound
      exact hsound
  constructor
  · rintro rfl t m v hm ho
    have hv : ¬ v.IsUnderway := fun hv => by
      obtain ⟨-, result, hr, -⟩ := ho
      exact hv result hr
    obtain ⟨before, after, -, hb, hstep⟩ := id hm
    obtain ⟨f, hf⟩ := ((h.of_reaches hb).fate?_of_end hstep ho.1 hv).1 ho
    cases settled hm hf
  · intro hn
    have hu : ¬ u.IsUnderway := fun hu => by
      rw [hu.fate?] at hfate
      cases hfate
    obtain ⟨t, m, v, hm, ht, hv⟩ := exists_last_underway hr hs hu
    obtain ⟨before, after, -, hb, hstep⟩ := id hm
    obtain ⟨p', hp', hf⟩ := ((h.of_reaches hb).fate?_of_end hstep ht hv).2 (hn t m v hm)
    have hi := (requested_of_reaches h hq hb).interrupted
    rw [hp', Option.some.injEq] at hi
    rw [settled hm hf, hi]

/-- A run whose termination is first requested while its sequence is under way can still end exactly
if the sequence is not stranded, and when it ends it is stopped, with the exit code for its phase at
the request, exactly if no failure overtook the cancellation of the sequence. -/
theorem ending_iff_no_overtaking (settings : Settings) (cwd : Path)
    (rounding : Seconds → Seconds) (isDirectory : Path → Bool) (before after : List Move)
    (s u : System) (hs : Reaches (.ofRun { settings, cwd, rounding } isDirectory) before s)
    (hb : .request ∉ before) (hw : s.IsUnderway) (hu : Reaches s (.request :: after) u) :
    (u.CanEnd ↔ ¬ u.IsStranded) ∧
      ∀ ending, u.supervisor = .ended ending →
        (ending = .stopped (if s.run.phase = .running then 0 else 130) s.run.phase ↔
          ∀ t m v, Makes step? s (.request :: after) t m v → ¬ t.Overtakes v) := by
  have h₀ := sound_ofRun settings cwd rounding isDirectory
  have hsound := h₀.of_reaches hs
  have hphased := phased_of_reaches h₀ (phased_ofRun settings cwd rounding isDirectory) hs
  have hun :=
    unrequested_of_reaches h₀ (unrequested_ofRun settings cwd rounding isDirectory) hs hb
  have hreached := hs.append hu
  cases hu with
  | @step _ s' _ _ _ hm ha =>
    have hrequested := requested_of_request hsound hphased hun hm
    have hlast := requested_of_reaches (hsound.of_step? hm) hrequested ha
    refine ⟨canEnd_iff hreached hlast.terminated, fun ending he => ?_⟩
    have hseq : s'.sequence = s.sequence := by
      cases hm
      simp
    have hw' : s'.IsUnderway := by
      unfold IsUnderway
      rw [hseq]
      exact hw
    have hiff := (hsound.of_step? hm).stopped_iff hrequested hw' ha he
    rw [show Ending.stopped (if s.run.phase = .running then 0 else 130) s.run.phase =
      endingOf s.run.phase from rfl, hiff]
    constructor
    · rintro hn t m v ⟨first, last, hms, hf, hstep⟩ ho
      cases first with
      | nil =>
        cases hf
        obtain ⟨rfl, -⟩ := List.cons.inj hms
        rw [hm, Option.some.injEq] at hstep
        subst hstep
        obtain ⟨-, result, hr, -⟩ := ho
        exact hw' result hr
      | cons x first =>
        obtain ⟨rfl, rfl⟩ := List.cons.inj hms
        cases hf with
        | step hx hf =>
          rw [hm, Option.some.injEq] at hx
          subst hx
          exact hn t m v ⟨first, last, rfl, hf, hstep⟩ ho
    · exact fun hn t m v hv => hn t m v (hv.cons hm)

/-- A run whose termination is requested before its deployment is found, and whose deployment is
there, is stopped, as nothing overtakes the cancellation. -/
theorem ending_of_earlyTermination :
    ∃ u, Reaches (.ofRun { settings := default, cwd := .ofString "/work" } fun _ => true)
        earlyTermination u ∧
      u.supervisor = .ended (.stopped 130 .idle) ∧ ¬ u.IsStranded ∧
      ∀ t m v, Makes step? (.ofRun { settings := default, cwd := .ofString "/work" } fun _ => true)
        earlyTermination t m v → ¬ t.Overtakes v := by
  obtain ⟨u, hu, he⟩ : ∃ u,
      Reaches (.ofRun { settings := default, cwd := .ofString "/work" } fun _ => true)
        earlyTermination u ∧ u.supervisor = .ended (.stopped 130 .idle) :=
    ⟨_, .step rfl (.step rfl (.step rfl (.step rfl (.step rfl (.refl _))))), rfl⟩
  have h := ending_iff_no_overtaking default (.ofString "/work") id (fun _ => true) []
    earlyTermination.tail _ u (.refl _) (by simp) (fun _ h => by cases h) hu
  exact ⟨u, hu, he, h.1.mp (.of_goal ⟨_, he⟩), (h.2 _ he).mp rfl⟩

/-- A run whose provisioning keeps the cancellation to itself and comes to its end waits for
ever. -/
theorem exists_stranded :
    ∃ u, Reaches (.ofRun { settings := default, cwd := .ofString "/work" } fun _ => true)
        [.answer (.metadata ⟨.ofString "app.war", "app.war", .ofString "target"⟩ true), .request,
          .notice, .answer (.home (.ofString "srv"))] u ∧ u.IsStranded ∧ ¬ u.CanEnd := by
  obtain ⟨u, hu, hs⟩ : ∃ u,
      Reaches (.ofRun { settings := default, cwd := .ofString "/work" } fun _ => true)
        [.answer (.metadata ⟨.ofString "app.war", "app.war", .ofString "target"⟩ true), .request,
          .notice, .answer (.home (.ofString "srv"))] u ∧ u.IsStranded :=
    ⟨_, .step rfl (.step rfl (.step rfl (.step rfl (.refl _)))), ⟨_, _, rfl⟩, rfl, rfl⟩
  exact ⟨u, hu, hs, hs.not_canEnd⟩

/-- A run whose termination is requested before its deployment is found to be missing fails, as the
supervisor takes notice of the request only when the sequence has ended. -/
theorem not_stopped_of_missingDeployment :
    ¬ ∀ ms u ending,
      Reaches (.ofRun { settings := default, cwd := .ofString "/work" } fun _ => true)
        (.request :: ms) u → u.supervisor = .ended ending → ∃ code p, ending = .stopped code p := by
  intro h
  obtain ⟨code, p, he⟩ := h
    [.answer (.metadata ⟨.ofString "app.war", "app.war", .ofString "target"⟩ false), .notice,
      .notice] _ _ (.step rfl (.step rfl (.step rfl (.step rfl (.refl _))))) rfl
  cases he

end System

end ServerRun.Run
