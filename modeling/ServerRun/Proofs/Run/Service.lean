import ServerRun.Proofs.Run.Sound
import ServerRun.Proofs.Server.Queue

/-! What the sequence of a run waits for at its server. It makes one call at a time, and until the
server is stopped its calls are the only ones, so that it never waits for its turn; and it waits for
the server's exit only where there is a child that can exit. -/

namespace ServerRun

namespace Server

/-- What is known of a server at which the sequence waits in a call of some concern. -/
structure Serves (s : Server) (c : Concern) (p : Point) (wait : Wait) : Prop where
  concern : p.concern = c
  fits : p.Fits wait
  turns : s.turns = if c = .work then [Run.sequenceId] else []
  request : c = .work → wait.isRequest = true
  child : c = .exit → s.child ≠ none

/-- A turn in a call of the sequence leaves it waiting as above, or with nobody in the queue. -/
structure Turn.Serves (c : Concern) (t : Turn) : Prop where
  waits : ∀ p wait, t.outcome = .paused p wait → t.server.Serves c p wait
  ends : t.Ends → t.server.turns = []

section

variable {s : Server} {w : Surroundings} {t : Turn}

theorem firstTurn_serves {c : Call} (hs : s.turns = []) (hc : c.concern ≠ .stop) :
    (s.firstTurn w Run.sequenceId c).Serves c.concern := by
  have hfirst : FirstTurn s Run.sequenceId c (s.firstTurn w Run.sequenceId c) := firstTurn_first c
  have hwaits : (s.firstTurn w Run.sequenceId c).WaitsOn c.concern := firstTurn_waitsOn c
  have hfits : (s.firstTurn w Run.sequenceId c).Fits := firstTurn_fits c
  have hchild (he : c.concern = .exit) (p : Point) (wait : Wait)
      (ho : (s.firstTurn w Run.sequenceId c).outcome = .paused p wait) :
      (s.firstTurn w Run.sequenceId c).server.child ≠ none := by
    cases c <;> cases he
    simp only [firstTurn] at ho ⊢
    split at ho
    · cases ho
    · rename_i hn
      rw [if_neg hn]
      split <;> exact hn
  cases hfirst with
  | aside ht hw =>
    refine ⟨fun p wait ho => ⟨hwaits p wait ho, hfits p wait ho, ?_, ?_, ?_⟩, fun _ => ht.trans hs⟩
    · rw [if_neg (hw p wait ho)]
      exact ht.trans hs
    · exact fun he => absurd he (hw p wait ho)
    · exact fun he => hchild he p wait ho
  | joins hwork hr ht ho hq =>
    refine ⟨fun p wait ho' => ⟨hwaits p wait ho', hfits p wait ho', ?_, ?_, ?_⟩, fun he => ?_⟩
    · rw [if_pos hwork, ht, hs]
      rfl
    · rw [ho] at ho'
      cases ho'
      exact fun _ => hq.mpr hs
    · exact fun he => by simp [hwork] at he
    · exact absurd ho (he _ _)

theorem Serves.nextTurn? {c : Concern} {p : Point} {wait : Wait} {a : Answer}
    (h : s.Serves c p wait) (hc : c ≠ .stop) (ht : s.nextTurn? w Run.sequenceId p a = some t) :
    t.Serves c := by
  have hconcern := h.concern
  subst hconcern
  have hwaits : t.WaitsOn p.concern := nextTurn?_waitsOn ht
  have hfits : t.Fits := nextTurn?_fits ht
  by_cases hw : p.concern = .work
  · have hturns := h.turns
    rw [if_pos hw] at hturns
    cases nextTurn?_work hw ht with
    | @asks effects q wait' hq =>
      refine ⟨fun q' wait'' ho => ⟨hwaits q' wait'' ho, hfits q' wait'' ho, h.turns, ?_, h.child⟩,
        fun he => absurd rfl (he q wait')⟩
      cases ho
      exact fun _ => hq
    | ends ho =>
      exact ⟨fun q wait' hq => absurd hq (ho q wait'), fun _ => by simp [passTurn, hturns]⟩
  · have hturns := h.turns
    rw [if_neg hw] at hturns
    have hsame : t.server.turns = [] := (nextTurn?_turns hw ht).trans hturns
    have hkeeps : s.Keeps t.server := (nextTurn?_keeps hc ht).1
    refine ⟨fun q wait' ho => ⟨hwaits q wait' ho, hfits q wait' ho, ?_, ?_, ?_⟩, fun _ => hsame⟩
    · rw [if_neg hw]
      exact hsame
    · exact fun he => absurd he hw
    · exact fun he => hkeeps.child (h.child he)

theorem Serves.withExit {c : Concern} {p : Point} {wait : Wait} (h : s.Serves c p wait)
    (code : Int) : (s.withExit code).Serves c p wait :=
  ⟨h.concern, h.fits, h.turns, h.request, fun he => by simpa [Server.withExit] using h.child he⟩

end

end Server

namespace Run

/-- What the calls of a step are about. -/
def Step.concern : Step → Server.Concern
  | .start => .startup
  | .before | .deploy | .after => .work
  | .exit => .exit

theorem concern_stepCall (r : Run) (step : Step) : (r.stepCall step).concern = step.concern := by
  cases step with
  | deploy =>
    simp only [stepCall]
    split <;> rfl
  | start | before | after | exit => rfl

/-- What the sequence waits for at a point: for its server in a step, for nobody where it is parked,
and for others elsewhere. -/
inductive Awaits (r : Run) : Point → Wait → Prop
  | parked : Awaits r .parked .forever
  | others {p wait} (hp : p.IsApart) (hn : p ≠ .parked) (hw : ∀ w, wait ≠ .server w) :
      Awaits r p wait
  | onServer {step p wait v} (hv : r.server = some v) (hs : v.Serves step.concern p wait) :
      Awaits r (.onServer step p) (.server wait)

section

variable {r : Run} {w : Surroundings} {u : Turn}

theorem Awaits.of_server {s : Run} {p : Point} {wait : Wait} (h : r.Awaits p wait)
    (hs : s.server = r.server) : s.Awaits p wait := by
  cases h with
  | parked => exact .parked
  | others hp hn hw => exact .others hp hn hw
  | onServer hv hs' => exact .onServer (hs.trans hv) hs'

theorem StepTurn.awaits {step : Step} {t : Server.Turn} (h : StepTurn w r step t u)
    (ht : t.Serves step.concern) {p : Point} {wait : Wait} (hp : u.outcome = .paused p wait) :
    u.run.Awaits p wait := by
  induction h with
  | waits ho =>
    cases hp
    exact .onServer rfl (ht.waits _ _ ho)
  | parks =>
    cases hp
    exact .parked
  | raises | exits => cases hp
  | @goesOn r step t code next u ho hn hter hu ih =>
    have hidle : t.server.turns = [] := ht.ends fun p wait hq => by simp [ho] at hq
    refine ih ?_ hp
    have hserves := Server.firstTurn_serves (w := w.toSurroundings) hidle (stepCall_concern r next)
    rwa [concern_stepCall] at hserves

/-- A turn of the sequence leaves it waiting for others or for the server, which serves it. -/
theorem AnswerTurn.awaits {p q : Point} {a : Answer} {wait wait' : Wait}
    (h : AnswerTurn r w p a u) (hp : r.Awaits p wait) (hq : u.outcome = .paused q wait') :
    u.run.Awaits q wait' := by
  have install {i : Installation} {r : Run} {u : Turn} (hu : InstallTurn r w i u)
      (hq : u.outcome = .paused q wait') : u.run.Awaits q wait' := by
    cases hu with
    | lacks => cases hq
    | parks =>
      cases hq
      exact .parked
    | creates =>
      cases hq
      exact .others (fun _ _ h => by cases h) (by simp) (by simp)
  cases h with
  | cancelled | failed | missing => cases hq
  | foundParks | homeParks =>
    cases hq
    exact .parked
  | found | homeAsks =>
    cases hq
    exact .others (fun _ _ h => by cases h) (by simp) (by simp)
  | homeInstalls ht ha hu =>
    have hi := install hu hq
    exact hi
  | environment hu => exact install hu hq
  | created hu =>
    refine hu.awaits ?_ hq
    exact Server.firstTurn_serves (w := w.toSurroundings) (c := .start) rfl
      (by simp [Server.Call.concern])
  | onServer hb hv ht hu =>
    cases hp with
    | others hp => exact absurd rfl (hp _ _)
    | onServer hv' hs =>
      rw [hv, Option.some.injEq] at hv'
      subst hv'
      refine hu.awaits (hs.nextTurn? ?_ ht) hq
      rw [← concern_stepCall r]
      exact stepCall_concern r _

end

end Run

end ServerRun
