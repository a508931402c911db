import ServerRun.Proofs.Run.Sound

/-! The stages of a run, from its supervisor's side: it watches the sequence, then it leaves with an
ending that is settled, and at last it has left. -/

namespace ServerRun.Run

/-- How far the supervisor of a run is. -/
inductive Stage where
  | watching
  | leaving (ending : Ending)
  | left (ending : Ending)

def SupervisorPoint.stage : SupervisorPoint → Stage
  | .watching | .cancelling _ => .watching
  | .settling ending | .shuttingDown ending _ => .leaving ending

def SupervisorState.stage : SupervisorState → Stage
  | .watching point | .stopping point _ _ => point.stage
  | .ended ending => .left ending

theorem ShutdownTurn.stage {r : Run} {ending : Ending} {t : SupervisorTurn}
    (h : ShutdownTurn r ending t) (now : Seconds) :
    t.run.phases = r.phases ∧ (t.outcome.state now).stage = .leaving ending ∨
      t.run.phases = r.phases ++ [.shutDown] ∧ (t.outcome.state now).stage = .left ending := by
  cases h with
  | waits => exact .inl ⟨rfl, rfl⟩
  | ends => exact .inr ⟨rfl, rfl⟩

namespace System

/-- What a move comes to for the stage of a run. -/
inductive Progress (s : System) : Move → System → Prop
  | steps {m u p wait since a t} (hs : s.sequence = .waiting p wait since)
      (ht : AnswerTurn s.run s.surroundings p a t) (hg : s.supervisor.stage = .watching)
      (hu : u.supervisor.stage = .watching) (hr : u.run = t.run)
      (hq : u.sequence = t.outcome.state s.now) : Progress s m u
  | fails {m u f} (hg : s.supervisor.stage = .watching)
      (hu : u.supervisor.stage = .leaving (.raised f)) (hr : u.run = s.run.failed f) :
      Progress s m u
  | interrupts {m u p t} (hg : s.supervisor.stage = .watching) (hi : s.run.interrupted = some p)
      (ht : ShutdownTurn s.run (endingOf p) t)
      (hu : u.supervisor.stage = (t.outcome.state s.now).stage) (hr : u.run = t.run) :
      Progress s m u
  | leaves {m u ending t} (hg : s.supervisor.stage = .leaving ending)
      (ht : ShutdownTurn s.run ending t)
      (hu : u.supervisor.stage = (t.outcome.state s.now).stage) (hr : u.run = t.run) :
      Progress s m u
  | requests {u} (hg : u.supervisor.stage = s.supervisor.stage)
      (hr : u.run = s.run.requestTermination.1) (hq : u.sequence = s.sequence) :
      Progress s .request u
  | idles {m u} (hg : u.supervisor.stage = s.supervisor.stage)
      (hr : ∃ v, u.run = { s.run with server := v }) (hq : u.sequence = s.sequence) : Progress s m u

variable {s u : System} {m : Move}

/-- Each move of a sound run is one of those listed. -/
theorem Sound.progress (h : Sound s) (hm : s.step? m = some u) : Progress s m u := by
  cases moved_of_step? hm with
  | @answer a p wait since t hs ha ht =>
    have hg : s.supervisor.stage = .watching := by
      rcases h.watched p wait since hs with hv | ⟨q, hv⟩ <;> rw [hv] <;> rfl
    exact .steps hs ht hg (by simpa using hg) (by simp) (by simp)
  | notice ht =>
    cases ht with
    | @fails result hp hs =>
      obtain ⟨es, -, he⟩ := fail_eq s.run (failureOf result)
      exact .fails (f := failureOf result) (by rw [hp]; rfl)
        (by rw [takeSupervisor_supervisor, he]; rfl) (by rw [takeSupervisor_run, he])
    | @failsLate f p hp hs hf =>
      obtain ⟨es, -, he⟩ := fail_eq s.run f
      exact .fails (f := f) (by rw [hp]; rfl) (by rw [takeSupervisor_supervisor, he]; rfl)
        (by rw [takeSupervisor_run, he])
    | cancels hp hs ht =>
      exact .idles (by rw [hp, takeSupervisor_supervisor]; rfl) ⟨s.run.server, by simp⟩ (by simp)
    | @interrupts p result hp hs hr =>
      exact .interrupts (by rw [hp]; rfl) (h.cancelling _ hp).2.symm
        ((h.poised _ hp).fresh.interrupt s.surroundings p) (by simp) (by simp)
    | abandons hp hs =>
      obtain ⟨ht, hq⟩ := h.cancelling _ hp
      have := h.requested
      simp [ht, ← hq] at this
    | @settles ending hp =>
      exact .leaves (by rw [hp]; rfl) ((h.poised _ hp).fresh.shutDown s.surroundings ending)
        (by simp) (by simp)
  | @stopAnswer a ending p wait since v t hs ha hv ht =>
    exact .leaves (by rw [hs]; rfl) (h.shutdownTurn hs ha ht) (by simp) (by simp)
  | request => exact .requests (by simp) (by simp) (by simp)
  | exit hv hc he => exact .idles rfl ⟨_, rfl⟩ rfl
  | time ha hr now refusal hf => exact .idles rfl ⟨s.run.server, rfl⟩ rfl

/-- Without a request, a termination is not requested. -/
theorem terminated_of_step? (hm : s.step? m = some u) (hn : m ≠ .request) (h : Sound s) :
    u.run.terminated = s.run.terminated ∧ u.run.interrupted = s.run.interrupted := by
  cases h.progress hm with
  | steps hs ht hg hu hr hq =>
    rw [hr]
    exact ⟨ht.keeps.terminated, ht.keeps.interrupted⟩
  | @fails _ _ f hg hu hr =>
    rw [hr]
    exact ⟨(failed_keeps _ f).terminated, (failed_keeps _ f).interrupted⟩
  | interrupts hg hi ht hu hr =>
    rw [hr]
    exact ⟨ht.keeps.terminated, ht.keeps.interrupted⟩
  | leaves hg ht hu hr =>
    rw [hr]
    exact ⟨ht.keeps.terminated, ht.keeps.interrupted⟩
  | requests => exact absurd rfl hn
  | idles hg hr hq =>
    obtain ⟨v, hr⟩ := hr
    rw [hr]
    exact ⟨rfl, rfl⟩

end System

end ServerRun.Run
