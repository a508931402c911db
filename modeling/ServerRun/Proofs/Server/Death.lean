import ServerRun.Proofs.Server.Turn

/-! How a stop ends the child. A stop waits for the death of the child, which it has sent the next
signal, and goes on to release what the server holds only when the child is dead. This is so where
no signal is denied and a child that was killed dies within the grace period. -/

namespace ServerRun.Server

/-- What a stop that waits at a point knows of the child and of what the server holds. -/
def Knows (s : Server) : Point → Prop
  | .awaitingDeath _ left => left <:+ [.terminate, .kill]
  | .closing _ _ | .draining _ _ => s.released = true ∧ s.exitCode? ≠ none
  | _ => True

/-- The turns of a stop that does not leave the child alive: it asks the server to shut down, it
waits for the child's death, or the child is dead and the server releases what it holds. -/
inductive DeathTurn (grace : Span) (t : Turn) : Prop
  | asks {previous} (ho : t.outcome = .paused (.askingShutdown previous) (.shutdown grace))
  | waits {previous left}
      (ho : t.outcome = .paused (.awaitingDeath previous left) (.exit (some grace)))
      (hl : left <:+ [.terminate, .kill]) (hk : left = [] → .signal .kill ∈ t.effects)
  | releases {p wait} (ho : t.outcome = .paused p wait)
      (hp : ∃ previous interrupted, p = .closing previous interrupted ∨
        p = .draining previous interrupted)
      (hr : t.server.released = true) (he : t.server.exitCode? ≠ none)
  | ends (hn : t.Ends) (hr : t.server.released = true) (he : t.server.exitCode? ≠ none)

section

variable {s : Server} {w : Surroundings} {id : Nat} {t : Turn} {es : List Effect} {grace : Span}
  {previous : State} {interrupted : Bool} {left : List Signal}

theorem DeathTurn.knows (h : DeathTurn grace t) {p : Point} {wait : Wait}
    (hp : t.outcome = .paused p wait) : t.server.Knows p := by
  cases h with
  | asks ho =>
    rw [hp] at ho
    cases ho
    trivial
  | waits ho hl hk =>
    rw [hp] at ho
    cases ho
    exact hl
  | releases ho hq hr he =>
    rw [hp] at ho
    cases ho
    obtain ⟨previous, interrupted, rfl | rfl⟩ := hq
    · exact ⟨hr, he⟩
    · exact ⟨hr, he⟩
  | ends hn => exact absurd hp (hn _ _)

theorem DeathTurn.after (h : DeathTurn grace t) : DeathTurn grace (t.after es) := by
  cases h with
  | asks ho => exact .asks ho
  | waits ho hl hk => exact .waits ho hl fun h => by simp [hk h]
  | releases ho hp hr he => exact .releases ho hp hr he
  | ends hn hr he => exact .ends hn hr he

theorem stopDone_death (hr : s.released = true) (he : s.exitCode? ≠ none) :
    DeathTurn grace (s.stopDone previous interrupted) := by
  have hs : (s.stopDone previous interrupted).server.released = true ∧
      (s.stopDone previous interrupted).server.exitCode? ≠ none ∧
      (s.stopDone previous interrupted).Ends := by
    unfold stopDone
    by_cases hp : previous = .failed <;> cases interrupted <;>
      simp only [hp, ite_true, ite_false] <;> exact ⟨hr, he, fun p w h => by cases h⟩
  exact .ends hs.2.2 hs.1 hs.2.1

theorem drain_death (hr : s.released = true) (he : s.exitCode? ≠ none) :
    DeathTurn grace (s.drain previous interrupted) := by
  unfold drain
  split
  · exact .releases rfl ⟨_, _, .inr rfl⟩ hr he
  · exact stopDone_death hr he

theorem release_death (he : s.exitCode? ≠ none) :
    DeathTurn grace (s.release previous interrupted) := by
  simp only [release]
  split
  · exact .releases rfl ⟨_, _, .inl rfl⟩ rfl he
  · exact drain_death rfl he

theorem escalate_death (hl : left <:+ [.terminate, .kill])
    (hn : left = [] → s.exitCode? ≠ none)
    (hd : ∀ signal message, w.refusal signal ≠ some (.denied message)) :
    DeathTurn s.grace (s.escalate w previous left) := by
  cases left with
  | nil => exact (release_death (hn rfl)).after
  | cons signal left =>
    simp only [escalate]
    split
    · rename_i he
      exact release_death (Option.isSome_iff_ne_none.mp he)
    · split
      · rename_i message hm
        exact absurd hm (hd signal message)
      · refine .waits rfl ((List.suffix_cons signal left).trans hl) fun hn => ?_
        subst hn
        have hs : signal = .kill := by
          obtain ⟨before, hb⟩ := hl
          rw [List.append_eq_cons_iff] at hb
          rcases hb with ⟨-, hb⟩ | ⟨x, -, hb⟩
          · simp at hb
          · have := congrArg List.getLast? hb
            simpa using this.symm
        subst hs
        exact List.mem_cons_self

/-- A stop that is answered does not leave the child alive, where a child that was killed is dead by
the time that it is no longer waited for. -/
theorem nextTurn?_death {p : Point} {a : Answer} (hp : p.concern = .stop) (ha : a ≠ .cancelled)
    (hk : s.Knows p) (hd : ∀ signal message, w.refusal signal ≠ some (.denied message))
    (hx : ∀ code, a = .exited code → s.exitCode? ≠ none)
    (hl : ∀ previous, a = .elapsed → p = .awaitingDeath previous [] → s.exitCode? ≠ none)
    (ht : s.nextTurn? w id p a = some t) : DeathTurn s.grace t := by
  cases p <;> simp [Point.concern] at hp <;> cases a <;> simp [nextTurn?] at ht <;> subst ht
  case askingShutdown.done | askingShutdown.failed | askingShutdown.elapsed =>
    exact .waits rfl (List.suffix_refl _) fun h => by cases h
  case awaitingDeath.exited previous left code => exact release_death (hx code rfl)
  case awaitingDeath.elapsed previous left =>
    refine escalate_death hk (fun hn => hl previous rfl ?_) hd
    rw [hn]
  case closing.done | closing.failed => exact drain_death hk.1 hk.2
  case draining.done | draining.failed | draining.elapsed => exact stopDone_death hk.1 hk.2
  all_goals exact absurd rfl ha

theorem firstTurn_stop_death (ha : s.StopActs)
    (hd : ∀ signal message, w.refusal signal ≠ some (.denied message)) :
    DeathTurn s.grace (s.firstTurn w id .stop) := by
  rw [firstTurn_stop_eq ha]
  split
  · exact .asks rfl
  · exact (escalate_death (s := s.stopBegun) (List.suffix_refl _) (by simp) hd).after

end

end ServerRun.Server
