/-! Systems that move. A system makes one move at a time, each where its surroundings admit it, and
the moves that are made, in order, are a run of the system. -/

namespace ServerRun

/-- The states that moves lead to, one move after the other. -/
inductive Leads {σ μ : Type} (step? : σ → μ → Option σ) : σ → List μ → σ → Prop where
  | refl (s : σ) : Leads step? s [] s
  | step {s t u : σ} {m : μ} {ms : List μ} (h : step? s m = some t) (hr : Leads step? t ms u) :
      Leads step? s (m :: ms) u

/-- The run that `ms` make from `s` takes the move `m` from `t` to `u`. -/
def Makes {σ μ : Type} (step? : σ → μ → Option σ) (s : σ) (ms : List μ) (t : σ) (m : μ) (u : σ) :
    Prop :=
  ∃ before after, ms = before ++ m :: after ∧ Leads step? s before t ∧ step? t m = some u

/-- Moves of a kind lead from `s` to a goal. -/
def CanLead {σ μ : Type} (step? : σ → μ → Option σ) (kind : σ → μ → Prop) (goal : σ → Prop)
    (s : σ) : Prop :=
  ∃ ms u, Leads step? s ms u ∧ (∀ t m v, Makes step? s ms t m v → kind t m) ∧ goal u

section

variable {σ μ : Type} {step? : σ → μ → Option σ} {s t u v : σ} {m n : μ} {ms ns : List μ}
  {kind : σ → μ → Prop} {goal : σ → Prop}

theorem Leads.append (h : Leads step? s ms t) (hn : Leads step? t ns u) :
    Leads step? s (ms ++ ns) u := by
  induction h with
  | refl => exact hn
  | step h _ ih => exact .step h (ih hn)

/-- A run passes through a state wherever its moves are cut. -/
theorem Leads.cut (h : Leads step? s (ms ++ ns) u) :
    ∃ t, Leads step? s ms t ∧ Leads step? t ns u := by
  induction ms generalizing s with
  | nil => exact ⟨s, .refl s, h⟩
  | cons m ms ih =>
    cases h with
    | step h hr =>
      obtain ⟨t, ht, hu⟩ := ih hr
      exact ⟨t, .step h ht, hu⟩

/-- A run is determined by its moves. -/
theorem Leads.unique (h : Leads step? s ms t) (hu : Leads step? s ms u) : t = u := by
  induction h with
  | refl =>
    cases hu
    rfl
  | step h _ ih =>
    cases hu with
    | step h' hr' =>
      rw [h, Option.some.injEq] at h'
      subst h'
      exact ih hr'

/-- What is left of a run after its first moves. -/
theorem Leads.rest (h : Leads step? s (ms ++ ns) u) (ht : Leads step? s ms t) :
    Leads step? t ns u := by
  obtain ⟨v, hv, hu⟩ := h.cut
  rwa [ht.unique hv]

/-- The moves lead to what making them one after the other comes to. -/
theorem leads_iff : Leads step? s ms t ↔ ms.foldlM step? s = some t := by
  constructor
  · intro h
    induction h with
    | refl => rfl
    | step h _ ih =>
      rw [List.foldlM_cons, h]
      exact ih
  · intro h
    induction ms generalizing s with
    | nil =>
      cases h
      exact .refl _
    | cons m ms ih =>
      rw [List.foldlM_cons] at h
      obtain ⟨u, hu, h⟩ := Option.bind_eq_some_iff.mp h
      exact .step hu (ih h)

theorem Makes.step (h : Makes step? s ms t m u) : step? t m = some u := by
  obtain ⟨before, after, rfl, hb, hs⟩ := h
  exact hs

theorem Makes.first (h : step? s m = some t) : Makes step? s (m :: ms) s m t :=
  ⟨[], ms, rfl, .refl s, h⟩

theorem Makes.cons (h : step? s n = some t) (hm : Makes step? t ms u m v) :
    Makes step? s (n :: ms) u m v := by
  obtain ⟨before, after, rfl, hb, hs⟩ := hm
  exact ⟨n :: before, after, rfl, .step h hb, hs⟩

/-- A run takes a move first, or after its first one. -/
theorem makes_cons :
    Makes step? s (n :: ms) t m u ↔
      (s = t ∧ n = m ∧ step? t m = some u) ∨ ∃ v, step? s n = some v ∧ Makes step? v ms t m u := by
  constructor
  · rintro ⟨before, after, hms, hb, hs⟩
    cases before with
    | nil =>
      cases hms
      cases hb
      exact .inl ⟨rfl, rfl, hs⟩
    | cons m' before =>
      cases hms
      cases hb with
      | step h hr => exact .inr ⟨_, h, before, after, rfl, hr, hs⟩
  · rintro (⟨rfl, rfl, hs⟩ | ⟨v, hv, hm⟩)
    · exact .first hs
    · exact hm.cons hv

theorem Makes.append (h : Makes step? s ms t m u) (ns : List μ) :
    Makes step? s (ms ++ ns) t m u := by
  obtain ⟨before, after, rfl, hb, hs⟩ := h
  exact ⟨before, after ++ ns, by simp, hb, hs⟩

theorem Makes.after (hm : Makes step? t ns u m v) (h : Leads step? s ms t) :
    Makes step? s (ms ++ ns) u m v := by
  obtain ⟨before, after, rfl, hb, hs⟩ := hm
  exact ⟨ms ++ before, after, by simp, h.append hb, hs⟩

/-- What holds at the start of a run and is kept by each move that the run takes holds at its
end. -/
theorem Leads.keeps {P : σ → Prop} (h : Leads step? s ms u) (hs : P s)
    (hm : ∀ t m v, Makes step? s ms t m v → P t → P v) : P u := by
  induction h with
  | refl => exact hs
  | step h _ ih =>
    exact ih (hm _ _ _ (.first h) hs) fun t m v hv => hm t m v (hv.cons h)

theorem Makes.mem (h : Makes step? s ms t m u) : m ∈ ms := by
  obtain ⟨before, after, rfl, -⟩ := h
  simp

theorem not_makes_nil : ¬ Makes step? s [] t m u := fun h => by simpa using h.mem

theorem CanLead.of_goal (h : goal s) : CanLead step? kind goal s :=
  ⟨[], s, .refl s, fun _ _ _ hm => absurd hm not_makes_nil, h⟩

theorem CanLead.of_step? (h : CanLead step? kind goal t) (hs : step? s m = some t)
    (hk : kind s m) : CanLead step? kind goal s := by
  obtain ⟨ms, u, hu, hms, hg⟩ := h
  refine ⟨m :: ms, u, .step hs hu, fun t' n v hm => ?_, hg⟩
  rcases makes_cons.mp hm with ⟨rfl, rfl, -⟩ | ⟨w, hw, hm⟩
  · exact hk
  · rw [hs, Option.some.injEq] at hw
    exact hms t' n v (hw ▸ hm)

theorem CanLead.of_leads (h : CanLead step? kind goal t) (hl : Leads step? s ms t)
    (hk : ∀ u, ∀ m ∈ ms, kind u m) : CanLead step? kind goal s := by
  induction hl with
  | refl => exact h
  | step hs _ ih =>
    exact (ih h fun u m hm => hk u m (List.mem_cons_of_mem _ hm)).of_step? hs
      (hk _ _ List.mem_cons_self)

end

/-- What stands in a history before it grows is found there, unless it is in what was added. -/
theorem exists_of_append_eq_append_cons {α : Type} {events new before after : List α} {e : α}
    (hn : e ∉ new) (h : events ++ new = before ++ e :: after) :
    ∃ rest, events = before ++ e :: rest ∧ after = rest ++ new := by
  rcases List.append_eq_append_iff.mp h with ⟨mid, rfl, hm⟩ | ⟨mid, he, hm⟩
  · exact absurd (by simp [hm]) hn
  · cases mid with
    | nil =>
      rw [List.nil_append] at hm
      exact absurd (by simp [← hm]) hn
    | cons e' rest =>
      rw [List.cons_append, List.cons.injEq] at hm
      obtain ⟨rfl, rfl⟩ := hm
      exact ⟨rest, he, rfl⟩

end ServerRun
