/-! Computations that may fail, taken apart: how one in several steps comes to its result, and at
which of its steps it fails. -/

namespace ServerRun

variable {ε α β σ : Type}

theorem ok_of_bind {x : Except ε α} {next : α → Except ε β} {b : β}
    (h : (x >>= next) = .ok b) : ∃ a, x = .ok a ∧ next a = .ok b := by
  cases x with
  | error e => cases h
  | ok a => exact ⟨a, rfl, h⟩

theorem error_of_bind {x : Except ε α} {next : α → Except ε β} {e : ε}
    (h : (x >>= next) = .error e) : x = .error e ∨ ∃ a, x = .ok a ∧ next a = .error e := by
  cases x with
  | error e' =>
    cases h
    exact .inl rfl
  | ok a => exact .inr ⟨a, rfl, h⟩

theorem ok_of_map {x : Except ε α} {f : α → β} {b : β} (h : x.map f = .ok b) :
    ∃ a, x = .ok a ∧ f a = b := by
  cases x with
  | error e => cases h
  | ok a => exact ⟨a, rfl, Except.ok.inj h⟩

theorem error_of_map {x : Except ε α} {f : α → β} {e : ε} (h : x.map f = .error e) :
    x = .error e := by
  cases x with
  | error e' =>
    cases h
    rfl
  | ok a => cases h

theorem ok_of_mapM {f : α → Except ε β} {as : List α} {bs : List β} (h : as.mapM f = .ok bs) :
    as.map f = bs.map .ok := by
  induction as generalizing bs with
  | nil =>
    cases h
    rfl
  | cons a as ih =>
    rw [List.mapM_cons] at h
    obtain ⟨b, hb, h⟩ := ok_of_bind h
    obtain ⟨bs', hbs, h⟩ := ok_of_bind h
    cases h
    rw [List.map_cons, List.map_cons, hb, ih hbs]

theorem error_of_mapM {f : α → Except ε β} {as : List α} {e : ε} (h : as.mapM f = .error e) :
    ∃ a ∈ as, f a = .error e := by
  induction as with
  | nil => cases h
  | cons a as ih =>
    rw [List.mapM_cons] at h
    obtain ha | ⟨b, -, h⟩ := error_of_bind h
    · exact ⟨a, by simp, ha⟩
    · obtain has | ⟨bs, -, h⟩ := error_of_bind h
      · obtain ⟨a', ha', hf⟩ := ih has
        exact ⟨a', by simp [ha'], hf⟩
      · cases h

theorem error_of_foldlM {step : σ → α → Except ε σ} {as : List α} {s : σ} {e : ε}
    (h : as.foldlM step s = .error e) : ∃ a ∈ as, ∃ s, step s a = .error e := by
  induction as generalizing s with
  | nil => cases h
  | cons a as ih =>
    rw [List.foldlM_cons] at h
    obtain ha | ⟨s', -, h⟩ := error_of_bind h
    · exact ⟨a, by simp, s, ha⟩
    · obtain ⟨a', ha', hstep⟩ := ih h
      exact ⟨a', by simp [ha'], hstep⟩

/-- What holds at the start and is kept by every step that succeeds holds at the end. -/
theorem holds_of_foldlM {step : σ → α → Except ε σ} {holds : σ → Prop} {as : List α} {s t : σ}
    (h : as.foldlM step s = .ok t) (hs : holds s)
    (hstep : ∀ a ∈ as, ∀ s t, holds s → step s a = .ok t → holds t) : holds t := by
  induction as generalizing s with
  | nil =>
    cases h
    exact hs
  | cons a as ih =>
    rw [List.foldlM_cons] at h
    obtain ⟨s', hs', h⟩ := ok_of_bind h
    exact ih h (hstep a (by simp) s s' hs hs') fun a' ha' => hstep a' (by simp [ha'])

/-- Every step of a run that succeeds succeeds. -/
theorem exists_step_of_foldlM {step : σ → α → Except ε σ} {as : List α} {s t : σ} {a : α}
    (h : as.foldlM step s = .ok t) (ha : a ∈ as) : ∃ s t, step s a = .ok t := by
  induction as generalizing s with
  | nil => cases ha
  | cons a' as ih =>
    rw [List.foldlM_cons] at h
    obtain ⟨s', hs', h⟩ := ok_of_bind h
    rcases List.mem_cons.mp ha with rfl | ha
    · exact ⟨s, s', hs'⟩
    · exact ih h ha

end ServerRun
