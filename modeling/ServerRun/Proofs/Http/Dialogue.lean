import ServerRun.Http.Dialogue

/-! What comes of a dialogue: the requests that are asked with the replies to them, in order, and
the result. With every endpoint a dialogue comes to the result of its run; with a client between,
the client and what it asks are the endpoint. -/

namespace ServerRun.Http.Dialogue

variable {Q A Q' A' α β σ τ : Type} {d : Dialogue Q A α} {f : α → Dialogue Q A β}
  {xs : List (Q × A)} {a : α} {b : β}

/-- The request that was asked, if one was. -/
def Happening.request? : Happening Q → Option Q
  | .asked q => some q
  | .told _ => none

/-- A dialogue comes to a result through exchanges: it asks the requests and hears the replies, in
this order. -/
inductive Comes : Dialogue Q A α → List (Q × A) → α → Prop
  | done (a : α) : Comes (.done a) [] a
  | ask {q : Q} {next : A → Dialogue Q A α} {reply : A} {xs : List (Q × A)} {a : α}
      (h : Comes (next reply) xs a) : Comes (.ask q next) ((q, reply) :: xs) a
  | tell {record : Log.Record} {next : Dialogue Q A α} {xs : List (Q × A)} {a : α}
      (h : Comes next xs a) : Comes (.tell record next) xs a

/-- The exchanges of a dialogue with an endpoint. -/
def exchanges (answer : σ → Q → A × σ) (s : σ) : Dialogue Q A α → List (Q × A)
  | .done _ => []
  | .ask q next =>
    (q, (answer s q).1) :: exchanges answer (answer s q).2 (next (answer s q).1)
  | .tell _ next => exchanges answer s next

theorem comes_run (answer : σ → Q → A × σ) (s : σ) (d : Dialogue Q A α) :
    d.Comes (d.exchanges answer s) (d.run answer s).2.1 := by
  induction d generalizing s with
  | done a => exact .done a
  | ask q next ih => exact .ask (ih _ _)
  | tell record next ih => exact .tell (ih _)

/-- The requests of the exchanges are those that are asked in the run. -/
theorem requests_run (answer : σ → Q → A × σ) (s : σ) (d : Dialogue Q A α) :
    (d.run answer s).1.filterMap Happening.request? = (d.exchanges answer s).map (·.1) := by
  induction d generalizing s with
  | done a => rfl
  | ask q next ih => exact congrArg (q :: ·) (ih _ _)
  | tell record next ih => exact ih _

theorem Comes.of_pure {result : α} (h : (pure a : Dialogue Q A α).Comes xs result) :
    xs = [] ∧ result = a := by
  cases h
  exact ⟨rfl, rfl⟩

/-- A dialogue that goes on with another one: first the exchanges of the one, then those of the
other. -/
theorem Comes.of_bind (h : (d >>= f).Comes xs b) :
    ∃ ys zs a, xs = ys ++ zs ∧ d.Comes ys a ∧ (f a).Comes zs b := by
  induction d generalizing xs with
  | done a => exact ⟨[], xs, a, rfl, .done a, h⟩
  | ask q next ih =>
    cases h with
    | ask h =>
      obtain ⟨ys, zs, a, rfl, hd, hf⟩ := ih _ h
      exact ⟨_, zs, a, rfl, .ask hd, hf⟩
  | tell record next ih =>
    cases h with
    | tell h =>
      obtain ⟨ys, zs, a, rfl, hd, hf⟩ := ih h
      exact ⟨ys, zs, a, rfl, .tell hd, hf⟩

theorem Comes.of_bind_pure {g : α → β} (h : (d >>= fun a => pure (g a)).Comes xs b) :
    ∃ a, d.Comes xs a ∧ b = g a := by
  obtain ⟨ys, zs, a, rfl, hd, hf⟩ := h.of_bind
  obtain ⟨rfl, rfl⟩ := hf.of_pure
  exact ⟨a, by rwa [List.append_nil], rfl⟩

/-! ### clients -/

theorem run_bind (answer : σ → Q → A × σ) (s : σ) (d : Dialogue Q A α) (f : α → Dialogue Q A β) :
    ((d.bind f).run answer s).2 =
      ((f (d.run answer s).2.1).run answer (d.run answer s).2.2).2 := by
  induction d generalizing s with
  | done a => rfl
  | ask q next ih => exact ih _ _
  | tell record next ih => exact ih _

/-- A dialogue over a client comes to what it comes to with the client and its endpoint as one. -/
theorem run_relay (client : τ → Q → Dialogue Q' A' (A × τ)) (answer : σ → Q' → A' × σ) (t : τ)
    (s : σ) (d : Dialogue Q A α) :
    ((d.relay client t).run answer s).2.1.1 =
      (d.run (through client answer) (t, s)).2.1 := by
  induction d generalizing t s with
  | done a => rfl
  | ask q next ih =>
    have hbind := run_bind answer s (client t q) fun r => (next r.1).relay client r.2
    exact (congrArg (fun r => r.1.1) hbind).trans (ih _ _ _)
  | tell record next ih => exact ih _ _

end ServerRun.Http.Dialogue
