import ServerRun.Command.Batch

/-! What becomes of a batch of commands on a client. Nothing is sent unless all commands can be
read; an atomic batch is one request, and any other batch is sent command by command, up to the
first one that fails. Which commands ask too much of their reader may be anything. -/

namespace ServerRun

namespace Command

variable {excess? : String → Option Excess} {text : String}

theorem command_of_parse {e : ParseError} (h : parse text = .error e) : e.command = text := by
  simp only [parse] at h
  split at h
  · cases h
  · cases h
    rfl

theorem parseUnless_of_excess {x : Excess} (h : excess? text = some x) :
    parseUnless excess? text = .error x.failure := by
  rw [parseUnless, h]

theorem parseUnless_of_error {e : ParseError} (hx : excess? text = none)
    (he : parse text = .error e) :
    parseUnless excess? text = .error (.run (.commandSyntax text e.description)) := by
  rw [parseUnless, hx, he]
  simp only [command_of_parse he]

end Command

namespace Batch

/-- A request and the answer to it. -/
abbrev Exchange := Fields × Except Failure Unit

/-- A client: how it answers a request after the exchanges before it. -/
abbrev Client := List Exchange → Fields → Except Failure Unit

/-- What became of a batch: what was sent and answered, in its order, and how the batch ended. -/
structure Execution where
  exchanges : List Exchange
  result : Except Failure Unit

/-- How many commands are left to be sent after an answer. -/
def Point.left : Point → Nat
  | .composite => 0
  | .command _ rest => rest.length

/-- How many requests may still be sent. -/
def Progress.left : Progress → Nat
  | .send _ p => p.left + 1
  | .finished | .raised _ => 0

theorem left_sendNext (rest : List (String × Fields)) : (sendNext rest).2.left = rest.length := by
  cases rest <;> rfl

/-- A batch goes on with the commands that are left, if at all. -/
theorem left_resume_le (b : Batch) (p : Point) (answer : Except Failure Unit) :
    (b.resume p answer).2.left ≤ p.left := by
  unfold resume
  split
  · exact Nat.zero_le _
  · exact Nat.zero_le _
  · split
    · exact Nat.zero_le _
    · exact Nat.le_of_eq (left_sendNext _)

/-- Goes on with a batch on a client, after some exchanges, until it ends. -/
def proceed (b : Batch) (client : Client) (past : List Exchange) : Progress → Execution
  | .finished => ⟨past, .ok ()⟩
  | .raised f => ⟨past, .error f⟩
  | .send request p =>
    let answer := client past request
    b.proceed client (past ++ [(request, answer)]) (b.resume p answer).2
termination_by progress => progress.left
decreasing_by exact Nat.lt_succ_of_le (b.left_resume_le p _)

/-- Runs a batch on a client. -/
def run (b : Batch) (excess? : String → Option Command.Excess) (client : Client) : Execution :=
  b.proceed client [] (b.start excess?).2

/-- The failure of what was sent under a text: a refusal of the server is put down to that text, and
any other failure stays what it is. -/
def failureOf (text : String) : Failure → Failure
  | .run (.management description _) => .run (.command text description)
  | f => f

theorem mapError_failureOf_eq_ok {text : String} {answer : Except Failure Unit} :
    answer.mapError (failureOf text) = .ok () ↔ answer = .ok () := by
  cases answer with
  | ok _ => exact iff_of_true rfl rfl
  | error f => exact iff_of_false nofun nofun

section

variable {b : Batch} {excess? : String → Option Command.Excess}

theorem resume_error (p : Point) (f : Failure) :
    b.resume p (.error f) = ([], .raised (failureOf (b.sentText p) f)) := by
  unfold resume failureOf
  split
  · rename_i h
    cases h
    rfl
  · rename_i hn h
    cases h
    split
    · exact absurd rfl (hn _ _)
    · rfl
  · rename_i h
    cases h

/-! ### what is sent -/

/-- Each request is answered by the client, after the exchanges before it. -/
theorem answered_proceed (b : Batch) (client : Client) (past : List Exchange)
    (progress : Progress) :
    ∃ new, (b.proceed client past progress).exchanges = past ++ new ∧
      ∀ before x after, new = before ++ x :: after → x.2 = client (past ++ before) x.1 := by
  fun_induction proceed b client past progress with
  | case1 past | case2 past f => exact ⟨[], by simp, fun before x after h => by simp at h⟩
  | case3 past request p answer ih =>
    obtain ⟨new, he, ha⟩ := ih
    refine ⟨(request, answer) :: new, by simp [he], fun before x after h => ?_⟩
    rcases List.append_eq_cons_iff.mp h.symm with ⟨rfl, hx⟩ | ⟨before, rfl, rfl⟩
    · obtain ⟨rfl, -⟩ := List.cons.inj hx
      rw [List.append_nil]
    · simpa using ha before x after rfl

/-- Commands that are sent one by one are all accepted, or the first that is not ends the batch. -/
theorem proceed_sendNext (b : Batch) (client : Client) (past : List Exchange)
    (left : List (String × Fields)) :
    b.proceed client past (sendNext left).2 =
        ⟨past ++ left.map fun r => (r.2, Except.ok ()), .ok ()⟩ ∨
      ∃ (done : List (String × Fields)) (r : String × Fields) (rest : List (String × Fields))
        (f : Failure), left = done ++ r :: rest ∧
          b.proceed client past (sendNext left).2 =
            ⟨past ++ (done.map fun r => (r.2, Except.ok ())) ++ [(r.2, Except.error f)],
              .error (failureOf r.1 f)⟩ := by
  induction left generalizing past with
  | nil => exact .inl (by simp [sendNext, proceed])
  | cons r left ih =>
    simp only [sendNext, proceed]
    cases ha : client past r.2 with
    | error f =>
      refine .inr ⟨[], r, left, f, rfl, ?_⟩
      simp [resume_error, proceed, sentText]
    | ok _ =>
      rcases ih (past ++ [(r.2, .ok ())]) with h | ⟨done, r', rest, f, rfl, h⟩
      · exact .inl (by simpa [resume] using h)
      · exact .inr ⟨r :: done, r', rest, f, rfl, by simpa [resume] using h⟩

/-! ### what is read -/

/-- Commands that can all be read are read in their order. -/
theorem exists_requests {texts : List String} {all : List Command}
    (h : texts.map (Command.parseUnless excess?) = all.map .ok) :
    ∃ rs, requests excess? texts = .ok rs ∧ rs.map (·.1) = texts ∧
      rs.map (·.2) = all.map (·.request) := by
  induction texts generalizing all with
  | nil =>
    cases all with
    | nil => exact ⟨[], rfl, rfl, rfl⟩
    | cons c all => simp at h
  | cons text texts ih =>
    cases all with
    | nil => simp at h
    | cons c all =>
      obtain ⟨hc, h⟩ := List.cons.inj h
      obtain ⟨rs, hr, hf, hs⟩ := ih h
      exact ⟨(text, c.request) :: rs, by simp [requests, hc, hr], by simp [hf], by simp [hs]⟩

/-- The failure of the first text that is not read is passed on. -/
theorem requests_of_unread {before after : List String} {text : String} {f : Failure}
    (hb : ∀ t ∈ before, ∃ c, Command.parseUnless excess? t = .ok c)
    (hf : Command.parseUnless excess? text = .error f) :
    requests excess? (before ++ text :: after) = .error f := by
  induction before with
  | nil => simp [requests, hf]
  | cons t before ih =>
    obtain ⟨c, hc⟩ := hb t List.mem_cons_self
    simp [requests, hc, ih fun t ht => hb t (List.mem_cons_of_mem _ ht)]

theorem start_of_requests {all : List (String × Fields)} (he : b.commands ≠ [])
    (h : requests excess? b.commands = .ok all) :
    (b.start excess?).2 =
      if b.atomic then .send (Command.composite (all.map fun r => .obj r.2)) .composite
      else (sendNext all).2 := by
  cases ha : b.atomic <;> simp [start, isEmpty, he, h, ha]

end

/-! ### all batches -/

/-- What becomes of a batch on a client. -/
structure Follows (b : Batch) (excess? : String → Option Command.Excess) (client : Client)
    (e : Execution) : Prop where
  /-- The requests are sent one after the other: each is answered after the exchanges before it. -/
  answered : ∀ before x after, e.exchanges = before ++ x :: after → x.2 = client before x.1
  /-- A batch without commands sends nothing. -/
  empty : b.commands = [] → e.exchanges = [] ∧ e.result = .ok ()
  /-- Nothing is sent of a batch with a text that is no command; the first one is told. -/
  unreadable : ∀ before text after err, b.commands = before ++ text :: after →
    (∀ t ∈ before, ∃ c, Command.parseUnless excess? t = .ok c) → excess? text = none →
    Command.parse text = .error err →
    e.exchanges = [] ∧ e.result = .error (.run (.commandSyntax text err.description))
  /-- Nothing is sent of a batch with a text that asks too much of its reader. -/
  excessive : ∀ before text after x, b.commands = before ++ text :: after →
    (∀ t ∈ before, ∃ c, Command.parseUnless excess? t = .ok c) → excess? text = some x →
    e.exchanges = [] ∧ e.result = .error x.failure
  /-- An atomic batch is one request with the commands as its steps. -/
  atomic : ∀ all : List Command, b.commands.map (Command.parseUnless excess?) = all.map .ok →
    all ≠ [] → b.atomic = true →
    ∃ answer, e.exchanges = [(Command.composite (all.map fun c => .obj c.request), answer)] ∧
      e.result = answer.mapError (failureOf (String.intercalate "; " b.commands))
  /-- Any other batch is sent command by command: all of them, or up to the first that fails. -/
  oneByOne : ∀ all : List Command, b.commands.map (Command.parseUnless excess?) = all.map .ok →
    b.atomic = false →
    e = ⟨all.map fun c => (c.request, .ok ()), .ok ()⟩ ∨
      ∃ done c rest text f, all = done ++ c :: rest ∧ b.commands[done.length]? = some text ∧
        e = ⟨(done.map fun c => (c.request, .ok ())) ++ [(c.request, .error f)],
          .error (failureOf text f)⟩
  /-- A batch whose commands can all be read succeeds exactly if no request failed. -/
  succeeds : ∀ all : List Command, b.commands.map (Command.parseUnless excess?) = all.map .ok →
    (e.result = .ok () ↔ ∀ x ∈ e.exchanges, x.2 = .ok ())

section

variable {b : Batch} {excess? : String → Option Command.Excess} {client : Client}

theorem run_of_empty (h : b.commands = []) : b.run excess? client = ⟨[], .ok ()⟩ := by
  simp [run, start, isEmpty, h, proceed]

theorem run_of_unread {before after : List String} {text : String} {f : Failure}
    (h : b.commands = before ++ text :: after)
    (hb : ∀ t ∈ before, ∃ c, Command.parseUnless excess? t = .ok c)
    (hf : Command.parseUnless excess? text = .error f) :
    b.run excess? client = ⟨[], .error f⟩ := by
  have hr : requests excess? b.commands = .error f := by
    rw [h]
    exact requests_of_unread hb hf
  have hn : b.isEmpty = false := by simp [isEmpty, h]
  simp [run, start, hn, hr, proceed]

theorem run_of_atomic (client : Client) {all : List Command}
    (h : b.commands.map (Command.parseUnless excess?) = all.map .ok)
    (hn : all ≠ []) (ha : b.atomic = true) :
    ∃ answer, b.run excess? client =
      ⟨[(Command.composite (all.map fun c => .obj c.request), answer)],
        answer.mapError (failureOf (String.intercalate "; " b.commands))⟩ := by
  have he : b.commands ≠ [] := fun he => hn (by simpa [he] using h.symm)
  obtain ⟨rs, hr, -, hs⟩ := exists_requests h
  have hsteps : (rs.map fun r => Json.obj r.2) = all.map fun c => .obj c.request := by
    have := congrArg (List.map Json.obj) hs
    rwa [List.map_map, List.map_map] at this
  refine ⟨client [] (Command.composite (all.map fun c => .obj c.request)), ?_⟩
  rw [run, start_of_requests he hr, ha, if_pos rfl, hsteps, proceed]
  cases client [] (Command.composite (all.map fun c => .obj c.request)) with
  | ok _ =>
    simp only [resume, proceed, List.nil_append]
    rfl
  | error f =>
    simp only [resume_error, proceed, List.nil_append, sentText]
    rfl

theorem run_of_oneByOne (client : Client) {all : List Command}
    (h : b.commands.map (Command.parseUnless excess?) = all.map .ok)
    (ha : b.atomic = false) :
    b.run excess? client = ⟨all.map fun c => (c.request, .ok ()), .ok ()⟩ ∨
      ∃ (done : List Command) (c : Command) (rest : List Command) (text : String) (f : Failure),
        all = done ++ c :: rest ∧ b.commands[done.length]? = some text ∧
          b.run excess? client =
            ⟨(done.map fun c => (c.request, Except.ok ())) ++ [(c.request, Except.error f)],
              .error (failureOf text f)⟩ := by
  by_cases he : b.commands = []
  · obtain rfl : all = [] := by simpa [he] using h.symm
    exact .inl (run_of_empty he)
  obtain ⟨rs, hr, ht, hs⟩ := exists_requests h
  have accepted {rs : List (String × Fields)} {cs : List Command}
      (hs : rs.map (·.2) = cs.map (·.request)) :
      (rs.map fun r => ((r.2, .ok ()) : Exchange)) = cs.map fun c => (c.request, .ok ()) := by
    have := congrArg (List.map fun q => ((q, .ok ()) : Exchange)) hs
    rwa [List.map_map, List.map_map] at this
  rw [run, start_of_requests he hr, ha, if_neg Bool.false_ne_true]
  rcases proceed_sendNext b client [] rs with hp | hp
  · exact .inl (by rw [hp, List.nil_append, accepted hs])
  · obtain ⟨before, r, after, f, rfl, hp⟩ := hp
    rw [List.map_append, List.map_cons] at hs
    obtain ⟨done, more, rfl, hd, hm⟩ := List.map_eq_append_iff.mp hs.symm
    obtain ⟨c, rest, rfl, hc, -⟩ := List.map_eq_cons_iff.mp hm
    have hl : done.length = before.length := by simpa using congrArg List.length hd
    refine .inr ⟨done, c, rest, r.1, f, rfl, ?_, ?_⟩
    · simp [← ht, hl]
    · rw [hp, List.nil_append, accepted hd.symm, ← hc]

end

end Batch

end ServerRun
