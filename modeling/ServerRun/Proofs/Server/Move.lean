import ServerRun.Server.System
import ServerRun.Proofs.Server.Turn

/-! What one move does to a server among its surroundings: a call takes a turn, the child dies, or
only the time or the child's ways change. -/

namespace ServerRun.Server

/-- What the end of a turn of a call adds to the history. -/
def Outcome.event (id : Nat) : Outcome → Event
  | .paused _ wait => .waits id wait
  | .returned code => .ended id (.ok code)
  | .raised f => .ended id (.error f)

/-- What a turn of a call adds to the history. -/
def Turn.events (id : Nat) (t : Turn) : List Event :=
  t.effects.map (.effect id) ++ [t.outcome.event id]

namespace System

variable {s u : System} {m : Move} {id : Nat} {call : Call} {t : Turn} {e : Event}

/-- What has happened, in its order. -/
def events (s : System) : List Event := s.history.map (·.2)

/-- The wait of a call after a turn of it. -/
def waitAfter (now : Seconds) (id : Nat) (call : Call) (t : Turn) : List Waiting :=
  match t.outcome with
  | .paused point wait => [⟨id, call, point, wait, now⟩]
  | _ => []

theorem mem_waitAfter {now : Seconds} {x : Waiting} (h : x ∈ waitAfter now id call t) :
    t.outcome = .paused x.point x.wait ∧ x.id = id := by
  unfold waitAfter at h
  split at h
  · rename_i point wait ht
    rw [List.mem_singleton] at h
    subst h
    exact ⟨ht, rfl⟩
  · cases h

theorem waitAfter_of_mem {now : Seconds} {x : Waiting} (h : x ∈ waitAfter now id call t) :
    waitAfter now id call t = [x] ∧ x.call = call := by
  unfold waitAfter at h ⊢
  split at h
  · rw [List.mem_singleton] at h
    subst h
    exact ⟨rfl, rfl⟩
  · cases h

theorem foldl_record {α : Type} (f : α → Event) (xs : List α) (s : System) :
    xs.foldl (fun s x => s.record (f x)) s =
      { s with history := s.history ++ xs.map fun x => (s.now, f x) } := by
  induction xs generalizing s with
  | nil => simp
  | cons x xs ih => rw [List.foldl_cons, ih]; simp [record]

theorem take_eq (s : System) (id : Nat) (call : Call) (t : Turn) :
    s.take id call t =
      { s with
        server := t.server
        waiting := s.waiting ++ waitAfter s.now id call t
        history := s.history ++ (t.events id).map fun e => (s.now, e) } := by
  unfold take
  rw [foldl_record]
  cases h : t.outcome <;> simp [record, waitAfter, Turn.events, Outcome.event, h]

@[simp] theorem record_server : (s.record e).server = s.server := rfl

@[simp] theorem record_waiting : (s.record e).waiting = s.waiting := rfl

@[simp] theorem record_now : (s.record e).now = s.now := rfl

@[simp] theorem events_mk (v : Server) (now : Seconds) (refusal : Signal → Option Refusal)
    (ws : List Waiting) (begun : List Nat) :
    (System.mk v now refusal ws begun s.history).events = s.events := rfl

@[simp] theorem record_events : (s.record e).events = s.events ++ [e] := by simp [events, record]

@[simp] theorem record_begun : (s.record e).begun = s.begun := rfl

@[simp] theorem take_server : (s.take id call t).server = t.server := by rw [take_eq]

@[simp] theorem take_waiting :
    (s.take id call t).waiting = s.waiting ++ waitAfter s.now id call t := by rw [take_eq]

@[simp] theorem take_begun : (s.take id call t).begun = s.begun := by rw [take_eq]

@[simp] theorem take_events : (s.take id call t).events = s.events ++ t.events id := by
  simp [events, take_eq, Function.comp_def]

/-- The system that a move leads to: a call takes a turn, its first one or one after an answer, the
child dies, or only the time or the child's ways change. -/
inductive Stepped (s : System) : Move → System → Prop
  | call (id : Nat) (call : Call) (hn : id ∉ s.begun) :
      Stepped s (.call id call)
        (({ s with begun := id :: s.begun }.record (.began id call)).take id call
          (s.server.firstTurn s.surroundings id call))
  | answer (id : Nat) (a : Answer) (t : Turn) (x : Waiting)
      (hx : s.waiting.find? (·.id == id) = some x) (ha : s.admits x a = true)
      (ht : s.server.nextTurn? s.surroundings id x.point a = some t) :
      Stepped s (.answer id a)
        (({ s with waiting := s.waiting.filter (·.id != id) }.record (.answered id a)).take id
          x.call t)
  | exit (code : Int) (hc : s.server.child ≠ none) (he : s.server.exitCode? = none) :
      Stepped s (.exit code) ({ s with server := s.server.withExit code }.record (.exited code))
  | time (m : Move) (hm : ∀ id a, m ≠ .answer id a) (hc : ∀ id c, m ≠ .call id c) (now : Seconds)
      (refusal : Signal → Option Refusal) : Stepped s m { s with now, refusal }

theorem stepped_of_step? (h : s.step? m = some u) : Stepped s m u := by
  cases m with
  | call id c =>
    simp only [step?] at h
    split at h
    · cases h
    · rename_i hn
      cases h
      exact .call id c (by simpa using hn)
  | answer id a =>
    simp only [step?, Option.bind_eq_some_iff] at h
    obtain ⟨x, hx, h⟩ := h
    split at h
    · rename_i ha
      obtain ⟨t, ht, rfl⟩ := Option.map_eq_some_iff.mp h
      exact .answer id a t x hx ha ht
    · cases h
  | exit code =>
    simp only [step?] at h
    split at h
    · rename_i hc
      cases h
      simp only [Bool.and_eq_true, Option.isSome_iff_ne_none, Option.isNone_iff_eq_none] at hc
      exact .exit code hc.1 hc.2
    · cases h
  | pass length =>
    simp only [step?] at h
    split at h
    · cases h
      exact .time _ (fun _ _ hm => by cases hm) (fun _ _ hm => by cases hm) _ _
    · cases h
  | lag length =>
    simp only [step?] at h
    split at h
    · cases h
      exact .time _ (fun _ _ hm => by cases hm) (fun _ _ hm => by cases hm) _ _
    · cases h
  | refuse refusal =>
    cases h
    exact .time _ (fun _ _ hm => by cases hm) (fun _ _ hm => by cases hm) _ _

/-- What a move comes to for the server and the waiting calls. -/
inductive Moved (s u : System) : Move → Prop
  | call (id : Nat) (call : Call)
      (hs : u.server = (s.server.firstTurn s.surroundings id call).server)
      (hw : u.waiting = s.waiting ++
        waitAfter s.now id call (s.server.firstTurn s.surroundings id call)) :
      Moved s u (.call id call)
  | answer (id : Nat) (a : Answer) (t : Turn) (x : Waiting)
      (hx : s.waiting.find? (·.id == id) = some x)
      (ha : s.admits x a = true) (ht : s.server.nextTurn? s.surroundings id x.point a = some t)
      (hs : u.server = t.server)
      (hw : u.waiting = s.waiting.filter (·.id != id) ++ waitAfter s.now id x.call t) :
      Moved s u (.answer id a)
  | exit (code : Int) (hs : u.server = s.server.withExit code) (hw : u.waiting = s.waiting) :
      Moved s u (.exit code)
  | time (m : Move) (hm : ∀ id a, m ≠ .answer id a) (hs : u.server = s.server)
      (hw : u.waiting = s.waiting) : Moved s u m

theorem moved_of_step? (h : s.step? m = some u) : Moved s u m := by
  cases stepped_of_step? h with
  | call id call hn => exact .call id call take_server take_waiting
  | answer id a t x hx ha ht => exact .answer id a t x hx ha ht take_server take_waiting
  | exit code hc he => exact .exit code rfl rfl
  | time m hm hc => exact .time m hm rfl rfl

end System

end ServerRun.Server
