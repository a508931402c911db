import ServerRun.Server.Calls
import ServerRun.Moves

/-! A server among its surroundings: any number of calls on it, its child, its management client and
the clock. Moves come one at a time and in any order that the surroundings admit: a call begins, a
waiting call is answered, the child dies, or time passes. Time passes up to the end of the next wait
or, where the clock's alarms come late, beyond it. What has happened is kept in order. -/

namespace ServerRun.Server

/-- The changes of state that a server makes. -/
inductive State.Change : State → State → Prop where
  | start : Change .notStarted .starting
  | ready : Change .starting .started
  | fail : Change .starting .failed
  | stopStarting : Change .starting .stopping
  | stopStarted : Change .started .stopping
  | stopped : Change .stopping .stopped

/-- How long a wait may last; none if it has no end of its own. -/
def Wait.limit? : Wait → Option Span
  | .readState limit | .shutdown limit | .drain limit => some limit
  | .sleep length => some (.finite length)
  | .exit limit => limit
  | .launch .. | .turn | .deploy .. | .execute _ | .close => none

/-- A call that waits, since a moment. -/
structure Waiting where
  id : Nat
  call : Call
  point : Point
  wait : Wait
  since : Seconds

/-- What has happened. -/
inductive Event where
  | began (id : Nat) (call : Call)
  | effect (id : Nat) (effect : Effect)
  | waits (id : Nat) (wait : Wait)
  | answered (id : Nat) (answer : Answer)
  | exited (code : Int)
  | ended (id : Nat) (result : Except Failure (Option Int))

/-- A server with its calls and its history. -/
structure System where
  server : Server
  now : Seconds := 0
  /-- How the child takes signals at present. -/
  refusal : Signal → Option Refusal := fun _ => none
  waiting : List Waiting := []
  /-- The calls that have begun. -/
  begun : List Nat := []
  history : List (Seconds × Event) := []

/-- What happens next. -/
inductive Move where
  | call (id : Nat) (call : Call)
  | answer (id : Nat) (answer : Answer)
  /-- The child dies. -/
  | exit (code : Int)
  | pass (length : Seconds)
  /-- Time passes while the clock's alarms are late. -/
  | lag (length : Seconds)
  /-- The child takes signals in another way. -/
  | refuse (refusal : Signal → Option Refusal)

namespace System

/-- What a turn may ask. -/
def surroundings (s : System) : Surroundings := ⟨s.now, s.refusal⟩

/-- A system in which something has happened. -/
def record (s : System) (e : Event) : System := { s with history := s.history ++ [(s.now, e)] }

/-- A system after a turn of a call. -/
def take (s : System) (id : Nat) (call : Call) (t : Turn) : System :=
  let s := t.effects.foldl (fun s e => s.record (.effect id e)) { s with server := t.server }
  match t.outcome with
  | .paused point wait =>
    let w : Waiting := ⟨id, call, point, wait, s.now⟩
    { s with waiting := s.waiting ++ [w] }.record (.waits id wait)
  | .returned code => s.record (.ended id (.ok code))
  | .raised f => s.record (.ended id (.error f))

/-- Whether the surroundings may give a waiting call an answer: the time of a wait has to be over
for that answer, the child dead with that exit code, and the turn of the call come. A failure is any
but a cancellation, which is an answer of its own. -/
def admits (s : System) (w : Waiting) : Answer → Bool
  | .elapsed => w.wait.limit?.any fun l => l.reachedBy (s.now - w.since)
  | .exited code => s.server.exitCode? == some code
  | .turn => s.server.turns.head? == some w.id
  | .failed .cancelled => false
  | _ => true

/-- Whether time may pass without going beyond the end of a wait. -/
def mayPass (s : System) (length : Seconds) : Bool :=
  decide (0 ≤ length) && s.waiting.all fun w =>
    match w.wait.limit? with
    | some (.finite l) => decide (s.now + length - w.since ≤ l)
    | _ => true

/-- The system after a move, if the surroundings admit it. -/
def step? (s : System) : Move → Option System
  | .call id c =>
    if s.begun.contains id then none
    else
      let s := { s with begun := id :: s.begun }.record (.began id c)
      some (s.take id c (s.server.firstTurn s.surroundings id c))
  | .answer id a =>
    (s.waiting.find? (·.id == id)).bind fun w =>
      if s.admits w a then
        (s.server.nextTurn? s.surroundings id w.point a).map fun t =>
          let s := { s with waiting := s.waiting.filter (·.id != id) }
          (s.record (.answered id a)).take id w.call t
      else none
  | .exit code =>
    if s.server.child.isSome && s.server.exitCode?.isNone then
      some ({ s with server := s.server.withExit code }.record (.exited code))
    else none
  | .pass length => if s.mayPass length then some { s with now := s.now + length } else none
  | .lag length => if 0 ≤ length then some { s with now := s.now + length } else none
  | .refuse refusal => some { s with refusal }

/-- A server before anything has happened. -/
def ofServer (s : Server) : System := { server := s }

/-- The systems that moves lead to from a system. -/
abbrev Reaches : System → List Move → System → Prop := Leads step?

end System

end ServerRun.Server
