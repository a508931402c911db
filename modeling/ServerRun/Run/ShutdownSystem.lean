import ServerRun.Run.Shutdown
import ServerRun.Moves

/-! A shutdown with any number of calls of it, side by side, and callbacks attached at any moment. A
callback that was entered ends at some later move, in one way or another. -/

namespace ServerRun.Shutdown

/-- What has happened to a shutdown. -/
inductive Event (κ : Type) where
  | attached (callback : κ)
  | began (id : Nat)
  | entered (id : Nat) (callback : κ)
  | left (id : Nat) (result : Except Failure Unit)
  | ended (id : Nat) (result : Except Failure Unit)

/-- A shutdown with its calls and its history. -/
structure System (κ : Type) where
  shutdown : Shutdown κ
  /-- The calls that wait for their turn. -/
  waiting : List Nat := []
  /-- The calls in a callback. -/
  inside : List Nat := []
  /-- The calls that have begun. -/
  begun : List Nat := []
  history : List (Event κ) := []

/-- What happens next. -/
inductive Move (κ : Type) where
  | attach (callback : κ)
  | call (id : Nat)
  /-- A waiting call whose turn has come goes on. -/
  | turn (id : Nat)
  /-- The callback that a call has entered ends. -/
  | leave (id : Nat) (result : Except Failure Unit)

namespace System

/-- A system in which something has happened. -/
def record (s : System κ) (e : Event κ) : System κ := { s with history := s.history ++ [e] }

/-- A system after a turn of a call. -/
def take (s : System κ) (id : Nat) (h : Shutdown κ) : Outcome κ → System κ
  | .awaitingTurn => { s with shutdown := h, waiting := s.waiting ++ [id] }
  | .entered k => { s with shutdown := h, inside := id :: s.inside }.record (.entered id k)
  | .returned => { s with shutdown := h }.record (.ended id (.ok ()))
  | .raised f => { s with shutdown := h }.record (.ended id (.error f))

/-- The system after a move, if it can be made. -/
def step? (s : System κ) : Move κ → Option (System κ)
  | .attach k => some ({ s with shutdown := s.shutdown.attach k }.record (.attached k))
  | .call id =>
    if s.begun.contains id then none
    else
      let s := { s with begun := id :: s.begun }.record (.began id)
      let (h, o) := s.shutdown.run id
      some (s.take id h o)
  | .turn id =>
    if s.waiting.contains id && s.shutdown.turns.head? == some id then
      let (h, o) := s.shutdown.takeTurn id
      some ({ s with waiting := s.waiting.filter (· != id) }.take id h o)
    else none
  | .leave id result =>
    if s.inside.contains id then
      let (h, _, o) := s.shutdown.callbackEnded id result
      some (({ s with inside := s.inside.filter (· != id) }.record (.left id result)).take id h o)
    else none

/-- The systems that moves lead to from a system. -/
abbrev Reaches : System κ → List (Move κ) → System κ → Prop := Leads step?

end System

end ServerRun.Shutdown
