import ServerRun.Error
import ServerRun.Log.Record

/-! A shutdown runs its callback at most once. Calls of it take turns; the first one to have its
turn enters the callback that is attached then, and every other one returns after it is done. -/

namespace ServerRun

/-- A shutdown with callbacks of some kind. -/
structure Shutdown (κ : Type) where
  callback : Option κ := none
  done : Bool := false
  invocations : Nat := 0
  /-- The calls in the order in which they came; the first one has its turn. -/
  turns : List Nat := []
deriving Repr

namespace Shutdown

/-- How a turn of a call ends. -/
inductive Outcome (κ : Type) where
  | awaitingTurn
  | entered (callback : κ)
  | returned
  | raised (failure : Failure)
deriving Repr

/-- Attaches a callback, unless the handle has run. -/
def attach (h : Shutdown κ) (k : κ) : Shutdown κ :=
  if h.done then h else { h with callback := some k }

/-- The handle without a call among its turns. -/
def passTurn (h : Shutdown κ) (id : Nat) : Shutdown κ :=
  { h with turns := h.turns.filter (· != id) }

/-- Goes on with a call whose turn has come. -/
def takeTurn (h : Shutdown κ) (id : Nat) : Shutdown κ × Outcome κ :=
  if h.done then (h.passTurn id, .returned)
  else
    let h := { h with done := true }
    match h.callback with
    | none => (h.passTurn id, .returned)
    | some k => ({ h with invocations := h.invocations + 1 }, .entered k)

/-- Begins a call. -/
def run (h : Shutdown κ) (id : Nat) : Shutdown κ × Outcome κ :=
  let waiting := h.turns ≠ []
  let h := { h with turns := h.turns ++ [id] }
  if waiting then (h, .awaitingTurn) else h.takeTurn id

/-- Goes on when the callback is done: its failure is noted, a cancellation passes through. -/
def callbackEnded (h : Shutdown κ) (id : Nat) (result : Except Failure Unit) :
    Shutdown κ × List Log.Record × Outcome κ :=
  let h := h.passTurn id
  match result with
  | .ok () => (h, [], .returned)
  | .error .cancelled => (h, [], .raised .cancelled)
  | .error f =>
    (h, [⟨.warning, "Shutdown sequence failed", [("error", .str f.message)]⟩], .returned)

end Shutdown

end ServerRun
