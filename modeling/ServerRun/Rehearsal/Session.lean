import ServerRun.Rehearsal.Stage
import ServerRun.Server.Calls
import ServerRun.Run.Shutdown

/-! Rehearsals of calls on one server, of a batch of commands, and of a shutdown, on a stage. -/

namespace ServerRun.Rehearsal

/-- How many turns a rehearsal may take before it counts as one that never ends. -/
def patience : Nat := 200000

/-! ### calls on a server -/

/-- A server on a stage, and the calls on it: those that wait, with their tickets, and those that
have ended. -/
structure Session where
  stage : Stage
  server : Server
  waiting : List (Nat × Nat × Server.Point) := []
  ended : List (Nat × Except Failure (Option Int)) := []

namespace Session

/-- The server learns of the death of its child. -/
def learn (s : Session) : Session :=
  match s.stage.exitCode with
  | some code => { s with server := s.server.withExit code }
  | none => s

/-- The call whose turn has come is told so. -/
def passTurns (s : Session) : Session :=
  match s.server.turns with
  | [] => s
  | id :: _ =>
    match s.waiting.find? fun w => w.2.1 == id with
    | some (ticket, _, .awaitingTurn _) =>
      if s.stage.ready.any (·.1 == ticket) then s
      else { s with stage := s.stage.give ticket .turn }
    | _ => s

/-- Carries out turns of a call until it waits or ends. -/
def carryOut : Nat → Session → Nat → Server.Turn → Session
  | 0, s, _, _ => s
  | fuel + 1, s, id, t =>
    let s := { s with server := t.server, stage := s.stage.perform t.effects }.passTurns
    match t.outcome with
    | .returned code => { s with ended := (id, .ok code) :: s.ended }
    | .raised f => { s with ended := (id, .error f) :: s.ended }
    | .paused p wait =>
      let (begun, stage) := (s.stage.announce wait).startWait 0 wait
      let s := { s with stage }.learn
      match begun with
      | .ticket ticket => { s with waiting := (ticket, id, p) :: s.waiting }
      | .answered a =>
        match s.server.nextTurn? stage.surroundings id p a with
        | some t => carryOut fuel s id t
        | none => s

/-- Begins a call. -/
def call (s : Session) (id : Nat) (c : Server.Call) : Session :=
  let s := s.learn
  carryOut patience s id (s.server.firstTurn s.stage.surroundings id c)

/-- Gives an answer to the call that holds its ticket. -/
def deliver (s : Session) (ticket : Nat) (a : Server.Answer) : Session :=
  match s.waiting.find? fun w => w.1 == ticket with
  | none => s
  | some (_, id, p) =>
    let s := { s with
      waiting := s.waiting.filter fun w => w.1 != ticket
      stage := s.stage.abandon ticket }.learn
    match s.server.nextTurn? s.stage.surroundings id p a with
    | some t => carryOut patience s id t
    | none => s

/-- Gives out one ready answer, or lets the clock jump when there is none; the planned alarm that
went off, if it was one, or `none` when nothing can happen any more. -/
def advance (s : Session) : Option (Session × Option Nat) :=
  match s.stage.nextReady? with
  | some ((ticket, a), stage) => some ({ s with stage }.deliver ticket a, none)
  | none => s.stage.tick.map fun (stage, planned) => ({ s with stage }.learn, planned)

/-- Goes on as long as the clock need not move. -/
def settle : Nat → Session → Session
  | 0, s => s
  | fuel + 1, s =>
    if s.stage.isBusy then
      match s.advance with
      | none => s
      | some (s, _) => settle fuel s
    else s

/-- How a call has ended. -/
def outcome? (s : Session) (id : Nat) : Option (Except Failure (Option Int)) :=
  (s.ended.find? fun e => e.1 == id).map (·.2)

/-- Goes on until a call has ended, and whether it ever does. -/
def awaitCall (id : Nat) : Nat → Session → Bool × Session
  | 0, s => (false, s)
  | fuel + 1, s =>
    if (s.outcome? id).isSome then (true, s)
    else
      match s.advance with
      | none => (false, s)
      | some (s, _) => awaitCall id fuel s

/-- Goes on until a planned alarm goes off. -/
def awaitPlanned : Nat → Session → Session
  | 0, s => s
  | fuel + 1, s =>
    match s.advance with
    | none => s
    | some (s, some _) => s
    | some (s, none) => awaitPlanned fuel s

/-- Lets the clock run for some time. -/
def sleep (s : Session) (d : Seconds) : Session :=
  awaitPlanned patience { s with stage := s.stage.plan d 0 }

/-- The child dies now. -/
def killChild (s : Session) (code : Int) : Session :=
  { s with stage := s.stage.childDies code }.learn

/-- What has happened since the last time, in order. -/
def takeEvents (s : Session) : List (Seconds × Event) × Session :=
  (s.stage.events.reverse, { s with stage := { s.stage with events := [] } })

end Session

/-! ### a batch of commands -/

/-- Runs a batch on the client of a stage to its end: its failure, if any, or `none` when it never
ends. -/
def playBatch (b : Batch) : Nat → Stage → List Log.Record × Batch.Progress →
    Option (Except Failure Unit) × Stage
  | 0, s, _ => (none, s)
  | fuel + 1, s, (logs, progress) =>
    let s := logs.foldl (fun s r => s.record (.log r)) s
    match progress with
    | .finished => (some (.ok ()), s)
    | .raised f => (some (.error f), s)
    | .send request p =>
      let (begun, s) := (s.announce (.execute request)).startWait 0 (.execute request)
      let goOn (a : Server.Answer) (s : Stage) :=
        match a with
        | .failed f => playBatch b fuel s (b.resume p (.error f))
        | _ => playBatch b fuel s (b.resume p (.ok ()))
      match begun with
      | .answered a => goOn a s
      | .ticket _ =>
        match s.tick with
        | none => (none, s)
        | some (s, _) =>
          match s.nextReady? with
          | some ((_, a), s) => goOn a s
          | none => (none, s)

/-! ### a shutdown -/

/-- A callback that takes some time and may fail. -/
structure Callback where
  name : String
  delay : Seconds := 0
  failure : Option String := none
deriving Repr

/-- A shutdown on a stage, and the calls of it. -/
structure ShutdownSession where
  stage : Stage
  shutdown : Shutdown Callback
  /-- The calls in their callback, with their tickets. -/
  inCallback : List (Nat × Nat × Callback) := []
  /-- The calls that wait for their turn. -/
  waiting : List Nat := []
  /-- The calls whose turn has come. -/
  granted : List Nat := []
  ended : List (Nat × Except Failure Unit) := []

namespace ShutdownSession

/-- Notes how a turn of a call ended; a turn that was passed on wakes the next call. -/
def note (s : ShutdownSession) (id : Nat) : Shutdown.Outcome Callback → ShutdownSession
  | .awaitingTurn => { s with waiting := s.waiting ++ [id] }
  | .returned => { s with ended := (id, .ok ()) :: s.ended }
  | .raised f => { s with ended := (id, .error f) :: s.ended }
  | .entered k =>
    let (ticket, stage) := (s.stage.record (.callback k.name)).newTicket
    let stage :=
      if k.delay = 0 then stage.give ticket .done
      else stage.setAlarm k.delay (.answer ticket .done)
    { s with stage, inCallback := (ticket, id, k) :: s.inCallback }

/-- The call whose turn has come becomes ready. -/
def passTurns (s : ShutdownSession) : ShutdownSession :=
  match s.shutdown.turns with
  | id :: _ =>
    if s.waiting.contains id then
      { s with waiting := s.waiting.filter (· != id), granted := s.granted ++ [id] }
    else s
  | [] => s

/-- Begins a call. -/
def run (s : ShutdownSession) (id : Nat) : ShutdownSession :=
  let (h, o) := s.shutdown.run id
  ({ s with shutdown := h }.note id o).passTurns

/-- The callback that holds a ticket is done. -/
def callbackDone (s : ShutdownSession) (ticket : Nat) : ShutdownSession :=
  match s.inCallback.find? fun c => c.1 == ticket with
  | none => s
  | some (_, id, k) =>
    let stage := match k.failure with
      | some _ => s.stage
      | none => s.stage.record (.callbackDone k.name)
    let (h, logs, o) := s.shutdown.callbackEnded id
      (match k.failure with
        | some m => .error (.crash m)
        | none => .ok ())
    let stage := logs.foldl (fun s r => s.record (.log r)) stage
    ({ s with
      stage
      shutdown := h
      inCallback := s.inCallback.filter fun c => c.1 != ticket }.note id o).passTurns

/-- Goes on with what is ready, or lets the clock jump. -/
def advance (s : ShutdownSession) : Option (ShutdownSession × Option Nat) :=
  match s.granted with
  | id :: rest =>
    let (h, o) := s.shutdown.takeTurn id
    some (({ s with granted := rest, shutdown := h }.note id o).passTurns, none)
  | [] =>
    match s.stage.nextReady? with
    | some ((ticket, _), stage) => some ({ s with stage }.callbackDone ticket, none)
    | none => s.stage.tick.map fun (stage, planned) => ({ s with stage }, planned)

/-- Goes on as long as the clock need not move. -/
def settle : Nat → ShutdownSession → ShutdownSession
  | 0, s => s
  | fuel + 1, s =>
    if s.granted ≠ [] ∨ s.stage.isBusy then
      match s.advance with
      | none => s
      | some (s, _) => settle fuel s
    else s

def outcome? (s : ShutdownSession) (id : Nat) : Option (Except Failure Unit) :=
  (s.ended.find? fun e => e.1 == id).map (·.2)

def awaitCall (id : Nat) : Nat → ShutdownSession → Bool × ShutdownSession
  | 0, s => (false, s)
  | fuel + 1, s =>
    if (s.outcome? id).isSome then (true, s)
    else
      match s.advance with
      | none => (false, s)
      | some (s, _) => awaitCall id fuel s

def awaitPlanned : Nat → ShutdownSession → ShutdownSession
  | 0, s => s
  | fuel + 1, s =>
    match s.advance with
    | none => s
    | some (s, some _) => s
    | some (s, none) => awaitPlanned fuel s

def sleep (s : ShutdownSession) (d : Seconds) : ShutdownSession :=
  awaitPlanned patience { s with stage := s.stage.plan d 0 }

def takeEvents (s : ShutdownSession) : List (Seconds × Event) × ShutdownSession :=
  (s.stage.events.reverse, { s with stage := { s.stage with events := [] } })

end ShutdownSession

end ServerRun.Rehearsal
