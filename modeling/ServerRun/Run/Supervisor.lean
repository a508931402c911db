import ServerRun.Run.Sequence

/-! The supervisor of a run: it waits for the end of the sequence or a termination request, lets a
cancelled sequence come to its end, and shuts the server down before the run ends. -/

namespace ServerRun.Run

/-- How a run ends: stopped after a termination request, or by a failure. -/
inductive Ending where
  | stopped (exitCode : Int) (interrupted : Phase)
  | raised (failure : Failure)
deriving Repr

/-- Where the supervisor waits. -/
inductive SupervisorPoint where
  /-- For the end of the sequence or a termination request. -/
  | watching
  /-- For the end of the sequence, which was cancelled; the run ends so. -/
  | cancelling (interrupted : Option Phase)
  /-- For the end of its own watch over termination requests. -/
  | settling (ending : Ending)
  /-- For the server to stop. -/
  | shuttingDown (ending : Ending) (point : Server.Point)
deriving Repr

/-- What wakes the supervisor. -/
inductive News where
  | sequenceEnded (result : Except Failure (Option Int))
  /-- A termination was requested, and the sequence is not done. -/
  | terminationRequested
  /-- The watch over termination requests has ended. -/
  | settled
  | cancelled
  | server (answer : Server.Answer)

/-- How a turn of the supervisor ends. -/
inductive SupervisorOutcome where
  | watching (point : SupervisorPoint)
  /-- The sequence is to be cancelled, and its end is waited for. -/
  | cancelSequence (point : SupervisorPoint)
  | shuttingDown (point : SupervisorPoint) (wait : Server.Wait)
  | ended (ending : Ending)
deriving Repr

structure SupervisorTurn where
  run : Run
  effects : List Effect := []
  outcome : SupervisorOutcome

def SupervisorTurn.after (effects : List Effect) (t : SupervisorTurn) : SupervisorTurn :=
  { t with effects := effects ++ t.effects }

/-- The number of the supervisor among the calls on its server and its shutdown. -/
def supervisorId : Nat := 1

/-- The exit code of a run that was stopped while everything was up. -/
def exitOk : Int := 0

/-- The exit code of a run that was interrupted before. -/
def exitInterrupted : Int := 130

/-- Begins a run. -/
def start (r : Run) : SupervisorTurn :=
  ⟨{ r with begun := true, terminated := false, interrupted := none }, [.registered],
    .watching .watching⟩

/-- The end of a run whose shutdown is done. -/
def finish (r : Run) (ending : Ending) : SupervisorTurn :=
  ⟨r.enter .shutDown, [.unregistered, .entered .shutDown], .ended ending⟩

/-- Goes on after a turn of the server's stop. -/
def afterStopTurn (r : Run) (ending : Ending) (t : Server.Turn) : SupervisorTurn :=
  SupervisorTurn.after (t.effects.map serverEffect) <|
    let r := { r with server := some t.server }
    match t.outcome with
    | .paused p wait => ⟨r, [], .shuttingDown (.shuttingDown ending p) wait⟩
    | .returned _ | .raised _ =>
      let result : Except Failure Unit :=
        match t.outcome with
        | .raised f => .error f
        | _ => .ok ()
      let (h, logs, outcome) := r.shutdown.callbackEnded supervisorId result
      let r := { r with shutdown := h }
      SupervisorTurn.after (.callbackLeft :: logs.map .log) <|
        match outcome with
        | .raised f => ⟨r, [], .ended (.raised f)⟩
        | _ => r.finish ending

/-- Shuts the run down: its shutdown stops the server, if one was made. -/
def shutDown (r : Run) (w : Surroundings) (ending : Ending) : SupervisorTurn :=
  let (h, outcome) := r.shutdown.run supervisorId
  let r := { r with shutdown := h }
  match outcome, r.server with
  | .entered (), some s =>
    (r.afterStopTurn ending (s.firstTurn w.toSurroundings supervisorId .stop)).after
      [.callbackEntered]
  | .entered (), none =>
    let (h, _, _) := r.shutdown.callbackEnded supervisorId (.ok ())
    ({ r with shutdown := h }.finish ending).after [.callbackEntered, .callbackLeft]
  | _, _ => r.finish ending

/-- The phase before the last one. -/
def previousPhase (r : Run) : Phase := (r.phases.dropLast.getLast?).getD .idle

/-- Ends its watch over termination requests after a failure. A condition that ends a run is a phase
of its own. -/
def fail (r : Run) (f : Failure) : SupervisorTurn :=
  match f with
  | .run e =>
    let r := r.enter .failed
    ⟨r,
      [.entered .failed,
        .log ⟨.error, "Run failed",
          [("phase", .str r.previousPhase.name), ("error", .str e.message)]⟩],
      .watching (.settling (.raised f))⟩
  | _ => ⟨r, [], .watching (.settling (.raised f))⟩

/-- Shuts the run down after a termination request. -/
def interrupt (r : Run) (w : Surroundings) (p : Phase) : SupervisorTurn :=
  if p = .running then r.shutDown w (.stopped exitOk p)
  else
    (r.shutDown w (.stopped exitInterrupted p)).after
      [.log ⟨.warning, "Run interrupted before the server was running",
        [("phase", .str p.name)]⟩]

/-- The next turn of the supervisor; `none` for news that do not fit the point. -/
def supervise? (r : Run) (w : Surroundings) : SupervisorPoint → News → Option SupervisorTurn
  | .watching, .sequenceEnded (.ok code) => some (r.fail (.run (.exited code)))
  | .watching, .sequenceEnded (.error f) => some (r.fail f)
  | .watching, .terminationRequested =>
    some ⟨r, [], .cancelSequence (.cancelling (some (r.interrupted.getD r.phase)))⟩
  | .watching, .cancelled => some ⟨r, [], .cancelSequence (.cancelling none)⟩
  | .cancelling (some p), .sequenceEnded (.ok _) => some (r.interrupt w p)
  | .cancelling (some p), .sequenceEnded (.error .cancelled) => some (r.interrupt w p)
  | .cancelling (some _), .sequenceEnded (.error f) => some (r.fail f)
  | .cancelling none, .sequenceEnded _ => some (r.shutDown w (.raised .cancelled))
  | .settling ending, .settled
  | .settling ending, .cancelled => some (r.shutDown w ending)
  | .shuttingDown ending p, .server a =>
    r.server.bind fun s =>
      (s.nextTurn? w.toSurroundings supervisorId p a).map fun t => r.afterStopTurn ending t
  | .shuttingDown ending p, .cancelled =>
    r.server.bind fun s =>
      (s.nextTurn? w.toSurroundings supervisorId p .cancelled).map fun t =>
        r.afterStopTurn ending t
  | _, _ => none

end ServerRun.Run
