import ServerRun.Run.Supervisor
import ServerRun.Server.System

/-! A run among its surroundings: its sequence, its supervisor, the child, the clock and whoever
requests its termination. Moves come one at a time and in any order that the surroundings admit. The
supervisor takes notice of the end of the sequence or of a request some moves later. A sequence that
it cancels hears of it once, where it waits at the time; whom it waits for there may keep the
cancellation to itself and answer as before, and the sequence never hears of it then. -/

namespace ServerRun.Run

/-- Where the sequence of a run is. -/
inductive SequenceState where
  | waiting (point : Point) (wait : Wait) (since : Seconds)
  | ended (result : Except Failure (Option Int))

/-- Where the supervisor of a run is. -/
inductive SupervisorState where
  | watching (point : SupervisorPoint)
  | stopping (point : SupervisorPoint) (wait : Server.Wait) (since : Seconds)
  | ended (ending : Ending)

/-- What has happened. -/
inductive Event where
  | effect (effect : Effect)
  | waits (wait : Wait)
  | answered (answer : Answer)
  | sequenceEnded (result : Except Failure (Option Int))
  | requested
  | noticed
  | stopWaits (wait : Server.Wait)
  | stopAnswered (answer : Server.Answer)
  | exited (code : Int)
  | ended (ending : Ending)

/-- A run with its two activities and its history. -/
structure System where
  run : Run
  /-- What stands as a directory. -/
  isDirectory : Path → Bool
  now : Seconds := 0
  refusal : Server.Signal → Option Server.Refusal := fun _ => none
  sequence : SequenceState
  supervisor : SupervisorState := .watching .watching
  /-- Whether the sequence was cancelled and its wait has not ended since. -/
  cancelPending : Bool := false
  history : List (Seconds × Event) := []

/-- What happens next. -/
inductive Move where
  /-- The sequence is answered. -/
  | answer (answer : Answer)
  /-- The supervisor takes notice of what has come up. -/
  | notice
  | stopAnswer (answer : Server.Answer)
  | request
  | exit (code : Int)
  | pass (length : Seconds)
  /-- Time passes while the clock's alarms are late, or while a question is being answered. -/
  | lag (length : Seconds)
  | refuse (refusal : Server.Signal → Option Server.Refusal)

namespace System

/-- What a turn may ask. -/
def surroundings (s : System) : Surroundings :=
  { now := s.now, refusal := s.refusal, isDirectory := s.isDirectory }

/-- A system in which something has happened. -/
def record (s : System) (e : Event) : System := { s with history := s.history ++ [(s.now, e)] }

def recordEffects (s : System) (effects : List Effect) : System :=
  effects.foldl (fun s e => s.record (.effect e)) s

/-- A system after a turn of the sequence. -/
def take (s : System) (t : Turn) : System :=
  let s := { s with run := t.run, cancelPending := false }.recordEffects t.effects
  match t.outcome with
  | .paused p wait => { s with sequence := .waiting p wait s.now }.record (.waits wait)
  | .returned code => { s with sequence := .ended (.ok code) }.record (.sequenceEnded (.ok code))
  | .raised f => { s with sequence := .ended (.error f) }.record (.sequenceEnded (.error f))

/-- A system after a turn of the supervisor. -/
def takeSupervisor (s : System) (t : SupervisorTurn) : System :=
  let s := { s with run := t.run }.recordEffects t.effects
  match t.outcome with
  | .watching p => { s with supervisor := .watching p }
  | .cancelSequence p => { s with supervisor := .watching p, cancelPending := true }
  | .shuttingDown p wait => { s with supervisor := .stopping p wait s.now }.record (.stopWaits wait)
  | .ended e => { s with supervisor := .ended e }.record (.ended e)

/-- A run that has begun, up to its first wait. -/
def ofRun (r : Run) (isDirectory : Path → Bool) : System :=
  let idle : System := { run := r, isDirectory, sequence := .ended (.ok none) }
  let s := idle.takeSupervisor r.start
  s.take s.run.firstTurn

/-- Whether the surroundings may give a wait on the server an answer. A failure is any but a
cancellation. -/
def admitsServer (s : System) (wait : Server.Wait) (since : Seconds) : Server.Answer → Bool
  | .elapsed => wait.limit?.any fun l => l.reachedBy (s.now - since)
  | .exited code => (s.run.server.bind (·.exitCode?)) == some code
  | .turn | .cancelled | .failed .cancelled => false
  | _ => true

/-- Whether the supervisor has cancelled the sequence. -/
def isCancelling (s : System) : Bool :=
  match s.supervisor with
  | .watching (.cancelling _) => true
  | _ => false

/-- Whether the surroundings may give the sequence an answer. -/
def admits (s : System) (since : Seconds) : Wait → Answer → Bool
  | _, .cancelled => s.cancelPending
  | .server wait, .server a => s.admitsServer wait since a
  | .server _, _ | _, .server _ => false
  | _, _ => true

/-- The end of a wait that began at a moment, if it has one. -/
def limitOf (wait : Server.Wait) (since : Seconds) : Option (Span × Seconds) :=
  wait.limit?.map (·, since)

/-- The ends of the waits of both activities. -/
def limits (s : System) : List (Span × Seconds) :=
  (match s.sequence with
    | .waiting _ (.server wait) since => (limitOf wait since).toList
    | _ => []) ++
  (match s.supervisor with
    | .stopping _ wait since => (limitOf wait since).toList
    | _ => [])

/-- Whether time may pass without going beyond the end of a wait. -/
def mayPass (s : System) (length : Seconds) : Bool :=
  decide (0 ≤ length) && s.limits.all fun l =>
    match l.1 with
    | .finite d => decide (s.now + length - l.2 ≤ d)
    | .endless => true

/-- Whether a wait is a question that is answered before anything else happens, a request to
terminate apart. -/
def isImmediate : Wait → Bool
  | .metadata | .environment _ | .createServer .. => true
  | _ => false

/-- Whether the sequence is in the middle of such a question. -/
def isBusy (s : System) : Bool :=
  match s.sequence with
  | .waiting _ wait _ => isImmediate wait
  | .ended _ => false

/-- What the supervisor takes notice of at present. -/
def news? (s : System) (p : SupervisorPoint) : Option News :=
  match p, s.sequence with
  | .settling _, _ => some .settled
  | _, .ended r => some (.sequenceEnded r)
  | .watching, .waiting _ _ _ => if s.run.terminated then some .terminationRequested else none
  | _, _ => none

/-- The system after a move, if the surroundings admit it. -/
def step? (s : System) : Move → Option System
  | .answer a =>
    match s.sequence with
    | .waiting p wait since =>
      if s.admits since wait a then
        (s.run.nextTurn? s.surroundings p a).map fun t => (s.record (.answered a)).take t
      else none
    | .ended _ => none
  | .notice =>
    match s.supervisor with
    | .watching p =>
      if s.isBusy then none
      else
        (s.news? p).bind fun n =>
          (s.run.supervise? s.surroundings p n).map fun t => (s.record .noticed).takeSupervisor t
    | _ => none
  | .stopAnswer a =>
    match s.supervisor with
    | .stopping p wait since =>
      if s.admitsServer wait since a then
        (s.run.supervise? s.surroundings p (.server a)).map fun t =>
          (s.record (.stopAnswered a)).takeSupervisor t
      else none
    | _ => none
  | .request =>
    let (run, effects) := s.run.requestTermination
    some (({ s with run }.record .requested).recordEffects effects)
  | .exit code =>
    match s.run.server with
    | some v =>
      if v.child.isSome && v.exitCode?.isNone then
        let s := { s with run := { s.run with server := some (v.withExit code) } }
        some (s.record (.exited code))
      else none
    | none => none
  | .pass length =>
    if !s.isBusy && s.mayPass length then some { s with now := s.now + length } else none
  | .lag length => if 0 ≤ length then some { s with now := s.now + length } else none
  | .refuse refusal => some { s with refusal }

/-- The systems that moves lead to from a system. -/
abbrev Reaches : System → List Move → System → Prop := Leads step?

end System

end ServerRun.Run
