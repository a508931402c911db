import ServerRun.Run.Phase
import ServerRun.Run.Shutdown
import ServerRun.Server.Calls
import ServerRun.Settings.Layout
import ServerRun.Project.Metadata

/-! A run: the deployment is found, the server is provisioned, checked, launched and made ready,
commands and the deployment follow, and the run lasts until the server exits or a termination is
requested. Two activities make up a run. The sequence goes through the steps; the supervisor waits
for the sequence or a termination request, cancels what is left of the sequence, and shuts the
server down. -/

namespace ServerRun

/-- A run and what it has come to. -/
structure Run where
  settings : Settings
  /-- Where relative paths start. -/
  cwd : Path
  rounding : Seconds → Seconds := id
  begun : Bool := false
  phase : Phase := .idle
  phases : List Phase := [.idle]
  deployment : Option Deployment := none
  server : Option Server := none
  shutdown : Shutdown Unit := {}
  terminated : Bool := false
  /-- The phase of the first termination request. -/
  interrupted : Option Phase := none

namespace Run

/-- What a run does besides changing its state. -/
inductive Effect where
  | log (record : Log.Record)
  | signal (signal : Server.Signal)
  | banner (javaHome : Option String) (home : String)
  | registered
  | unregistered
  | entered (phase : Phase)
  /-- The callback of the shutdown is entered. -/
  | callbackEntered
  | callbackLeft
deriving Repr

/-- What the sequence waits for. -/
inductive Wait where
  | metadata
  | provision (home : Option String) (coordinate : Coordinate) (destination : Path)
  | environment (name : String)
  | createServer (topology : Topology) (installation : Installation)
  | forever
  | server (wait : Server.Wait)
deriving Repr

/-- How a wait of the sequence ends. -/
inductive Answer where
  | metadata (found : Project.Metadata) (isThere : Bool)
  | home (path : Path)
  | environment (value : Option String)
  | created
  | failed (failure : Failure)
  | cancelled
  | server (answer : Server.Answer)
deriving Repr

/-- The steps that are calls on the server. -/
inductive Step where
  | start
  | before
  | deploy
  | after
  | exit
deriving DecidableEq, Repr

/-- Where the sequence waits. -/
inductive Point where
  | resolving
  | provisioning
  | readingJavaHome (home : Path)
  | creatingServer (installation : Installation)
  /-- A termination was requested, and no further phase is entered. -/
  | parked
  | onServer (step : Step) (point : Server.Point)
deriving Repr

/-- How a turn of the sequence ends. -/
inductive Outcome where
  | paused (point : Point) (wait : Wait)
  | returned (code : Option Int)
  | raised (failure : Failure)
deriving Repr

/-- One turn of the sequence. -/
structure Turn where
  run : Run
  effects : List Effect := []
  outcome : Outcome

def Turn.after (effects : List Effect) (t : Turn) : Turn :=
  { t with effects := effects ++ t.effects }

/-- What a turn may ask and be told at once. -/
structure Surroundings extends Server.Surroundings where
  isDirectory : Path → Bool

/-! ### phases and termination -/

def enter (r : Run) (p : Phase) : Run := { r with phase := p, phases := r.phases ++ [p] }

/-- Enters the next phase and goes on, unless a termination was requested. -/
def advance (r : Run) (p : Phase) (next : Run → Turn) : Turn :=
  if r.terminated then ⟨r, [], .paused .parked .forever⟩
  else (next (r.enter p)).after [.entered p]

/-- Notes the first termination request of a run that has begun. -/
def requestTermination (r : Run) : Run × List Effect :=
  if r.begun && !r.terminated then
    ({ r with terminated := true, interrupted := some r.phase },
      [.log ⟨.info, "Termination requested", [("phase", .str r.phase.name)]⟩])
  else (r, [])

end Run

end ServerRun
