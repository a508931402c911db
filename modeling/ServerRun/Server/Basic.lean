import ServerRun.Span
import ServerRun.Command.Batch
import ServerRun.Server.Launch

/-! A server and the calls on it. A server owns at most one child process. Calls run side by side:
each goes on until it has to wait for the child, the management client, the clock or its turn, and
then pauses at a point; a turn of a call is one stretch between two pauses, and nothing else happens
during it. -/

namespace ServerRun

namespace Server

/-- The life of a server. -/
inductive State where
  | notStarted
  | starting
  | started
  | stopping
  | stopped
  | failed
deriving DecidableEq, Repr, Inhabited

/-- The words for a state. -/
def State.text : State → String
  | .notStarted => "not started"
  | .starting => "starting"
  | .started => "started"
  | .stopping => "stopping"
  | .stopped => "stopped"
  | .failed => "failed"

def State.name : State → String
  | .notStarted => "not_started"
  | s => s.text

/-- A child process: its number and, once it is known, its exit code. -/
structure Child where
  pid : Int
  exitCode : Option Int := none
deriving DecidableEq, Repr

/-- The signals that a child may be sent, in the order of escalation. -/
inductive Signal where
  | terminate
  | kill
deriving DecidableEq, Repr

/-- Why a signal cannot be sent. -/
inductive Refusal where
  /-- There is no such process any more. -/
  | gone
  | denied (message : String)
deriving DecidableEq, Repr

end Server

open Server in
/-- A server, shared by the calls on it. -/
structure Server where
  info : Installation
  /-- Seconds between two looks at the state while the server starts. -/
  poll : Seconds
  /-- How long each step of a stop waits. -/
  grace : Span
  /-- How the clock rounds sums and differences. -/
  rounding : Seconds → Seconds := id
  state : State := .notStarted
  child : Option Child := none
  /-- Whether a management client was made. -/
  connected : Bool := false
  /-- Whether the child's output is being read. -/
  listening : Bool := false
  /-- Whether a stop has begun to act. -/
  stopping : Bool := false
  /-- Whether a stop has begun to release what the server holds. -/
  released : Bool := false
  /-- The calls that deploy or run commands, in the order in which they came; the first one has its
  turn and the others wait. -/
  turns : List Nat := []

namespace Server

/-- A call on a server. -/
inductive Call where
  | start
  | stop
  | deploy (file : Path) (name : String)
  | execute (batch : Batch)
  | waitForExit
deriving Repr

/-- What a call does when its turn has come. -/
inductive Work where
  | deploy (file : Path) (name : String)
  | execute (batch : Batch)
deriving Repr

/-- Where a call waits. -/
inductive Point where
  | launching
  | readingState (since : Seconds)
  | sleeping (since : Seconds)
  | awaitingTurn (work : Work)
  | deploying (name : String)
  | executing (batch : Batch) (point : Batch.Point) (request : Fields)
  | awaitingExit
  | askingShutdown (previous : State)
  /-- The child may yet die, and the given signals are left. -/
  | awaitingDeath (previous : State) (left : List Signal)
  | closing (previous : State) (interrupted : Bool)
  | draining (previous : State) (interrupted : Bool)
deriving Repr

/-- What happens at a point, seen from outside: what is asked, and how long the call waits. -/
inductive Wait where
  | launch (command : List String) (directory : Path)
  | readState (limit : Span)
  | sleep (length : Seconds)
  | turn
  | deploy (file : Path) (name : String)
  | execute (request : Fields)
  | exit (limit : Option Span)
  | shutdown (limit : Span)
  | close
  | drain (limit : Span)
deriving Repr

/-- How a wait ends. -/
inductive Answer where
  /-- The child was launched; making the management client may have failed. -/
  | launched (pid : Int) (client : Option Failure)
  | state (value : Option String)
  /-- The time of the wait is over. -/
  | elapsed
  | exited (code : Int)
  | turn
  | done
  | failed (failure : Failure)
  | cancelled
deriving Repr

/-- What a turn does besides changing the server. -/
inductive Effect where
  | log (record : Log.Record)
  | signal (signal : Signal)
deriving Repr

/-- How a turn ends: at a point where the call waits, or with the end of the call. -/
inductive Outcome where
  | paused (point : Point) (wait : Wait)
  | returned (code : Option Int)
  | raised (failure : Failure)
deriving Repr

/-- One turn of a call: the server after it, what it did, and how it ends. -/
structure Turn where
  server : Server
  effects : List Effect := []
  outcome : Outcome

/-- A turn with something done before it. -/
def Turn.after (effects : List Effect) (t : Turn) : Turn :=
  { t with effects := effects ++ t.effects }

/-- What a turn may ask and be told at once: the time, and whether a signal can be sent. -/
structure Surroundings where
  now : Seconds
  refusal : Signal → Option Refusal := fun _ => none

/-! ### what calls share -/

def isStarted (s : Server) : Bool := s.state == .started

def pid? (s : Server) : Option Int := s.child.map (·.pid)

def exitCode? (s : Server) : Option Int := s.child.bind (·.exitCode)

/-- A number or null. -/
def jsonOfInt? : Option Int → Json
  | some i => .int i
  | none => .null

def logged (level : Log.Level) (message : String) (extra : Fields) : Effect :=
  .log ⟨level, message, extra⟩

/-- The failure of an operation that the server's state does not allow. -/
def notReady (s : Server) (operation : String) : Failure :=
  .run (.notReady operation s.state.text)

def raise (s : Server) (f : Failure) : Turn := ⟨s, [], .raised f⟩

def finish (s : Server) : Turn := ⟨s, [], .returned none⟩

def pause (s : Server) (p : Point) (w : Wait) : Turn := ⟨s, [], .paused p w⟩

/-- Whether the management client may be used, and the failure otherwise. -/
def clientFailure? (s : Server) : Option Failure :=
  if s.isStarted && s.connected then none else some (s.notReady "use the management client")

/-- A server whose child has died. -/
def withExit (s : Server) (code : Int) : Server :=
  { s with child := s.child.map fun c => { c with exitCode := some code } }

end Server

end ServerRun
