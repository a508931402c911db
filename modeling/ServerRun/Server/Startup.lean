import ServerRun.Server.Basic

/-! Starting a server: the child is launched, and the management client is asked for the server's
state at intervals until the server is running, the child has died or the time is over. -/

namespace ServerRun.Server

/-- What is noted when a server is made for a topology: only standalone servers are made. -/
def topologyNotice : Topology → List Effect
  | .domain =>
    [logged .warning
      "Domain is not supported for the run command, a standalone server will be started" []]
  | .standalone => []

/-- The time to wait until the server is running. -/
def startupLimit (s : Server) : Span := .ofBinary64 s.info.startupTimeout

/-- The seconds since a moment. -/
def elapsedSince (s : Server) (w : Surroundings) (since : Seconds) : Seconds :=
  s.rounding (w.now - since)

/-- Asks for the state, unless the server is no longer starting or the child has died. An answer may
take what is left of the time, and at least one interval. -/
def look (s : Server) (w : Surroundings) (since : Seconds) : Turn :=
  if s.state ≠ .starting then s.raise (s.notReady "finish startup")
  else
    match s.exitCode? with
    | some code => { s with state := .failed }.raise (.run (.exited (some code)))
    | none =>
      let left := (s.startupLimit.minus (s.elapsedSince w since)).map s.rounding
      s.pause (.readingState since) (.readState (left.atLeast s.poll))

/-- Goes on after a look that did not find the server running: sleeps for an interval or what is
left of the time, or gives up when nothing is left. -/
def sleepOrGiveUp (s : Server) (w : Surroundings) (since : Seconds) : Turn :=
  let elapsed := s.elapsedSince w since
  if s.startupLimit.reachedBy elapsed then
    { s with state := .failed }.raise
      (.run (.startupTimeout (.real (.ofRat elapsed)) (.real s.info.startupTimeout)))
  else
    s.pause (.sleeping since)
      (.sleep (((s.startupLimit.minus elapsed).map s.rounding).atMost s.poll))

/-- Goes on after an answer about the state. -/
def stateRead (s : Server) (w : Surroundings) (since : Seconds) (value : Option String) : Turn :=
  if value = some "running" then
    { server := { s with state := .started }
      effects :=
        [logged .success "Server started"
          [("pid", jsonOfInt? s.pid?),
            ("seconds", .float (Binary64.ofRat (s.elapsedSince w since)).roundTenth)]]
      outcome := .returned none }
  else s.sleepOrGiveUp w since

/-- Goes on when the state could not be asked for: a time limit of the client tells as little as one
of the start itself, and anything else ends the start. -/
def stateFailed (s : Server) (w : Surroundings) (since : Seconds) : Failure → Turn
  | .timedOut _ => s.stateRead w since none
  | f => s.raise f

/-- Begins to start a server that was not started before. -/
def start (s : Server) : Turn :=
  if s.state ≠ .notStarted then s.raise (s.notReady "start")
  else
    { server := { s with state := .starting }
      effects :=
        [logged .info "Starting server"
          [("home", .str s.info.home.toString), ("timeout", .float s.info.startupTimeout)]]
      outcome := .paused .launching (.launch s.info.commandLine s.info.home) }

/-- Goes on when the child was launched: its output is read, a management client is made, and the
first look follows. -/
def launched (s : Server) (w : Surroundings) (pid : Int) (client : Option Failure) : Turn :=
  let s := { s with child := some { pid }, listening := true }
  match client with
  | some f => s.raise f
  | none => { s with connected := true }.look w w.now

/-- Goes on when the child could not be launched. -/
def launchFailed (s : Server) (f : Failure) : Turn :=
  match f.systemText? with
  | some message =>
    { s with state := .failed }.raise
      (.run (.precondition ("Could not launch server with '" ++ s.info.java ++ "': " ++ message)
        (.ofString s.info.java)))
  | none => s.raise f

end ServerRun.Server
