import ServerRun.Server.Basic

/-! Stopping a server: a started server is asked to shut down, then the child is sent one signal
after the other until it dies, and at last the client is closed and the output read to its end. Each
step waits for the grace period. A failed server stays failed. -/

namespace ServerRun.Server

/-- The end of a stop. -/
def stopDone (s : Server) (previous : State) (interrupted : Bool) : Turn :=
  let s := if previous = .failed then s else { s with state := .stopped }
  if interrupted then s.raise .cancelled
  else
    s.finish.after [logged .info "Server stopped" [("returncode", jsonOfInt? s.exitCode?)]]

/-- Reads the rest of the output for at most a second. -/
def drain (s : Server) (previous : State) (interrupted : Bool) : Turn :=
  if s.listening then s.pause (.draining previous interrupted) (.drain (.finite 1))
  else s.stopDone previous interrupted

/-- Releases what the server holds: the client first, then the output. -/
def release (s : Server) (previous : State) (interrupted : Bool) : Turn :=
  let s := { s with released := true }
  if s.connected then s.pause (.closing previous interrupted) .close
  else s.drain previous interrupted

/-- Notes that the child did not stop cleanly, and releases what the server holds. -/
def giveUp (s : Server) (previous : State) (reason : String) : Turn :=
  (s.release previous false).after
    [logged .warning ("Server did not stop cleanly: " ++ reason) [("pid", jsonOfInt? s.pid?)]]

/-- Waits for the child's death, with signals left to send. -/
def awaitDeath (s : Server) (previous : State) (left : List Signal) : Turn :=
  s.pause (.awaitingDeath previous left) (.exit (some s.grace))

/-- Sends the next signal that is left, unless the child is dead. A child that is gone is waited for
all the same; any other refusal ends the escalation. -/
def escalate (s : Server) (w : Surroundings) (previous : State) : List Signal → Turn
  | [] => s.giveUp previous ("process " ++ optionalIntText s.pid? ++ " did not exit")
  | signal :: left =>
    if s.exitCode?.isSome then s.release previous false
    else
      match w.refusal signal with
      | some (.denied message) => (s.giveUp previous message).after [.signal signal]
      | _ => (s.awaitDeath previous left).after [.signal signal]

/-- Begins to stop a server, unless it is stopping or stopped, was never launched, or is being
stopped by another call. -/
def stop (s : Server) (w : Surroundings) : Turn :=
  if s.state = .stopping ∨ s.state = .stopped then s.finish
  else if s.child = none ∨ s.stopping ∨ s.released then s.finish
  else
    let previous := s.state
    let s := { s with stopping := true }
    let s := if previous = .failed then s else { s with state := .stopping }
    Turn.after [logged .info "Stopping server" [("pid", jsonOfInt? s.pid?)]] <|
      if previous = .started ∧ s.exitCode? = none ∧ s.connected then
        s.pause (.askingShutdown previous) (.shutdown s.grace)
      else s.escalate w previous [.terminate, .kill]

end ServerRun.Server
