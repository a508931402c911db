import ServerRun.Server.Startup
import ServerRun.Server.Stop
import ServerRun.Server.Work

/-! The turns of a call: the first one, and one after each answer. -/

namespace ServerRun.Server

def firstTurn (s : Server) (w : Surroundings) (id : Nat) : Call → Turn
  | .start => s.start
  | .stop => s.stop w
  | .deploy file name => s.deploy id file name
  | .execute b => s.execute id b
  | .waitForExit =>
    if s.child = none then s.finish
    else
      match s.exitCode? with
      | some code => ⟨s, [], .returned (some code)⟩
      | none => s.pause .awaitingExit (.exit none)

/-- The next turn of a call that waited at a point; `none` for an answer that does not fit it. -/
def nextTurn? (s : Server) (w : Surroundings) (id : Nat) : Point → Answer → Option Turn
  | .launching, .launched pid client => some (s.launched w pid client)
  | .launching, .failed f => some (s.launchFailed f)
  | .launching, .cancelled => some (s.raise .cancelled)
  | .readingState since, .state value => some (s.stateRead w since value)
  | .readingState since, .elapsed => some (s.stateRead w since none)
  | .readingState since, .failed f => some (s.stateFailed w since f)
  | .readingState _, .cancelled => some (s.raise .cancelled)
  | .sleeping since, .elapsed => some (s.look w since)
  | .sleeping _, .cancelled => some (s.raise .cancelled)
  | .awaitingTurn work, .turn => some (s.beginWork id work)
  | .awaitingTurn _, .cancelled => some (s.endTurn id (.raised .cancelled))
  | .deploying name, .done =>
    some ((s.endTurn id (.returned none)).after
      [logged .success "Application deployed" [("name", .str name)]])
  | .deploying name, .failed f => some (s.endTurn id (.raised (deploymentFailure name f)))
  | .deploying _, .cancelled => some (s.endTurn id (.raised .cancelled))
  | .executing b p _, .done => some (s.continueBatch id b (b.resume p (.ok ())))
  | .executing b p _, .failed f => some (s.continueBatch id b (b.resume p (.error f)))
  | .executing _ _ _, .cancelled => some (s.endTurn id (.raised .cancelled))
  | .awaitingExit, .exited code => some ⟨s, [], .returned (some code)⟩
  | .awaitingExit, .cancelled => some (s.raise .cancelled)
  | .askingShutdown previous, .done
  | .askingShutdown previous, .failed _
  | .askingShutdown previous, .elapsed => some (s.awaitDeath previous [.terminate, .kill])
  | .askingShutdown previous, .cancelled => some (s.release previous true)
  | .awaitingDeath previous _, .exited _ => some (s.release previous false)
  | .awaitingDeath previous left, .elapsed => some (s.escalate w previous left)
  | .awaitingDeath previous _, .cancelled => some (s.release previous true)
  | .closing previous interrupted, .done
  | .closing previous interrupted, .failed _ => some (s.drain previous interrupted)
  | .closing _ _, .cancelled => some (s.raise .cancelled)
  | .draining previous interrupted, .done
  | .draining previous interrupted, .failed _
  | .draining previous interrupted, .elapsed => some (s.stopDone previous interrupted)
  | .draining _ _, .cancelled => some (s.raise .cancelled)
  | _, _ => none

end ServerRun.Server
