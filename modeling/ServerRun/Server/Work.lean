import ServerRun.Server.Basic

/-! Deploying and running commands on a started server. Such calls take turns in the order in which
they came: a call that is done, failed or cancelled passes its turn on. -/

namespace ServerRun.Server

/-- The server without a call among its turns. -/
def passTurn (s : Server) (id : Nat) : Server := { s with turns := s.turns.filter (· != id) }

/-- Ends a call that had its turn. -/
def endTurn (s : Server) (id : Nat) (outcome : Outcome) : Turn := ⟨s.passTurn id, [], outcome⟩

/-- Goes on with a batch of commands. -/
def continueBatch (s : Server) (id : Nat) (b : Batch) :
    List Log.Record × Batch.Progress → Turn
  | (logs, progress) =>
    Turn.after (logs.map .log) <|
      match progress with
      | .send request p => s.pause (.executing b p request) (.execute request)
      | .finished => s.endTurn id (.returned none)
      | .raised f => s.endTurn id (.raised f)

/-- Begins the work of a call whose turn has come. -/
def beginWork (s : Server) (id : Nat) : Work → Turn
  | .deploy file name =>
    (s.pause (.deploying name) (.deploy file name)).after
      [logged .info "Deploying application" [("name", .str name), ("file", .str file.toString)]]
  | .execute b => s.continueBatch id b (b.start Command.Limits.standard.excess?)

/-- Takes a turn at once, or waits for the calls before. -/
def takeTurn (s : Server) (id : Nat) (work : Work) : Turn :=
  if s.turns = [] then { s with turns := [id] }.beginWork id work
  else { s with turns := s.turns ++ [id] }.pause (.awaitingTurn work) .turn

/-- Begins to deploy an application on a started server. -/
def deploy (s : Server) (id : Nat) (file : Path) (name : String) : Turn :=
  if !s.isStarted then s.raise (s.notReady ("deploy '" ++ name ++ "'"))
  else
    match s.clientFailure? with
    | some f => s.raise f
    | none => s.takeTurn id (.deploy file name)

/-- Begins to run commands on a started server; an empty batch needs no server. -/
def execute (s : Server) (id : Nat) (b : Batch) : Turn :=
  if b.isEmpty then s.finish
  else
    match s.clientFailure? with
    | some f => s.raise f
    | none => s.takeTurn id (.execute b)

/-- The failure of a deployment that the client could not carry out. -/
def deploymentFailure (name : String) : Failure → Failure
  | .run (.management description _) => .run (.deployment name description)
  | f =>
    match f.systemText? with
    | some message => .run (.deployment name message)
    | none => f

end ServerRun.Server
