import ServerRun.Run.Basic

/-! The sequence of a run: its steps in order, each in a phase of its own. Once a termination was
requested no further phase is entered, and the sequence waits to be cancelled. -/

namespace ServerRun.Run

/-- The call on the server that a step makes. -/
def stepCall (r : Run) : Step → Server.Call
  | .start => .start
  | .before => .execute r.settings.before
  | .deploy =>
    match r.deployment with
    | some d => .deploy d.file d.name
    | none => .deploy ⟨.relative, []⟩ ""
  | .after => .execute r.settings.after
  | .exit => .waitForExit

/-- The steps after a step, each with its phase. -/
def Step.following : Step → List (Phase × Step)
  | .start =>
    [(.preCommands, .before), (.deploying, .deploy), (.postCommands, .after), (.running, .exit)]
  | .before => [(.deploying, .deploy), (.postCommands, .after), (.running, .exit)]
  | .deploy => [(.postCommands, .after), (.running, .exit)]
  | .after => [(.running, .exit)]
  | .exit => []

def serverEffect : Server.Effect → Effect
  | .log r => .log r
  | .signal s => .signal s

/-- The number of the sequence among the calls on its server. -/
def sequenceId : Nat := 0

/-- Goes on after a turn on the server: waits where the server waits, or makes the call of the next
step when this one is done. -/
def afterServerTurn (w : Surroundings) :
    List (Phase × Step) → Run → Step → Server.Turn → Turn
  | following, r, step, t =>
    Turn.after (t.effects.map serverEffect) <|
      let r := { r with server := some t.server }
      match t.outcome with
      | .paused p wait => ⟨r, [], .paused (.onServer step p) (.server wait)⟩
      | .raised f => ⟨r, [], .raised f⟩
      | .returned code =>
        match following with
        | [] => ⟨r, [], .returned code⟩
        | (phase, next) :: rest =>
          r.advance phase fun r =>
            afterServerTurn w rest r next
              (t.server.firstTurn w.toSurroundings sequenceId (r.stepCall next))

/-- Makes the call of a step. -/
def makeCall (r : Run) (w : Surroundings) (s : Server) (step : Step) : Turn :=
  afterServerTurn w step.following r step
    (s.firstTurn w.toSurroundings sequenceId (r.stepCall step))

/-- A server that was never started. -/
def newServer (r : Run) (i : Installation) : Server :=
  { info := i
    poll := r.settings.pollInterval.toRat
    grace := .ofBinary64 r.settings.gracePeriod
    rounding := r.rounding }

/-- Goes on with a server that was just made: its stop is attached to the shutdown, and it is
started. -/
def serverCreated (r : Run) (w : Surroundings) (i : Installation) : Turn :=
  let s := r.newServer i
  let r := { r with server := some s, shutdown := r.shutdown.attach () }
  (r.makeCall w s .start).after
    ((Server.topologyNotice r.settings.topology).map serverEffect ++
    [.log ⟨.info, "Server is starting up. Press CTRL + C to stop the server.", []⟩])

/-- Goes on with an installation: its directories are checked before a server is made for it. -/
def installationFound (r : Run) (w : Surroundings) (i : Installation) : Turn :=
  match i.lacking? r.cwd w.isDirectory with
  | some f => ⟨r, [], .raised f⟩
  | none =>
    Turn.after [.banner i.javaHome i.home.toString] <|
      r.advance .launching fun r =>
        ⟨r, [], .paused (.creatingServer i) (.createServer r.settings.topology i)⟩

/-- Goes on with an installation root. -/
def homeFound (r : Run) (w : Surroundings) (home : Path) : Turn :=
  r.advance .validating fun r =>
    if r.settings.asksForJavaHome then
      ⟨r, [], .paused (.readingJavaHome home) (.environment "JAVA_HOME")⟩
    else r.installationFound w (r.settings.installation home none)

/-- The condition that a deployment is not there. -/
def deploymentMissing (cwd file : Path) : Failure :=
  let p := file.absolute cwd
  .run (.precondition ("The deployment '" ++ p.toString ++ "' could not be found.") p)

/-- Goes on with what the build says. -/
def metadataFound (r : Run) (m : Project.Metadata) (isThere : Bool) : Turn :=
  if !isThere then ⟨r, [], .raised (deploymentMissing r.cwd m.file)⟩
  else
    let r := { r with deployment := some ⟨m.file, m.name⟩ }
    r.advance .provisioning fun r =>
      ⟨r, [], .paused .provisioning
        (.provision r.settings.serverHome r.settings.coordinate m.targetDir)⟩

/-- The first turn of the sequence. -/
def firstTurn (r : Run) : Turn := ⟨r, [], .paused .resolving .metadata⟩

/-- The next turn of the sequence; `none` for an answer that does not fit the point. -/
def nextTurn? (r : Run) (w : Surroundings) : Point → Answer → Option Turn
  | .onServer step p, .server a =>
    r.server.bind fun s =>
      (s.nextTurn? w.toSurroundings sequenceId p a).map fun t =>
        afterServerTurn w step.following r step t
  | .onServer step p, .cancelled =>
    r.server.bind fun s =>
      (s.nextTurn? w.toSurroundings sequenceId p .cancelled).map fun t =>
        afterServerTurn w step.following r step t
  | _, .cancelled => some ⟨r, [], .raised .cancelled⟩
  | .resolving, .metadata m isThere => some (r.metadataFound m isThere)
  | .resolving, .failed f => some ⟨r, [], .raised f⟩
  | .provisioning, .home p => some (r.homeFound w p)
  | .provisioning, .failed f => some ⟨r, [], .raised f⟩
  | .readingJavaHome home, .environment v =>
    some (r.installationFound w (r.settings.installation home v))
  | .readingJavaHome _, .failed f => some ⟨r, [], .raised f⟩
  | .creatingServer i, .created => some (r.serverCreated w i)
  | .creatingServer _, .failed f => some ⟨r, [], .raised f⟩
  | _, _ => none

end ServerRun.Run
