import ServerRun.Run.Supervisor
import ServerRun.Log.Palette
import ServerRun.Rehearsal.Session
import ServerRun.Rehearsal.Network

/-! Rehearsals of a whole run on a stage: the sequence and its supervisor wait with tickets, and
termination signals are planned for moments or for places that the sequence or the supervisor comes
to. A signal at a place is delivered on arrival and may keep the caller there for some time. -/

namespace ServerRun.Rehearsal

/-- When a termination signal is delivered. -/
inductive Cue where
  | at (time : Seconds)
  | on (place : String) (block : Seconds)
deriving Repr

/-- The cues of a script. -/
def cueOf (j : Json) : Cue :=
  match textMember j "on" with
  | some place => .on place (secondsMember j "block")
  | none => .at (secondsMember j "at")

/-- What surrounds a run besides its stage. -/
structure Scene where
  cwd : Path
  /-- The variables that the run may look up. -/
  environment : List (String × String) := []
  cues : List Cue := []
  /-- When whoever waits for the run gives up. -/
  cancelAt : Option Seconds := none
  /-- Whether signals may be planned for the moment when the build is looked at. -/
  watchesBuild : Bool := true
deriving Repr

/-- Where the sequence of a run is. -/
inductive SequenceState where
  | waiting (ticket : Nat) (point : Run.Point) (wait : Run.Wait)
  | ended (result : Except Failure (Option Int))

/-- Where the supervisor of a run is. -/
inductive SupervisorState where
  | waiting (point : Run.SupervisorPoint)
  | stopping (ticket : Nat) (point : Run.SupervisorPoint)
  | ended (ending : Run.Ending)

/-- A run on a stage. -/
structure RunSession where
  scene : Scene
  stage : Stage
  run : Run
  network : Network
  sequence : SequenceState := .ended (.ok none)
  supervisor : SupervisorState := .waiting .watching
  /-- How often termination signals were asked for and let go. -/
  registrations : Nat := 0
  releases : Nat := 0
  /-- What was printed beside the log. -/
  printed : String := ""

namespace RunSession

/-- What a turn may ask. -/
def surroundings (s : RunSession) : Run.Surroundings :=
  { s.stage.surroundings with
    isDirectory := s.network.files.holdsDirectory s.scene.cwd }

/-- The server learns of the death of its child. -/
def learn (s : RunSession) : RunSession :=
  match s.stage.exitCode, s.run.server with
  | some code, some server => { s with run := { s.run with server := some (server.withExit code) } }
  | _, _ => s

/-- The effects of a turn reach the surroundings. -/
def perform (s : RunSession) : List Run.Effect → RunSession
  | [] => s
  | .log r :: rest => { s with stage := s.stage.record (.log r) }.perform rest
  | .signal x :: rest => { s with stage := s.stage.perform [.signal x] }.perform rest
  | .banner j h :: rest => { s with printed := s.printed ++ Log.banner j h }.perform rest
  | .registered :: rest => { s with registrations := s.registrations + 1 }.perform rest
  | .unregistered :: rest => { s with releases := s.releases + 1 }.perform rest
  | .entered _ :: rest | .callbackEntered :: rest | .callbackLeft :: rest => s.perform rest

/-- A termination signal is delivered. -/
def signal (s : RunSession) (place : String) : RunSession :=
  let (run, effects) := s.run.requestTermination
  { s with stage := s.stage.record (.signal place), run }.perform effects

/-- Delivers the signals planned for a place, and how long they keep the caller there. -/
def arrive (s : RunSession) (place : String) : RunSession × Seconds :=
  s.scene.cues.foldl (fun (s, block) c =>
    match c with
    | .on p b => if p = place then (s.signal place, block + b) else (s, block)
    | .at _ => (s, block)) (s, 0)

/-! ### waits -/

/-- Begins a wait for the server. -/
def startServerWait (s : RunSession) (wait : Server.Wait) : Stage.Begun × RunSession :=
  let s := { s with stage := s.stage.announce wait }
  let (s, block) := match Stage.placeOf wait with
    | some place => s.arrive place
    | none => (s, 0)
  let (begun, stage) := s.stage.startWait block wait
  (begun, { s with stage }.learn)

/-- What the build of the project says. -/
def lookAtBuild (s : RunSession) : Run.Answer :=
  let files := s.network.files
  let settings := s.run.settings
  match Project.Metadata.resolve files s.scene.cwd settings.projectDir settings.targetDir
      settings.filename with
  | .error f => .failed f
  | .ok m =>
    match files.pathExists s.scene.cwd m.file with
    | .ok isThere => .metadata m isThere
    | .error e => .failed (.file e)

/-- Provides the installation. -/
def provide (s : RunSession) (home : Option String) (c : Coordinate) (destination : Path) :
    Run.Answer × RunSession :=
  let settings := s.run.settings
  let p : Provision := ⟨home, c, destination, settings.homePrefix⟩
  let repository := Repository.ofAddresses settings.localRepository settings.remoteRepositories
  let played := playProvision p repository s.scene.cwd s.network
  let s := { s with
    network := played.network
    stage := played.events.foldl (fun (t : Stage) e => t.record e) s.stage }
  (match played.result with
    | .ok home => .home home
    | .error f => .failed f, s)

/-- Waits for ever, or as long as given. -/
def holdOn (s : RunSession) (d : Option Seconds) : Nat × RunSession :=
  let (ticket, stage) := s.stage.newTicket
  (ticket, { s with stage := match d with
    | some d => stage.setAlarm d (.answer ticket .elapsed)
    | none => stage })

/-- Begins a wait of the sequence: its answer, or the ticket for it. -/
def startWait (s : RunSession) : Run.Wait → (Run.Answer ⊕ Nat) × RunSession
  | .metadata =>
    let s := if s.scene.watchesBuild then (s.arrive "metadata").1 else s
    (.inl s.lookAtBuild, s)
  | .provision home c destination =>
    let (s, block) := s.arrive "provision"
    if block = 0 then
      let (a, s) := s.provide home c destination
      (.inl a, s)
    else
      let (ticket, s) := s.holdOn (some block)
      (.inr ticket, s)
  | .environment name =>
    let s := (s.arrive "environ").1
    (.inl (.environment (s.scene.environment.lookup name)), s)
  | .createServer topology _ =>
    let settings := s.run.settings
    (.inl .created, { s with
      stage := s.stage.record
        (.createServer topology settings.pollInterval settings.gracePeriod) })
  | .forever =>
    let (ticket, s) := s.holdOn none
    (.inr ticket, s)
  | .server wait =>
    match s.startServerWait wait with
    | (.answered a, s) => (.inl (.server a), s)
    | (.ticket t, s) => (.inr t, s)

/-! ### turns -/

/-- Carries out turns of the sequence until it waits or ends. -/
def carryOut : Nat → RunSession → Run.Turn → RunSession
  | 0, s, _ => s
  | fuel + 1, s, t =>
    let s := { s with run := t.run }.perform t.effects
    match t.outcome with
    | .returned code => { s with sequence := .ended (.ok code) }
    | .raised f => { s with sequence := .ended (.error f) }
    | .paused p wait =>
      match s.startWait wait with
      | (.inr ticket, s) => { s with sequence := .waiting ticket p wait }
      | (.inl a, s) =>
        match s.run.nextTurn? s.surroundings p a with
        | some t => carryOut fuel s t
        | none => s

/-- Gives the sequence an answer. -/
def answerSequence (s : RunSession) (p : Run.Point) (a : Run.Answer) : RunSession :=
  match s.run.nextTurn? s.surroundings p a with
  | some t => carryOut patience s t
  | none => s

/-- Cancels the sequence where it waits. -/
def cancelSequence (s : RunSession) : RunSession :=
  match s.sequence with
  | .waiting ticket p _ =>
    { s with stage := s.stage.abandon ticket }.learn.answerSequence p .cancelled
  | .ended _ => s

/-- Carries out turns of the supervisor until it waits or ends. -/
def carryOutSupervisor : Nat → RunSession → Run.SupervisorTurn → RunSession
  | 0, s, _ => s
  | fuel + 1, s, t =>
    let s := { s with run := t.run }.perform t.effects
    match t.outcome with
    | .watching p => { s with supervisor := .waiting p }
    | .cancelSequence p => { s with supervisor := .waiting p }.cancelSequence
    | .ended e => { s with supervisor := .ended e }
    | .shuttingDown p wait =>
      match s.startServerWait wait with
      | (.ticket ticket, s) => { s with supervisor := .stopping ticket p }
      | (.answered a, s) =>
        match s.run.supervise? s.surroundings p (.server a) with
        | some t => carryOutSupervisor fuel s t
        | none => s

/-- Gives the supervisor news. -/
def tellSupervisor (s : RunSession) (p : Run.SupervisorPoint) (n : Run.News) : RunSession :=
  match s.run.supervise? s.surroundings p n with
  | some t => carryOutSupervisor patience s t
  | none => s

/-- The supervisor takes notice of the end of the sequence, or of a request to terminate. -/
def attend : Nat → RunSession → RunSession
  | 0, s => s
  | fuel + 1, s =>
    match s.supervisor, s.sequence with
    | .waiting (.settling ending), _ => attend fuel (s.tellSupervisor (.settling ending) .settled)
    | .waiting p, .ended r => attend fuel (s.tellSupervisor p (.sequenceEnded r))
    | .waiting .watching, .waiting _ _ _ =>
      if s.run.terminated then attend fuel (s.tellSupervisor .watching .terminationRequested) else s
    | _, _ => s

/-- Whoever waits for the run gives up. -/
def cancel (s : RunSession) : RunSession :=
  match s.supervisor with
  | .waiting p => s.tellSupervisor p .cancelled
  | .stopping ticket p =>
    { s with stage := s.stage.abandon ticket }.learn.tellSupervisor p .cancelled
  | .ended _ => s

/-- Gives an answer to who holds its ticket. -/
def deliver (s : RunSession) (ticket : Nat) (a : Server.Answer) : RunSession :=
  let taken := { s with stage := s.stage.abandon ticket }.learn
  match s.sequence, s.supervisor with
  | .waiting t p wait, supervisor =>
    if t = ticket then
      match wait with
      | .provision home c destination =>
        let (a, s) := taken.provide home c destination
        s.answerSequence p a
      | _ => taken.answerSequence p (.server a)
    else
      match supervisor with
      | .stopping u q => if u = ticket then taken.tellSupervisor q (.server a) else s
      | _ => s
  | .ended _, .stopping u q => if u = ticket then taken.tellSupervisor q (.server a) else s
  | .ended _, _ => s

/-! ### the clock -/

/-- The number of the alarm at which whoever waits gives up; other numbers are signals. -/
def cancelAlarm : Nat := 0

/-- Begins a run. -/
def start (s : RunSession) : RunSession :=
  let stage := s.scene.cues.foldl (fun (t : Stage) c =>
    match c with
    | .at d => t.plan d (cancelAlarm + 1)
    | .on _ _ => t) s.stage
  let stage := match s.scene.cancelAt with
    | some d => stage.plan d cancelAlarm
    | none => stage
  let s := carryOutSupervisor patience { s with stage } s.run.start
  attend patience (carryOut patience s s.run.firstTurn)

/-- Gives out one ready answer, or lets the clock jump when there is none; `none` when nothing can
happen any more. -/
def advance (s : RunSession) : Option RunSession :=
  match s.stage.nextReady? with
  | some ((ticket, a), stage) => some (attend patience ({ s with stage }.deliver ticket a))
  | none =>
    s.stage.tick.map fun (stage, planned) =>
      let s := { s with stage }.learn
      attend patience <|
        match planned with
        | none => s
        | some id => if id = cancelAlarm then s.cancel else s.signal "timer"

/-- Goes on as long as the clock need not move. -/
def settle : Nat → RunSession → RunSession
  | 0, s => s
  | fuel + 1, s =>
    if s.stage.isBusy then
      match s.advance with
      | none => s
      | some s => settle fuel s
    else s

def ending? (s : RunSession) : Option Run.Ending :=
  match s.supervisor with
  | .ended e => some e
  | _ => none

/-- Goes on until the run has ended and all that happens at once has happened. -/
def finish : Nat → RunSession → RunSession
  | 0, s => s
  | fuel + 1, s =>
    if s.ending?.isSome then s.settle fuel
    else
      match s.advance with
      | none => s
      | some s => finish fuel s

/-- Plays a run. -/
def play (settings : Settings) (scene : Scene) (stage : Stage) (network : Network) : RunSession :=
  let run : Run := { settings, cwd := scene.cwd, rounding := stage.rounding }
  ({ scene, stage, run, network : RunSession }.start).finish patience

end RunSession

end ServerRun.Rehearsal
