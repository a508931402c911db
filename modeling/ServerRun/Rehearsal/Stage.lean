import ServerRun.Rehearsal.Script
import ServerRun.Server.Output
import ServerRun.Json.Writer

/-! The stage of a rehearsal: a clock that jumps from one alarm to the next, a scripted child and a
scripted client. A call that waits holds a ticket; the stage answers a ticket once, at once or when
an alarm goes off, and answers to tickets that are no longer held are dropped. Answers that are
ready are given out in the order in which they became ready. -/

namespace ServerRun.Rehearsal

/-- What happens on the stage. -/
inductive Event where
  | log (record : Log.Record)
  | launch (command : String) (directory : Path)
  | terminate
  | kill
  | exit (code : Int)
  | stateRead (value : Json)
  | execute (request : Fields)
  | deploy (file : Path) (name : String)
  | deployed (name : String)
  | shutdown
  | close
  | print (text : String)
  | http (method url : String)
  | signal (place : String)
  | createServer (topology : Topology) (poll grace : Binary64)
  | callback (name : String)
  | callbackDone (name : String)
deriving Repr

/-- What an alarm does when it goes off. -/
inductive Alarm where
  | answer (ticket : Nat) (answer : Server.Answer)
  | stateReply (ticket : Nat) (reply : StateReply)
  | deployed (ticket : Nat) (name : String)
  | shutdownDone (ticket : Nat)
  | childDies (code : Int)
  | output (bytes : List UInt8)
  | outputFails
  /-- Something that the rehearsal itself has planned. -/
  | planned (id : Nat)
deriving Repr

/-- The state of a rehearsal's surroundings. -/
structure Stage where
  rounding : Seconds → Seconds := fun t => (Binary64.ofRat t).toRat
  now : Seconds := 0
  /-- Counts tickets and alarms. -/
  serial : Nat := 0
  alarms : List (Seconds × Nat × Alarm) := []
  /-- The tickets that are held. -/
  held : List Nat := []
  ready : List (Nat × Server.Answer) := []
  /-- What has happened, the latest first. -/
  events : List (Seconds × Event) := []
  childScript : ChildScript := {}
  /-- Whether the child lives. -/
  alive : Bool := false
  exitCode : Option Int := none
  client : ClientScript := {}
  clientError : Option String := none
  reader : Server.LineReader := {}
  /-- Whether the output is no longer read. -/
  readerDone : Bool := false
  /-- The tickets that wait for the child's death, and for the end of the output. -/
  exitWaiters : List Nat := []
  drainWaiters : List Nat := []

namespace Stage

/-- The moment after some time. -/
def later (s : Stage) (d : Seconds) : Seconds := s.rounding (s.now + d)

def record (s : Stage) (e : Event) : Stage := { s with events := (s.now, e) :: s.events }

def setAlarm (s : Stage) (d : Seconds) (a : Alarm) : Stage :=
  { s with serial := s.serial + 1, alarms := s.alarms ++ [(s.later d, s.serial, a)] }

/-- Sets an alarm that limits a wait, unless the wait may last for ever. -/
def setLimit (s : Stage) (limit : Span) (ticket : Nat) : Stage :=
  match limit with
  | .finite d => s.setAlarm d (.answer ticket .elapsed)
  | .endless => s

/-- Hands out a ticket. -/
def newTicket (s : Stage) : Nat × Stage :=
  (s.serial, { s with serial := s.serial + 1, held := s.serial :: s.held })

/-- Makes an answer ready. -/
def give (s : Stage) (ticket : Nat) (a : Server.Answer) : Stage :=
  { s with ready := s.ready ++ [(ticket, a)] }

/-- Takes a ticket back. -/
def drop (s : Stage) (ticket : Nat) : Stage := { s with held := s.held.filter (· != ticket) }

/-! ### the child -/

/-- Prints what can be read of the output; those who wait for its end are told when it has come. -/
def readOutput (s : Stage) : Stage :=
  if s.readerDone then s
  else
    let (lines, done, r) := s.reader.printAll
    let printed := lines.map fun l =>
      (s.now, Event.print (Server.OutputLine.plain (Server.OutputLine.serverPrefix ++ l.text)))
    let s := { s with reader := r, events := printed.reverse ++ s.events }
    if done then
      { s with
        readerDone := true
        ready := s.ready ++ s.drainWaiters.map fun t => (t, .done)
        drainWaiters := [] }
    else s

/-- The child dies, unless it is dead. -/
def childDies (s : Stage) (code : Int) : Stage :=
  if s.alive then
    let s := { s with alive := false, exitCode := some code }.record (.exit code)
    let s := { s with
      ready := s.ready ++ s.exitWaiters.map fun t => (t, .exited code)
      exitWaiters := [] }
    if s.childScript.holdsOutput then s else { s with reader := s.reader.close }.readOutput
  else s

/-- The child reacts as its script says. -/
def react (s : Stage) : Reaction → Stage
  | .dies after code => if s.alive then s.setAlarm after (.childDies code) else s
  | _ => s

/-- Launches the child, with all that its script plans. -/
def launchChild (s : Stage) : Stage :=
  let c := s.childScript
  let s := { s with alive := true }
  let s := match c.exit with
    | some (t, code) => s.setAlarm t (.childDies code)
    | none => s
  let s := c.output.foldl (fun s o => s.setAlarm o.1 (.output o.2)) s
  match c.outputError with
  | some t => s.setAlarm t .outputFails
  | none => s

/-- Whether the child refuses a signal. -/
def refusal (s : Stage) : Server.Signal → Option Server.Refusal
  | .terminate =>
    match s.childScript.onTerminate with
    | .refuses r => some r
    | _ => none
  | .kill =>
    match s.childScript.onKill with
    | .refuses r => some r
    | _ => none

/-- What a turn of a call may ask. -/
def surroundings (s : Stage) : Server.Surroundings := { now := s.now, refusal := s.refusal }

/-- The effects of a turn reach the stage. -/
def perform (s : Stage) : List Server.Effect → Stage
  | [] => s
  | .log r :: rest => (s.record (.log r)).perform rest
  | .signal .terminate :: rest =>
    ((s.record .terminate).react s.childScript.onTerminate).perform rest
  | .signal .kill :: rest => ((s.record .kill).react s.childScript.onKill).perform rest

/-! ### waits -/

def operationName (request : Fields) : String :=
  match Fields.get? request "operation" with
  | some (.str s) => s
  | _ => ""

/-- What is seen of a wait when it begins. -/
def announce (s : Stage) : Server.Wait → Stage
  | .launch command directory => s.record (.launch (command.headD "") directory)
  | .deploy file name => s.record (.deploy file name)
  | .execute request => s.record (.execute request)
  | .shutdown _ => s.record .shutdown
  | .close => s.record .close
  | _ => s

/-- The place that a wait is known by, where a termination signal may be planned. -/
def placeOf : Server.Wait → Option String
  | .readState _ => some "server_state"
  | .deploy _ _ => some "deploy"
  | .execute request => some ("execute:" ++ operationName request)
  | .shutdown _ => some "shutdown"
  | _ => none

/-- The state that a value names. -/
def stateText : Json → Option String
  | .str v => some v
  | .null => none
  | v => some v.display

/-- The next answer about the server's state; the last one repeats. -/
def nextState (s : Stage) : StateReply × Stage :=
  match s.client.states with
  | [] => ({}, s)
  | [r] => (r, s)
  | r :: rest => (r, { s with client := { s.client with states := rest } })

/-- An answer about the server's state is given. -/
def answerState (s : Stage) (r : StateReply) : Server.Answer × Stage :=
  match r.raises with
  | some m => (.failed (.crash m), s)
  | none => (.state (stateText r.value), s.record (.stateRead r.value))

/-- An answer that comes at once, or a ticket for one that comes later. -/
inductive Begun where
  | answered (answer : Server.Answer)
  | ticket (ticket : Nat)
deriving Repr

/-- Waits for an alarm after a delay, at most as long as a limit. -/
def awaitAlarm (s : Stage) (limit : Option Span) (delay : Option Seconds) (alarm : Nat → Alarm) :
    Begun × Stage :=
  let (t, s) := s.newTicket
  let s := match limit with
    | some l => s.setLimit l t
    | none => s
  let s := match delay with
    | some d => s.setAlarm d (alarm t)
    | none => s
  (.ticket t, s)

/-- The delay of a reply after a block, none for a reply that never comes. -/
def replyDelay (block : Seconds) (r : ReplyScript) : Option Seconds :=
  if r.hangs then none else some (block + r.delay)

/-- Begins a wait; a client that is blocked answers that much later. -/
def startWait (s : Stage) (block : Seconds) : Server.Wait → Begun × Stage
  | .launch _ _ =>
    match s.childScript.launchError with
    | some m => (.answered (.failed (.system m)), s)
    | none => (.answered (.launched 4242 (s.clientError.map .crash)), s.launchChild)
  | .readState limit =>
    let (r, s) := s.nextState
    if block + r.delay = 0 ∧ !r.hangs then
      let (a, s) := s.answerState r
      (.answered a, s)
    else
      s.awaitAlarm (some limit) (if r.hangs then none else some (block + r.delay))
        (.stateReply · r)
  | .sleep d =>
    if d ≤ 0 then
      let (t, s) := s.newTicket
      (.ticket t, s.give t .elapsed)
    else s.awaitAlarm none (some d) (.answer · .elapsed)
  | .turn =>
    let (t, s) := s.newTicket
    (.ticket t, s)
  | .deploy _ name =>
    let r := s.client.deploy
    match r.failure, replyDelay block r with
    | some f, some d =>
      if d = 0 then (.answered (.failed f), s)
      else s.awaitAlarm none (some d) (.answer · (.failed f))
    | none, some d =>
      if d = 0 then (.answered .done, s.record (.deployed name))
      else s.awaitAlarm none (some d) (.deployed · name)
    | _, none => s.awaitAlarm none none (.deployed · name)
  | .execute request =>
    let op := operationName request
    let d := block + (Fields.get? s.client.delays op).getD 0
    let a : Server.Answer :=
      match Fields.get? s.client.refused op, Fields.get? s.client.crashes op with
      | some m, _ => .failed (.run (.management m none))
      | none, some m => .failed (.crash m)
      | none, none => .done
    if d = 0 then (.answered a, s) else s.awaitAlarm none (some d) (.answer · a)
  | .exit limit =>
    match s.exitCode with
    | some code => (.answered (.exited code), s)
    | none =>
      let (t, s) := s.newTicket
      let s := { s with exitWaiters := s.exitWaiters ++ [t] }
      (.ticket t, match limit with
        | some l => s.setLimit l t
        | none => s)
  | .shutdown limit =>
    let r := s.client.shutdown
    match r.failure, replyDelay block r with
    | some f, some d =>
      if d = 0 then (.answered (.failed f), s)
      else s.awaitAlarm (some limit) (some d) (.answer · (.failed f))
    | none, some d =>
      if d = 0 then (.answered .done, s.react s.childScript.onShutdown)
      else s.awaitAlarm (some limit) (some d) .shutdownDone
    | _, none => s.awaitAlarm (some limit) none .shutdownDone
  | .close =>
    match s.client.closeFailure with
    | some m => (.answered (.failed (.crash m)), s)
    | none => (.answered .done, s)
  | .drain limit =>
    if s.readerDone then (.answered .done, s)
    else
      let (t, s) := s.newTicket
      (.ticket t, { s with drainWaiters := s.drainWaiters ++ [t] }.setLimit limit t)

/-- A wait for the end of the output that is over ends the reading too. -/
def abandon (s : Stage) (ticket : Nat) : Stage :=
  let s := s.drop ticket
  let s := if s.drainWaiters.contains ticket then { s with readerDone := true } else s
  { s with
    exitWaiters := s.exitWaiters.filter (· != ticket)
    drainWaiters := s.drainWaiters.filter (· != ticket) }

/-! ### the clock -/

/-- The alarm that goes off next: the earliest one, of several the one set first. -/
def nextAlarm? : List (Seconds × Nat × Alarm) → Option (Seconds × Nat × Alarm)
  | [] => none
  | a :: rest =>
    match nextAlarm? rest with
    | none => some a
    | some b => if b.1 < a.1 then some b else some a

/-- Lets the clock jump to the next alarm; a planned one is returned. -/
def tick (s : Stage) : Option (Stage × Option Nat) :=
  match nextAlarm? s.alarms with
  | none => none
  | some (t, k, a) =>
    let now := if s.now ≤ t then t else s.now
    let s := { s with now, alarms := s.alarms.filter fun b => b.2.1 != k }
    some <|
      match a with
      | .answer ticket answer => (s.give ticket answer, none)
      | .stateReply ticket r =>
        if s.held.contains ticket then
          let (a, s) := s.answerState r
          (s.give ticket a, none)
        else (s, none)
      | .deployed ticket name =>
        if s.held.contains ticket then ((s.record (.deployed name)).give ticket .done, none)
        else (s, none)
      | .shutdownDone ticket =>
        if s.held.contains ticket then
          ((s.react s.childScript.onShutdown).give ticket .done, none)
        else (s, none)
      | .childDies code => (s.childDies code, none)
      | .output bytes =>
        if s.alive then ({ s with reader := s.reader.feed bytes }.readOutput, none) else (s, none)
      | .outputFails =>
        if s.readerDone then (s, none)
        else
          ({ s with
            readerDone := true
            ready := s.ready ++ s.drainWaiters.map fun t => (t, .failed (.crash ""))
            drainWaiters := [] }, none)
      | .planned id => (s, some id)

/-- Whether something can happen before the clock has to move. -/
def isBusy (s : Stage) : Bool :=
  !s.ready.isEmpty || (nextAlarm? s.alarms).any fun a => decide (a.1 ≤ s.now)

/-- Plans something for the rehearsal itself. -/
def plan (s : Stage) (d : Seconds) (id : Nat) : Stage := s.setAlarm d (.planned id)

/-- Takes the next ready answer. -/
def nextReady? (s : Stage) : Option ((Nat × Server.Answer) × Stage) :=
  match s.ready with
  | [] => none
  | r :: rest => some (r, { s with ready := rest })

end Stage

end ServerRun.Rehearsal
