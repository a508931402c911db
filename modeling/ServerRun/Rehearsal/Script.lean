import ServerRun.Server.Basic
import ServerRun.Text.Encoding

/-! Scripts for rehearsals: how a child process and a management client behave, written as JSON. A
member that a script leaves out stands for a client that answers at once and with success and for a
child that dies when it is signalled. -/

namespace ServerRun.Rehearsal

/-- What a child does when it is signalled or asked to shut down. -/
inductive Reaction where
  | ignores
  | dies (after : Seconds) (code : Int)
  | refuses (refusal : Server.Refusal)
deriving Repr

/-- How a child behaves; times count from its launch. -/
structure ChildScript where
  exit : Option (Seconds × Int) := none
  launchError : Option String := none
  onTerminate : Reaction := .dies 0 (-15)
  onKill : Reaction := .dies 0 (-9)
  onShutdown : Reaction := .ignores
  output : List (Seconds × List UInt8) := []
  holdsOutput : Bool := false
  outputError : Option Seconds := none
deriving Repr

/-- One answer to a question about the server's state. -/
structure StateReply where
  value : Json := .null
  delay : Seconds := 0
  hangs : Bool := false
  raises : Option String := none
deriving Repr

/-- How the client answers a request: after a delay, or never, with success or a failure. -/
structure ReplyScript where
  delay : Seconds := 0
  hangs : Bool := false
  failure : Option Failure := none
deriving Repr

/-- How a management client behaves. -/
structure ClientScript where
  states : List StateReply := [⟨.str "running", 0, false, none⟩]
  refused : List (String × String) := []
  crashes : List (String × String) := []
  delays : List (String × Seconds) := []
  deploy : ReplyScript := {}
  shutdown : ReplyScript := {}
  closeFailure : Option String := none
deriving Repr

/-- The seconds that a number stands for. -/
def seconds : Json → Seconds
  | .int i => i
  | .float x => x.toRat
  | _ => 0

/-- The bytes of a text, or of base-64 text under `b64`. -/
def bytesOf (j : Json) : List UInt8 :=
  match j with
  | .str s => Text.utf8 s
  | _ =>
    match (j.get? "b64").bind Json.str?, (j.get? "text").bind Json.str? with
    | some s, _ => (Text.ofBase64? s.toList).getD []
    | none, some s => Text.utf8 s
    | none, none => []

def textMember (j : Json) (name : String) : Option String := (j.get? name).bind Json.str?

def secondsMember (j : Json) (name : String) : Seconds := ((j.get? name).map seconds).getD 0

def flagMember (j : Json) (name : String) : Bool := ((j.get? name).bind Json.bool?).getD false

/-- A reaction, or the usual one where the script is silent. -/
def reaction (usual : Reaction) : Option Json → Reaction
  | none => usual
  | some .null => .ignores
  | some j =>
    match textMember j "raise" with
    | some "ProcessLookupError" => .refuses .gone
    | some _ => .refuses (.denied ((textMember j "message").getD ""))
    | none => .dies (secondsMember j "after") (((j.get? "code").bind Json.int?).getD 0)

def ChildScript.ofJson (j : Json) : ChildScript :=
  { exit := match j.get? "exit" with
      | some (.obj fs) =>
        some (secondsMember (.obj fs) "at", ((Fields.get? fs "code").bind Json.int?).getD 0)
      | _ => none
    launchError := textMember j "launch_error"
    onTerminate := reaction (.dies 0 (-15)) (j.get? "on_terminate")
    onKill := reaction (.dies 0 (-9)) (j.get? "on_kill")
    onShutdown := reaction .ignores (j.get? "on_shutdown")
    output := (((j.get? "output").bind Json.arr?).getD []).map fun o =>
      (secondsMember o "at", bytesOf o)
    holdsOutput := flagMember j "hold_output"
    outputError := match j.get? "output_error" with
      | some (.obj fs) => some (secondsMember (.obj fs) "at")
      | _ => none }

def StateReply.ofJson : Json → StateReply
  | .obj fs =>
    let j : Json := .obj fs
    { value := (j.get? "value").getD .null
      delay := secondsMember j "delay"
      hangs := flagMember j "hang"
      raises := textMember j "raise" }
  | v => { value := v }

/-- The members of an object whose values are texts. -/
def textTable (j : Option Json) : List (String × String) :=
  ((j.bind Json.obj?).getD []).filterMap fun f => f.2.str?.map (f.1, ·)

def ReplyScript.ofJson (j : Option Json) : ReplyScript :=
  match j with
  | some j =>
    { delay := secondsMember j "delay"
      hangs := flagMember j "hang"
      failure :=
        match textMember j "fail", textMember j "os_error", textMember j "crash",
            textMember j "raise" with
        | some m, _, _, _ => some (.run (.management m none))
        | _, some m, _, _ => some (.system m)
        | _, _, some m, _ => some (.crash m)
        | _, _, _, some m => some (.crash m)
        | _, _, _, _ => none }
  | none => {}

def ClientScript.ofJson (j : Json) : ClientScript :=
  { states :=
      match (j.get? "states").bind Json.arr? with
      | some xs => xs.map StateReply.ofJson
      | none => [⟨.str "running", 0, false, none⟩]
    refused := textTable (j.get? "fail")
    crashes := textTable (j.get? "crash")
    delays := (((j.get? "delays").bind Json.obj?).getD []).map fun f => (f.1, seconds f.2)
    deploy := .ofJson (j.get? "deploy")
    shutdown := .ofJson (j.get? "shutdown")
    closeFailure := (j.get? "close").bind (textMember · "raise") }

end ServerRun.Rehearsal
