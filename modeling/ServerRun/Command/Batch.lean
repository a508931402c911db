import ServerRun.Command.Limits
import ServerRun.Model.Installation
import ServerRun.Log.Record

/-! Running a batch of commands on a management client. All commands are read before the first
request is sent. An atomic batch is one composite request; any other batch is one request for each
command, and each is sent only after the one before it was accepted. -/

namespace ServerRun.Batch

/-- Whether a batch holds no command. -/
def isEmpty (b : Batch) : Bool := b.commands.isEmpty

/-- Where a running batch waits for the answer to a request. -/
inductive Point where
  /-- The composite request of all commands has been sent. -/
  | composite
  /-- The request of one command has been sent, and others are left. -/
  | command (text : String) (rest : List (String × Fields))
deriving Repr

/-- How a batch goes on. -/
inductive Progress where
  | send (request : Fields) (point : Point)
  | finished
  | raised (failure : Failure)
deriving Repr

/-- Each command with its request, or the failure of the first text that is not read. -/
def requests (excess? : String → Option Command.Excess) :
    List String → Except Failure (List (String × Fields))
  | [] => .ok []
  | text :: rest =>
    match Command.parseUnless excess? text with
    | .error e => .error e
    | .ok c =>
      match requests excess? rest with
      | .error e => .error e
      | .ok more => .ok ((text, c.request) :: more)

/-- Sends the request of the next command, if one is left. -/
def sendNext : List (String × Fields) → List Log.Record × Progress
  | [] => ([], .finished)
  | (text, request) :: rest =>
    ([⟨.info, "Executing command", [("command", .str text)]⟩], .send request (.command text rest))

/-- Reads all commands and sends the first request. -/
def start (b : Batch) (excess? : String → Option Command.Excess) : List Log.Record × Progress :=
  if b.isEmpty then ([], .finished)
  else
    match requests excess? b.commands with
    | .error e => ([], .raised e)
    | .ok all =>
      if b.atomic then
        ([⟨.info, "Executing command batch", [("count", .int all.length)]⟩],
          .send (Command.composite (all.map fun r => .obj r.2)) .composite)
      else sendNext all

/-- The text that names what was sent. -/
def sentText (b : Batch) : Point → String
  | .composite => String.intercalate "; " b.commands
  | .command text _ => text

/-- Goes on after the answer to a request: a refusal of the server becomes the failure of the
command that was sent, and any other failure stays what it is. -/
def resume (b : Batch) (p : Point) (answer : Except Failure Unit) :
    List Log.Record × Progress :=
  match answer with
  | .error (.run (.management description _)) =>
    ([], .raised (.run (.command (b.sentText p) description)))
  | .error e => ([], .raised e)
  | .ok () =>
    match p with
    | .composite => ([], .finished)
    | .command _ rest => sendNext rest

end ServerRun.Batch
