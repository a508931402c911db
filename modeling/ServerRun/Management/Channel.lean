import ServerRun.Command.Basic
import ServerRun.Http.Dialogue
import ServerRun.Http.Post
import ServerRun.Http.Url
import ServerRun.Json.Writer
import ServerRun.Model.Installation

/-! The channel to a management interface. An operation is posted as JSON to the management
interface, and its answer is an object that tells the outcome and the result or why there is none.
The content of a deployment is uploaded first and referred to by its hash afterwards. -/

namespace ServerRun.Management

open Http

/-- How values are spelt in messages: a text as it is, and any other value if the limits of its
spelling allow for it. -/
structure Spelling where
  text : Json → Except Foreign String
  text_str : ∀ s, text (.str s) = .ok s

/-- The spelling without limits. -/
def Spelling.standard : Spelling where
  text v := .ok v.messageText
  text_str _ := rfl

/-- A channel to a management interface: its address, and the user that its client names. -/
structure Channel where
  url : String
  user : Option String := none
  password : String := ""
  spelling : Spelling := .standard

/-- A dialogue with the client of a channel. -/
abbrev Talk := Dialogue Post Posted

namespace Channel

/-- A channel to an address, with a user if one is named. -/
def create (url : String) (user password : Option String) : Channel :=
  { url := withoutSlashes url, user := user.filter (· ≠ ""), password := password.getD "" }

def ofInstallation (i : Installation) : Channel := create i.managementUrl i.username i.password

def refusal (description operation : String) : Failure :=
  .run (.management description (some operation))

/-- Why an operation failed, as its answer tells. -/
def failureDescription (answer : Json) : String :=
  match answer.get? "failure-description" with
  | none | some .null => "operation failed: " ++ answer.display
  | some d => d.messageText

/-- The result that the answer to an operation carries. -/
def resultOf (a : Answer) (operation : String) : Except Failure Json :=
  if a.status = 401 then .error (refusal "Management authentication failed" operation)
  else
    match a.json with
    | .error .malformed =>
      match a.text with
      | .ok text =>
        .error (refusal ("Unexpected response (HTTP " ++ Nat.repr a.status ++ "): " ++
          String.ofList (text.toList.take 200)) operation)
      | .error f => .error f.val
    | .error (.raised f) => .error f.val
    | .ok data =>
      match data.get? "outcome" with
      | some (.str "success") => .ok ((data.get? "result").getD .null)
      | _ => .error (refusal (failureDescription data) operation)

/-- The result of an operation that was posted, with the text for a failure of the transport. -/
def resultOfPosted (text : String → String) (operation : String) : Posted → Except Failure Json
  | .answered a => resultOf a operation
  | .failed m => .error (refusal (text m) operation)
  | .raised f => .error f.val

/-- The value that names an operation. -/
def nameOf (operation : Fields) : Json := (Fields.get? operation "operation").getD .null

/-- The name of an operation, for messages. -/
def operationName (operation : Fields) : String := (nameOf operation).messageText

/-- Posts an operation: its result, or why there is none. -/
def request (c : Channel) (name : String) (operation : Fields) : Talk (Except Failure Json) :=
  .ask ⟨c.url, .json (.obj operation)⟩ fun posted =>
    .done (resultOfPosted ("Management interface at " ++ c.url ++ " unreachable: " ++ ·) name
      posted)

/-- Executes an operation, whose name has to be spelt first. -/
def execute (c : Channel) (operation : Fields) : Talk (Except Failure Json) :=
  match c.spelling.text (nameOf operation) with
  | .ok name => c.request name operation
  | .error f => .done (.error f.val)

/-- The operation that asks for the state of the server. -/
def stateQuery : Fields :=
  [("operation", .str "read-attribute"), ("address", .arr []), ("name", .str "server-state")]

/-- The state that the result of its query tells; nothing where the query is refused. -/
def stateOf : Except Failure Json → Except Failure (Option String)
  | .ok .null => .ok none
  | .ok v => .ok (some v.messageText)
  | .error (.run (.management _ _)) => .ok none
  | .error f => .error f

/-- The state of the server as it calls it itself; nothing if it cannot be read. -/
def serverState (c : Channel) : Talk (Except Failure (Option String)) := do
  let r ← c.execute stateQuery
  return stateOf r

/-- Whether the server says that it is running. -/
def isRunning (c : Channel) : Talk (Except Failure Bool) := do
  let r ← c.serverState
  return r.map (· == some "running")

/-- The address that content is uploaded to. -/
def contentUrl (c : Channel) : String := c.url ++ "/add-content"

/-- The reference that the result of an upload holds, if it is an object. -/
def referenceOf : Except Failure Json → Except Failure Json
  | .ok (.obj fs) => .ok (.obj fs)
  | .ok v => .error (refusal ("Upload returned no content hash: " ++ v.display) "add-content")
  | .error f => .error f

/-- Uploads the content of a file: the reference to it, for further operations. -/
def upload (c : Channel) (name : String) (content : List UInt8) :
    Talk (Except Failure Json) :=
  .ask ⟨c.contentUrl, .file name content⟩ fun posted =>
    .done (referenceOf (resultOfPosted ("Upload of '" ++ name ++ "' failed: " ++ ·) "add-content"
      posted))

/-- Reads a file and goes on with its name and its content; nothing is posted if it cannot be
read. -/
def withFile (fs : FileSystem) (cwd file : Path)
    (next : String → List UInt8 → Talk (Except Failure α)) : Talk (Except Failure α) :=
  match fs.fileBytes cwd file with
  | .error e => .done (.error (.file e))
  | .ok content => next file.name content

/-- The items that a result lists: those of a list, the names of an object's members, the characters
of a text, and none where there is nothing. -/
def itemsOf : Json → Except Failure (List Json)
  | .arr xs => .ok xs
  | .obj fs => .ok (fs.map fun f => .str f.1)
  | .str s => .ok (s.toList.map fun c => .str c.toString)
  | v => if v.isTruthy then .error .notIterable else .ok []

/-- The operation that asks for the names of what is deployed. -/
def listing : Fields :=
  [("operation", .str "read-children-names"), ("address", .arr []),
    ("child-type", .str "deployment")]

/-- The names of what is deployed. -/
def deploymentNames (c : Channel) : Talk (Except Failure (List Json)) := do
  let r ← c.execute listing
  return r.bind itemsOf

/-- Whether a list has a text among its items. -/
def listsName (items : List Json) (name : String) : Bool :=
  items.any fun i => i.str? == some name

/-- The operation that puts new content in the place of what is deployed under a name. -/
def replacement (name : String) (content : Json) : Fields :=
  [("operation", .str "full-replace-deployment"), ("address", .arr []), ("name", .str name),
    ("content", content), ("enabled", .bool true)]

/-- The operation that adds content under a name and deploys it. -/
def addition (name : String) (content : Json) : Fields :=
  let address : Json := .arr [.obj [("deployment", .str name)]]
  Command.composite
    [.obj [("operation", .str "add"), ("address", address), ("content", content)],
      .obj [("operation", .str "deploy"), ("address", address)]]

/-- Uploads a file and deploys it under a name, in place of what has that name. -/
def deploy (c : Channel) (name fileName : String) (content : List UInt8) :
    Talk (Except Failure Unit) := do
  match ← c.upload fileName content with
  | .error f => return .error f
  | .ok hash =>
    let content : Json := .arr [.obj [("hash", hash)]]
    match ← c.deploymentNames with
    | .error f => return .error f
    | .ok names =>
      if listsName names name then
        .tell ⟨.info, "Replacing existing deployment", [("name", .str name)]⟩ do
          let r ← c.execute (replacement name content)
          return r.map fun _ => ()
      else
        let r ← c.execute (addition name content)
        return r.map fun _ => ()

/-- The operation that asks the server to shut itself down. -/
def shutdownRequest : Fields := [("operation", .str "shutdown"), ("address", .arr [])]

/-- Asks the server to shut itself down. -/
def shutdown (c : Channel) : Talk (Except Failure Unit) := do
  let r ← c.execute shutdownRequest
  return r.map fun _ => ()

end Channel

end ServerRun.Management
