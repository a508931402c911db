import ServerRun.Number.Decimal
import ServerRun.Schema.Basic
import ServerRun.File.System

/-! What can go wrong. A `RunError` is a condition that ends a run with a message of its own; a
`Failure` is any way in which an operation may end without a result. -/

namespace ServerRun

/-- What kept an installation from being provisioned. -/
inductive ProvisioningCause where
  | files
  | damagedArchive
  | badEntry
  | badText
  | resolution
deriving DecidableEq, Repr

/-- A condition that ends a run. -/
inductive RunError where
  | general (message : String)
  | configuration (message : String)
  | precondition (message : String) (path : Path)
  | provisioning (message coordinate : String) (cause : Option ProvisioningCause)
  | resolution (coordinate reason : String)
  | startupTimeout (elapsed limit : Number)
  | exited (code : Option Int)
  | notReady (operation state : String)
  | management (description : String) (operation : Option String)
  | deployment (name cause : String)
  | command (command description : String)
  | commandSyntax (command description : String)
  | shutdown (message : String)
deriving DecidableEq, Repr

/-- What stands in a message for details that are not told. -/
def detailText : String := "<detail>"

/-- An optional whole number, spelt `None` where there is none. -/
def optionalIntText : Option Int → String
  | some i => toString i
  | none => "None"

/-- The text that tells the user what happened. -/
def RunError.message : RunError → String
  | .general m | .configuration m | .precondition m _ | .provisioning m _ _ | .shutdown m => m
  | .resolution coordinate reason =>
    "Could not resolve artifact " ++ coordinate ++ ": " ++ reason
  | .startupTimeout elapsed limit =>
    "Server did not start within " ++ limit.toBinary64.general ++ " seconds (waited " ++
      elapsed.toBinary64.fixed 1 ++ " seconds)"
  | .exited code => "Server process exited unexpectedly with code " ++ optionalIntText code
  | .notReady operation state => "Cannot " ++ operation ++ " while the server is " ++ state
  | .management description _ => description
  | .deployment name cause => "Deployment of '" ++ name ++ "' failed: " ++ cause
  | .command text reason | .commandSyntax text reason =>
    "Command '" ++ text ++ "' failed: " ++ reason

/-- The word for a kind of condition in front of its message. -/
def RunError.label : RunError → String
  | .precondition .. => "Precondition failed"
  | .configuration .. => "Invalid configuration"
  | .provisioning .. => "Provisioning failed"
  | .startupTimeout .. => "Server startup failed"
  | .exited .. => "Server failed"
  | .deployment .. => "Deployment failed"
  | .command .. | .commandSyntax .. => "Command failed"
  | _ => "Run failed"

/-- How an operation may end without a result. -/
inductive Failure where
  | run (error : RunError)
  /-- Values that do not fit their fields. -/
  | invalid (issues : List Issue)
  /-- A settings document that is no well-formed document. -/
  | malformedDocument
  /-- A value of the environment that is no JSON. -/
  | malformedSetting
  /-- A settings document that holds no mapping. -/
  | noMapping
  /-- A settings document with a key that is no text. -/
  | nonTextKey
  /-- A value that cannot be built, such as an impossible date or a whole number of too many
  digits. -/
  | badValue
  /-- Something nested too deep to be read. -/
  | tooDeep
  /-- A settings document with a word that its tag does not know. -/
  | badWord
  /-- A settings document with an empty text where its tag needs a character. -/
  | emptyText
  /-- A settings file that was named and is not there. -/
  | settingsNotFound (path : Path)
  /-- Bytes that are no text. -/
  | badText
  /-- The name of a text encoding that is not known. -/
  | unknownEncoding
  | file (error : FileError)
  | damagedArchive
  | damagedData
  /-- Packed data that their decoder does not take for its own. -/
  | damagedCode
  | encryptedEntry
  | unknownMethod
  /-- Data that ends too early. -/
  | endOfData
  /-- An archive entry that would be written outside the destination. -/
  | escapes (entry : String) (root : Path)
  /-- An address without a scheme where one is needed. -/
  | badAddress
  /-- An address that no request can be sent to. -/
  | refusedAddress
  /-- A request of a client that was closed. -/
  | closedClient
  /-- A result of a kind that cannot be iterated over. -/
  | notIterable
  /-- An error of the operating system with its own text. -/
  | system (message : String)
  /-- A time limit of a collaborator that is over; this counts as an error of the operating system
  too. -/
  | timedOut (message : String)
  /-- Any other error of a collaborator. -/
  | crash (message : String)
  | cancelled
deriving Repr

/-- The text of a failure that has one of its own. -/
def Failure.message : Failure → String
  | .run e => e.message
  | .settingsNotFound p => "Configuration file not found at " ++ p.toString
  | .escapes entry root => "Archive entry '" ++ entry ++ "' escapes " ++ root.toString
  | .system m | .timedOut m | .crash m => m
  | _ => ""

/-- The text of an error of the operating system; `none` for any other failure. -/
def Failure.systemText? : Failure → Option String
  | .system m | .timedOut m => some m
  | .file e => if e.isSystem then some detailText else none
  | _ => none

end ServerRun
