import ServerRun.CommandLine.Request
import ServerRun.Settings.Load
import ServerRun.Run.Supervisor

/-! What the command line reports: lines on the two outputs and an exit code. Problems with settings
and conditions that end a run become one line; any other failure is passed on. -/

namespace ServerRun.CommandLine

/-- The version of the program. -/
def version : String := "0.1.0"

/-- What a command comes to. -/
structure Report where
  exitCode : Int := 0
  /-- The level of log records, once it is set. -/
  level : Option String := none
  output : String := ""
  /-- What is reported as an error. -/
  errors : List String := []
  /-- A failure that nothing was made of. -/
  escaped : Option Failure := none
deriving Repr

/-- The exit code of a wrong use. -/
def exitUsage : Int := 2

/-- The exit code of a failure. -/
def exitFailure : Int := 1

/-- The line for a problem with settings, for those problems that have one. -/
def settingsLine? : Failure → Option String
  | .settingsNotFound p => some ("Error: " ++ (Failure.settingsNotFound p).message)
  | .file .notFound => some ("Error: " ++ detailText)
  | .malformedDocument | .invalid _ => some ("Error loading settings: " ++ detailText)
  | _ => none

/-- The line for a condition that ends a run. -/
def runLine (e : RunError) : String := "Error: " ++ e.label ++ ": " ++ e.message

/-- A report of a failure that nothing was made of. -/
def Report.escape (r : Report) (f : Failure) : Report :=
  { r with exitCode := exitFailure, escaped := some f }

/-- A report of an error that has a line. -/
def Report.refuse (r : Report) (line : String) : Report :=
  { r with exitCode := exitFailure, errors := r.errors ++ [line] }

/-- Loads the settings of a run, or reports why they cannot be loaded. -/
def settingsOr (lib : Settings.Library) (sources : Settings.Sources) (request : RunRequest)
    (r : Report) : Except Report Settings :=
  match lib.load sources request.config request.overrides with
  | .ok s => .ok s
  | .error f =>
    match settingsLine? f with
    | some line => .error (r.refuse line)
    | none => .error (r.escape f)

def Report.ofEnding (r : Report) : Run.Ending → Report
  | .stopped code _ => { r with exitCode := code }
  | .raised (.run e) => r.refuse (runLine e)
  | .raised f => r.escape f

/-- What a command line comes to, and the settings that a run was begun with, when the way in which
a run ends is known. -/
def report (lib : Settings.Library) (sources : Settings.Sources)
    (ending : Settings → Run.Ending) (words : List String) : Report × Option Settings :=
  match read words with
  | .usage level _ => ({ exitCode := exitUsage, level }, none)
  | .unknownLevel level => (Report.escape { level := some level } .badValue, none)
  | .asked level .help => ({ level }, none)
  | .asked level .version => ({ level, output := version ++ "\n" }, none)
  | .asked level (.run request) =>
    match settingsOr lib sources request { level } with
    | .error r => (r, none)
    | .ok s => (Report.ofEnding { level } (ending s), some s)

end ServerRun.CommandLine
