import ServerRun.CommandLine.Arguments
import ServerRun.CommandLine.Value
import ServerRun.Schema.Datum
import ServerRun.Model.Installation
import ServerRun.Text.Uppercase

/-! What a command line asks for: help, the version, or a run with a settings file and values that
override it. The least level of log records is set before the words behind the command are read. -/

namespace ServerRun.CommandLine

/-- What a value of an option has to be. -/
inductive ValueKind where
  | text
  | path
  | whole
  | real
  | topology
deriving DecidableEq, Repr

/-- An option of a run: what it takes and the setting that it overrides. -/
structure RunOption where
  switch : Switch
  kind : ValueKind := .text
  setting : String
deriving DecidableEq, Repr

/-- The option that names the settings file. -/
def configSwitch : Switch := ⟨"config", some 'c'⟩

/-- The options of a run that override settings. -/
def runOptions : List RunOption :=
  [⟨⟨"jboss-home", none⟩, .text, "jboss_home"⟩,
    ⟨⟨"server-version", none⟩, .text, "version"⟩,
    ⟨⟨"modules-path", none⟩, .text, "modules_path"⟩,
    ⟨⟨"bundles-path", none⟩, .text, "bundles_path"⟩,
    ⟨⟨"jvm-args", none⟩, .text, "jvm_args"⟩,
    ⟨⟨"java-home", none⟩, .text, "java_home"⟩,
    ⟨⟨"server-config", none⟩, .text, "server_config"⟩,
    ⟨⟨"startup-timeout", none⟩, .real, "startup_timeout"⟩,
    ⟨⟨"topology", none⟩, .topology, "topology"⟩,
    ⟨⟨"hostname", none⟩, .text, "hostname"⟩,
    ⟨⟨"port", some 'p'⟩, .whole, "port"⟩,
    ⟨⟨"username", none⟩, .text, "username"⟩,
    ⟨⟨"password", none⟩, .text, "password"⟩,
    ⟨⟨"project-dir", none⟩, .path, "project_dir"⟩,
    ⟨⟨"target-dir", none⟩, .path, "target_dir"⟩,
    ⟨⟨"filename", none⟩, .text, "filename"⟩]

/-- Reads the value of an option. -/
def ValueKind.read? : ValueKind → String → Option Datum
  | .text, s => some (.str s)
  | .path, s => some (.str (Path.ofString s).toString)
  | .whole, s => (whole? s).map .int
  | .real, s => (real? s).map .float
  | .topology, s => (Topology.ofText? s).map fun t => .str t.text

/-- What a run is asked for. -/
structure RunRequest where
  config : Option Path := none
  overrides : List (String × Datum) := []
deriving Repr

/-- What a command line asks for. -/
inductive Command where
  | help
  | version
  | run (request : RunRequest)
deriving Repr

/-- What the words of a run say. -/
def RunRequest.ofWords (w : Words) : Except UsageError RunRequest := do
  let overrides ← runOptions.filterMapM fun o =>
    match w.value? o.switch.name with
    | none => .ok none
    | some v =>
      match o.kind.read? v with
      | some d => .ok (some (o.setting, d))
      | none => .error (.badValue o.switch.name v)
  match w.operands with
  | [] => .ok ⟨(w.value? configSwitch.name).map .ofString, overrides⟩
  | word :: _ => .error (.extraOperand word)

/-- Reads the words behind the command `run`; help goes before all values. -/
def readRun (words : List String) : Except UsageError Command := do
  let w ← Grammar.read ⟨configSwitch :: runOptions.map (·.switch), true⟩ words
  if w.help then return .help
  return .run (← RunRequest.ofWords w)

/-- Reads the words behind the command `version`. -/
def readVersion (words : List String) : Except UsageError Command := do
  let w ← Grammar.read ⟨[], true⟩ words
  if w.help then return .help
  match w.operands with
  | [] => return .version
  | word :: _ => .error (.extraOperand word)

/-- The option that sets the least level of log records. -/
def levelSwitch : Switch := ⟨"log-level", none⟩

/-- The levels that log records may have. -/
def levels : List String :=
  ["TRACE", "DEBUG", "INFO", "SUCCESS", "WARNING", "ERROR", "CRITICAL"]

/-- How a command line is read: the level of log records once it is set, and what was found. -/
inductive Reading where
  | usage (level : Option String) (error : UsageError)
  | unknownLevel (level : String)
  | asked (level : Option String) (command : Command)
deriving Repr

/-- What follows the options in front: the command and the words behind it. -/
def readCommand (level command : String) (words : List String) : Reading :=
  let read? :=
    if command = "run" then some readRun
    else if command = "version" then some readVersion
    else none
  match read? with
  | none => .usage none (.unknownCommand command)
  | some read =>
    if !levels.contains level then .unknownLevel level
    else
      match read words with
      | .ok c => .asked (some level) c
      | .error e => .usage (some level) e

/-- Reads a command line. -/
def read (words : List String) : Reading :=
  match Grammar.read ⟨[levelSwitch], false⟩ words with
  | .error e => .usage none e
  | .ok w =>
    if w.help then .asked none .help
    else
      match w.operands with
      | [] => .usage none .missingCommand
      | command :: rest =>
        readCommand (Text.upper ((w.value? levelSwitch.name).getD "INFO")) command rest

end ServerRun.CommandLine
