import ServerRun.Schema.Basic
import ServerRun.Model.Coordinate
import ServerRun.Model.Installation

/-! The records of the domain read from named values, and the named values of a record. -/

namespace ServerRun

open Schema

/-- A text or null. -/
def Json.ofText? : Option String → Json
  | some s => .str s
  | none => .null

/-- A path as text. -/
def Json.ofPath (p : Path) : Json := .str p.toString

namespace Coordinate

def check (es : List (String × Datum)) : Checked Coordinate :=
  (required es "group_id" text).map Coordinate.mk
    |> Checked.field (required es "artifact_id" text)
    |> Checked.field (withDefault es "archive_type" text "zip")
    |> Checked.field (required es "version" text)

def fields (c : Coordinate) : Fields :=
  [("group_id", .str c.group), ("artifact_id", .str c.artifact),
    ("archive_type", .str c.archiveType), ("version", .str c.version)]

end Coordinate

namespace Installation

def check (es : List (String × Datum)) : Checked Installation :=
  let nullable name := withDefault es name (optional text) none
  (required es "home" path).map Installation.mk
    |> Checked.field (required es "modules_dir" path)
    |> Checked.field (required es "bundles_dir" path)
    |> Checked.field (required es "java_executable" text)
    |> Checked.field (nullable "java_home")
    |> Checked.field (withDefault es "jvm_args" (items .tupleType text) [])
    |> Checked.field (nullable "server_config")
    |> Checked.field (withDefault es "startup_timeout" (positive float) (.ofInt 60))
    |> Checked.field (withDefault es "hostname" text "localhost")
    |> Checked.field (withDefault es "port" (between 1 65535 int) 9990)
    |> Checked.field (nullable "username")
    |> Checked.field (nullable "password")

def fields (i : Installation) : Fields :=
  [("home", .ofPath i.home), ("modules_dir", .ofPath i.modules), ("bundles_dir", .ofPath i.bundles),
    ("java_executable", .str i.java), ("java_home", .ofText? i.javaHome),
    ("jvm_args", .arr (i.jvmArgs.map .str)), ("server_config", .ofText? i.serverConfig),
    ("startup_timeout", .float i.startupTimeout), ("hostname", .str i.host), ("port", .int i.port),
    ("username", .ofText? i.username), ("password", .ofText? i.password)]

end Installation

namespace Deployment

def check (es : List (String × Datum)) : Checked Deployment :=
  (required es "file" path).map Deployment.mk |> Checked.field (required es "name" text)

def fields (d : Deployment) : Fields := [("file", .ofPath d.file), ("name", .str d.name)]

end Deployment

namespace Batch

/-- A batch from its named values, with checks of its commands and of its flag. -/
def checkBy (commands : Datum → Checked (List String)) (flag : Datum → Checked Bool)
    (es : List (String × Datum)) : Checked Batch :=
  (withDefault es "commands" commands []).map Batch.mk
    |> Checked.field (withDefault es "batch" flag false)

/-- A batch from its named values; `listKind` is the issue of commands that are no list. -/
def check (listKind : IssueKind) (es : List (String × Datum)) : Checked Batch :=
  checkBy (items listKind text) bool es

def fields (b : Batch) : Fields :=
  [("commands", .arr (b.commands.map .str)), ("batch", .bool b.atomic)]

end Batch

/-- Refuses to give a field of a finished record another value. -/
def refuseAssignment (assigned : Fields) : Checked Unit :=
  match assigned with
  | [] => .ok ()
  | (name, _) :: _ => .error [⟨[.name name], .frozen⟩]

end ServerRun
