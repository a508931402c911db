import ServerRun.Settings.Variables
import ServerRun.Settings.Basic
import ServerRun.Model.Record

/-! The settings as a checked record: the types, bounds and defaults of the fields, and the named
values of settings. How the types read values is up to the library that checks records. -/

namespace ServerRun.Settings

open Schema

/-- The default of the repositories that are asked for a distribution. -/
def defaultRemotes : List String :=
  ["https://repository.jboss.org/nexus/content/groups/public/",
    "https://repo.maven.apache.org/maven2/"]

/-- How the types of fields read values. -/
structure Conversions where
  text : Datum → Checked String
  path : Datum → Checked Path
  int : Datum → Checked Int
  float : Datum → Checked Binary64
  bool : Datum → Checked Bool
  texts : Datum → Checked (List String)
  topology : Datum → Checked Topology
  record : Datum → Checked (List (String × Datum))

variable (c : Conversions)

/-- A text that may be null, and counts as null when it holds nothing but blanks. -/
def unlessBlank (d : Datum) : Checked (Option String) :=
  (optional c.text d).map fun s => s.filter fun s => !Text.allBlank s

def batch (d : Datum) : Checked Batch := do
  Batch.checkBy c.texts c.bool (← c.record d)

/-- Checks the entries of settings: `home` is the home of the user and `cwd` the current
directory. -/
def check (home cwd : Path) (es : List (String × Datum)) : Checked Settings :=
  let textOr name (dflt : String) := withDefault es name c.text dflt
  let nullable name := withDefault es name (optional c.text) none
  let blankless name := withDefault es name (unlessBlank c) none
  let positiveOr name (dflt : Binary64) := withDefault es name (positive c.float) dflt
  (blankless "jboss_home").map Settings.mk
    |> Checked.field (textOr "group_id" "org.jboss.as")
    |> Checked.field (textOr "artifact_id" "jboss-as-dist")
    |> Checked.field (textOr "archive_type" "zip")
    |> Checked.field (textOr "version" "7.1.1.Final")
    |> Checked.field (textOr "home_prefix" "jboss-as")
    |> Checked.field (nullable "modules_path")
    |> Checked.field (nullable "bundles_path")
    |> Checked.field (withDefault es "local_repository" c.path (home / ".m2" / "repository"))
    |> Checked.field (withDefault es "remote_repositories" c.texts defaultRemotes)
    |> Checked.field (blankless "jvm_args")
    |> Checked.field (blankless "java_home")
    |> Checked.field (blankless "server_config")
    |> Checked.field (withDefault es "topology" c.topology .standalone)
    |> Checked.field (positiveOr "startup_timeout" (.ofInt 60))
    |> Checked.field (positiveOr "shutdown_grace_period" (.ofInt 10))
    |> Checked.field
      (withDefault es "poll_interval" (positive (atMost 10 c.float)) (.ofRat (1 / 2)))
    |> Checked.field (textOr "hostname" "localhost")
    |> Checked.field (withDefault es "port" (between 1 65535 c.int) 9990)
    |> Checked.field (nullable "username")
    |> Checked.field (nullable "password")
    |> Checked.field (withDefault es "before_deployment" (batch c) {})
    |> Checked.field (withDefault es "after_deployment" (batch c) {})
    |> Checked.field (withDefault es "project_dir" c.path cwd)
    |> Checked.field (withDefault es "target_dir" (optional c.path) none)
    |> Checked.field (blankless "filename")

/-- The named values of settings. -/
def fields (s : Settings) : Fields :=
  [("jboss_home", .ofText? s.serverHome), ("group_id", .str s.group),
    ("artifact_id", .str s.artifact), ("archive_type", .str s.archiveType),
    ("version", .str s.version), ("home_prefix", .str s.homePrefix),
    ("modules_path", .ofText? s.modulesPath), ("bundles_path", .ofText? s.bundlesPath),
    ("local_repository", .ofPath s.localRepository),
    ("remote_repositories", .arr (s.remoteRepositories.map .str)),
    ("jvm_args", .ofText? s.jvmArgs), ("java_home", .ofText? s.javaHome),
    ("server_config", .ofText? s.serverConfig), ("topology", .str s.topology.text),
    ("startup_timeout", .float s.startupTimeout),
    ("shutdown_grace_period", .float s.gracePeriod), ("poll_interval", .float s.pollInterval),
    ("hostname", .str s.host), ("port", .int s.port), ("username", .ofText? s.username),
    ("password", .ofText? s.password), ("before_deployment", .obj s.before.fields),
    ("after_deployment", .obj s.after.fields), ("project_dir", .ofPath s.projectDir),
    ("target_dir", .ofText? (s.targetDir.map Path.toString)), ("filename", .ofText? s.filename)]

end ServerRun.Settings
