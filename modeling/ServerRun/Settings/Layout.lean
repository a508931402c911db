import ServerRun.Settings.Basic
import ServerRun.Error

/-! Finding an installation: its directories and its virtual machine are taken from the settings or,
where those are silent, from the installation root and the environment. -/

namespace ServerRun

/-- An optional text that holds something. -/
def nonEmpty? : Option String → Option String
  | some s => if s = "" then none else some s
  | none => none

/-- The virtual machine below its home, or the one that is found by its name. -/
def javaCommand (javaHome : Option String) : String :=
  match nonEmpty? javaHome with
  | some home => (Path.ofString home / "bin" / "java").toString
  | none => "java"

namespace Settings

/-- Whether the environment is asked for the home of the virtual machine. -/
def asksForJavaHome (s : Settings) : Bool := (nonEmpty? s.javaHome).isNone

/-- The installation at a root, when the environment names `inherited` as the home of the
virtual machine. -/
def installation (s : Settings) (home : Path) (inherited : Option String) : Installation :=
  let javaHome := (nonEmpty? s.javaHome).or inherited
  let directory (p : Option String) (name : String) : Path :=
    match nonEmpty? p with
    | some d => Path.ofString d
    | none => home / name
  { home
    modules := directory s.modulesPath "modules"
    bundles := directory s.bundlesPath "bundles"
    java := javaCommand javaHome
    javaHome
    jvmArgs := s.jvmArgList
    serverConfig := s.serverConfig
    startupTimeout := s.startupTimeout
    host := s.host
    port := s.port
    username := s.username
    password := s.password }

end Settings

namespace Installation

/-- The directories that an installation needs, with the words for them. -/
def directories (i : Installation) : List (String × Path) :=
  [("Server home", i.home), ("Modules path", i.modules), ("Bundles path", i.bundles)]

/-- The condition that a path is no directory. -/
def notDirectory (cwd : Path) (label : String) (p : Path) : Failure :=
  let p := p.absolute cwd
  .run (.precondition (label ++ " '" ++ p.toString ++ "' is not a valid directory.") p)

/-- The first directory that an installation lacks, if any, as a failure. -/
def lacking? (i : Installation) (cwd : Path) (isDirectory : Path → Bool) : Option Failure :=
  (i.directories.find? fun d => !isDirectory d.2).map fun d => notDirectory cwd d.1 d.2

end Installation

end ServerRun
