import ServerRun.Number.Binary64
import ServerRun.File.Path

/-! A server installation: where it is, how to launch it and how to reach its management
interface; and an application to deploy. -/

namespace ServerRun

/-- Everything needed to launch one installation and to talk to it. -/
structure Installation where
  home : Path
  modules : Path
  bundles : Path
  java : String
  javaHome : Option String := none
  jvmArgs : List String := []
  serverConfig : Option String := none
  startupTimeout : Binary64 := .ofInt 60
  host : String := "localhost"
  port : Int := 9990
  username : Option String := none
  password : Option String := none
deriving DecidableEq, Repr, Inhabited

/-- The address of the management interface. -/
def Installation.managementUrl (i : Installation) : String :=
  "http://" ++ i.host ++ ":" ++ toString i.port ++ "/management"

/-- An application and the name to deploy it under. -/
structure Deployment where
  file : Path
  name : String
deriving DecidableEq, Repr, Inhabited

/-- The operating modes that a configuration may ask for. -/
inductive Topology where
  | standalone
  | domain
deriving DecidableEq, Repr, Inhabited

def Topology.text : Topology → String
  | .standalone => "standalone"
  | .domain => "domain"

def Topology.ofText? : String → Option Topology
  | "standalone" => some .standalone
  | "domain" => some .domain
  | _ => none

/-- Administrative commands in order, and whether they run as one. -/
structure Batch where
  commands : List String := []
  atomic : Bool := false
deriving DecidableEq, Repr, Inhabited

end ServerRun
