import ServerRun.Model.Coordinate
import ServerRun.Model.Installation
import ServerRun.Text.Blank

/-! The settings of a run. -/

namespace ServerRun

/-- The settings of a run, checked, with every default filled in. -/
structure Settings where
  serverHome : Option String
  group : String
  artifact : String
  archiveType : String
  version : String
  homePrefix : String
  modulesPath : Option String
  bundlesPath : Option String
  localRepository : Path
  remoteRepositories : List String
  jvmArgs : Option String
  javaHome : Option String
  serverConfig : Option String
  topology : Topology
  startupTimeout : Binary64
  gracePeriod : Binary64
  pollInterval : Binary64
  host : String
  port : Int
  username : Option String
  password : Option String
  before : Batch
  after : Batch
  projectDir : Path
  targetDir : Option Path
  filename : Option String
deriving DecidableEq, Repr, Inhabited

namespace Settings

/-- The coordinate of the distribution to provision. -/
def coordinate (s : Settings) : Coordinate := ⟨s.group, s.artifact, s.archiveType, s.version⟩

/-- The arguments of the virtual machine: the words of their text. -/
def jvmArgList (s : Settings) : List String := (s.jvmArgs.map Text.words).getD []

end Settings

end ServerRun
