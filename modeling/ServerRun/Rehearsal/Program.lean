import ServerRun.CommandLine.Report
import ServerRun.Rehearsal.Files
import ServerRun.Rehearsal.Run
import ServerRun.Settings.Standard

/-! Rehearsals of the whole program: a command line among given files and variables, where no
process can be launched and no remote repository can be reached. -/

namespace ServerRun.Rehearsal

/-- What a command line finds when it is read. -/
structure Place where
  cwd : Path
  files : FileSystem
  environment : List (String × String)

namespace Place

/-- What settings are read from. -/
def sources (p : Place) : Settings.Sources where
  files := p.files
  cwd := p.cwd
  environment := p.environment
  home := (Fields.get? p.environment "HOME").map .ofString

/-- The stage of a run that can launch no process. -/
def stage : Stage := { childScript := { launchError := some detailText } }

/-- How a run with given settings ends. -/
def ending (p : Place) (s : Settings) : Run.Ending :=
  let scene : Scene := { cwd := p.cwd, environment := p.environment }
  let network : Network := ⟨p.files, { otherwise := fun _ => .failed detailText }⟩
  ((RunSession.play s scene stage network).ending?).getD (.raised .cancelled)

/-- What a command line comes to. -/
def report (p : Place) (words : List String) : CommandLine.Report :=
  (CommandLine.report .standard p.sources p.ending words).1

/-- A place as JSON describes it: its files, its variables and its directory. -/
def ofJson (j : Json) : Place :=
  let cwd := Path.ofString ((textMember j "cwd").getD "/")
  { cwd
    files := filesOf cwd (((j.get? "files").bind Json.obj?).getD [])
    environment := textTable (j.get? "env") }

end Place

end ServerRun.Rehearsal
