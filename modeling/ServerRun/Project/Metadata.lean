import ServerRun.Project.Descriptor

/-! What a run needs to know of the build: the deployment file, the name to deploy it under, and the
directory it lies in. -/

namespace ServerRun.Project

/-- The deployment file of a project. -/
structure Metadata where
  file : Path
  name : String
  targetDir : Path
deriving DecidableEq, Repr

/-- The deployment file of a project. The descriptor is only read for what is not given. -/
def Metadata.resolve (files : FileSystem) (cwd project : Path) (target : Option Path)
    (filename : Option String) : Except Failure Metadata := do
  let located (directory : Path) (name : String) : Metadata :=
    let directory := directory.absolute cwd
    ⟨directory / name, name, directory⟩
  match target, filename with
  | some t, some n => .ok (located (project / t) n)
  | _, _ => do
    let b ← Build.read files cwd project
    let directory := match target with
      | some t => project / t
      | none => b.directory
    .ok (located directory (filename.getD (b.finalName ++ "." ++ b.packaging)))

end ServerRun.Project
