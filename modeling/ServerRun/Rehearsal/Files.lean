import ServerRun.Rehearsal.Script
import ServerRun.File.System

/-! Files as scripts describe them: a table from paths to directories, texts and bytes. -/

namespace ServerRun.Rehearsal

/-- Puts what a script describes at a location, with the directories above it. -/
def putScripted (fs : FileSystem) (l : List String) (content : Json) : FileSystem :=
  let dir := match content with | .null => l | _ => l.dropLast
  let fs := (fs.makePathFrom [] dir).1
  match content with
  | .null => fs
  | c => fs.put l (.file (bytesOf ((c.get? "text").getD c)))

/-- Adds described files to a file system, the shorter paths first. -/
def addFiles (fs : FileSystem) (cwd : Path) (described : Fields) : FileSystem :=
  let located := described.map fun d => ((Path.ofString d.1).location cwd, d.2)
  (located.mergeSort fun a b => a.1.length ≤ b.1.length).foldl
    (fun fs d => putScripted fs d.1 d.2) fs

/-- The file system that a script describes, with the current directory. -/
def filesOf (cwd : Path) (described : Fields) : FileSystem :=
  let start : FileSystem := {}
  addFiles (start.makePathFrom [] cwd.segments).1 cwd described

/-- What a directory holds, as scripts describe files. -/
def treeOf (fs : FileSystem) (l : List String) : Fields :=
  (fs.below l).map fun e =>
    (String.intercalate "/" e.1,
      match e.2 with
      | .directory | .sealed => .null
      | .file bytes =>
        match Text.ofUtf8? bytes with
        | some s => .obj [("text", .str s)]
        | none => .obj [("b64", .str (Text.toBase64 bytes))])

end ServerRun.Rehearsal
