import ServerRun.File.Path

/-! Coordinates of artifacts and their places in a repository, which has a directory for each part
of the group, one for the artifact and one for the version. -/

namespace ServerRun

/-- The coordinate of an artifact. -/
structure Coordinate where
  group : String
  artifact : String
  archiveType : String
  version : String
deriving DecidableEq, Repr, Inhabited

namespace Coordinate

/-- The text of a coordinate: its parts between colons. -/
def toString (c : Coordinate) : String :=
  c.group ++ ":" ++ c.artifact ++ ":" ++ c.archiveType ++ ":" ++ c.version

instance : ToString Coordinate := ⟨Coordinate.toString⟩

/-- The name of the artifact's file. -/
def fileName (c : Coordinate) : String := c.artifact ++ "-" ++ c.version ++ "." ++ c.archiveType

/-- The parts of a text between dots. -/
def splitDots : List Char → List (List Char)
  | [] => [[]]
  | c :: rest =>
    if c = '.' then [] :: splitDots rest
    else
      match splitDots rest with
      | s :: more => (c :: s) :: more
      | [] => [[c]]

def groupParts (c : Coordinate) : List String := (splitDots c.group.toList).map String.ofList

/-- The path of the artifact inside a repository. -/
def relativePath (c : Coordinate) : Path :=
  (c.groupParts ++ [c.artifact, c.version, c.fileName]).foldl
    (fun (p : Path) (s : String) => p / s) (Path.ofString "")

end Coordinate

end ServerRun
