/-! Paths in POSIX notation. A path is relative or starts at the root, written with one slash or
with exactly two; empty segments and single dots vanish, double dots stay. -/

namespace ServerRun

/-- Where a path starts. -/
inductive Anchor where
  | relative
  | root
  | doubleRoot
deriving DecidableEq, Repr, Inhabited

/-- A path: where it starts and its segments, none of them empty or a single dot. -/
structure Path where
  anchor : Anchor
  segments : List String
deriving DecidableEq, Repr, Inhabited

namespace Path

/-- The text of a path's start. -/
def Anchor.text : Anchor → String
  | .relative => ""
  | .root => "/"
  | .doubleRoot => "//"

/-- The parts of a text between slashes. -/
def splitSlashes (cs : List Char) : List (List Char) :=
  match cs with
  | [] => [[]]
  | c :: rest =>
    if c = '/' then [] :: splitSlashes rest
    else
      match splitSlashes rest with
      | s :: more => (c :: s) :: more
      | [] => [[c]]

/-- The segments of a text: its parts between slashes that are neither empty nor a single dot. -/
def segmentsOf (cs : List Char) : List String :=
  ((splitSlashes cs).filter fun s => s ≠ [] ∧ s ≠ ['.']).map String.ofList

/-- Where the path that a text writes starts. -/
def anchorOf : List Char → Anchor
  | '/' :: '/' :: '/' :: _ => .root
  | '/' :: '/' :: _ => .doubleRoot
  | '/' :: _ => .root
  | _ => .relative

/-- The path that a text writes. -/
def ofString (s : String) : Path := ⟨anchorOf s.toList, segmentsOf s.toList⟩

/-- The text of a path; the empty relative path is a single dot. -/
def toString (p : Path) : String :=
  match p.anchor, p.segments with
  | .relative, [] => "."
  | a, ss => Anchor.text a ++ String.intercalate "/" ss

instance : ToString Path := ⟨Path.toString⟩

def isAbsolute (p : Path) : Bool := p.anchor != .relative

/-- A path below another one; an absolute path replaces the one on its left. -/
def join (p q : Path) : Path :=
  if q.isAbsolute then q else ⟨p.anchor, p.segments ++ q.segments⟩

instance : HDiv Path Path Path := ⟨join⟩

instance : HDiv Path String Path := ⟨fun p s => p.join (ofString s)⟩

/-- The last segment, or nothing for a path without segments. -/
def name (p : Path) : String := p.segments.getLast?.getD ""

/-- The path without its last segment. -/
def parent (p : Path) : Path := { p with segments := p.segments.dropLast }

/-- The path as seen from the root, when relative paths start at `cwd`; double dots stay. -/
def absolute (p cwd : Path) : Path := cwd.join p

/-- Resolves double dots after segments already resolved; above the root there is only the root. -/
def resolveFrom (done : List String) : List String → List String
  | [] => done
  | s :: rest => if s = ".." then resolveFrom done.dropLast rest else resolveFrom (done ++ [s]) rest

/-- The segments from the root, without double dots, when relative paths start at `cwd`. -/
def location (p cwd : Path) : List String := resolveFrom [] (p.absolute cwd).segments

/-- The path from the root without double dots, when relative paths start at `cwd`. -/
def resolve (p cwd : Path) : Path := ⟨.root, p.location cwd⟩

/-- The path from the root with given segments. -/
def ofLocation (l : List String) : Path := ⟨.root, l⟩

end Path

end ServerRun
