import ServerRun.File.Path

/-! A file system without links: a finite table from locations, which are lists of segments from the
root, to files and directories. Operations report the same failures as an operating system does: a
missing directory, a file where a directory is needed, a directory where a file is needed, a name
that is taken or too long, and a directory that may not be searched. A path with a NUL in it never
reaches the operating system. -/

namespace ServerRun

/-- Why an operation on files fails. -/
inductive FileError where
  | notFound
  | notDirectory
  | isDirectory
  | taken
  /-- A name, or the text of a path, that is longer than the system takes. -/
  | tooLong
  /-- A directory that may not be searched. -/
  | denied
  /-- A path with a NUL in it; no error of the system. -/
  | nul
deriving DecidableEq, Repr, Inhabited

/-- Whether an error is one of the operating system. -/
def FileError.isSystem : FileError → Bool
  | .nul => false
  | _ => true

/-- What stands at a location. -/
inductive FileEntry where
  | directory
  /-- A directory that may not be searched. -/
  | sealed
  | file (bytes : List UInt8)
deriving DecidableEq, Repr, Inhabited

namespace FileEntry

def isDirectory : FileEntry → Bool
  | .directory | .sealed => true
  | .file _ => false

def isFile (e : FileEntry) : Bool := !e.isDirectory

end FileEntry

namespace Path

/-- The number of bytes that a name may have. -/
def nameLimit : Nat := 255

/-- The number of bytes that the text of a path may have. -/
def textLimit : Nat := 4095

/-- Why a path cannot be followed whatever the files are. -/
def fault? (p : Path) : Option FileError :=
  if p.segments.any fun s => s.toList.contains '\x00' then some .nul
  else if textLimit < p.toString.utf8ByteSize then some .tooLong
  else none

end Path

/-- A file system: what stands at each location but the root, which is a directory. -/
structure FileSystem where
  entries : List (List String × FileEntry) := []
deriving Repr, Inhabited

namespace FileSystem

/-- What stands at a location. -/
def get? (fs : FileSystem) (l : List String) : Option FileEntry :=
  if l = [] then some .directory else (fs.entries.find? fun e => e.1 == l).map (·.2)

/-- Puts an entry at a location. -/
def put (fs : FileSystem) (l : List String) (e : FileEntry) : FileSystem :=
  ⟨(l, e) :: fs.entries.filter fun f => f.1 != l⟩

/-- Removes what stands at a location, and nothing below it. -/
def erase (fs : FileSystem) (l : List String) : FileSystem :=
  ⟨fs.entries.filter fun f => f.1 != l⟩

/-- Removes what stands at a location and all below it. -/
def eraseTree (fs : FileSystem) (l : List String) : FileSystem :=
  ⟨fs.entries.filter fun f => !l.isPrefixOf f.1⟩

/-- Removes what stands at a location and all below it, unless some of it stands in a directory that
may not be searched; then nothing is removed. -/
def removeTree (fs : FileSystem) (l : List String) : Except FileError FileSystem :=
  if fs.entries.any fun e => l.isPrefixOf e.1.dropLast && fs.get? e.1.dropLast == some .sealed then
    .error .denied
  else .ok (fs.eraseTree l)

theorem find?_filter_ne {l m : List String} (h : m ≠ l) (es : List (List String × FileEntry)) :
    (es.filter fun f => f.1 != l).find? (fun e => e.1 == m) = es.find? fun e => e.1 == m := by
  induction es with
  | nil => rfl
  | cons e es ih =>
    by_cases hl : e.1 = l
    · simp [hl, Ne.symm h, ih]
    · by_cases hm : e.1 = m
      · simp [hm, h]
      · simp [hl, hm, ih]

theorem get?_put (fs : FileSystem) {l : List String} (hl : l ≠ []) (e : FileEntry)
    (m : List String) : (fs.put l e).get? m = if m = l then some e else fs.get? m := by
  by_cases hm : m = []
  · subst hm; simp [get?, Ne.symm hl]
  · by_cases h : m = l
    · subst h; simp [get?, put, hm]
    · simp [get?, put, hm, h, Ne.symm h, find?_filter_ne h]

def isDirectory (fs : FileSystem) (l : List String) : Bool :=
  (fs.get? l).any FileEntry.isDirectory

/-- Why a name cannot be looked up at a location. -/
def obstacle? (fs : FileSystem) (l : List String) (name : String) : Option FileError :=
  match fs.get? l with
  | none => some .notFound
  | some (.file _) => some .notDirectory
  | some .sealed => some .denied
  | some .directory => if Path.nameLimit < name.utf8ByteSize then some .tooLong else none

/-- Follows segments from a location; double dots lead upwards. -/
def walk (fs : FileSystem) (base : List String) : List String → Except FileError (List String)
  | [] => .ok base
  | s :: rest =>
    match fs.obstacle? base s with
    | some e => .error e
    | none => if s = ".." then walk fs base.dropLast rest else walk fs (base ++ [s]) rest

/-- The location that a path leads to, when relative paths start at `cwd`. -/
def locate (fs : FileSystem) (cwd p : Path) : Except FileError (List String) :=
  match p.fault? with
  | some e => .error e
  | none => fs.walk [] (p.absolute cwd).segments

/-- What stands where a path leads. -/
def entryAt (fs : FileSystem) (cwd p : Path) : Option FileEntry :=
  match fs.locate cwd p with
  | .ok l => fs.get? l
  | .error _ => none

/-- Looks whether something of a kind stands where a path leads. That the path leads nowhere is an
answer too; that it is too long or leads through a directory that may not be searched is none. -/
def look (fs : FileSystem) (cwd p : Path) (kind : FileEntry → Bool) : Except FileError Bool :=
  match fs.locate cwd p with
  | .ok l => .ok ((fs.get? l).any kind)
  | .error .tooLong => .error .tooLong
  | .error .denied => .error .denied
  | .error _ => .ok false

def pathExists (fs : FileSystem) (cwd p : Path) : Except FileError Bool :=
  fs.look cwd p fun _ => true

def pathIsDirectory (fs : FileSystem) (cwd p : Path) : Except FileError Bool :=
  fs.look cwd p FileEntry.isDirectory

def pathIsFile (fs : FileSystem) (cwd p : Path) : Except FileError Bool :=
  fs.look cwd p FileEntry.isFile

/-- Whether a path is seen to lead to a directory. -/
def holdsDirectory (fs : FileSystem) (cwd p : Path) : Bool :=
  match fs.pathIsDirectory cwd p with
  | .ok isDirectory => isDirectory
  | .error _ => false

/-- The bytes of the file that a path leads to. -/
def fileBytes (fs : FileSystem) (cwd p : Path) : Except FileError (List UInt8) :=
  match fs.locate cwd p with
  | .error e => .error e
  | .ok l =>
    match fs.get? l with
    | some (.file bytes) => .ok bytes
    | some _ => .error .isDirectory
    | none => .error .notFound

/-- Makes the directories that lead on from a location, where they are missing; double dots lead
upwards. What was made before a failure stays. -/
def makePathFrom (fs : FileSystem) (base : List String) :
    List String → FileSystem × Except FileError (List String)
  | [] => (fs, .ok base)
  | s :: rest =>
    match fs.obstacle? base s with
    | some e => (fs, .error e)
    | none =>
      if s = ".." then makePathFrom fs base.dropLast rest
      else
        let l := base ++ [s]
        match fs.get? l with
        | some (.file _) => (fs, .error (if rest = [] then .taken else .notDirectory))
        | some _ => makePathFrom fs l rest
        | none => makePathFrom (fs.put l .directory) l rest

/-- Makes the directory that a path leads to and those above it, where they are missing. -/
def makePath (fs : FileSystem) (cwd p : Path) : FileSystem × Except FileError (List String) :=
  match p.fault? with
  | some e => (fs, .error e)
  | none => fs.makePathFrom [] (p.absolute cwd).segments

/-- Makes the directory at a location and those above it, where they are missing. -/
def makeAt (fs : FileSystem) (l : List String) : FileSystem × Except FileError (List String) :=
  match (Path.ofLocation l).fault? with
  | some e => (fs, .error e)
  | none => fs.makePathFrom [] l

/-- Makes the directory that a path leads to, as one that something can be put in. -/
def makeOpen (fs : FileSystem) (cwd p : Path) : FileSystem × Except FileError (List String) :=
  match fs.makePath cwd p with
  | (fs, .error e) => (fs, .error e)
  | (fs, .ok l) => (fs, if fs.get? l = some .directory then .ok l else .error .denied)

/-- Makes the directory that a path leads to, where nothing may stand, and those above it, where
they are missing. -/
def makeNew (fs : FileSystem) (cwd p : Path) : FileSystem × Except FileError (List String) :=
  match p.fault? with
  | some e => (fs, .error e)
  | none =>
    match fs.makeOpen cwd p.parent with
    | (fs, .error e) => (fs, .error e)
    | (fs, .ok _) =>
      match fs.locate cwd p with
      | .error e => (fs, .error e)
      | .ok l =>
        match fs.get? l with
        | some _ => (fs, .error .taken)
        | none => (fs.put l .directory, .ok l)

/-- The length of the longest segment in use. -/
def longestSegment (fs : FileSystem) : Nat :=
  fs.entries.foldl (fun n e => e.1.foldl (fun n s => max n s.length) n) 0

/-- A name that is longer than every segment in use and than a given one, so that nothing has it. -/
def freshName (fs : FileSystem) (other : String) : String :=
  String.ofList (List.replicate (max fs.longestSegment other.length + 1) 'x')

/-- Puts further bytes at the end of the file at a location. -/
def extendFile (fs : FileSystem) (l : List String) (bytes : List UInt8) : FileSystem :=
  match fs.get? l with
  | some (.file old) => fs.put l (.file (old ++ bytes))
  | _ => fs

/-- Whether a file may be written at a location: its directory is there, and no directory stands at
the location itself. -/
def writable (fs : FileSystem) (l : List String) : Except FileError Unit :=
  match (Path.ofLocation l).fault?.or (fs.obstacle? l.dropLast (l.getLast?.getD "")) with
  | some e => .error e
  | none => if fs.isDirectory l then .error .isDirectory else .ok ()

/-- Writes a file in a directory that is there. -/
def storeFile (fs : FileSystem) (l : List String) (bytes : List UInt8) :
    Except FileError FileSystem :=
  match fs.writable l with
  | .ok () => .ok (fs.put l (.file bytes))
  | .error e => .error e

/-- The locations below a location with what stands there, in the order of the table. -/
def below (fs : FileSystem) (l : List String) : List (List String × FileEntry) :=
  fs.entries.filterMap fun e =>
    if l.isPrefixOf e.1 && e.1 != l then some (e.1.drop l.length, e.2) else none

end FileSystem

end ServerRun
