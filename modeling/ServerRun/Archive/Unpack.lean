import ServerRun.Archive.Zip
import ServerRun.File.System

/-! Unpacking an archive below a directory. Entries are taken in order; one whose place is neither
the directory nor below it ends the unpacking, and what was written before stays. -/

namespace ServerRun.Archive

/-- Where an entry is to be unpacked below a location: its name followed from there, double dots
resolved. -/
def Entry.place (e : Entry) (root : List String) : List String :=
  ((Path.ofLocation root / e.name).location (Path.ofLocation root))

/-- Writes the content of an entry to a file in a directory that is there; the file is made before
the content is known to be good. -/
def writeEntry (fs : FileSystem) (place : List String) (c : Content) :
    FileSystem × Except Failure Unit :=
  match fs.storeFile place c.bytes with
  | .error e => (fs, .error (.file e))
  | .ok fs =>
    match c.fault with
    | none => (fs, .ok ())
    | some f => (fs, .error f)

def unpackEntry (fs : FileSystem) (root : List String) (e : Entry) :
    FileSystem × Except Failure Unit :=
  let place := e.place root
  if !root.isPrefixOf place then (fs, .error (.escapes e.name (Path.ofLocation root)))
  else if e.isDirectory then
    match fs.makeAt place with
    | (fs, .ok _) => (fs, .ok ())
    | (fs, .error err) => (fs, .error (.file err))
  else
    match fs.makeAt place.dropLast with
    | (fs, .error err) => (fs, .error (.file err))
    | (fs, .ok _) =>
      match e.content with
      | .error f => (fs, .error f)
      | .ok c => writeEntry fs place c

/-- Unpacks entries in order, up to the first one that fails. -/
def unpack (fs : FileSystem) (root : List String) : List Entry → FileSystem × Except Failure Unit
  | [] => (fs, .ok ())
  | e :: es =>
    match unpackEntry fs root e with
    | (fs, .ok ()) => unpack fs root es
    | (fs, .error f) => (fs, .error f)

/-- Unpacks the archive in a file below a directory. -/
def unpackFile (fs : FileSystem) (cwd archive destination : Path) :
    FileSystem × Except Failure Unit :=
  match fs.fileBytes cwd archive with
  | .error e => (fs, .error (.file e))
  | .ok bytes =>
    match Zip.entries bytes with
    | .error f => (fs, .error f)
    | .ok es => unpack fs (destination.location cwd) es

end ServerRun.Archive
