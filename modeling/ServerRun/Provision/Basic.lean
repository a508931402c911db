import ServerRun.Archive.Unpack
import ServerRun.Repository.Resolve

/-! Providing a server installation: one that is there already is taken as it is; otherwise its
archive is looked for in a repository and unpacked into a directory that is emptied before. -/

namespace ServerRun

/-- What installation is asked for. -/
structure Provision where
  /-- The root of an installation that is there already. -/
  home : Option String
  coordinate : Coordinate
  /-- The directory below which the archive is unpacked. -/
  destination : Path
  /-- How the directory in the archive is called, up to a hyphen and the version. -/
  homePrefix : String
deriving Repr

namespace Provision

/-- The installation that is there already, if one is named. -/
def given? (p : Provision) : Option Path :=
  match p.home with
  | some h => if h = "" then none else some (Path.ofString h)
  | none => none

/-- The directory that the archive is unpacked into. -/
def target (p : Provision) : Path := p.destination / "asrun-server"

/-- The root of the installation that the archive holds. -/
def homeIn (p : Provision) (cwd : Path) : Path :=
  p.target.absolute cwd / (p.homePrefix ++ "-" ++ p.coordinate.version)

/-- The log record at the start. -/
def resolving (p : Provision) : Log.Record :=
  ⟨.info, "Resolving server distribution", [("coordinate", .str p.coordinate.toString)]⟩

/-- The log record before the archive is unpacked. -/
def extracting (p : Provision) (archive : Path) : Log.Record :=
  ⟨.info, "Extracting server distribution",
    [("archive", .str archive.toString), ("target", .str p.target.toString)]⟩

/-- A failure to provide the installation. -/
def failure (p : Provision) (message : String) (cause : ProvisioningCause) : Failure :=
  .run (.provisioning message p.coordinate.toString (some cause))

/-- The failure of a search for the archive. -/
def searchFailure (p : Provision) : Failure → Failure
  | .run (.resolution c reason) =>
    p.failure (RunError.resolution c reason).message .resolution
  | f => f

/-- The failure of unpacking the archive. -/
def extractionFailure (p : Provision) (archive : Path) (f : Failure) : Failure :=
  let text (detail : String) : String :=
    "Error extracting '" ++ archive.name ++ "': " ++ detail
  match f with
  | .file e => p.failure (text detailText) (if e.isSystem then .files else .badEntry)
  | .system _ => p.failure (text detailText) .files
  | .damagedArchive => p.failure (text detailText) .damagedArchive
  | .badValue => p.failure (text detailText) .badEntry
  | .badText => p.failure (text detailText) .badText
  | .escapes e root => p.failure (text (Failure.escapes e root).message) .badEntry
  | f => f

/-- Removes the directory that stands where the archive is to be unpacked. -/
def clear (p : Provision) (fs : FileSystem) (cwd : Path) : Except FileError FileSystem :=
  match fs.pathExists cwd p.target with
  | .error e => .error e
  | .ok false => .ok fs
  | .ok true =>
    match fs.get? (p.target.location cwd) with
    | some (.file _) => .error .notDirectory
    | _ => fs.removeTree (p.target.location cwd)

/-- Makes the directory that the archive is to be unpacked into, an empty one. -/
def prepare (p : Provision) (fs : FileSystem) (cwd : Path) : FileSystem × Except Failure Unit :=
  match p.clear fs cwd with
  | .error e => (fs, .error (.file e))
  | .ok fs =>
    match fs.makeNew cwd p.target with
    | (fs, .error e) => (fs, .error (.file e))
    | (fs, .ok _) => (fs, .ok ())

/-- Removes what stands where the archive is to be unpacked, makes the directory and unpacks the
archive. -/
def extract (p : Provision) (fs : FileSystem) (cwd archive : Path) :
    FileSystem × Except Failure Unit :=
  match p.prepare fs cwd with
  | (fs, .error f) => (fs, .error f)
  | (fs, .ok ()) => Archive.unpackFile fs cwd archive p.target

/-- Unpacks the archive: the files afterwards and the root of the installation. -/
def finish (p : Provision) (fs : FileSystem) (cwd archive : Path) :
    FileSystem × Except Failure Path :=
  match p.extract fs cwd archive with
  | (fs, .ok ()) => (fs, .ok (p.homeIn cwd))
  | (fs, .error f) => (fs, .error (p.extractionFailure archive f))

/-- Provides the installation: the files afterwards and its root. A search changes files and comes
to an archive or fails. -/
def ensure (p : Provision) (fs : FileSystem) (cwd : Path)
    (search : FileSystem → FileSystem × Except Failure Path) : FileSystem × Except Failure Path :=
  match p.given? with
  | some home => (fs, .ok home)
  | none =>
    match search fs with
    | (fs, .error f) => (fs, .error (p.searchFailure f))
    | (fs, .ok archive) => p.finish fs cwd archive

end Provision

end ServerRun
