import ServerRun.Model.Coordinate
import ServerRun.File.System
import ServerRun.Http.Fetch
import ServerRun.Error

/-! Artifacts by their coordinates: from a local repository or, failing that, from the first remote
one that delivers them. What is downloaded is collected in a file of its own beside the artifact's
place, and takes that place only when it is complete. -/

namespace ServerRun

/-- A local repository and the remote ones behind it. -/
structure Repository where
  root : Path
  remotes : List String
deriving Repr

namespace Repository

/-- A repository with given addresses of remote ones; slashes at their ends do not count. -/
def ofAddresses (root : Path) (remotes : List String) : Repository :=
  ⟨root, remotes.map Http.withoutSlashes⟩

/-- The place of an artifact in the local repository. -/
def localPath (r : Repository) (c : Coordinate) : Path := r.root / c.relativePath

/-- The address of an artifact in a remote repository. -/
def remoteUrl (remote : String) (c : Coordinate) : String :=
  remote ++ "/" ++ c.relativePath.toString

/-- What is looked for, and where. -/
structure Search where
  repository : Repository
  coordinate : Coordinate
  /-- Where relative paths start. -/
  cwd : Path
deriving Repr

/-- Where a search waits: for an answer, or for more of the content of one. -/
inductive Point where
  | asking (remote : String) (rest failures : List String)
  | storing (part : List String) (remote : String) (rest failures : List String)
deriving Repr

/-- What a search hears while it waits. -/
inductive News where
  | refused (fault : Http.FetchFault)
  | status (code : Nat)
  | chunk (bytes : List UInt8)
  | complete
  | broken (message : String)
  /-- The local file cannot be made or written. -/
  | unwritable
  | cancelled
deriving Repr

/-- What a search does besides changing files. -/
inductive Effect where
  | log (record : Log.Record)
  | fetch (url : String)
deriving Repr

/-- What a search has come to. -/
inductive Progress where
  | waiting (point : Point)
  | ended (result : Except Failure Path)

/-- A turn of a search: the files afterwards, the effects in order, and what it has come to. -/
structure Turn where
  files : FileSystem
  effects : List Effect
  progress : Progress

namespace Search

/-- The place where the artifact is to be. -/
def target (s : Search) : Path := s.repository.localPath s.coordinate

/-- Goes on with the next remote repository, or gives up. -/
def tryNext (s : Search) (files : FileSystem) (effects : List Effect) (failures : List String) :
    List String → Turn
  | [] =>
    ⟨files, effects, .ended (.error (.run
      (.resolution s.coordinate.toString (String.intercalate "; " failures))))⟩
  | remote :: rest =>
    let url := remoteUrl remote s.coordinate
    let record : Log.Record :=
      ⟨.info, "Downloading artifact",
        [("coordinate", .str s.coordinate.toString), ("url", .str url)]⟩
    ⟨files, effects ++ [.log record, .fetch url], .waiting (.asking remote rest failures)⟩

/-- Goes on after a failure of a remote repository, which is logged. -/
def failed (s : Search) (files : FileSystem) (remote : String) (rest failures : List String)
    (reason : String) : Turn :=
  let record : Log.Record :=
    ⟨.warning, "Download failed",
      [("url", .str (remoteUrl remote s.coordinate)), ("error", .str reason)]⟩
  s.tryNext files [.log record] (failures ++ [remote ++ ": " ++ reason]) rest

/-- The failure of a search that has no remote repositories. -/
def unconfigured (s : Search) : Failure :=
  .run (.resolution s.coordinate.toString
    ("not in " ++ s.repository.root.toString ++ " and no remote repositories"))

/-- Looks for the local file first; where the system does not say whether it is there, the search
fails with the system's error. -/
def start (s : Search) (files : FileSystem) : Turn :=
  match files.pathIsFile s.cwd s.target with
  | .error e => ⟨files, [], .ended (.error (.file e))⟩
  | .ok true => ⟨files, [], .ended (.ok s.target)⟩
  | .ok false =>
    if s.repository.remotes = [] then ⟨files, [], .ended (.error s.unconfigured)⟩
    else s.tryNext files [] [] s.repository.remotes

/-- Goes on where the local file cannot be made or put in place: an error of the system counts as a
failure of the remote repository, and any other ends the search. -/
def unstored (s : Search) (files : FileSystem) (remote : String) (rest failures : List String)
    (e : FileError) : Turn :=
  if e.isSystem then s.failed files remote rest failures detailText
  else ⟨files, [], .ended (.error (.file e))⟩

/-- The text for a status that is neither success nor absence. -/
def statusText (code : Nat) : String := "<HTTP " ++ Nat.repr code ++ ">"

/-- Puts the complete download in the artifact's place. -/
def store (s : Search) (files : FileSystem) (part : List String) (remote : String)
    (rest failures : List String) : Turn :=
  let content := match files.get? part with
    | some (.file bytes) => bytes
    | _ => []
  let cleared := files.erase part
  match files.locate s.cwd s.target with
  | .error e => s.unstored cleared remote rest failures e
  | .ok place =>
    if files.isDirectory place then s.failed cleared remote rest failures detailText
    else
      let record : Log.Record :=
        ⟨.info, "Artifact downloaded", [("path", .str s.target.toString)]⟩
      ⟨cleared.put place (.file content), [.log record], .ended (.ok s.target)⟩

/-- The turn of a search that hears news. -/
def next (s : Search) (files : FileSystem) : Point → News → Turn
  | .asking remote rest failures, .refused (.told m) => s.failed files remote rest failures m
  | .asking remote rest failures, .refused .untold =>
    s.failed files remote rest failures detailText
  | .asking _ _ _, .refused .noScheme => ⟨files, [], .ended (.error .badAddress)⟩
  | .asking remote rest failures, .status code =>
    if code = 404 then s.tryNext files [] (failures ++ [remote ++ ": not found"]) rest
    else if 200 ≤ code ∧ code < 300 then
      match files.makeOpen s.cwd s.target.parent with
      | (files, .error e) => s.unstored files remote rest failures e
      | (files, .ok directory) =>
        let part := directory ++ [files.freshName s.target.name]
        ⟨files.put part (.file []), [], .waiting (.storing part remote rest failures)⟩
    else s.failed files remote rest failures (statusText code)
  | .storing part remote rest failures, .chunk bytes =>
    ⟨files.extendFile part bytes, [], .waiting (.storing part remote rest failures)⟩
  | .storing part remote rest failures, .complete => s.store files part remote rest failures
  | .storing part remote rest failures, .broken m =>
    s.failed (files.erase part) remote rest failures m
  | .asking remote rest failures, .unwritable =>
    match files.makeOpen s.cwd s.target.parent with
    | (files, .error e) => s.unstored files remote rest failures e
    | (files, .ok _) => s.failed files remote rest failures detailText
  | .storing part remote rest failures, .unwritable =>
    s.failed (files.erase part) remote rest failures detailText
  | .asking _ _ _, .cancelled => ⟨files, [], .ended (.error .cancelled)⟩
  | .storing part _ _ _, .cancelled => ⟨files.erase part, [], .ended (.error .cancelled)⟩
  | p, _ => ⟨files, [], .waiting p⟩

end Search

/-- What a search hears of an answer to its request: the content only if the status is one of
success. -/
def newsOf : Except Http.FetchFault Http.Response → List News
  | .error f => [.refused f]
  | .ok r =>
    if r.isSuccess then
      .status r.status :: r.chunks.map .chunk ++
        [match r.broken with
          | some m => .broken m
          | none => .complete]
    else [.status r.status]

/-- Takes in news of one answer until the search asks again or ends. -/
def hearAll (s : Search) (files : FileSystem) (p : Point) : List News → Turn
  | [] => ⟨files, [], .waiting p⟩
  | n :: ns =>
    let t := s.next files p n
    match t.progress with
    | .ended _ => t
    | .waiting q => if t.effects.isEmpty then hearAll s t.files q ns else t

end Repository

end ServerRun
