import ServerRun.Settings.Check
import ServerRun.File.System

/-! Loading settings. A settings file counts as given values, below the values given besides it, and
the settings are constructed from them and from what lies below: variables of the environment, a
variables file and the defaults. Two libraries are called for that: one reads the document in the
settings file, the other constructs settings. -/

namespace ServerRun.Settings

/-- What settings are read from, besides given values. -/
structure Sources where
  files : FileSystem
  cwd : Path
  environment : List (String × String)
  /-- The home of the user, if it is known. -/
  home : Option Path := none

/-- The libraries that settings are loaded with. -/
structure Library where
  /-- The value of the document in a file of some bytes, or what reading it raises. -/
  document : List UInt8 → Except Failure Datum
  /-- The settings for values given by name, or what their construction raises. -/
  construct : Sources → List (String × Datum) → Except Failure Settings

/-- The settings file to read and whether it has to be there: the one asked for, the one that the
environment names, or the default one. -/
def Sources.settingsFile (s : Sources) (asked : Option Path) : Path × Bool :=
  match asked with
  | some p => (p, true)
  | none =>
    match Fields.get? s.environment "ASRUN_SETTINGS" with
    | some p => if p = "" then (.ofString "asrun.yaml", false) else (.ofString p, true)
    | none => (.ofString "asrun.yaml", false)

/-- The entries of a settings document: those of its mapping, and none if it is empty. The items of
a set are no named values. -/
def documentEntries (d : Datum) : Except Failure (List (Datum × Datum)) :=
  if d.isTruthy then
    match d with
    | .map es => .ok es
    | .set _ => .error .nonTextKey
    | _ => .error .noMapping
  else .ok []

/-- Entries whose keys all are texts. -/
def requireTextKeys (es : List (Datum × Datum)) : Except Failure (List (String × Datum)) :=
  if es.all fun e => e.1.text?.isSome then .ok (Datum.textEntries es) else .error .nonTextKey

/-- The overriding values that count: all but null. -/
def counting (overrides : List (String × Datum)) : List (String × Datum) :=
  overrides.filter fun o => match o.2 with | .null => false | _ => true

namespace Library

variable (lib : Library)

/-- The entries of the settings file; none if there is no file and none was asked for. -/
def entries (s : Sources) (asked : Option Path) : Except Failure (List (Datum × Datum)) :=
  let (path, needed) := s.settingsFile asked
  match s.files.pathExists s.cwd path with
  | .error e => .error (.file e)
  | .ok false => if needed then .error (.settingsNotFound path) else .ok []
  | .ok true =>
    match s.files.fileBytes s.cwd path with
    | .error e => .error (.file e)
    | .ok bytes =>
      match lib.document bytes with
      | .error f => .error f
      | .ok d => documentEntries d

/-- The values of the settings file, whose keys have to be texts. -/
def values (s : Sources) (asked : Option Path) : Except Failure (List (String × Datum)) := do
  requireTextKeys (← lib.entries s asked)

/-- Settings from a settings file, the environment and overriding values. -/
def load (s : Sources) (asked : Option Path) (overrides : List (String × Datum)) :
    Except Failure Settings := do
  let values ← lib.values s asked
  lib.construct s (Fields.merge values (counting overrides))

end Library

end ServerRun.Settings
