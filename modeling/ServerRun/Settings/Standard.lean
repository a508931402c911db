import ServerRun.Settings.Load
import ServerRun.Settings.VariableFile
import ServerRun.Settings.Variables
import ServerRun.Yaml.Value

/-! The libraries that settings are loaded with, as far as they are written out here. Values given
directly win over variables of the environment, those win over the variables file of the current
directory, and that one wins over the defaults; records are merged key by key. -/

namespace ServerRun.Settings

def topologyOf (d : Datum) : Checked Topology :=
  match d.text?.bind Topology.ofText? with
  | some t => .ok t
  | none => issue .choice

/-- The types of fields, as lenient as `Schema` is. -/
def Conversions.standard : Conversions where
  text := Schema.text
  path := Schema.path
  int := Schema.int
  float := Schema.float
  bool := Schema.bool
  texts := Schema.items .listType Schema.text
  topology := topologyOf
  record := Schema.record

/-- The entry for a field: of that very name or else the last one in any case. -/
def givenValue? (values : List (String × Datum)) (field : String) : Option Datum :=
  (Fields.get? values field).or ((values.reverse.find? fun v => lower v.1 == field).map (·.2))

/-- The entries of given values, under the names of their fields. -/
def givenEntries (values : List (String × Datum)) : List (Datum × Datum) :=
  forms.filterMap fun f => (givenValue? values f.1).map (Datum.str f.1, ·)

/-- The variables file, which a given value may name or do without. -/
def variablesPath? (values : List (String × Datum)) : Option Path :=
  match Fields.get? values "_env_file" with
  | none => some (.ofString ".env")
  | some (.str p) => some (.ofString p)
  | some _ => none

/-- The variables that a file binds, if it is there. -/
def Sources.variablesIn (s : Sources) (path : Path) : Except Failure Variables :=
  match s.files.pathIsFile s.cwd path with
  | .error e => .error (.file e)
  | .ok false => .ok []
  | .ok true =>
    match s.files.fileBytes s.cwd path with
    | .error e => .error (.file e)
    | .ok bytes =>
      match Text.ofUtf8? bytes with
      | none => .error .badText
      | some text =>
        .ok (.of (VariableFile.read s.environment (String.ofList (Yaml.plainLineEnds text.toList))))

/-- The variables of the variables file. -/
def Sources.fileVariables (s : Sources) (values : List (String × Datum)) :
    Except Failure Variables :=
  match variablesPath? values with
  | none => .ok []
  | some path => s.variablesIn path

/-- The variables of the environment. -/
def Sources.variables (s : Sources) : Variables := .of (s.environment.map fun v => (v.1, some v.2))

/-- The entries of the settings from all sources, the stronger laid over the weaker: the given ones
over those of the environment, and the result over those of the variables file. -/
def layers (given environment file : List (Datum × Datum)) : List (Datum × Datum) :=
  Datum.layEntries file (Datum.layEntries environment given)

/-- The home of the user, where it is known. -/
def Sources.homeDirectory (s : Sources) : Path := s.home.getD ⟨.relative, []⟩

/-- Settings from given values and the sources below them. -/
def ofValues (s : Sources) (values : List (String × Datum)) : Except Failure Settings := do
  let fileVariables ← s.fileVariables values
  let environment ← ofVariables s.variables
  let file ← ofVariables fileVariables
  let es := Datum.textEntries (layers (givenEntries values) environment file)
  if s.home.isNone ∧ (Schema.valueOf? es "local_repository").isNone then
    .error (.crash "Could not determine home directory.")
  else (check .standard s.homeDirectory s.cwd es).mapError .invalid

/-- The value of the document that bytes are. -/
def documentOf (bytes : List UInt8) : Except Failure Datum :=
  match Text.ofUtf8? bytes with
  | none => .error .badText
  | some text => (Yaml.load text).mapError Yaml.Fault.failure

/-- The libraries as written out. -/
def Library.standard : Library where
  document := documentOf
  construct := ofValues

end ServerRun.Settings
