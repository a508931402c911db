import ServerRun.Json.Reader
import ServerRun.Schema.Datum
import ServerRun.Error

/-! Settings from environment variables. The variable of a field is its name after a fixed start, in
any case. The value of a list or of a record is JSON; a field of a record also has a variable of its
own, whose name goes on after two underscores. -/

namespace ServerRun.Settings

/-- The form of the values of a field. -/
inductive Form where
  | plain
  | list
  | batch
deriving DecidableEq, Repr

/-- The fields of the settings with their forms. -/
def forms : List (String × Form) :=
  [("jboss_home", .plain), ("group_id", .plain), ("artifact_id", .plain), ("archive_type", .plain),
    ("version", .plain), ("home_prefix", .plain), ("modules_path", .plain),
    ("bundles_path", .plain), ("local_repository", .plain), ("remote_repositories", .list),
    ("jvm_args", .plain), ("java_home", .plain), ("server_config", .plain), ("topology", .plain),
    ("startup_timeout", .plain), ("shutdown_grace_period", .plain), ("poll_interval", .plain),
    ("hostname", .plain), ("port", .plain), ("username", .plain), ("password", .plain),
    ("before_deployment", .batch), ("after_deployment", .batch), ("project_dir", .plain),
    ("target_dir", .plain), ("filename", .plain)]

/-- The start of the names of variables, in lower case. -/
def variableStart : String := "asrun_"

/-- A text in lower case. -/
def lower (s : String) : String := String.ofList (s.toList.map Char.toLower)

/-- Variables by their names in lower case; of several the last one counts. -/
abbrev Variables := List (String × Option String)

def Variables.of (vars : List (String × Option String)) : Variables :=
  Fields.merge [] (vars.map fun v => (lower v.1, v.2))

/-- The parts of a name between double underscores. -/
def splitNested : List Char → List (List Char)
  | [] => [[]]
  | '_' :: '_' :: cs => [] :: splitNested cs
  | c :: cs =>
    match splitNested cs with
    | p :: ps => (c :: p) :: ps
    | [] => [[c]]

/-- Whether a part of a name leads to a field, by its own name or with the start of variables. -/
def leadsTo (part field : String) : Bool := part == field || part == variableStart ++ field

/-- Whether a nested variable of a field takes a list, which is then JSON. -/
def takesList (form : Form) (parts : List String) : Bool :=
  match form, parts with
  | .batch, [part] => leadsTo part "commands"
  | _, _ => false

/-- Puts a value under a chain of keys; a key that already has another value than a mapping keeps
it. -/
def putNested (v : Datum) : List String → List (Datum × Datum) → List (Datum × Datum)
  | [], es => es
  | [k], es => Datum.layEntries (es.filter fun e => e.1.text? != some k) [(.str k, v)]
  | k :: ks, es =>
    match es.find? fun e => e.1.text? == some k with
    | some (_, .map inner) =>
      es.map fun e => if e.1.text? == some k then (e.1, .map (putNested v ks inner)) else e
    | some _ => es
    | none => es ++ [(.str k, .map (putNested v ks []))]

/-- Reads a value as JSON. -/
def ofJsonText (s : String) : Except Failure Datum :=
  match Json.parse? s with
  | some j => .ok (Datum.ofJson j)
  | none => .error .malformedSetting

/-- The value of a nested variable. -/
def nestedValue (form : Form) (parts : List String) : Option String → Except Failure Datum
  | none => .ok .null
  | some s => if takesList form parts && s != "" then ofJsonText s else .ok (.str s)

/-- Puts the value of a variable under the keys that its name leads to, if the name goes on from the
one of the variable of a field. -/
def putVariable (field : String) (form : Form) (es : List (Datum × Datum))
    (v : String × Option String) : Except Failure (List (Datum × Datum)) :=
  let start := (variableStart ++ field ++ "__").toList
  let name := v.1.toList
  if start.isPrefixOf name then
    let parts := (splitNested (name.drop start.length)).map String.ofList
    (nestedValue form parts v.2).map fun d => putNested d parts es
  else .ok es

/-- The entries of a field that nested variables give. -/
def nested (vars : Variables) (field : String) (form : Form) :
    Except Failure (List (Datum × Datum)) :=
  vars.foldlM (putVariable field form) []

/-- The keys of a record. -/
def batchKeys : List String := ["commands", "batch"]

/-- A key in the spelling of the field that it names, if it names one. -/
def fieldKey (k : Datum) : Datum :=
  match k.text? with
  | some name => if batchKeys.contains (lower name) then .str (lower name) else k
  | none => k

/-- The keys of a record in the spelling of its fields. -/
def respell (form : Form) (es : List (Datum × Datum)) : List (Datum × Datum) :=
  match form with
  | .batch =>
    es.foldl (fun done e =>
      let key := fieldKey e.1
      Datum.layEntries (done.filter fun d => d.1.text? != key.text?) [(key, e.2)]) []
  | _ => es

/-- The value that variables give to a field, if they give one. -/
def fieldValue (vars : Variables) (field : String) (form : Form) : Except Failure (Option Datum) :=
  let given := (Fields.get? vars (variableStart ++ field)).join
  match form, given with
  | .plain, given => .ok (given.map .str)
  | form, none => do
    match ← nested vars field form with
    | [] => .ok none
    | es => .ok (some (.map (respell form es)))
  | form, some text => do
    match ← ofJsonText text with
    | .null => .ok none
    | .map es => do
      let more ← nested vars field form
      .ok (some (.map (respell form (Datum.layEntries es more))))
    | d => .ok (some d)

/-- The entries of the settings that variables give. -/
def ofVariables (vars : Variables) : Except Failure (List (Datum × Datum)) := do
  let es ← forms.mapM fun f => (fieldValue vars f.1 f.2).map fun d => d.map (Datum.str f.1, ·)
  .ok es.reduceOption

end ServerRun.Settings
