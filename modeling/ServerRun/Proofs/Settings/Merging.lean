import Mathlib.Data.List.Basic
import ServerRun.Proofs.Settings.Check
import ServerRun.Proofs.Settings.Nested
import ServerRun.Settings.Standard

/-! What settings are put together from. A library that describes how it merges sources gives each
of them entries and lays these over one another; from there the first source that defines a field
decides it, and the first one that defines a key of a record decides the key. -/

namespace ServerRun.Settings

open Datum

/-- How a library takes settings from their sources. -/
structure Merging where
  /-- Whether a given value of some name is an option of the library and none of a field. -/
  isOption : String → Bool
  conversions : Conversions
  /-- The entries for given values. -/
  given : List (String × Datum) → List (Datum × Datum)
  /-- The variables of the variables file. -/
  fileVariables : Sources → Except Failure Variables
  /-- The entries for variables. -/
  entries : Variables → Except Failure (List (Datum × Datum))

namespace Merging

variable (m : Merging)

/-- The settings for given values and what lies below them. -/
def construct (s : Sources) (values : List (String × Datum)) : Except Failure Settings := do
  let environment ← m.entries s.variables
  let file ← m.entries (← m.fileVariables s)
  (check m.conversions s.homeDirectory s.cwd
    (textEntries (Settings.layers (m.given values) environment file))).mapError .invalid

/-- What a library that constructs settings says about the way in which it takes them from their
sources, for given values that set none of its options. -/
structure Describes (lib : Library) : Prop where
  constructs {s : Sources} {values : List (String × Datum)} {result : Settings}
    (hoptions : ∀ v ∈ values, m.isOption v.1 = false)
    (h : lib.construct s values = .ok result) : m.construct s values = .ok result
  reads : m.conversions.Reads
  /-- A value is given to a field under the name of the field. -/
  given {f : String × Form} (hf : f ∈ forms) {values : List (String × Datum)} {v : Datum}
    (h : Fields.get? values f.1 = some v) : valueAt? (m.given values) f.1 = some v
  distinct_given (values : List (String × Datum)) : Distinct (m.given values)
  file_isTable {s : Sources} {vars : Variables} (h : m.fileVariables s = .ok vars) : vars.IsTable
  distinct {vars : Variables} {es : List (Datum × Datum)} (h : m.entries vars = .ok es) :
    Distinct es
  /-- The text of its variable is the value of a field. -/
  plain {field : String} (hf : (field, .plain) ∈ forms) {vars : Variables}
    {es : List (Datum × Datum)} (h : m.entries vars = .ok es) :
    valueAt? es field = (vars.text? field).map .str
  /-- The variable of a list holds it as JSON. -/
  list {field : String} (hf : (field, .list) ∈ forms) {vars : Variables}
    {es : List (Datum × Datum)} (h : m.entries vars = .ok es) {text : String} {xs : List Json}
    (htext : vars.text? field = some text) (hparse : Json.parse? text = some (.arr xs)) :
    valueAt? es field = some (.ofJson (.arr xs))
  /-- A key of a record has a variable of its own, which comes before the object that the variable
  of the record holds as JSON. -/
  record {field : String} (hf : (field, .batch) ∈ forms) {key : String} (hkey : key ∈ batchKeys)
    {vars : Variables} (hvars : vars.IsTable) {es : List (Datum × Datum)}
    (h : m.entries vars = .ok es) {members : List (Datum × Datum)}
    (hobject : vars.object? field = some members) :
    Shows (member? (valueAt? es field) key)
      ((vars.named? field key).or ((spelt? members key).map (·.2)))

end Merging

/-! ### the sources, the strongest first -/

/-- The first value that is there. -/
def first (slots : List (Option Datum)) : Option Datum := slots.findSome? id

theorem first_cons (slot : Option Datum) (slots : List (Option Datum)) :
    first (slot :: slots) = slot.or (first slots) := by
  cases slot <;> rfl

theorem first_append (slots slots' : List (Option Datum)) :
    first (slots ++ slots') = (first slots).or (first slots') :=
  List.findSome?_append

/-- A source of variables with the entries that a library makes of them. -/
structure Layer where
  vars : Variables
  entries : List (Datum × Datum)

namespace Layer

variable (l : Layer)

/-- What variables say about a field that is no record: the text, or for a list its JSON. -/
def value? (f : String × Form) : Option Datum :=
  match f.2, (l.vars.text? f.1).bind Json.parse? with
  | .plain, _ => (l.vars.text? f.1).map .str
  | _, some (.arr xs) => some (.ofJson (.arr xs))
  | _, _ => valueAt? l.entries f.1

/-- What variables say about a key of a record, the strongest first: the variable of the key, and
the object that the variable of the record holds. -/
def keySlots (field key : String) : List (Option Datum) :=
  match l.vars.object? field with
  | some members => [l.vars.named? field key, (spelt? members key).map (·.2)]
  | none => [none, member? (valueAt? l.entries field) key]

end Layer

/-- What the sources of settings say, the strongest first. -/
structure Layers where
  overrides : List (String × Datum)
  document : List (String × Datum)
  /-- The entries that a library makes of these two. -/
  given : List (Datum × Datum)
  environment : Layer
  file : Layer

namespace Layers

variable (l : Layers)

/-- What is given for a field, the strongest first: an overriding value, a key of the settings file,
and what a library takes from these under another name. -/
def givenSlots (field : String) : List (Option Datum) :=
  [Schema.valueOf? l.overrides field, Fields.get? l.document field, valueAt? l.given field]

/-- What the sources say about a field that is no record, the strongest first. -/
def fieldSlots (f : String × Form) : List (Option Datum) :=
  l.givenSlots f.1 ++ [l.environment.value? f, l.file.value? f]

/-- What the sources say about a key of a record, the strongest first. -/
def keySlots (field key : String) : List (Option Datum) :=
  member? (first (l.givenSlots field)) key ::
    (l.environment.keySlots field key ++ l.file.keySlots field key)

/-- The value of a field by precedence. -/
def choice? (f : String × Form) : Option Datum :=
  match f.2 with
  | .batch => some (.map (batchKeys.filterMap fun key =>
      (first (l.keySlots f.1 key)).map (Datum.str key, ·)))
  | _ => first (l.fieldSlots f)

/-- The entries of the settings by precedence. -/
def chosen : List (Datum × Datum) :=
  forms.filterMap fun f => (l.choice? f).map (Datum.str f.1, ·)

/-- The entries of the settings from all sources. -/
def entries : List (Datum × Datum) :=
  Settings.layers l.given l.environment.entries l.file.entries

end Layers

/-- Values from the strongest source downwards that are the same down to the first one there is. -/
inductive SameAbove : List (Option Datum) → List (Option Datum) → Prop
  | nil : SameAbove [] []
  | defined (v : Datum) (below below' : List (Option Datum)) :
      SameAbove (some v :: below) (some v :: below')
  | silent {slots slots' : List (Option Datum)} (h : SameAbove slots slots') :
      SameAbove (none :: slots) (none :: slots')

/-- Sources that differ only in what a stronger source decides. -/
structure Layers.SameAbove (l l' : Layers) : Prop where
  fields : ∀ f ∈ forms, f.2 ≠ .batch → Settings.SameAbove (l.fieldSlots f) (l'.fieldSlots f)
  keys : ∀ field, (field, Form.batch) ∈ forms → ∀ key ∈ batchKeys,
    Settings.SameAbove (l.keySlots field key) (l'.keySlots field key)

/-- The sources of settings, as a library takes them. -/
def Merging.layers (m : Merging) (lib : Library) (s : Sources) (asked : Option Path)
    (overrides : List (String × Datum)) : Except Failure Layers := do
  let document ← lib.values s asked
  let vars ← m.fileVariables s
  let environment ← m.entries s.variables
  let file ← m.entries vars
  .ok
    { overrides := counting overrides
      document
      given := m.given (Fields.merge document (counting overrides))
      environment := ⟨s.variables, environment⟩
      file := ⟨vars, file⟩ }

/-- No overriding value and no key of the settings file is an option of a library. -/
def Merging.NoOptions (m : Merging) (lib : Library) (s : Sources) (asked : Option Path)
    (overrides : List (String × Datum)) : Prop :=
  ∀ document, lib.values s asked = .ok document →
    ∀ v ∈ Fields.merge document (counting overrides), m.isOption v.1 = false

/-! ### what the entries of all sources show -/

theorem nodup_forms : (forms.map (·.1)).Nodup := by decide +kernel

theorem nodup_batchKeys : (batchKeys.map id).Nodup := by decide

variable {m : Merging} {lib : Library} {s : Sources} {asked : Option Path}
  {overrides : List (String × Datum)} {l : Layers} {result : Settings} {field key : String}
  {f : String × Form}

theorem valueAt?_chosen (l : Layers) (hf : f ∈ forms) : valueAt? l.chosen f.1 = l.choice? f :=
  valueAt?_filterMap (fun f : String × Form => f.1) nodup_forms l.choice? hf

/-- Entries that a library makes of variables. -/
structure Layer.Of (m : Merging) (l : Layer) : Prop where
  isTable : l.vars.IsTable
  entries : m.entries l.vars = .ok l.entries

namespace Layer.Of

variable {l : Layer}

theorem distinct (hm : m.Describes lib) (h : l.Of m) : Distinct l.entries := hm.distinct h.entries

theorem valueAt?_eq (hm : m.Describes lib) (h : l.Of m) (hf : f ∈ forms) (hform : f.2 ≠ .batch) :
    valueAt? l.entries f.1 = l.value? f := by
  obtain ⟨field, form⟩ := f
  cases form with
  | batch => exact absurd rfl hform
  | plain => exact hm.plain hf h.entries
  | list =>
    rw [value?]
    split
    · rename_i hform'
      cases hform'
    · rename_i xs hparse hlist
      obtain ⟨text, htext, hparse⟩ := Option.bind_eq_some_iff.mp hparse
      exact hm.list hf h.entries htext hparse
    · rfl

theorem shows_keySlots (hm : m.Describes lib) (h : l.Of m) (hf : (field, .batch) ∈ forms)
    (hkey : key ∈ batchKeys) :
    Shows (member? (valueAt? l.entries field) key) (first (l.keySlots field key)) := by
  rw [keySlots]
  cases hobject : l.vars.object? field with
  | none =>
    dsimp only
    rw [first_cons, first_cons, Option.none_or, show first [] = none from rfl, Option.or_none]
    exact .refl _
  | some members =>
    dsimp only
    rw [first_cons, first_cons, show first [] = none from rfl, Option.or_none]
    exact hm.record hf hkey h.isTable h.entries hobject

end Layer.Of

/-- Sources as a library takes them. -/
structure Layers.Of (m : Merging) (l : Layers) : Prop where
  given : l.given = m.given (Fields.merge l.document l.overrides)
  environment : l.environment.Of m
  file : l.file.Of m

namespace Layers.Of

theorem of_layers (hm : m.Describes lib) (h : m.layers lib s asked overrides = .ok l) :
    l.Of m := by
  obtain ⟨document, -, h⟩ := ok_of_bind h
  obtain ⟨vars, hvars, h⟩ := ok_of_bind h
  obtain ⟨environment, henvironment, h⟩ := ok_of_bind h
  obtain ⟨file, hfile, h⟩ := ok_of_bind h
  cases h
  exact ⟨rfl, ⟨Variables.isTable_of _, henvironment⟩, ⟨hm.file_isTable hvars, hfile⟩⟩

theorem valueAt?_given (hm : m.Describes lib) (h : l.Of m) (hf : f ∈ forms) :
    valueAt? l.given f.1 = first (l.givenSlots f.1) := by
  have hfirst : first (l.givenSlots f.1) =
      (Fields.get? (Fields.merge l.document l.overrides) f.1).or (valueAt? l.given f.1) := by
    rw [givenSlots, first_cons, first_cons, first_cons, show first [] = none from rfl,
      Option.or_none, Fields.get?_merge_reverse, Option.or_assoc]
    rfl
  rw [hfirst]
  cases hv : Fields.get? (Fields.merge l.document l.overrides) f.1 with
  | none => rw [Option.none_or]
  | some v => rw [h.given, hm.given hf hv, Option.some_or]

/-- What all sources give to a field, laid over one another: each of them has the field once, so
that its value is laid over the value below, and over that alone. -/
theorem valueAt?_entries (hm : m.Describes lib) (h : l.Of m) (hf : f ∈ forms) :
    valueAt? l.entries f.1 =
      lay? (lay? (first (l.givenSlots f.1)) (valueAt? l.environment.entries f.1))
        (valueAt? l.file.entries f.1) := by
  have hgiven : Distinct l.given := h.given ▸ hm.distinct_given _
  have henvironment := h.environment.distinct hm
  rw [entries, Settings.layers,
    valueAt?_layEntries (h.file.distinct hm) (henvironment.layEntries _),
    valueAt?_layEntries henvironment hgiven, h.valueAt?_given hm hf]

/-- A field that is no record shows the first thing that the sources say about it. -/
theorem shows_fieldSlots (hm : m.Describes lib) (h : l.Of m) (hf : f ∈ forms)
    (hform : f.2 ≠ .batch) : Shows (valueAt? l.entries f.1) (first (l.fieldSlots f)) := by
  have hfirst : first (l.fieldSlots f) =
      ((first (l.givenSlots f.1)).or (l.environment.value? f)).or (l.file.value? f) := by
    rw [fieldSlots, first_append, first_cons, first_cons, show first [] = none from rfl,
      Option.or_none, Option.or_assoc]
  rw [h.valueAt?_entries hm hf, h.environment.valueAt?_eq hm hf hform,
    h.file.valueAt?_eq hm hf hform, hfirst]
  exact (shows_lay? _ _).or (shows_lay? _ _) (.refl _)

/-- A key of a record shows the first thing that the sources say about it. -/
theorem shows_keySlots (hm : m.Describes lib) (h : l.Of m) (hf : (field, .batch) ∈ forms)
    (hrecord : IsRecord (valueAt? l.entries field)) (hkey : key ∈ batchKeys) :
    Shows (member? (valueAt? l.entries field) key) (first (l.keySlots field key)) := by
  have hfirst : first (l.keySlots field key) =
      ((member? (first (l.givenSlots field)) key).or
        (first (l.environment.keySlots field key))).or (first (l.file.keySlots field key)) := by
    rw [keySlots, first_cons, first_append, Option.or_assoc]
  rw [h.valueAt?_entries hm hf] at hrecord ⊢
  have habove := (hrecord.of_lay?.shows_member? key).or (.refl _)
    (h.environment.shows_keySlots hm hf hkey)
  rw [hfirst]
  exact (hrecord.shows_member? key).or habove (h.file.shows_keySlots hm hf hkey)

/-- What the entries from all sources are checked to, the entries by precedence are checked to. -/
theorem check_chosen (hm : m.Describes lib) (h : l.Of m) (home cwd : Path) :
    Checked.Implies (check m.conversions home cwd (textEntries l.entries))
      (check m.conversions home cwd (textEntries l.chosen)) := by
  refine implies_check hm.reads (fun f hf hform => ?_) (fun field hf => ?_) home cwd
  · have hchoice : valueAt? l.chosen f.1 = first (l.fieldSlots f) := by
      rw [valueAt?_chosen l hf, choice?]
      split
      · rename_i hbatch
        exact absurd hbatch hform
      · rfl
    exact hchoice ▸ h.shows_fieldSlots hm hf hform
  · refine ⟨_, valueAt?_chosen l hf, fun hrecord key hkey => ?_⟩
    have hentry :=
      valueAt?_filterMap id nodup_batchKeys (fun key => first (l.keySlots field key)) hkey
    exact hentry ▸ h.shows_keySlots hm hf hrecord hkey

end Layers.Of

/-- Settings that are loaded are those that the entries by precedence are checked to. -/
theorem check_of_load (hm : m.Describes lib) (hoptions : m.NoOptions lib s asked overrides)
    (h : lib.load s asked overrides = .ok result) :
    ∃ l, m.layers lib s asked overrides = .ok l ∧
      check m.conversions s.homeDirectory s.cwd (textEntries l.chosen) = .ok result := by
  obtain ⟨document, hdocument, h⟩ := ok_of_bind h
  have hconstruct := hm.constructs (hoptions document hdocument) h
  obtain ⟨environment, henvironment, hconstruct⟩ := ok_of_bind hconstruct
  obtain ⟨vars, hvars, hconstruct⟩ := ok_of_bind hconstruct
  obtain ⟨file, hfile, hconstruct⟩ := ok_of_bind hconstruct
  obtain ⟨l, hl, hentries⟩ : ∃ l, m.layers lib s asked overrides = .ok l ∧
      l.entries = Settings.layers (m.given (Fields.merge document (counting overrides)))
        environment file := by
    simp only [Merging.layers, hdocument, hvars, henvironment, hfile, bind, Except.bind]
    exact ⟨_, rfl, rfl⟩
  rw [← hentries] at hconstruct
  refine ⟨l, hl, (Layers.Of.of_layers hm hl).check_chosen hm s.homeDirectory s.cwd result ?_⟩
  cases hcheck : check m.conversions s.homeDirectory s.cwd (textEntries l.entries) with
  | error issues =>
    rw [hcheck] at hconstruct
    cases hconstruct
  | ok result' =>
    rw [hcheck] at hconstruct
    cases hconstruct
    rfl

/-! ### sources that are changed below -/

theorem SameAbove.refl (slots : List (Option Datum)) : SameAbove slots slots := by
  induction slots with
  | nil => exact .nil
  | cons slot slots ih =>
    cases slot with
    | none => exact .silent ih
    | some v => exact .defined v slots slots

theorem SameAbove.first_eq {slots slots' : List (Option Datum)} (h : SameAbove slots slots') :
    first slots = first slots' := by
  induction h with
  | nil => rfl
  | defined v below below' => rfl
  | silent h ih => rw [first_cons, first_cons, ih]

theorem Layers.SameAbove.chosen_eq {l' : Layers} (h : l.SameAbove l') : l.chosen = l'.chosen := by
  refine List.filterMap_congr fun f hf => congrArg (Option.map _) ?_
  obtain ⟨field, form⟩ := f
  cases form with
  | batch =>
    refine congrArg (fun es => some (Datum.map es)) (List.filterMap_congr fun key hkey => ?_)
    rw [(h.keys field hf key hkey).first_eq]
  | plain => exact (h.fields (field, .plain) hf Form.noConfusion).first_eq
  | list => exact (h.fields (field, .list) hf Form.noConfusion).first_eq

end ServerRun.Settings
