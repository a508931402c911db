import ServerRun.Proofs.Settings.Standard

/-! Which source settings are taken from. A field has the first value that is there, of an
overriding value, the settings file, the environment, the variables file and the default; a record
is put together key by key in this way. -/

namespace ServerRun.Settings

open Datum

theorem ok_of_toOption {α β : Type} {x : Except Failure α} {f : α → β} {b : β}
    (h : x.toOption.map f = some b) : ∃ a, x = .ok a ∧ f a = b := by
  cases x with
  | error e => cases h
  | ok a => exact ⟨a, rfl, Option.some.inj h⟩

/-- Sources with a settings file and a variables file of some texts. -/
def Sources.ofTexts (document variableFile : String) (environment : List (String × String)) :
    Sources where
  files := ⟨[(["asrun.yaml"], .file document.toUTF8.toList),
    ([".env"], .file variableFile.toUTF8.toList)]⟩
  cwd := ⟨.root, []⟩
  environment
  home := some ⟨.root, ["home"]⟩

/-- A port in the settings file, in the environment and in the variables file, each of which also
says what those above it do not. -/
def portSources (port : String) : Sources :=
  .ofTexts "port: 2\nhostname: a\n" "ASRUN_PORT=4\nASRUN_USERNAME=d\nASRUN_PASSWORD=d\n"
    [("ASRUN_PORT", port), ("ASRUN_HOSTNAME", "c"), ("ASRUN_USERNAME", "c"),
      ("ASRUN_REMOTE_REPOSITORIES", "[]"), ("ASRUN_BEFORE_DEPLOYMENT__BATCH", "true")]

theorem Layer.value?_eq {l l' : Layer} {f : String × Form}
    (htext : l.vars.text? f.1 = l'.vars.text? f.1)
    (h : f.2 ≠ .plain → (((l.vars.text? f.1).bind Json.parse?).bind Json.arr?).isSome) :
    l.value? f = l'.value? f := by
  obtain ⟨field, form⟩ := f
  rw [value?, value?, ← htext]
  cases form with
  | plain => rfl
  | _ =>
    obtain ⟨xs, hxs⟩ := Option.isSome_iff_exists.mp (h Form.noConfusion)
    obtain ⟨j, hj, harr⟩ := Option.bind_eq_some_iff.mp hxs
    rw [hj]
    cases j with
    | arr xs => rfl
    | _ => cases harr

theorem Layer.keySlots_eq {l l' : Layer} {field key : String} (h : l.vars.text? field = none)
    (h' : l'.vars.text? field = none)
    (hnamed : l.vars.named? field key = l'.vars.named? field key) :
    l.keySlots field key = l'.keySlots field key := by
  have hobject {vars : Variables} (h : vars.text? field = none) :
      vars.object? field = some [] := by
    rw [Variables.object?, Variables.members?, h]
    rfl
  rw [keySlots, keySlots, hobject h, hobject h', hnamed]

/-- The layers of two ports differ in the environment alone. -/
theorem layers_portSources {l l' : Layers}
    (h : Merging.standard.layers .standard (portSources "3") none [("port", .int 1)] = .ok l)
    (h' : Merging.standard.layers .standard (portSources "5") none [("port", .int 1)] = .ok l') :
    l.overrides = [("port", .int 1)] ∧ l.environment.vars = (portSources "3").variables ∧
      l' = { l with environment := ⟨(portSources "5").variables, l'.environment.entries⟩ } := by
  obtain ⟨document, hdocument, h⟩ := ok_of_bind h
  obtain ⟨vars, hvars, h⟩ := ok_of_bind h
  obtain ⟨environment, -, h⟩ := ok_of_bind h
  obtain ⟨file, hfile, h⟩ := ok_of_bind h
  obtain ⟨document', hdocument', h'⟩ := ok_of_bind h'
  obtain ⟨vars', hvars', h'⟩ := ok_of_bind h'
  obtain ⟨environment', -, h'⟩ := ok_of_bind h'
  obtain ⟨file', hfile', h'⟩ := ok_of_bind h'
  have hpath : (portSources "3").settingsFile none = (portSources "5").settingsFile none := by
    decide +kernel
  have hvalues : Library.standard.values (portSources "3") none =
      Library.standard.values (portSources "5") none := by
    simp only [Library.values, Library.entries, hpath]
    rfl
  have hsame : (Merging.standard.fileVariables (portSources "3")).toOption =
      (Merging.standard.fileVariables (portSources "5")).toOption := by
    decide +kernel
  rw [hvalues, hdocument'] at hdocument
  cases hdocument
  rw [hvars, hvars'] at hsame
  cases hsame
  rw [hfile'] at hfile
  cases hfile
  cases h
  cases h'
  exact ⟨rfl, rfl, rfl⟩

theorem sameAbove_portSources {l l' : Layers}
    (h : Merging.standard.layers .standard (portSources "3") none [("port", .int 1)] = .ok l)
    (h' : Merging.standard.layers .standard (portSources "5") none [("port", .int 1)] = .ok l') :
    l.SameAbove l' := by
  obtain ⟨hoverrides, henvironment, hl'⟩ := layers_portSources h h'
  have htext : ∀ f ∈ forms, f.1 ≠ "port" →
      (portSources "3").variables.text? f.1 = (portSources "5").variables.text? f.1 := by
    decide +kernel
  have hlist : ∀ f ∈ forms, f.2 = .list →
      ((((portSources "3").variables.text? f.1).bind Json.parse?).bind Json.arr?).isSome := by
    decide +kernel
  have hrecord : ∀ f ∈ forms, f.2 = .batch →
      (portSources "3").variables.text? f.1 = none ∧
        (portSources "5").variables.text? f.1 = none := by
    decide +kernel
  have hnamed : ∀ f ∈ forms, ∀ key ∈ batchKeys,
      Fields.get? (portSources "3").variables (Variables.nestedName f.1 key) =
        Fields.get? (portSources "5").variables (Variables.nestedName f.1 key) := by
    decide +kernel
  rw [hl']
  constructor
  · intro f hf hform
    by_cases hport : f.1 = "port"
    · rw [Layers.fieldSlots, Layers.fieldSlots, Layers.givenSlots, Layers.givenSlots, hport,
        hoverrides]
      exact .defined (.int 1) _ _
    · have hvalue : l.environment.value? f =
          Layer.value? ⟨(portSources "5").variables, l'.environment.entries⟩ f := by
        refine Layer.value?_eq (henvironment ▸ htext f hf hport) fun hplain => ?_
        rw [henvironment]
        refine hlist f hf ?_
        cases hf2 : f.2 with
        | plain => exact absurd hf2 hplain
        | list => rfl
        | batch => exact absurd hf2 hform
      rw [Layers.fieldSlots, Layers.fieldSlots, hvalue]
      exact .refl _
  · intro field hf key hkey
    obtain ⟨hnone, hnone'⟩ := hrecord (field, .batch) hf rfl
    have hslots : l.environment.keySlots field key =
        Layer.keySlots ⟨(portSources "5").variables, l'.environment.entries⟩ field key := by
      refine Layer.keySlots_eq (henvironment ▸ hnone) hnone' ?_
      rw [henvironment, Variables.named?, hnamed (field, .batch) hf key hkey]
      rfl
    rw [Layers.keySlots, Layers.keySlots, hslots]
    exact .refl _

theorem noOptions_of_all {m : Merging} {lib : Library} {s : Sources} {asked : Option Path}
    {overrides : List (String × Datum)}
    (h : (lib.values s asked).toOption.map (fun document =>
      (Fields.merge document (counting overrides)).all fun v => !m.isOption v.1) = some true) :
    m.NoOptions lib s asked overrides := by
  intro document hdocument v hv
  rw [hdocument] at h
  simpa using List.all_eq_true.mp (Option.some.inj h) v hv

/-- Variables of a record and of its batch, of which the first holds no object. -/
def nullVariable : Sources :=
  .ofTexts "" "" [("ASRUN_BEFORE_DEPLOYMENT", "null"), ("ASRUN_BEFORE_DEPLOYMENT__BATCH", "true")]

/-- Variables of a record and of its batch, of which the first holds the batch in two spellings. -/
def respeltVariable : Sources :=
  .ofTexts "" "" [("ASRUN_BEFORE_DEPLOYMENT", "\x7b\"batch\": false, \"BATCH\": false\x7d"),
    ("ASRUN_BEFORE_DEPLOYMENT__BATCH", "true")]

/-- A settings file with an option of the library, which does without a variables file. -/
def optionDocument : Sources := .ofTexts "_env_file: null\n" "ASRUN_PORT=1\n" []

theorem exists_layers {s : Sources} {α β : Type} {f : Layers → α} {g : Settings → β} {a : α} {b : β}
    (hl : (Merging.standard.layers .standard s none []).toOption.map f = some a)
    (hresult : (Library.standard.load s none []).toOption.map g = some b) :
    ∃ l result, Merging.standard.layers .standard s none [] = .ok l ∧
      Library.standard.load s none [] = .ok result ∧ f l = a ∧ g result = b := by
  obtain ⟨l, hl, hf⟩ := ok_of_toOption hl
  obtain ⟨result, hresult, hg⟩ := ok_of_toOption hresult
  exact ⟨l, result, hl, hresult, hf, hg⟩

end ServerRun.Settings
