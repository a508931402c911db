import ServerRun.Proofs.Settings.Merging

/-! The libraries as written out merge sources as `Merging.Describes` has it. -/

namespace ServerRun.Settings

open Datum

variable {s : Sources} {vars : Variables} {es : List (Datum × Datum)}
  {values : List (String × Datum)} {form : Form} {f : String × Form}

theorem Conversions.standard_reads : Conversions.standard.Reads where
  text _ _ := nofun
  path _ _ := nofun
  int _ _ := nofun
  float _ _ := nofun
  bool _ _ := nofun
  texts _ _ := nofun
  topology _ _ := nofun
  record _ := rfl
  map_of_record {d fs} h := by
    cases d with
    | map es => exact ⟨es, rfl⟩
    | _ => cases h

/-! ### entries of fields -/

/-- Entries of fields that have a value. -/
def fieldEntries (value? : String × Form → Option Datum) : List (Datum × Datum) :=
  forms.filterMap fun f => (value? f).map (Datum.str f.1, ·)

theorem distinct_fieldEntries (value? : String × Form → Option Datum) :
    Distinct (fieldEntries value?) := by
  rw [Distinct, fieldEntries, textKeys_filterMap fun f : String × Form => f.1]
  exact nodup_forms.sublist (List.filter_sublist.map _)

theorem valueAt?_fieldEntries (value? : String × Form → Option Datum) (hf : f ∈ forms) :
    valueAt? (fieldEntries value?) f.1 = value? f :=
  valueAt?_filterMap (fun f : String × Form => f.1) nodup_forms value? hf

/-- What variables give to the fields, where they give something to all of them. -/
theorem ofVariables_ok (h : ofVariables vars = .ok es) :
    ∃ value? : String × Form → Option Datum, es = fieldEntries value? ∧
      ∀ f ∈ forms, fieldValue vars f.1 f.2 = .ok (value? f) := by
  let value? (f : String × Form) : Option Datum := (fieldValue vars f.1 f.2).toOption.join
  obtain ⟨values, hvalues, h⟩ := ok_of_bind h
  have hmap := ok_of_mapM hvalues
  have hvalue : ∀ f ∈ forms, fieldValue vars f.1 f.2 = .ok (value? f) := by
    intro f hf
    have hmem := List.mem_map_of_mem
      (f := fun f => (fieldValue vars f.1 f.2).map fun d => d.map (Datum.str f.1, ·)) hf
    rw [hmap] at hmem
    obtain ⟨e, -, he⟩ := List.mem_map.mp hmem
    obtain ⟨d, hd, -⟩ := ok_of_map he.symm
    simp only [value?, hd]
    rfl
  refine ⟨value?, ?_, hvalue⟩
  have hforms : (forms.map fun f => (value? f).map (Datum.str f.1, ·)).map Except.ok =
      values.map (Except.ok : _ → Except Failure _) := by
    rw [← hmap, List.map_map]
    refine List.map_congr_left fun f hf => ?_
    rw [hvalue f hf]
    rfl
  have hvalues' := (List.map_inj_right fun _ _ h => Except.ok.inj h).mp hforms
  cases h
  have hreduce : values.reduceOption = values.filterMap id := rfl
  rw [hreduce, ← hvalues', List.filterMap_map]
  rfl

theorem distinct_ofVariables (h : ofVariables vars = .ok es) : Distinct es := by
  obtain ⟨value?, rfl, -⟩ := ofVariables_ok h
  exact distinct_fieldEntries value?

/-- What a field has in the entries that variables give. -/
theorem fieldValue_of_ofVariables (h : ofVariables vars = .ok es) (hf : f ∈ forms) :
    fieldValue vars f.1 f.2 = .ok (valueAt? es f.1) := by
  obtain ⟨value?, rfl, hvalue⟩ := ofVariables_ok h
  rw [hvalue f hf, valueAt?_fieldEntries value? hf]

/-! ### the variables file -/

theorem Sources.isTable_of_variablesIn {path : Path} (h : s.variablesIn path = .ok vars) :
    vars.IsTable := by
  unfold variablesIn at h
  split at h
  · cases h
  · cases h
    exact ⟨List.nodup_nil, nofun⟩
  · split at h
    · cases h
    · split at h <;> cases h
      exact Variables.isTable_of _

/-! ### the merging -/

/-- The start of the names of options. -/
def namesOption (name : String) : Bool := name.toList.head? == some '_'

/-- The way in which the libraries as written out take settings from their sources. -/
def Merging.standard : Merging where
  isOption := namesOption
  conversions := .standard
  given := givenEntries
  fileVariables s := s.variablesIn (.ofString ".env")
  entries := ofVariables

theorem variablesPath?_of_noOptions (h : ∀ v ∈ values, namesOption v.1 = false) :
    variablesPath? values = some (.ofString ".env") := by
  have hnone : Fields.get? values "_env_file" = none := by
    refine Fields.get?_eq_none fun hmem => ?_
    obtain ⟨v, hv, hname⟩ := List.mem_map.mp hmem
    have hoption : namesOption "_env_file" = true := by decide +kernel
    rw [← hname, h v hv] at hoption
    cases hoption
  rw [variablesPath?, hnone]

theorem standard_constructs {result : Settings} (hoptions : ∀ v ∈ values, namesOption v.1 = false)
    (h : ofValues s values = .ok result) : Merging.standard.construct s values = .ok result := by
  obtain ⟨vars, hvars, h⟩ := ok_of_bind h
  obtain ⟨environment, henvironment, h⟩ := ok_of_bind h
  obtain ⟨file, hfile, h⟩ := ok_of_bind h
  dsimp only at h
  split at h
  · cases h
  · rw [Sources.fileVariables, variablesPath?_of_noOptions hoptions] at hvars
    simp only [Merging.construct, Merging.standard, henvironment, hvars, hfile, bind, Except.bind]
    exact h

theorem standard_record {field key : String} (hf : (field, .batch) ∈ forms)
    (hkey : key ∈ batchKeys) (hvars : vars.IsTable) (h : ofVariables vars = .ok es)
    {members : List (Datum × Datum)} (hobject : vars.object? field = some members) :
    Shows (member? (valueAt? es field) key)
      ((vars.named? field key).or ((spelt? members key).map (·.2))) :=
  Variables.shows_member? hkey hvars (fieldValue_of_ofVariables h hf) hobject

theorem Merging.standard_describes : Merging.standard.Describes Library.standard where
  constructs := standard_constructs
  reads := Conversions.standard_reads
  given {f} hf values v h := by
    change valueAt? (fieldEntries fun f => givenValue? values f.1) f.1 = some v
    rw [valueAt?_fieldEntries _ hf, givenValue?, h, Option.some_or]
  distinct_given values := distinct_fieldEntries fun f => givenValue? values f.1
  file_isTable := Sources.isTable_of_variablesIn
  distinct := distinct_ofVariables
  plain hf _ _ h := (Except.ok.inj (fieldValue_of_ofVariables h hf)).symm
  list hf _ _ h _ _ htext hparse := by
    have hvalue := fieldValue_of_ofVariables h hf
    rw [Variables.fieldValue_of_some Form.noConfusion htext, hparse] at hvalue
    exact (Except.ok.inj hvalue).symm
  record hf _ hkey _ hvars _ h _ hobject := standard_record hf hkey hvars h hobject

end ServerRun.Settings
