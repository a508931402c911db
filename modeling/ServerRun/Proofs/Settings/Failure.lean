import ServerRun.CommandLine.Report
import ServerRun.Proofs.Failure
import ServerRun.Settings.Standard

/-! How loading settings fails. A settings file that is missing, one that is no document and values
that do not fit are told in a line of their own. Whatever else keeps settings from being loaded is
passed on as it is: a settings file that cannot be looked up or opened, one that holds no mapping or
a key that is no text, and what else the libraries raise. -/

namespace ServerRun

namespace Settings

/-- The failures that loading settings is to end with: a file that is missing, a document that is
none, and values that do not fit. -/
inductive Documented : Failure → Prop
  | settingsNotFound (path : Path) : Documented (.settingsNotFound path)
  | notFound : Documented (.file .notFound)
  | malformed : Documented .malformedDocument
  | invalid (issues : List Issue) : Documented (.invalid issues)

/-- What loading settings is to come to: settings, or one of those failures. -/
inductive Settles : Except Failure Settings → Prop
  | settings (result : Settings) : Settles (.ok result)
  | documented {f : Failure} (h : Documented f) : Settles (.error f)

/-- The settings file is there and has some bytes. -/
structure Sources.Holds (s : Sources) (asked : Option Path) (bytes : List UInt8) : Prop where
  pathExists : s.files.pathExists s.cwd (s.settingsFile asked).1 = .ok true
  fileBytes : s.files.fileBytes s.cwd (s.settingsFile asked).1 = .ok bytes

/-- The first thing that keeps settings from being loaded is passed on. -/
inductive PassesOn (lib : Library) (s : Sources) (asked : Option Path)
    (overrides : List (String × Datum)) : Failure → Prop
  | look {e : FileError} (h : s.files.pathExists s.cwd (s.settingsFile asked).1 = .error e)
      (he : e ≠ .notFound) : PassesOn lib s asked overrides (.file e)
  | unreadable {e : FileError}
      (hexists : s.files.pathExists s.cwd (s.settingsFile asked).1 = .ok true)
      (h : s.files.fileBytes s.cwd (s.settingsFile asked).1 = .error e) (he : e ≠ .notFound) :
      PassesOn lib s asked overrides (.file e)
  | document {bytes : List UInt8} {f : Failure} (hfile : s.Holds asked bytes)
      (h : lib.document bytes = .error f) (hf : ¬ Documented f) : PassesOn lib s asked overrides f
  | noMapping {bytes : List UInt8} {d : Datum} (hfile : s.Holds asked bytes)
      (hload : lib.document bytes = .ok d) (htruthy : d.isTruthy) (hmap : ∀ es, d ≠ .map es)
      (hset : ∀ items, d ≠ .set items) : PassesOn lib s asked overrides .noMapping
  | set {bytes : List UInt8} {items : List Datum} (hfile : s.Holds asked bytes)
      (hload : lib.document bytes = .ok (.set items)) (h : items ≠ []) :
      PassesOn lib s asked overrides .nonTextKey
  | nonTextKey {bytes : List UInt8} {es : List (Datum × Datum)} {e : Datum × Datum}
      (hfile : s.Holds asked bytes) (hload : lib.document bytes = .ok (.map es)) (he : e ∈ es)
      (h : e.1.text? = none) : PassesOn lib s asked overrides .nonTextKey
  | construct {values : List (String × Datum)} {f : Failure}
      (hread : lib.values s asked = .ok values)
      (h : lib.construct s (Fields.merge values (counting overrides)) = .error f)
      (hf : ¬ Documented f) : PassesOn lib s asked overrides f

variable {lib : Library} {s : Sources} {asked : Option Path} {overrides : List (String × Datum)}
  {bytes : List UInt8} {f : Failure}

/-! ### the settings file -/

theorem entries_of_holds (h : s.Holds asked bytes) :
    lib.entries s asked = lib.document bytes >>= documentEntries := by
  simp only [Library.entries, h.pathExists, h.fileBytes]
  cases lib.document bytes <;> rfl

theorem requireTextKeys_error {es : List (Datum × Datum)} (h : requireTextKeys es = .error f) :
    f = .nonTextKey ∧ ∃ e ∈ es, e.1.text? = none := by
  unfold requireTextKeys at h
  split at h
  · cases h
  · rename_i hall
    cases h
    obtain ⟨e, he, hkey⟩ := List.all_eq_false.mp (Bool.eq_false_iff.mpr hall)
    exact ⟨rfl, e, he, Option.not_isSome_iff_eq_none.mp hkey⟩

theorem requireTextKeys_of_mem {es : List (Datum × Datum)} {e : Datum × Datum} (he : e ∈ es)
    (h : e.1.text? = none) : requireTextKeys es = .error .nonTextKey := by
  have hall : ¬ es.all fun e => e.1.text?.isSome := by
    intro hall
    have hkey := List.all_eq_true.mp hall e he
    rw [h] at hkey
    cases hkey
  rw [requireTextKeys, if_neg hall]

/-- A document that was read gives its values or is passed on. -/
theorem passesOn_of_read {d : Datum} (hfile : s.Holds asked bytes)
    (hload : lib.document bytes = .ok d) (h : lib.values s asked = .error f) :
    PassesOn lib s asked overrides f := by
  have hentries : lib.entries s asked = documentEntries d := by
    rw [entries_of_holds hfile, hload]
    rfl
  rw [Library.values, hentries] at h
  obtain h | ⟨es, hes, h⟩ := error_of_bind h
  · unfold documentEntries at h
    split at h
    · rename_i htruthy
      split at h
      · cases h
      · rename_i items
        cases h
        exact .set hfile hload (by simpa [Datum.isTruthy] using htruthy)
      · rename_i hmap hset
        cases h
        exact .noMapping hfile hload htruthy hmap hset
    · cases h
  · obtain ⟨rfl, e, he, hkey⟩ := requireTextKeys_error h
    unfold documentEntries at hes
    split at hes
    · split at hes <;> cases hes
      exact .nonTextKey hfile hload he hkey
    · cases hes
      cases he

/-- Whatever keeps the values of the settings file from being read is told or passed on. -/
theorem documented_or_passesOn (h : lib.values s asked = .error f) :
    Documented f ∨ PassesOn lib s asked overrides f := by
  cases hexists : s.files.pathExists s.cwd (s.settingsFile asked).1 with
  | error e =>
    simp only [Library.values, Library.entries, hexists] at h
    cases h
    by_cases he : e = .notFound
    · exact .inl (he ▸ .notFound)
    · exact .inr (.look hexists he)
  | ok there =>
    cases there with
    | false =>
      simp only [Library.values, Library.entries, hexists] at h
      split at h <;> cases h
      exact .inl (.settingsNotFound _)
    | true =>
      cases hbytes : s.files.fileBytes s.cwd (s.settingsFile asked).1 with
      | error e =>
        simp only [Library.values, Library.entries, hexists, hbytes] at h
        cases h
        by_cases he : e = .notFound
        · exact .inl (he ▸ .notFound)
        · exact .inr (.unreadable hexists hbytes he)
      | ok bytes =>
        have hholds : s.Holds asked bytes := ⟨hexists, hbytes⟩
        cases hload : lib.document bytes with
        | ok d => exact .inr (passesOn_of_read hholds hload h)
        | error f' =>
          rw [Library.values, entries_of_holds hholds, hload] at h
          cases h
          by_cases hf : Documented f
          · exact .inl hf
          · exact .inr (.document hholds hload hf)

/-- Whatever keeps settings from being loaded is told or passed on. -/
theorem settles_or_passesOn (lib : Library) (s : Sources) (asked : Option Path)
    (overrides : List (String × Datum)) :
    Settles (lib.load s asked overrides) ∨ ∃ f, PassesOn lib s asked overrides f := by
  cases hread : lib.values s asked with
  | error f =>
    have hload : lib.load s asked overrides = .error f := by
      rw [Library.load, hread]
      rfl
    rw [hload]
    exact (documented_or_passesOn hread).imp .documented fun h => ⟨f, h⟩
  | ok values =>
    have hload : lib.load s asked overrides =
        lib.construct s (Fields.merge values (counting overrides)) := by
      rw [Library.load, hread]
      rfl
    rw [hload]
    cases hconstruct : lib.construct s (Fields.merge values (counting overrides)) with
    | ok result => exact .inl (.settings result)
    | error f =>
      by_cases hf : Documented f
      · exact .inl (.documented hf)
      · exact .inr ⟨f, .construct hread hconstruct hf⟩

/-- The failure of a document that was read is that of loading. -/
theorem load_of_read {d : Datum} (hfile : s.Holds asked bytes) (hload : lib.document bytes = .ok d)
    (h : documentEntries d >>= requireTextKeys = .error f) :
    lib.load s asked overrides = .error f := by
  have hvalues : lib.values s asked = .error f := by
    rw [Library.values, entries_of_holds hfile, hload]
    exact h
  rw [Library.load, hvalues]
  rfl

theorem PassesOn.load (h : PassesOn lib s asked overrides f) :
    lib.load s asked overrides = .error f := by
  cases h with
  | look h he =>
    simp only [Library.load, Library.values, Library.entries, h]
    rfl
  | unreadable hexists h he =>
    simp only [Library.load, Library.values, Library.entries, hexists, h]
    rfl
  | document hfile h hf =>
    rw [Library.load, Library.values, entries_of_holds hfile, h]
    rfl
  | noMapping hfile hload htruthy hmap hset =>
    refine load_of_read hfile hload ?_
    rw [documentEntries, if_pos htruthy]
    · rfl
    · exact hmap
    · exact hset
  | set hfile hload h =>
    refine load_of_read hfile hload ?_
    rw [documentEntries, if_pos (by simpa [Datum.isTruthy] using h)]
    rfl
  | @nonTextKey bytes es e hfile hload he h =>
    have htruthy : (Datum.map es).isTruthy := by
      simpa [Datum.isTruthy] using List.ne_nil_of_mem he
    refine load_of_read hfile hload ?_
    rw [documentEntries, if_pos htruthy]
    exact requireTextKeys_of_mem he h
  | construct hread h hf =>
    rw [Library.load, hread]
    exact h

theorem PassesOn.not_documented (h : PassesOn lib s asked overrides f) : ¬ Documented f := by
  cases h with
  | look h he => exact fun | .notFound => he rfl
  | unreadable hexists h he => exact fun | .notFound => he rfl
  | document hfile h hf => exact hf
  | construct hread h hf => exact hf
  | _ => nofun

end Settings

namespace CommandLine

open Settings (Documented Settles PassesOn)

variable {lib : Settings.Library} {s : Settings.Sources} {request : RunRequest} {r : Report}
  {f : Failure}

/-- What the settings of a run are to come to for the user: settings, or one line more among the
errors and the exit code of a failure. -/
inductive Told (r : Report) : Except Report Settings → Prop
  | settings (result : Settings) : Told r (.ok result)
  | line (text : String) :
      Told r (.error { r with exitCode := exitFailure, errors := r.errors ++ [text] })

theorem line_of_documented (h : Documented f) : (settingsLine? f).isSome := by
  cases h <;> rfl

theorem no_line_of_not_documented (h : ¬ Documented f) : settingsLine? f = none := by
  unfold settingsLine?
  split
  · exact absurd (.settingsNotFound _) h
  · exact absurd .notFound h
  · exact absurd .malformed h
  · exact absurd (.invalid _) h
  · rfl

theorem told_of_settles (h : Settles (lib.load s request.config request.overrides)) :
    Told r (settingsOr lib s request r) := by
  unfold settingsOr
  generalize lib.load s request.config request.overrides = result at h
  cases h with
  | settings result => exact .settings result
  | documented h =>
    obtain ⟨line, hline⟩ := Option.isSome_iff_exists.mp (line_of_documented h)
    simp only [hline]
    exact .line line

theorem not_told_escape (r : Report) (f : Failure) : ¬ Told r (.error (r.escape f)) := by
  intro h
  generalize hescape : r.escape f = r' at h
  cases h with
  | line text =>
    have herrors : r.errors = r.errors ++ [text] := congrArg Report.errors hescape
    simp at herrors

theorem settingsOr_of_passesOn (h : PassesOn lib s request.config request.overrides f) :
    settingsOr lib s request r = .error (r.escape f) := by
  simp only [settingsOr, h.load, no_line_of_not_documented h.not_documented]

/-- Loading settings comes to settings or to a failure that is told, and the report of the run to
settings or to one line more, for whatever libraries, sources and overriding values, unless a
failure is passed on; then loading comes to that failure, and the report has no line for it. -/
theorem settingsOr_told_iff (lib : Settings.Library) (s : Settings.Sources) (request : RunRequest)
    (r : Report) :
    (Settles (lib.load s request.config request.overrides) ↔
        ¬ ∃ f, PassesOn lib s request.config request.overrides f) ∧
      (Told r (settingsOr lib s request r) ↔
        ¬ ∃ f, PassesOn lib s request.config request.overrides f) ∧
      ∀ f, PassesOn lib s request.config request.overrides f →
        lib.load s request.config request.overrides = .error f ∧
          settingsOr lib s request r = .error (r.escape f) := by
  have hcases := Settings.settles_or_passesOn lib s request.config request.overrides
  refine ⟨⟨?_, hcases.resolve_right⟩, ⟨?_, fun h => told_of_settles (hcases.resolve_right h)⟩,
    fun f hf => ⟨hf.load, settingsOr_of_passesOn hf⟩⟩
  · rintro hsettles ⟨f, hf⟩
    rw [hf.load] at hsettles
    cases hsettles with
    | documented h => exact hf.not_documented h
  · rintro htold ⟨f, hf⟩
    rw [settingsOr_of_passesOn hf] at htold
    exact not_told_escape r f htold

/-- A settings file that holds a list and no mapping. -/
def listDocument : Settings.Sources where
  files := ⟨[(["asrun.yaml"], .file [45, 32, 97, 10])]⟩
  cwd := ⟨.root, []⟩
  environment := []

/-- The lines among the errors of the report that stands in place of settings. -/
def lines? : Except Report Settings → Option (List String)
  | .ok _ => none
  | .error r => some r.errors

/-- A settings file that holds a list has no line of its own: the failure is passed on. -/
theorem not_told_of_listDocument :
    ¬ ∀ (s : Settings.Sources) (request : RunRequest) (r : Report),
      Settles (Settings.Library.standard.load s request.config request.overrides) ∧
        Told r (settingsOr .standard s request r) := by
  intro h
  have hlines : lines? (settingsOr .standard listDocument {} {}) = some [] := by decide +kernel
  have htold := (h listDocument {} {}).2
  generalize settingsOr .standard listDocument {} {} = result at hlines htold
  cases htold <;> cases hlines

end CommandLine

end ServerRun
