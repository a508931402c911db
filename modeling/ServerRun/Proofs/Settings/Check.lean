import ServerRun.Proofs.Failure
import ServerRun.Proofs.Schema.Layer
import ServerRun.Settings.Check
import ServerRun.Settings.Variables

/-! Checks that look at one value only. A field whose value is no mapping is checked alike wherever
its key shows that value, so that settings are checked alike where all their keys do. -/

namespace ServerRun

open Schema

variable {α β : Type} {a b : Checked α} {f g : Checked (α → β)} {check : Datum → Checked α}
  {es bs ms : List (Datum × Datum)} {name : String}

/-- What one check comes to, another one comes to as well. -/
def Checked.Implies (a b : Checked α) : Prop := ∀ x, a = .ok x → b = .ok x

theorem Checked.Implies.map (h : a.Implies b) (f : α → β) :
    Checked.Implies (Except.map f a) (Except.map f b) := by
  rintro y hy
  cases a with
  | error e => cases hy
  | ok x =>
    rw [h x rfl]
    exact hy

theorem Checked.Implies.field (h : f.Implies g) (ha : a.Implies b) :
    Checked.Implies (Checked.field a f) (Checked.field b g) := by
  intro y hy
  cases a with
  | error e => cases f <;> cases hy
  | ok x =>
    cases f with
    | error e => cases hy
    | ok k =>
      rw [ha x rfl, h k rfl]
      exact hy

theorem Checked.ok_of_under {key : Key} {x : α} (h : a.under key = .ok x) : a = .ok x := by
  cases a with
  | error e => cases h
  | ok y => exact h

/-- A check that no mapping passes. -/
def RejectsMaps (check : Datum → Checked α) : Prop := ∀ es x, check (.map es) ≠ .ok x

theorem RejectsMaps.optional (h : RejectsMaps check) : RejectsMaps (optional check) := by
  intro es x hx
  cases hc : check (.map es) with
  | ok y => exact h es y hc
  | error e => simp [Schema.optional, hc, Except.map] at hx

theorem RejectsMaps.map (h : RejectsMaps check) (k : α → β) :
    RejectsMaps fun d => (check d).map k := by
  intro es x hx
  obtain ⟨y, hy, -⟩ := ok_of_map hx
  exact h es y hy

theorem RejectsMaps.bind (h : RejectsMaps check) (k : α → Checked β) :
    RejectsMaps fun d => check d >>= k := by
  intro es x hx
  obtain ⟨y, hy, -⟩ := ok_of_bind hx
  exact h es y hy

/-- A field of another kind than a mapping is checked alike where its key shows the same value. -/
theorem implies_withDefault (h : RejectsMaps check) (default : α)
    (hshows : Datum.Shows (Datum.valueAt? es name) (Datum.valueAt? bs name)) :
    Checked.Implies (withDefault (Datum.textEntries es) name check default)
      (withDefault (Datum.textEntries bs) name check default) := by
  intro x hx
  rw [withDefault, ← Datum.valueAt?] at hx ⊢
  rcases hshows with heq | ⟨ms, hms⟩
  · rwa [← heq]
  · rw [hms] at hx
    exact absurd (Checked.ok_of_under hx) (h ms x)

namespace Settings

/-- How types read mappings: that of a record takes their entries and nothing else, and no other
type takes them. -/
structure Conversions.Reads (c : Conversions) : Prop where
  text : RejectsMaps c.text
  path : RejectsMaps c.path
  int : RejectsMaps c.int
  float : RejectsMaps c.float
  bool : RejectsMaps c.bool
  texts : RejectsMaps c.texts
  topology : RejectsMaps c.topology
  record (es : List (Datum × Datum)) : c.record (.map es) = .ok (Datum.textEntries es)
  map_of_record {d : Datum} {fs : List (String × Datum)} : c.record d = .ok fs → ∃ es, d = .map es

variable {c : Conversions}

theorem implies_batchCheck (hc : c.Reads)
    (hshows : ∀ key ∈ batchKeys, Datum.Shows (Datum.valueAt? es key) (Datum.valueAt? bs key)) :
    Checked.Implies (Batch.checkBy c.texts c.bool (Datum.textEntries es))
      (Batch.checkBy c.texts c.bool (Datum.textEntries bs)) := by
  have hcommands := hshows "commands" (by decide)
  have hbatch := hshows "batch" (by decide)
  exact ((implies_withDefault hc.texts [] hcommands).map Batch.mk).field
    (implies_withDefault hc.bool false hbatch)

/-- A record of commands is checked alike where its keys show the same values. -/
theorem implies_batch (hc : c.Reads) {field : String}
    (hms : Datum.valueAt? bs field = some (.map ms))
    (hshows : Datum.IsRecord (Datum.valueAt? es field) → ∀ key ∈ batchKeys,
      Datum.Shows (Datum.member? (Datum.valueAt? es field) key) (Datum.valueAt? ms key)) :
    Checked.Implies (withDefault (Datum.textEntries es) field (batch c) {})
      (withDefault (Datum.textEntries bs) field (batch c) {}) := by
  intro b hb
  rw [withDefault, ← Datum.valueAt?] at hb ⊢
  rw [hms]
  have hcheck : Batch.checkBy c.texts c.bool (Datum.textEntries ms) = .ok b := by
    cases hentry : Datum.valueAt? es field with
    | none =>
      rw [hentry] at hb hshows
      cases hb
      have hrecord : Datum.IsRecord none := by
        intro d hd
        cases hd
      have hempty : ∀ key ∈ batchKeys,
          Datum.Shows (Datum.valueAt? [] key) (Datum.valueAt? ms key) :=
        hshows hrecord
      exact implies_batchCheck hc hempty {} rfl
    | some d =>
      rw [hentry] at hb hshows
      obtain ⟨fs, hfs, hcheck⟩ := ok_of_bind (Checked.ok_of_under hb)
      obtain ⟨ms', rfl⟩ := hc.map_of_record hfs
      have hrecord : Datum.IsRecord (some (.map ms')) := by
        rintro d ⟨⟩
        exact ⟨ms', rfl⟩
      rw [hc.record] at hfs
      cases hfs
      exact implies_batchCheck hc (hshows hrecord) b hcheck
  dsimp only
  rw [batch, hc.record]
  exact congrArg (Checked.under (.name field)) hcheck

/-- Settings are checked alike where their fields show the same values, and the keys of their
records do. -/
theorem implies_check (hc : c.Reads)
    (hfields : ∀ f ∈ forms, f.2 ≠ .batch →
      Datum.Shows (Datum.valueAt? es f.1) (Datum.valueAt? bs f.1))
    (hrecords : ∀ field, (field, Form.batch) ∈ forms → ∃ ms,
      Datum.valueAt? bs field = some (.map ms) ∧
        (Datum.IsRecord (Datum.valueAt? es field) → ∀ key ∈ batchKeys,
          Datum.Shows (Datum.member? (Datum.valueAt? es field) key) (Datum.valueAt? ms key)))
    (home cwd : Path) :
    Checked.Implies (Settings.check c home cwd (Datum.textEntries es))
      (Settings.check c home cwd (Datum.textEntries bs)) := by
  have plain {α : Type} {check : Datum → Checked α} (name : String) (default : α)
      (hreject : RejectsMaps check) (hname : (name, Form.plain) ∈ forms) :
      Checked.Implies (withDefault (Datum.textEntries es) name check default)
        (withDefault (Datum.textEntries bs) name check default) :=
    implies_withDefault hreject default (hfields (name, .plain) hname Form.noConfusion)
  have list (name : String) (default : List String) (hname : (name, Form.list) ∈ forms) :
      Checked.Implies (withDefault (Datum.textEntries es) name c.texts default)
        (withDefault (Datum.textEntries bs) name c.texts default) :=
    implies_withDefault hc.texts default (hfields (name, .list) hname Form.noConfusion)
  have batch (field : String) (hfield : (field, Form.batch) ∈ forms) :
      Checked.Implies (withDefault (Datum.textEntries es) field (Settings.batch c) {})
        (withDefault (Datum.textEntries bs) field (Settings.batch c) {}) := by
    obtain ⟨ms, hms, hshows⟩ := hrecords field hfield
    exact implies_batch hc hms hshows
  have hblankless : RejectsMaps (unlessBlank c) :=
    hc.text.optional.map fun s => s.filter fun s => !Text.allBlank s
  have hpositive : RejectsMaps (positive c.float) := hc.float.bind _
  unfold Settings.check
  refine .field ?_ (plain "filename" _ hblankless (by decide))
  refine .field ?_ (plain "target_dir" _ hc.path.optional (by decide))
  refine .field ?_ (plain "project_dir" _ hc.path (by decide))
  refine .field ?_ (batch "after_deployment" (by decide))
  refine .field ?_ (batch "before_deployment" (by decide))
  refine .field ?_ (plain "password" _ hc.text.optional (by decide))
  refine .field ?_ (plain "username" _ hc.text.optional (by decide))
  refine .field ?_ (plain "port" _ (hc.int.bind _) (by decide))
  refine .field ?_ (plain "hostname" _ hc.text (by decide))
  refine .field ?_ (plain "poll_interval" _ ((hc.float.bind _).bind _) (by decide))
  refine .field ?_ (plain "shutdown_grace_period" _ hpositive (by decide))
  refine .field ?_ (plain "startup_timeout" _ hpositive (by decide))
  refine .field ?_ (plain "topology" _ hc.topology (by decide))
  refine .field ?_ (plain "server_config" _ hblankless (by decide))
  refine .field ?_ (plain "java_home" _ hblankless (by decide))
  refine .field ?_ (plain "jvm_args" _ hblankless (by decide))
  refine .field ?_ (list "remote_repositories" _ (by decide))
  refine .field ?_ (plain "local_repository" _ hc.path (by decide))
  refine .field ?_ (plain "bundles_path" _ hc.text.optional (by decide))
  refine .field ?_ (plain "modules_path" _ hc.text.optional (by decide))
  refine .field ?_ (plain "home_prefix" _ hc.text (by decide))
  refine .field ?_ (plain "version" _ hc.text (by decide))
  refine .field ?_ (plain "archive_type" _ hc.text (by decide))
  refine .field ?_ (plain "artifact_id" _ hc.text (by decide))
  refine .field ?_ (plain "group_id" _ hc.text (by decide))
  exact (plain "jboss_home" _ hblankless (by decide)).map Settings.mk

end Settings

end ServerRun
