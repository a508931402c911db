import Mathlib.Data.List.Basic
import ServerRun.File.System
import ServerRun.Proofs.File.Path

/-! What the operations of a file system change and what they leave. A path that is followed or made
leads to its location with double dots resolved; making a path puts directories where nothing stood
on the way and changes nothing else; whatever keeps the directories keeps the paths. -/

namespace ServerRun.FileSystem

open ServerRun.Path (resolveFrom)

variable {fs gs hs : FileSystem} {base k l m : List String} {ss : List String} {cwd p : Path}
  {bytes : List UInt8}

/-! ### single locations -/

@[simp] theorem get?_nil (fs : FileSystem) : fs.get? [] = some .directory := if_pos rfl

theorem get?_erase (fs : FileSystem) (hl : l ≠ []) (m : List String) :
    (fs.erase l).get? m = if m = l then none else fs.get? m := by
  by_cases hm : m = []
  · subst hm
    simp [Ne.symm hl]
  · by_cases h : m = l
    · subst h
      simp [get?, erase, hm]
    · simp [get?, erase, hm, h, find?_filter_ne h]

theorem ne_nil_of_not_directory (h : fs.get? l ≠ some .directory) : l ≠ [] := by
  rintro rfl
  exact h (get?_nil fs)

theorem get?_extendFile (h : fs.get? l = some (.file bytes)) (more : List UInt8)
    (m : List String) :
    (fs.extendFile l more).get? m = if m = l then some (.file (bytes ++ more)) else fs.get? m := by
  have hl : l ≠ [] := ne_nil_of_not_directory (by rw [h]; simp)
  rw [extendFile, h]
  exact get?_put fs hl _ m

theorem isDirectory_of_directory (h : fs.get? l = some .directory) : fs.isDirectory l = true := by
  rw [isDirectory, h]
  rfl

theorem ne_directory_of_isDirectory (h : fs.isDirectory l = false) :
    fs.get? l ≠ some .directory := by
  intro hd
  rw [isDirectory_of_directory hd] at h
  cases h

/-- A name can be looked up in a directory that may be searched, unless it is too long. -/
theorem obstacle?_eq_none {name : String} :
    fs.obstacle? l name = none ↔
      fs.get? l = some .directory ∧ name.utf8ByteSize ≤ Path.nameLimit := by
  unfold obstacle?
  split <;> rename_i h <;> simp [h]

theorem obstacle?_of_directory (h : fs.get? l = some .directory)
    (hg : gs.get? l = some .directory) (name : String) :
    fs.obstacle? l name = gs.obstacle? l name := by
  rw [obstacle?, obstacle?, h, hg]

theorem storeFile_ok (h : fs.storeFile l bytes = .ok gs) :
    fs.get? l ≠ some .directory ∧ gs = fs.put l (.file bytes) := by
  unfold storeFile at h
  split at h
  · rename_i hw
    refine ⟨?_, (Except.ok.inj h).symm⟩
    unfold writable at hw
    split at hw
    · cases hw
    · split at hw
      · cases hw
      · rename_i hd
        exact ne_directory_of_isDirectory (by simpa using hd)
  · cases h

/-! ### keeping the directories -/

/-- Every directory of one file system is a directory of another. -/
def KeepsDirectories (fs gs : FileSystem) : Prop :=
  ∀ l, fs.get? l = some .directory → gs.get? l = some .directory

theorem KeepsDirectories.trans (h : KeepsDirectories fs gs) (hg : KeepsDirectories gs hs) :
    KeepsDirectories fs hs := fun l hl => hg l (h l hl)

theorem keepsDirectories_put (hl : fs.get? l ≠ some .directory) (e : FileEntry) :
    KeepsDirectories fs (fs.put l e) := by
  intro m hm
  have hml : m ≠ l := fun h => hl (h ▸ hm)
  rwa [get?_put fs (ne_nil_of_not_directory hl), if_neg hml]

theorem keepsDirectories_erase (hl : fs.get? l ≠ some .directory) :
    KeepsDirectories fs (fs.erase l) := by
  intro m hm
  have hml : m ≠ l := fun h => hl (h ▸ hm)
  rwa [get?_erase fs (ne_nil_of_not_directory hl), if_neg hml]

/-- Every location from the root down to one is a directory. -/
def DirectoriesTo (fs : FileSystem) (l : List String) : Prop :=
  ∀ k, k <+: l → fs.get? k = some .directory

theorem directoriesTo_nil (fs : FileSystem) : DirectoriesTo fs [] := by
  intro k hk
  rw [List.prefix_nil.mp hk, get?_nil]

theorem DirectoriesTo.keep (h : DirectoriesTo fs l) (hk : KeepsDirectories fs gs) :
    DirectoriesTo gs l := fun k hl => hk k (h k hl)

theorem DirectoriesTo.dropLast (h : DirectoriesTo fs l) : DirectoriesTo fs l.dropLast :=
  fun k hk => h k (hk.trans (List.dropLast_prefix l))

theorem DirectoriesTo.of_dropLast (h : DirectoriesTo fs l.dropLast)
    (hl : fs.get? l = some .directory) : DirectoriesTo fs l := by
  intro k hk
  rcases List.eq_nil_or_concat' l with rfl | ⟨above, s, rfl⟩
  · rw [List.prefix_nil.mp hk, get?_nil]
  · rw [List.dropLast_concat] at h
    rcases List.prefix_concat_iff.mp hk with rfl | hk
    · exact hl
    · exact h k hk

theorem prefix_dropLast (h : l <+: m) (hne : l ≠ m) : l <+: m.dropLast := by
  rcases List.eq_nil_or_concat' m with rfl | ⟨above, s, rfl⟩
  · exact absurd (List.prefix_nil.mp h) hne
  · rw [List.dropLast_concat]
    exact (List.prefix_concat_iff.mp h).resolve_left hne

/-! ### following a path -/

theorem walk_cons {s : String} (h : fs.obstacle? base s = none) (rest : List String) :
    fs.walk base (s :: rest) =
      if s = ".." then fs.walk base.dropLast rest else fs.walk (base ++ [s]) rest := by
  rw [walk, h]

theorem walk_blocked {s : String} {e : FileError} (h : fs.obstacle? base s = some e)
    (rest : List String) : fs.walk base (s :: rest) = .error e := by
  rw [walk, h]

/-- A path is followed through directories that may be searched. -/
theorem walk_cons_ok {s : String} {rest : List String} (h : fs.walk base (s :: rest) = .ok l) :
    fs.obstacle? base s = none ∧
      (if s = ".." then fs.walk base.dropLast rest else fs.walk (base ++ [s]) rest) = .ok l := by
  cases ho : fs.obstacle? base s with
  | some e =>
    rw [walk_blocked ho] at h
    cases h
  | none => exact ⟨rfl, walk_cons ho rest ▸ h⟩

/-- Where a path leads, its double dots are resolved. -/
theorem eq_resolveFrom_of_walk (h : fs.walk base ss = .ok l) : l = resolveFrom base ss := by
  induction ss generalizing base with
  | nil => exact (Except.ok.inj h).symm
  | cons s rest ih =>
    obtain ⟨-, h⟩ := walk_cons_ok h
    rw [resolveFrom]
    split at h <;> rename_i hs
    · rw [if_pos hs]
      exact ih h
    · rw [if_neg hs]
      exact ih h

theorem KeepsDirectories.obstacle? (hk : KeepsDirectories fs gs) {s : String}
    (h : fs.obstacle? base s = none) : gs.obstacle? base s = none := by
  obtain ⟨hd, hs⟩ := obstacle?_eq_none.mp h
  exact obstacle?_eq_none.mpr ⟨hk base hd, hs⟩

theorem KeepsDirectories.walk (hk : KeepsDirectories fs gs) (h : fs.walk base ss = .ok l) :
    gs.walk base ss = .ok l := by
  induction ss generalizing base with
  | nil => exact h
  | cons s rest ih =>
    obtain ⟨ho, h⟩ := walk_cons_ok h
    rw [walk_cons (hk.obstacle? ho)]
    split at h <;> rename_i hs
    · rw [if_pos hs]
      exact ih h
    · rw [if_neg hs]
      exact ih h

theorem directoriesTo_of_walk (hb : DirectoriesTo fs base.dropLast)
    (h : fs.walk base ss = .ok l) : DirectoriesTo fs l.dropLast := by
  induction ss generalizing base with
  | nil => exact Except.ok.inj h ▸ hb
  | cons s rest ih =>
    obtain ⟨ho, h⟩ := walk_cons_ok h
    have hbase : DirectoriesTo fs base := hb.of_dropLast (obstacle?_eq_none.mp ho).1
    split at h
    · exact ih hbase.dropLast.dropLast h
    · exact ih (by rwa [List.dropLast_concat]) h

theorem walk_append (h : fs.walk base ss = .ok l) (rest : List String) :
    fs.walk base (ss ++ rest) = fs.walk l rest := by
  induction ss generalizing base with
  | nil => exact Except.ok.inj h ▸ rfl
  | cons s ss ih =>
    obtain ⟨ho, h⟩ := walk_cons_ok h
    rw [List.cons_append, walk_cons ho]
    split at h <;> rename_i hs
    · rw [if_pos hs]
      exact ih h
    · rw [if_neg hs]
      exact ih h

theorem walk_of_locate (h : fs.locate cwd p = .ok l) :
    p.fault? = none ∧ fs.walk [] (p.absolute cwd).segments = .ok l := by
  unfold FileSystem.locate at h
  split at h
  · cases h
  · exact ⟨‹_›, h⟩

theorem eq_location_of_locate (h : fs.locate cwd p = .ok l) : l = p.location cwd :=
  eq_resolveFrom_of_walk (walk_of_locate h).2

theorem KeepsDirectories.locate (hk : KeepsDirectories fs gs) (h : fs.locate cwd p = .ok l) :
    gs.locate cwd p = .ok l := by
  obtain ⟨hfault, hwalk⟩ := walk_of_locate h
  rw [FileSystem.locate, hfault]
  exact hk.walk hwalk

/-- Looking finds something only where the path leads to it. -/
theorem exists_of_look {kind : FileEntry → Bool} (h : fs.look cwd p kind = .ok true) :
    fs.locate cwd p = .ok (p.location cwd) ∧
      ∃ e, fs.get? (p.location cwd) = some e ∧ kind e = true := by
  unfold look at h
  split at h
  · rename_i l hl
    obtain rfl := eq_location_of_locate hl
    exact ⟨hl, by simpa [Option.any_eq_true] using h⟩
  · cases h
  · cases h
  · cases h

theorem look_of_locate {kind : FileEntry → Bool} (h : fs.locate cwd p = .ok l) :
    fs.look cwd p kind = .ok ((fs.get? l).any kind) := by
  rw [look, h]

/-- A path leads through directories. -/
theorem directoriesTo_of_locate (h : fs.locate cwd p = .ok l) : DirectoriesTo fs l.dropLast := by
  have htop : DirectoriesTo fs ([] : List String).dropLast := directoriesTo_nil fs
  exact directoriesTo_of_walk htop (walk_of_locate h).2

theorem directoriesTo_of_pathIsDirectory (h : fs.pathIsDirectory cwd p = .ok true) :
    DirectoriesTo fs (p.location cwd).dropLast := directoriesTo_of_locate (exists_of_look h).1

theorem pathIsFile_of_locate (h : fs.locate cwd p = .ok l) (hl : fs.get? l = some (.file bytes)) :
    fs.pathIsFile cwd p = .ok true := by
  rw [pathIsFile, look_of_locate h, hl]
  rfl

theorem exists_of_pathIsFile (h : fs.pathIsFile cwd p = .ok true) :
    fs.locate cwd p = .ok (p.location cwd) ∧
      ∃ bytes, fs.get? (p.location cwd) = some (.file bytes) := by
  obtain ⟨hl, e, he, hfile⟩ := exists_of_look h
  cases e with
  | file bytes => exact ⟨hl, bytes, he⟩
  | directory | sealed => cases hfile

/-! ### making a path -/

/-- The locations that segments lead through from a location. -/
def passes (base : List String) : List String → List (List String)
  | [] => []
  | s :: rest =>
    if s = ".." then passes base.dropLast rest else (base ++ [s]) :: passes (base ++ [s]) rest

theorem prefix_of_mem_passes (hs : ".." ∉ ss) (h : l ∈ passes base ss) : l <+: base ++ ss := by
  induction ss generalizing base with
  | nil => cases h
  | cons s rest ih =>
    rw [List.mem_cons, not_or] at hs
    rw [passes, if_neg (Ne.symm hs.1)] at h
    rcases List.mem_cons.mp h with rfl | h
    · exact ⟨rest, by simp⟩
    · simpa using ih hs.2 h

theorem makePathFrom_blocked {s : String} {e : FileError} (h : fs.obstacle? base s = some e)
    (ss : List String) : fs.makePathFrom base (s :: ss) = (fs, .error e) := by
  rw [makePathFrom, h]

theorem makePathFrom_up (h : fs.obstacle? base ".." = none) (ss : List String) :
    fs.makePathFrom base (".." :: ss) = fs.makePathFrom base.dropLast ss := by
  rw [makePathFrom, h]
  exact if_pos rfl

theorem makePathFrom_down {s : String} (h : fs.obstacle? base s = none) (hs : s ≠ "..")
    (ss : List String) :
    fs.makePathFrom base (s :: ss) =
      match fs.get? (base ++ [s]) with
      | some (.file _) => (fs, .error (if ss = [] then .taken else .notDirectory))
      | some _ => fs.makePathFrom (base ++ [s]) ss
      | none => (fs.put (base ++ [s]) .directory).makePathFrom (base ++ [s]) ss := by
  rw [makePathFrom, h]
  exact if_neg hs

/-- Each location is as before, or the way leads through it, nothing stood there, and now a
directory does. -/
theorem get?_makePathFrom (fs : FileSystem) (base ss l : List String) :
    (fs.makePathFrom base ss).1.get? l = fs.get? l ∨
      l ∈ passes base ss ∧ fs.get? l = none ∧
        (fs.makePathFrom base ss).1.get? l = some .directory := by
  induction ss generalizing fs base with
  | nil => exact .inl rfl
  | cons s rest ih =>
    cases ho : fs.obstacle? base s with
    | some e =>
      rw [makePathFrom_blocked ho]
      exact .inl rfl
    | none =>
      by_cases hs : s = ".."
      · subst hs
        rw [makePathFrom_up ho, passes, if_pos rfl]
        exact ih fs base.dropLast
      · rw [makePathFrom_down ho hs, passes, if_neg hs]
        split
        · exact .inl rfl
        · exact (ih fs (base ++ [s])).imp_right fun ⟨hp, h⟩ => ⟨List.mem_cons_of_mem _ hp, h⟩
        · rename_i hnone
          have hput := get?_put fs (l := base ++ [s]) (by simp) .directory l
          by_cases hl : l = base ++ [s]
          · subst hl
            rw [if_pos rfl] at hput
            refine .inr ⟨List.mem_cons_self, hnone, ?_⟩
            rcases ih (fs.put (base ++ [s]) .directory) (base ++ [s]) with h | ⟨-, h, -⟩
            · rw [h, hput]
            · simp [hput] at h
          · rw [if_neg hl] at hput
            rw [← hput]
            exact (ih _ (base ++ [s])).imp_right fun ⟨hp, h⟩ => ⟨List.mem_cons_of_mem _ hp, h⟩

/-- Making a path replaces nothing. -/
theorem get?_makePathFrom_of_some {e : FileEntry} (h : fs.get? l = some e)
    (base ss : List String) : (fs.makePathFrom base ss).1.get? l = some e := by
  rcases get?_makePathFrom fs base ss l with hl | ⟨-, hnone, -⟩
  · exact hl.trans h
  · simp [h] at hnone

theorem keepsDirectories_makePathFrom (fs : FileSystem) (base ss : List String) :
    KeepsDirectories fs (fs.makePathFrom base ss).1 :=
  fun _ h => get?_makePathFrom_of_some h base ss

/-- A path that is made leads on in the end, through directories, to its location. -/
theorem makePathFrom_ok (hb : DirectoriesTo fs base.dropLast)
    (h : fs.makePathFrom base ss = (gs, .ok l)) : gs.walk base ss = .ok l := by
  induction ss generalizing fs base with
  | nil =>
    obtain ⟨rfl, rfl⟩ : fs = gs ∧ base = l := by simpa [makePathFrom] using h
    rfl
  | cons s rest ih =>
    cases ho : fs.obstacle? base s with
    | some e =>
      rw [makePathFrom_blocked ho] at h
      cases h
    | none =>
      have hkeep : KeepsDirectories fs gs := by
        have hkeep := keepsDirectories_makePathFrom fs base (s :: rest)
        rwa [h] at hkeep
      have hbase : DirectoriesTo fs base := hb.of_dropLast (obstacle?_eq_none.mp ho).1
      rw [walk_cons (hkeep.obstacle? ho)]
      by_cases hs : s = ".."
      · subst hs
        rw [makePathFrom_up ho] at h
        rw [if_pos rfl]
        exact ih hbase.dropLast.dropLast h
      · have hup : DirectoriesTo fs (base ++ [s]).dropLast := by rwa [List.dropLast_concat]
        rw [makePathFrom_down ho hs] at h
        rw [if_neg hs]
        split at h
        · cases h
        · exact ih hup h
        · rename_i hnone
          have hmore : KeepsDirectories fs (fs.put (base ++ [s]) .directory) :=
            keepsDirectories_put (by simp [hnone]) _
          exact ih (hup.keep hmore) h

theorem get?_makePath (fs : FileSystem) (cwd p : Path) (l : List String) :
    (fs.makePath cwd p).1.get? l = fs.get? l ∨
      l ∈ passes [] (p.absolute cwd).segments ∧ fs.get? l = none ∧
        (fs.makePath cwd p).1.get? l = some .directory := by
  rw [makePath]
  split
  · exact .inl rfl
  · exact get?_makePathFrom fs [] _ l

theorem get?_makeAt (fs : FileSystem) (place l : List String) :
    (fs.makeAt place).1.get? l = fs.get? l ∨
      l ∈ passes [] place ∧ fs.get? l = none ∧ (fs.makeAt place).1.get? l = some .directory := by
  rw [makeAt]
  split
  · exact .inl rfl
  · exact get?_makePathFrom fs [] place l

theorem makeAt_ok (h : fs.makeAt l = (gs, .ok m)) : fs.makePathFrom [] l = (gs, .ok m) := by
  unfold makeAt at h
  split at h
  · cases h
  · exact h

theorem makeOpen_fst (fs : FileSystem) (cwd p : Path) :
    (fs.makeOpen cwd p).1 = (fs.makePath cwd p).1 := by
  unfold makeOpen
  split <;> rename_i h <;> rw [h]

theorem get?_makeOpen (fs : FileSystem) (cwd p : Path) (l : List String) :
    (fs.makeOpen cwd p).1.get? l = fs.get? l ∨
      l ∈ passes [] (p.absolute cwd).segments ∧ fs.get? l = none ∧
        (fs.makeOpen cwd p).1.get? l = some .directory :=
  makeOpen_fst fs cwd p ▸ get?_makePath fs cwd p l

theorem keepsDirectories_makeOpen (fs : FileSystem) (cwd p : Path) :
    KeepsDirectories fs (fs.makeOpen cwd p).1 := by
  intro l hl
  rcases get?_makeOpen fs cwd p l with h | ⟨-, hnone, -⟩
  · exact h.trans hl
  · simp [hl] at hnone

theorem makeOpen_ok (h : fs.makeOpen cwd p = (gs, .ok l)) :
    p.fault? = none ∧ fs.makePathFrom [] (p.absolute cwd).segments = (gs, .ok l) ∧
      gs.get? l = some .directory := by
  unfold makeOpen at h
  split at h
  · cases h
  · rename_i made k hmade
    split at h <;> cases h
    rename_i hd
    unfold makePath at hmade
    split at hmade
    · cases hmade
    · exact ⟨‹_›, hmade, hd⟩

/-- Once the directory of a path is made, it does not depend on other files where the path leads. -/
theorem locate_of_makeOpen_parent (h : fs.makeOpen cwd p.parent = (gs, .ok l))
    (hk : KeepsDirectories gs hs) : hs.locate cwd p = gs.locate cwd p := by
  obtain ⟨-, hmade, hd⟩ := makeOpen_ok h
  have hwalk := makePathFrom_ok (directoriesTo_nil fs) hmade
  rw [locate, locate]
  split
  · rfl
  · rcases Path.segments_absolute_parent p cwd with hsame | ⟨s, hlast⟩
    · rw [hsame, hwalk, hk.walk hwalk]
    · rw [hlast, walk_append hwalk, walk_append (hk.walk hwalk), walk, walk,
        obstacle?_of_directory (hk l hd) hd]
      rfl

/-- A path that was made is there: making it again changes nothing. -/
theorem makePathFrom_again (fs : FileSystem) (base ss : List String) :
    (fs.makePathFrom base ss).1.makePathFrom base ss = fs.makePathFrom base ss := by
  induction ss generalizing fs base with
  | nil => rfl
  | cons s rest ih =>
    cases ho : fs.obstacle? base s with
    | some e => rw [makePathFrom_blocked ho, makePathFrom_blocked ho]
    | none =>
      have ho' := (keepsDirectories_makePathFrom fs base (s :: rest)).obstacle? ho
      by_cases hs : s = ".."
      · subst hs
        rw [makePathFrom_up ho', makePathFrom_up ho]
        exact ih fs base.dropLast
      · rw [makePathFrom_down ho' hs]
        cases he : fs.get? (base ++ [s]) with
        | none =>
          have hmade : fs.makePathFrom base (s :: rest) =
              (fs.put (base ++ [s]) .directory).makePathFrom (base ++ [s]) rest := by
            rw [makePathFrom_down ho hs, he]
          have hput : (fs.put (base ++ [s]) .directory).get? (base ++ [s]) = some .directory := by
            rw [get?_put fs (by simp), if_pos rfl]
          rw [hmade, keepsDirectories_makePathFrom _ _ rest _ hput]
          exact ih _ (base ++ [s])
        | some e =>
          have hkept := get?_makePathFrom_of_some he base (s :: rest)
          cases e with
          | file bytes =>
            rw [hkept, makePathFrom_down ho hs, he]
          | directory | sealed =>
            rw [hkept, makePathFrom_down ho hs, he]
            exact ih fs (base ++ [s])

/-! ### file systems that look alike -/

/-- The same stands at every location of two file systems. -/
def Alike (fs gs : FileSystem) : Prop := ∀ l, fs.get? l = gs.get? l

theorem Alike.refl (fs : FileSystem) : Alike fs fs := fun _ => rfl

theorem Alike.trans (h : Alike fs gs) (hg : Alike gs hs) : Alike fs hs :=
  fun l => (h l).trans (hg l)

theorem Alike.put (h : Alike fs gs) (l : List String) (hl : l ≠ []) (e : FileEntry) :
    Alike (fs.put l e) (gs.put l e) := by
  intro m
  rw [get?_put fs hl, get?_put gs hl, h m]

theorem Alike.obstacle? (h : Alike fs gs) (l : List String) (s : String) :
    fs.obstacle? l s = gs.obstacle? l s := by
  rw [FileSystem.obstacle?, FileSystem.obstacle?, h l]

/-- Making a path looks at what stands where, and at nothing else. -/
theorem Alike.makePathFrom (h : Alike fs gs) (base ss : List String) :
    Alike (fs.makePathFrom base ss).1 (gs.makePathFrom base ss).1 ∧
      (fs.makePathFrom base ss).2 = (gs.makePathFrom base ss).2 := by
  induction ss generalizing fs gs base with
  | nil => exact ⟨h, rfl⟩
  | cons s rest ih =>
    cases ho : fs.obstacle? base s with
    | some e =>
      rw [makePathFrom_blocked ho, makePathFrom_blocked (h.obstacle? base s ▸ ho)]
      exact ⟨h, rfl⟩
    | none =>
      have ho' : gs.obstacle? base s = none := h.obstacle? base s ▸ ho
      by_cases hs : s = ".."
      · subst hs
        rw [makePathFrom_up ho, makePathFrom_up ho']
        exact ih h base.dropLast
      · rw [makePathFrom_down ho hs, makePathFrom_down ho' hs, h (base ++ [s])]
        split
        · exact ⟨h, rfl⟩
        · exact ih h (base ++ [s])
        · exact ih (h.put _ (by simp) _) (base ++ [s])

/-! ### paths with a NUL -/

theorem isSystem_of_obstacle? {s : String} {e : FileError} (h : fs.obstacle? l s = some e) :
    e.isSystem = true := by
  unfold obstacle? at h
  split at h
  · cases h; rfl
  · cases h; rfl
  · cases h; rfl
  · split at h <;> cases h
    rfl

theorem isSystem_of_walk {e : FileError} (h : fs.walk base ss = .error e) : e.isSystem = true := by
  induction ss generalizing base with
  | nil => cases h
  | cons s rest ih =>
    cases ho : fs.obstacle? base s with
    | some g =>
      rw [walk_blocked ho] at h
      cases h
      exact isSystem_of_obstacle? ho
    | none =>
      rw [walk_cons ho] at h
      split at h <;> exact ih h

theorem isSystem_of_makePathFrom {e : FileError} (h : fs.makePathFrom base ss = (gs, .error e)) :
    e.isSystem = true := by
  induction ss generalizing fs base with
  | nil => cases h
  | cons s rest ih =>
    cases ho : fs.obstacle? base s with
    | some g =>
      rw [makePathFrom_blocked ho] at h
      cases h
      exact isSystem_of_obstacle? ho
    | none =>
      by_cases hs : s = ".."
      · subst hs
        rw [makePathFrom_up ho] at h
        exact ih h
      · rw [makePathFrom_down ho hs] at h
        split at h
        · cases h
          split <;> rfl
        · exact ih h
        · exact ih h

theorem nul_of_fault? {e : FileError} (h : p.fault? = some e) (he : e.isSystem = false) :
    e = .nul ∧ ∃ n ∈ p.segments, '\x00' ∈ n.toList := by
  unfold Path.fault? at h
  split at h
  · rename_i hnul
    cases h
    exact ⟨rfl, by simpa using hnul⟩
  · split at h <;> cases h
    cases he

/-- Only a NUL in a path keeps the system from being asked. -/
theorem nul_of_locate {e : FileError} (h : fs.locate cwd p = .error e) (he : e.isSystem = false) :
    e = .nul ∧ ∃ n ∈ p.segments, '\x00' ∈ n.toList := by
  unfold FileSystem.locate at h
  split at h
  · cases h
    exact nul_of_fault? ‹_› he
  · rw [isSystem_of_walk h] at he
    cases he

theorem nul_of_makeOpen {e : FileError} (h : fs.makeOpen cwd p = (gs, .error e))
    (he : e.isSystem = false) : e = .nul ∧ ∃ n ∈ p.segments, '\x00' ∈ n.toList := by
  unfold makeOpen makePath at h
  split at h
  · rename_i hmade
    cases h
    split at hmade
    · cases hmade
      exact nul_of_fault? ‹_› he
    · rw [isSystem_of_makePathFrom hmade] at he
      cases he
  · split at h <;> cases h
    cases he

/-! ### names that nothing has -/

theorem le_foldl_max (ss : List String) (n : Nat) :
    n ≤ ss.foldl (fun n s => max n s.length) n ∧
      ∀ s ∈ ss, s.length ≤ ss.foldl (fun n s => max n s.length) n := by
  induction ss generalizing n with
  | nil => simp
  | cons s ss ih =>
    obtain ⟨hn, hss⟩ := ih (max n s.length)
    refine ⟨Nat.le_trans (Nat.le_max_left ..) hn, fun t ht => ?_⟩
    rcases List.mem_cons.mp ht with rfl | ht
    · exact Nat.le_trans (Nat.le_max_right ..) hn
    · exact hss t ht

theorem length_le_longestSegment {e : List String × FileEntry} {s : String}
    (he : e ∈ fs.entries) (hs : s ∈ e.1) : s.length ≤ fs.longestSegment := by
  have bound (es : List (List String × FileEntry)) (n : Nat) :
      n ≤ es.foldl (fun n e => e.1.foldl (fun n s => max n s.length) n) n ∧
        ∀ e ∈ es, ∀ s ∈ e.1,
          s.length ≤ es.foldl (fun n e => e.1.foldl (fun n s => max n s.length) n) n := by
    induction es generalizing n with
    | nil => simp
    | cons f es ih =>
      obtain ⟨hf, hsf⟩ := le_foldl_max f.1 n
      obtain ⟨hn, hes⟩ := ih (f.1.foldl (fun n s => max n s.length) n)
      refine ⟨Nat.le_trans hf hn, fun e he s hs => ?_⟩
      rcases List.mem_cons.mp he with rfl | he
      · exact Nat.le_trans (hsf s hs) hn
      · exact hes e he s hs
  exact (bound fs.entries 0).2 e he s hs

/-- Nothing stands where a fresh name is used. -/
theorem get?_freshName (fs : FileSystem) (l : List String) (other : String) :
    fs.get? (l ++ [fs.freshName other]) = none := by
  have hfree : ∀ e ∈ fs.entries, ¬ (e.1 == l ++ [fs.freshName other]) = true := by
    intro e he h
    have hlong := length_le_longestSegment (s := fs.freshName other) he
      (by rw [eq_of_beq h]; simp)
    simp only [freshName, String.length_ofList, List.length_replicate] at hlong
    omega
  rw [get?, if_neg (by simp), List.find?_eq_none.mpr hfree]
  rfl

end ServerRun.FileSystem
