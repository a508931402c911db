import ServerRun.Proofs.File.System

/-! File systems that are trees: whatever is there stands in a directory. Operations that look for
the directory first keep it so, and below a location where nothing stands there is nothing. -/

namespace ServerRun.FileSystem

open ServerRun.Path (resolveFrom)

variable {fs gs : FileSystem} {base k l m : List String} {ss : List String} {cwd p : Path}
  {e : FileEntry}

/-- Whatever is there stands in a directory. -/
def IsTree (fs : FileSystem) : Prop :=
  ∀ l, fs.get? l ≠ none → fs.get? l.dropLast = some .directory

/-- In a tree, directories lead to the directory of whatever is there. -/
theorem IsTree.directoriesTo_dropLast (h : IsTree fs) (hl : fs.get? l ≠ none) :
    DirectoriesTo fs l.dropLast := by
  obtain ⟨n, hn⟩ : ∃ n, l.length = n := ⟨_, rfl⟩
  induction n generalizing l with
  | zero =>
    rw [List.length_eq_zero_iff.mp hn]
    exact directoriesTo_nil fs
  | succ n ih =>
    have hd := h l hl
    exact (ih (by simp [hd]) (by simp [hn])).of_dropLast hd

theorem IsTree.directoriesTo (h : IsTree fs) (hl : fs.get? l = some .directory) :
    DirectoriesTo fs l := (h.directoriesTo_dropLast (by simp [hl])).of_dropLast hl

/-- Where no directory stands, nothing stands below. -/
theorem IsTree.none_below (h : IsTree fs) (hl : fs.get? l ≠ some .directory) (hm : l <+: m)
    (hne : l ≠ m) : fs.get? m = none :=
  Classical.not_not.mp fun hn => hl (h.directoriesTo_dropLast hn l (prefix_dropLast hm hne))

/-- Only what is listed can be there. -/
theorem isTree_of_entries
    (h : ∀ f ∈ fs.entries, fs.get? f.1.dropLast = some .directory) : IsTree fs := by
  intro l hl
  by_cases hnil : l = []
  · subst hnil
    exact get?_nil fs
  · rw [get?, if_neg hnil, ne_eq, Option.map_eq_none_iff] at hl
    obtain ⟨f, hf⟩ := Option.ne_none_iff_exists'.mp hl
    have hname : f.1 = l := by simpa using List.find?_some hf
    exact hname ▸ h f (List.mem_of_find?_eq_some hf)

/-- In a tree a directory that may not be searched is empty, so that all can be removed. -/
theorem IsTree.removeTree (h : IsTree fs) (l : List String) :
    fs.removeTree l = .ok (fs.eraseTree l) := by
  rw [FileSystem.removeTree, if_neg]
  rw [List.any_eq_true]
  rintro ⟨e, he, hsealed⟩
  have hthere : fs.get? e.1 ≠ none := by
    rw [get?]
    split
    · simp
    · rw [ne_eq, Option.map_eq_none_iff, List.find?_eq_none]
      exact fun hnone => hnone e he (beq_self_eq_true _)
  simp [h e.1 hthere] at hsealed

/-! ### operations -/

theorem isTree_put (h : IsTree fs) (hup : fs.get? l.dropLast = some .directory)
    (hl : fs.get? l ≠ some .directory) (e : FileEntry) : IsTree (fs.put l e) := by
  have hnil : l ≠ [] := ne_nil_of_not_directory hl
  have hkeep : KeepsDirectories fs (fs.put l e) := keepsDirectories_put hl e
  intro m hm
  rw [get?_put fs hnil] at hm
  split at hm <;> rename_i hml
  · exact hkeep _ (hml ▸ hup)
  · exact hkeep _ (h m hm)

theorem isTree_erase (h : IsTree fs) (hl : fs.get? l ≠ some .directory) : IsTree (fs.erase l) := by
  intro m hm
  rw [get?_erase fs (ne_nil_of_not_directory hl)] at hm
  split at hm
  · exact absurd rfl hm
  · exact keepsDirectories_erase hl _ (h m hm)

theorem get?_eraseTree (fs : FileSystem) (hl : l ≠ []) (m : List String) :
    (fs.eraseTree l).get? m = if l <+: m then none else fs.get? m := by
  by_cases hm : m = []
  · subst hm
    simp [hl]
  · have hprefix : l.isPrefixOf m = decide (l <+: m) := by
      rw [Bool.eq_iff_iff]
      simp
    have hkept (f : List String × FileEntry) :
        decide ((!l.isPrefixOf f.1) = true ∧ (f.1 == m) = true) =
          (!decide (l <+: m) && f.1 == m) := by
      by_cases hf : f.1 = m <;> simp [hf, hprefix]
    rw [get?, get?, if_neg hm, if_neg hm, eraseTree, List.find?_filter, funext hkept]
    split <;> rename_i hlm <;> simp [hlm]

theorem isTree_eraseTree (h : IsTree fs) (hl : l ≠ []) : IsTree (fs.eraseTree l) := by
  intro m hm
  rw [get?_eraseTree fs hl] at hm ⊢
  split at hm
  · exact absurd rfl hm
  · rename_i hlm
    have hup : ¬ l <+: m.dropLast := fun hp => hlm (hp.trans (List.dropLast_prefix m))
    rw [if_neg hup]
    exact h m hm

theorem isTree_makePathFrom (h : IsTree fs) (hb : DirectoriesTo fs base.dropLast)
    (ss : List String) : IsTree (fs.makePathFrom base ss).1 := by
  induction ss generalizing fs base with
  | nil => exact h
  | cons s rest ih =>
    cases ho : fs.obstacle? base s with
    | some e =>
      rw [makePathFrom_blocked ho]
      exact h
    | none =>
      have hbase : DirectoriesTo fs base := hb.of_dropLast (obstacle?_eq_none.mp ho).1
      by_cases hs : s = ".."
      · subst hs
        rw [makePathFrom_up ho]
        exact ih h hbase.dropLast.dropLast
      · have hup : DirectoriesTo fs (base ++ [s]).dropLast := by rwa [List.dropLast_concat]
        rw [makePathFrom_down ho hs]
        split
        · exact h
        · exact ih h hup
        · rename_i hnone
          have hnone' : fs.get? (base ++ [s]) ≠ some .directory := by simp [hnone]
          have hput := isTree_put h (hup _ List.prefix_rfl) hnone' .directory
          exact ih hput (hup.keep (keepsDirectories_put hnone' _))

theorem isTree_makePath (h : IsTree fs) (cwd p : Path) : IsTree (fs.makePath cwd p).1 := by
  have htop : DirectoriesTo fs ([] : List String).dropLast := directoriesTo_nil fs
  rw [makePath]
  split
  · exact h
  · exact isTree_makePathFrom h htop _

theorem isTree_makeOpen (h : IsTree fs) (cwd p : Path) : IsTree (fs.makeOpen cwd p).1 :=
  makeOpen_fst fs cwd p ▸ isTree_makePath h cwd p

theorem makeOpen_again (fs : FileSystem) (cwd p : Path) :
    (fs.makeOpen cwd p).1.makeOpen cwd p = fs.makeOpen cwd p := by
  have hpath : (fs.makePath cwd p).1.makePath cwd p = fs.makePath cwd p := by
    rw [makePath, makePath]
    split
    · rfl
    · exact makePathFrom_again fs [] _
  rw [makeOpen_fst, makeOpen, makeOpen, hpath]

/-! ### passing through locations -/

/-- A path that is made leads through directories. -/
theorem isDirectory_of_mem_passes (h : fs.makePathFrom base ss = (gs, .ok k))
    (hl : l ∈ passes base ss) : gs.isDirectory l = true := by
  induction ss generalizing fs base with
  | nil => cases hl
  | cons s rest ih =>
    cases ho : fs.obstacle? base s with
    | some e =>
      rw [makePathFrom_blocked ho] at h
      cases h
    | none =>
      by_cases hs : s = ".."
      · subst hs
        rw [makePathFrom_up ho] at h
        rw [passes, if_pos rfl] at hl
        exact ih h hl
      · rw [makePathFrom_down ho hs] at h
        rw [passes, if_neg hs, List.mem_cons] at hl
        have hmade {fs : FileSystem} {e : FileEntry} (he : fs.get? (base ++ [s]) = some e)
            (hd : e.isDirectory = true) (h : fs.makePathFrom (base ++ [s]) rest = (gs, .ok k)) :
            gs.isDirectory l = true := by
          rcases hl with rfl | hl
          · have hkept := get?_makePathFrom_of_some he (base ++ [s]) rest
            rw [h] at hkept
            rw [isDirectory, hkept]
            exact hd
          · exact ih h hl
        split at h
        · cases h
        · rename_i e hfile he
          refine hmade he ?_ h
          cases e with
          | file bytes => exact absurd rfl (hfile bytes)
          | directory | sealed => rfl
        · exact hmade (by rw [get?_put fs (by simp), if_pos rfl]) rfl h

/-- No directory is sealed that is made. -/
theorem directory_of_mem_passes (h : fs.makePathFrom base ss = (gs, .ok k))
    (hl : l ∈ passes base ss) (hopen : fs.get? l ≠ some .sealed) :
    gs.get? l = some .directory := by
  have hd := isDirectory_of_mem_passes h hl
  rcases get?_makePathFrom fs base ss l with hsame | ⟨-, -, hdir⟩ <;> rw [h] at *
  · rw [isDirectory, hsame] at hd
    obtain ⟨e, he, hd⟩ := Option.any_eq_true .. |>.mp hd
    cases e with
    | directory => exact hsame.trans he
    | sealed => exact absurd he hopen
    | file bytes => cases hd
  · exact hdir

/-- A path that is followed to a directory that may be searched leads through such directories. -/
theorem directory_of_walk (h : fs.walk base ss = .ok k) (hk : fs.get? k = some .directory)
    (hl : l ∈ passes base ss) : fs.get? l = some .directory := by
  induction ss generalizing base with
  | nil => cases hl
  | cons s rest ih =>
    obtain ⟨-, h⟩ := walk_cons_ok h
    by_cases hs : s = ".."
    · rw [if_pos hs] at h
      rw [passes, if_pos hs] at hl
      exact ih h hl
    · rw [if_neg hs] at h
      rw [passes, if_neg hs, List.mem_cons] at hl
      rcases hl with rfl | hl
      · cases rest with
        | nil => exact Except.ok.inj h ▸ hk
        | cons t rest => exact (obstacle?_eq_none.mp (walk_cons_ok h).1).1
      · exact ih h hl

/-- What leads through directories can be followed where they all are, and nothing is to be made. -/
theorem walk_of_passes (h : fs.walk base ss = .ok l) (hb : DirectoriesTo gs base.dropLast)
    (hbase : gs.get? base = some .directory)
    (hpasses : ∀ m ∈ passes base ss, gs.get? m = some .directory) :
    gs.walk base ss = .ok l ∧ gs.makePathFrom base ss = (gs, .ok l) := by
  induction ss generalizing base with
  | nil => exact ⟨h, by rw [Except.ok.inj h, makePathFrom]⟩
  | cons s rest ih =>
    obtain ⟨ho, h⟩ := walk_cons_ok h
    have ho' : gs.obstacle? base s = none :=
      obstacle?_eq_none.mpr ⟨hbase, (obstacle?_eq_none.mp ho).2⟩
    rw [walk_cons ho']
    by_cases hs : s = ".."
    · subst hs
      rw [passes, if_pos rfl] at hpasses
      rw [if_pos rfl] at h ⊢
      rw [makePathFrom_up ho']
      exact ih h hb.dropLast (hb _ List.prefix_rfl) hpasses
    · rw [passes, if_neg hs, List.forall_mem_cons] at hpasses
      have hup : DirectoriesTo gs (base ++ [s]).dropLast := by
        rw [List.dropLast_concat]
        exact hb.of_dropLast hbase
      rw [if_neg hs] at h ⊢
      rw [makePathFrom_down ho' hs, hpasses.1]
      exact ih h hup hpasses.1 hpasses.2

theorem resolveFrom_append (done ss more : List String) :
    resolveFrom done (ss ++ more) = resolveFrom (resolveFrom done ss) more := by
  induction ss generalizing done with
  | nil => rfl
  | cons s ss ih =>
    rw [List.cons_append, resolveFrom, resolveFrom]
    split
    · exact ih done.dropLast
    · exact ih (done ++ [s])

theorem mem_passes_of_not_mem (hs : ".." ∉ ss) (hl : l <+: base ++ ss) (hb : ¬ l <+: base) :
    l ∈ passes base ss := by
  induction ss generalizing base with
  | nil => exact absurd (by simpa using hl) hb
  | cons s rest ih =>
    rw [List.mem_cons, not_or] at hs
    rw [passes, if_neg (Ne.symm hs.1), List.mem_cons]
    by_cases hle : l <+: base ++ [s]
    · exact .inl ((List.prefix_concat_iff.mp hle).resolve_right hb)
    · exact .inr (ih hs.2 (by simpa using hl) hle)

/-- Where a path without double dots was made, directories lead to its end, if none was sealed; all
else is as it was. -/
theorem get?_of_makePathFrom (hs : ".." ∉ ss) (hopen : ∀ m, m <+: ss → fs.get? m ≠ some .sealed)
    (h : fs.makePathFrom [] ss = (gs, .ok k)) (m : List String) :
    gs.get? m = if m <+: ss then some .directory else fs.get? m := by
  split
  · rename_i hm
    by_cases hnil : m = []
    · rw [hnil, get?_nil]
    · refine directory_of_mem_passes h (mem_passes_of_not_mem hs (by simpa using hm) ?_)
        (hopen m hm)
      simpa using hnil
  · rename_i hm
    rcases get?_makePathFrom fs [] ss m with hsame | ⟨hp, -⟩
    · rwa [h] at hsame
    · exact absurd (by simpa using prefix_of_mem_passes hs hp) hm

/-! ### what file systems that look alike have in common -/

theorem Alike.walk (h : Alike fs gs) (base ss : List String) :
    fs.walk base ss = gs.walk base ss := by
  induction ss generalizing base with
  | nil => rfl
  | cons s ss ih => rw [FileSystem.walk, FileSystem.walk, h.obstacle?, ih, ih]

theorem Alike.fileBytes (h : Alike fs gs) (cwd p : Path) :
    fs.fileBytes cwd p = gs.fileBytes cwd p := by
  rw [FileSystem.fileBytes, FileSystem.fileBytes, FileSystem.locate, FileSystem.locate, h.walk]
  simp only [h _]

theorem Alike.writable (h : Alike fs gs) (l : List String) : fs.writable l = gs.writable l := by
  rw [FileSystem.writable, FileSystem.writable, isDirectory, isDirectory, h, h.obstacle?]

theorem Alike.makePath (h : Alike fs gs) (cwd p : Path) :
    Alike (fs.makePath cwd p).1 (gs.makePath cwd p).1 ∧
      (fs.makePath cwd p).2 = (gs.makePath cwd p).2 := by
  rw [FileSystem.makePath, FileSystem.makePath]
  split
  · exact ⟨h, rfl⟩
  · exact h.makePathFrom [] _

theorem Alike.locate (h : Alike fs gs) (cwd p : Path) : fs.locate cwd p = gs.locate cwd p := by
  rw [FileSystem.locate, FileSystem.locate, h.walk]

theorem Alike.makeOpen (h : Alike fs gs) (cwd p : Path) :
    Alike (fs.makeOpen cwd p).1 (gs.makeOpen cwd p).1 ∧
      (fs.makeOpen cwd p).2 = (gs.makeOpen cwd p).2 := by
  obtain ⟨hmade, hresult⟩ := h.makePath cwd p
  rw [makeOpen_fst, makeOpen_fst]
  refine ⟨hmade, ?_⟩
  rw [FileSystem.makeOpen, FileSystem.makeOpen]
  rcases hfs : fs.makePath cwd p with ⟨made, e | l⟩ <;>
    rcases hgs : gs.makePath cwd p with ⟨made', e' | l'⟩ <;>
    rw [hfs, hgs] at hmade hresult <;> cases hresult
  · rfl
  · exact congrArg (fun e => if e = some FileEntry.directory then _ else _) (hmade l)

theorem Alike.makeAt (h : Alike fs gs) (l : List String) :
    Alike (fs.makeAt l).1 (gs.makeAt l).1 ∧ (fs.makeAt l).2 = (gs.makeAt l).2 := by
  rw [FileSystem.makeAt, FileSystem.makeAt]
  split
  · exact ⟨h, rfl⟩
  · exact h.makePathFrom [] l

end ServerRun.FileSystem
