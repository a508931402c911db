import ServerRun.Proofs.Archive.Tree
import ServerRun.Proofs.Repository.Tree
import ServerRun.Provision.Basic

/-! Providing an installation from an archive. Whatever stood where the archive is unpacked, in the
end the tree of the archive stands there and nothing else; so it depends on the archive alone, and
unpacking again gives the same. Elsewhere only directories on the way are made. The files that the
archive is found in have to form a tree, as every search leaves them that starts in one. -/

namespace ServerRun.Provision

open FileSystem Archive
open ServerRun.Path (resolveFrom)

variable {p : Provision} {cwd archive home : Path} {fs gs found made files : FileSystem}
  {search : FileSystem → FileSystem × Except Failure Path} {l : List String}
  {bytes : List UInt8} {es : List Entry}

/-! ### the way to the directory -/

/-- The location that the archive is unpacked into. -/
def root (p : Provision) (cwd : Path) : List String := p.target.location cwd

/-- The locations that the way to the destination leads through. -/
def way (p : Provision) (cwd : Path) : List (List String) :=
  passes [] (p.destination.absolute cwd).segments

theorem segments_target (p : Provision) (cwd : Path) :
    (p.target.absolute cwd).segments =
      (p.destination.absolute cwd).segments ++ ["asrun-server"] := by
  have hname : Path.ofString "asrun-server" = ⟨.relative, ["asrun-server"]⟩ := by decide +kernel
  rw [target, Path.div_eq, hname]
  obtain ⟨anchor, segments⟩ := p.destination
  cases anchor <;> simp [Path.absolute, Path.join, Path.isAbsolute]

theorem parent_target (p : Provision) : p.target.parent = p.destination := by
  have hname : Path.ofString "asrun-server" = ⟨.relative, ["asrun-server"]⟩ := by decide +kernel
  rw [target, Path.div_eq, hname]
  simp [Path.join, Path.parent, Path.isAbsolute]

theorem root_eq (p : Provision) (cwd : Path) :
    p.root cwd = p.destination.location cwd ++ ["asrun-server"] := by
  rw [root, Path.location, segments_target, resolveFrom_append, Path.location]
  rfl

theorem root_ne_nil (p : Provision) (cwd : Path) : p.root cwd ≠ [] := by
  rw [root_eq]
  simp

/-- A directory that the way leads to is where the target is looked for. -/
theorem locate_target (hfault : p.target.fault? = none)
    (hwalk : fs.walk [] (p.destination.absolute cwd).segments = .ok (p.destination.location cwd))
    (hd : fs.get? (p.destination.location cwd) = some .directory) :
    fs.locate cwd p.target = .ok (p.root cwd) := by
  have hname : "asrun-server".utf8ByteSize ≤ Path.nameLimit := by decide +kernel
  have hopen : fs.obstacle? (p.destination.location cwd) "asrun-server" = none :=
    obstacle?_eq_none.mpr ⟨hd, hname⟩
  rw [locate, hfault, segments_target]
  dsimp only
  rw [walk_append hwalk, walk_cons hopen, if_neg (by decide), walk, root_eq]

/-! ### an empty directory -/

/-- What preparing the directory leaves: an empty one, through directories on the way to it, and all
else as it was. -/
structure Prepared (p : Provision) (cwd : Path) (fs made : FileSystem) : Prop where
  plain : p.target.fault? = none
  destination : made.locate cwd p.destination = .ok (p.destination.location cwd)
  tree : IsTree made
  root : made.get? (p.root cwd) = some .directory
  empty : ∀ l, p.root cwd <+: l → l ≠ p.root cwd → made.get? l = none
  way : ∀ l ∈ p.way cwd, ¬ p.root cwd <+: l ∧ made.get? l = some .directory
  outside : ∀ l, ¬ p.root cwd <+: l →
    made.get? l = fs.get? l ∨ l ∈ p.way cwd ∧ fs.get? l = none

theorem clear_ok (htree : IsTree fs) (h : p.clear fs cwd = .ok gs) :
    IsTree gs ∧ AgreeOutside (p.root cwd) fs gs := by
  unfold clear at h
  split at h
  · cases h
  · cases h
    exact ⟨htree, .refl _ fs⟩
  · split at h
    · cases h
    · rw [htree.removeTree] at h
      cases h
      have hroot := p.root_ne_nil cwd
      refine ⟨isTree_eraseTree htree hroot, fun l hl => ?_⟩
      rw [← root, get?_eraseTree fs hroot]
      exact (if_neg hl).symm

theorem makeNew_ok {cleared : FileSystem} {k : List String}
    (h : cleared.makeNew cwd p.target = (made, .ok k)) :
    p.target.fault? = none ∧ ∃ mid k', cleared.makeOpen cwd p.destination = (mid, .ok k') ∧
      mid.get? (p.root cwd) = none ∧ made = mid.put (p.root cwd) .directory := by
  rw [makeNew, parent_target] at h
  split at h
  · cases h
  rename_i hplain
  split at h
  · cases h
  rename_i mid k' hmid
  split at h
  · cases h
  rename_i l hl
  obtain rfl : l = p.root cwd := eq_location_of_locate hl
  split at h <;> cases h
  rename_i hnone
  exact ⟨hplain, mid, k', hmid, hnone, rfl⟩

theorem prepared_of_ok (htree : IsTree fs) (h : p.prepare fs cwd = (made, .ok ())) :
    Prepared p cwd fs made := by
  unfold prepare at h
  split at h
  · cases h
  rename_i cleared hcleared
  split at h <;> cases h
  rename_i k hnew
  obtain ⟨hclear, hout⟩ := clear_ok htree hcleared
  obtain ⟨hplain, mid, k', hmid, hnone, rfl⟩ := makeNew_ok hnew
  have hmidTree : IsTree mid := by
    have htree := isTree_makeOpen hclear cwd p.destination
    rwa [hmid] at htree
  obtain ⟨hfault, hmade, hopen⟩ := makeOpen_ok hmid
  have hwalk : mid.walk [] (p.destination.absolute cwd).segments = .ok k' :=
    makePathFrom_ok (directoriesTo_nil cleared) hmade
  obtain rfl : k' = p.destination.location cwd := eq_resolveFrom_of_walk hwalk
  have hroot := p.root_ne_nil cwd
  have hput := get?_put mid hroot .directory
  have hkeep : KeepsDirectories mid (mid.put (p.root cwd) .directory) :=
    keepsDirectories_put (by simp [hnone]) _
  have hup : mid.get? (p.root cwd).dropLast = some .directory := by
    rwa [root_eq, List.dropLast_concat]
  have hway : ∀ l ∈ p.way cwd, ¬ p.root cwd <+: l ∧ mid.get? l = some .directory := by
    intro l hl
    have hd : mid.get? l = some .directory := directory_of_walk hwalk hopen hl
    refine ⟨fun hp => ?_, hd⟩
    have := hmidTree.directoriesTo hd _ hp
    simp [hnone] at this
  refine ⟨hplain, hkeep.locate ?_, isTree_put hmidTree hup (by simp [hnone]) _, ?_, ?_, ?_, ?_⟩
  · rw [locate, hfault]
    exact hwalk
  · rw [hput, if_pos rfl]
  · intro l hl hne
    rw [hput, if_neg hne]
    exact hmidTree.none_below (by simp [hnone]) hl (Ne.symm hne)
  · intro l hl
    obtain ⟨hp, hd⟩ := hway l hl
    exact ⟨hp, hkeep l hd⟩
  · intro l hl
    have hne : l ≠ p.root cwd := fun he => hl (he ▸ List.prefix_rfl)
    rw [hput, if_neg hne, hout l hl]
    have hchange := get?_makeOpen cleared cwd p.destination l
    rw [hmid] at hchange
    rcases hchange with h | ⟨hmade, hn, -⟩
    · exact .inl h
    · exact .inr ⟨hmade, hn⟩

theorem clear_of_locate (htree : IsTree fs) (hlocate : fs.locate cwd p.target = .ok (p.root cwd))
    (hroot : ∀ bytes, fs.get? (p.root cwd) ≠ some (.file bytes)) :
    ∃ cleared, p.clear fs cwd = .ok cleared ∧
      (∀ l, p.root cwd <+: l → cleared.get? l = none) ∧ AgreeOutside (p.root cwd) fs cleared := by
  rw [clear, pathExists, look_of_locate hlocate]
  cases hr : fs.get? (p.root cwd) with
  | none =>
    refine ⟨fs, rfl, fun l hl => ?_, .refl _ fs⟩
    by_cases hne : p.root cwd = l
    · rw [← hne, hr]
    · exact htree.none_below (by simp [hr]) hl hne
  | some x =>
    have herase := get?_eraseTree fs (p.root_ne_nil cwd)
    refine ⟨fs.eraseTree (p.root cwd), ?_, fun l hl => ?_, fun l hl => ?_⟩
    · rw [root] at hr
      cases x with
      | file bytes => exact absurd hr (hroot bytes)
      | directory | sealed => simp only [Option.any_some, hr, htree.removeTree, root]
    · rw [herase, if_pos hl]
    · rw [herase, if_neg hl]

/-- Preparing the directory once more, whatever has become of it and of what was below, comes to the
same. -/
theorem Prepared.again (hp : Prepared p cwd fs made) (htree : IsTree gs)
    (hout : AgreeOutside (p.root cwd) made gs)
    (hroot : ∀ bytes, gs.get? (p.root cwd) ≠ some (.file bytes)) :
    ∃ gs', p.prepare gs cwd = (gs', .ok ()) ∧ Alike gs' made := by
  obtain ⟨hfault, hwalk⟩ := walk_of_locate hp.destination
  have hway : ∀ l ∈ p.way cwd, gs.get? l = some .directory := fun l hl =>
    (hout l (hp.way l hl).1).symm.trans (hp.way l hl).2
  have hbeside : ¬ p.root cwd <+: p.destination.location cwd := by
    intro hp
    have hlen := hp.length_le
    rw [root_eq, List.length_append, List.length_singleton] at hlen
    omega
  have hup : gs.get? (p.destination.location cwd) = some .directory := by
    have hd := (hp.tree.directoriesTo hp.root).dropLast _ List.prefix_rfl
    rw [root_eq, List.dropLast_concat] at hd
    exact (hout _ hbeside).symm.trans hd
  have hopen (fs : FileSystem) (hway : ∀ l ∈ p.way cwd, fs.get? l = some .directory) :=
    walk_of_passes hwalk (directoriesTo_nil fs) (get?_nil fs) hway
  obtain ⟨cleared, hclear, hnone, hsame⟩ :=
    clear_of_locate htree (locate_target hp.plain (hopen gs hway).1 hup) hroot
  have hup' : cleared.get? (p.destination.location cwd) = some .directory :=
    (hsame _ hbeside).symm.trans hup
  obtain ⟨hwalk', hmade⟩ := hopen cleared fun l hl =>
    (hsame l (hp.way l hl).1).symm.trans (hway l hl)
  have hnew : cleared.makeNew cwd p.target =
      (cleared.put (p.root cwd) .directory, .ok (p.root cwd)) := by
    have hpath : cleared.makePath cwd p.destination =
        (cleared, .ok (p.destination.location cwd)) := by
      rw [makePath, hfault]
      exact hmade
    have hparent : cleared.makeOpen cwd p.destination =
        (cleared, .ok (p.destination.location cwd)) := by
      rw [makeOpen, hpath]
      simp only [hup', if_true]
    rw [makeNew, hp.plain, parent_target, hparent]
    simp only [locate_target hp.plain hwalk' hup', hnone _ List.prefix_rfl]
  refine ⟨cleared.put (p.root cwd) .directory, by simp only [prepare, hclear, hnew], fun l => ?_⟩
  rw [get?_put cleared (p.root_ne_nil cwd)]
  split
  · rename_i hl
    rw [hl, hp.root]
  · rename_i hne
    by_cases hl : p.root cwd <+: l
    · rw [hnone l hl, hp.empty l hl hne]
    · rw [← hsame l hl, hout l hl]

/-! ### unpacking -/

theorem get?_of_fileBytes (h : fs.fileBytes cwd archive = .ok bytes) :
    fs.get? (archive.location cwd) = some (.file bytes) := by
  unfold fileBytes at h
  split at h
  · cases h
  · rename_i l hl
    rw [← eq_location_of_locate hl]
    split at h <;> cases h
    assumption

theorem Prepared.archive_outside (hp : Prepared p cwd fs made)
    (h : made.get? (archive.location cwd) = some (.file bytes)) :
    ¬ p.root cwd <+: archive.location cwd ∧
      fs.get? (archive.location cwd) = some (.file bytes) := by
  have hout : ¬ p.root cwd <+: archive.location cwd := by
    intro hl
    by_cases hne : archive.location cwd = p.root cwd
    · rw [hne, hp.root] at h
      cases h
    · rw [hp.empty _ hl hne] at h
      cases h
  refine ⟨hout, ?_⟩
  rcases hp.outside _ hout with hsame | ⟨hway, -⟩
  · rw [← hsame, h]
  · rw [(hp.way _ hway).2] at h
    cases h

/-- A provision that succeeds has prepared the directory and unpacked all entries of the archive. -/
theorem finish_ok (h : p.finish fs cwd archive = (files, .ok home)) :
    home = p.homeIn cwd ∧ ∃ made bytes es, p.prepare fs cwd = (made, .ok ()) ∧
      made.fileBytes cwd archive = .ok bytes ∧ Zip.entries bytes = .ok es ∧
      unpack made (p.root cwd) es = (files, .ok ()) := by
  unfold finish at h
  split at h <;> cases h
  rename_i hextract
  refine ⟨rfl, ?_⟩
  unfold extract at hextract
  split at hextract
  · cases hextract
  · rename_i made hprepare
    unfold unpackFile at hextract
    split at hextract
    · cases hextract
    · rename_i bytes hbytes
      split at hextract
      · cases hextract
      · rename_i es hes
        exact ⟨made, bytes, es, hprepare, hbytes, hes, hextract⟩

theorem finish_of_prepared (hprepare : p.prepare fs cwd = (made, .ok ()))
    (hbytes : made.fileBytes cwd archive = .ok bytes) (hes : Zip.entries bytes = .ok es)
    (hunpack : unpack made (p.root cwd) es = (files, .ok ())) :
    p.finish fs cwd archive = (files, .ok (p.homeIn cwd)) := by
  have hfile : unpackFile made cwd archive p.target = (files, .ok ()) := by
    simp only [unpackFile, hbytes, hes]
    exact hunpack
  simp only [finish, extract, hprepare, hfile]

/-- What a provision leaves elsewhere, whether it unpacked all entries or not. -/
theorem Prepared.agreeOutside_finish (hp : Prepared p cwd fs made)
    (hprepare : p.prepare fs cwd = (made, .ok ())) (archive : Path) :
    AgreeOutside (p.root cwd) made (p.finish fs cwd archive).1 := by
  have hfile : (p.finish fs cwd archive).1 = (unpackFile made cwd archive p.target).1 := by
    rw [finish, extract, hprepare]
    dsimp only
    rcases unpackFile made cwd archive p.target with ⟨files, f | ⟨⟨⟩⟩⟩ <;> rfl
  rw [hfile]
  exact agreeOutside_unpackFile (hp.tree.directoriesTo hp.root).dropLast

/-! ### providing -/

/-- What providing an installation from an archive of some entries comes to. -/
structure Provided (p : Provision) (cwd : Path) (es : List Entry) (found files : FileSystem)
    (home : Path) : Prop where
  home : home = p.homeIn cwd
  /-- The place of each entry is the directory or below it, and each file could be read. -/
  entries : ∀ e ∈ es, p.root cwd <+: e.place (p.root cwd) ∧
    (e.isDirectory = false → ∃ c, e.content = .ok c ∧ c.fault = none)
  root : files.get? (p.root cwd) = some .directory
  /-- Below the directory there is the tree of the entries and nothing else. -/
  tree : ∀ l, p.root cwd <+: l → l ≠ p.root cwd → ∀ x,
    files.get? l = some x ↔ Holds (p.root cwd) es l x
  /-- Elsewhere, directories were made on the way to it where nothing stood. -/
  outside : ∀ l, ¬ p.root cwd <+: l → files.get? l = found.get? l ∨
    l ∈ p.way cwd ∧ found.get? l = none ∧ files.get? l = some .directory

theorem Prepared.provided (hp : Prepared p cwd fs made)
    (hunpack : unpack made (p.root cwd) es = (files, .ok ())) :
    Provided p cwd es fs files (p.homeIn cwd) := by
  have hdirectories := hp.tree.directoriesTo hp.root
  have hkeep := keepsDirectories_unpack made (p.root cwd) es
  have hout := agreeOutside_unpack hdirectories.dropLast es
  rw [hunpack] at hkeep hout
  obtain ⟨htree, hentries⟩ := (shows_nil hp.empty).unpack hdirectories hunpack
  refine ⟨rfl, hentries, hkeep _ hp.root, htree, fun l hl => ?_⟩
  rw [← hout l hl]
  refine (hp.outside l hl).imp_right fun ⟨hway, hnone⟩ => ⟨hway, hnone, (hp.way l hway).2⟩

/-- What a provision that succeeds has found and unpacked. -/
theorem provided_of_finish (htree : IsTree found)
    (h : p.finish found cwd archive = (files, .ok home)) :
    ∃ made bytes es, p.prepare found cwd = (made, .ok ()) ∧ Prepared p cwd found made ∧
      made.fileBytes cwd archive = .ok bytes ∧ Zip.entries bytes = .ok es ∧
      unpack made (p.root cwd) es = (files, .ok ()) ∧ ¬ p.root cwd <+: archive.location cwd ∧
      found.get? (archive.location cwd) = some (.file bytes) ∧
      Provided p cwd es found files home := by
  obtain ⟨rfl, made, bytes, es, hprepare, hbytes, hes, hunpack⟩ := finish_ok h
  have hp := prepared_of_ok htree hprepare
  obtain ⟨hout, harchive⟩ := hp.archive_outside (get?_of_fileBytes hbytes)
  exact ⟨made, bytes, es, hprepare, hp, hbytes, hes, hunpack, hout, harchive,
    hp.provided hunpack⟩

theorem ensure_of_found (hgiven : p.given? = none) (hfound : search fs = (found, .ok archive)) :
    p.ensure fs cwd search = p.finish found cwd archive := by
  simp only [ensure, hgiven, hfound]

/-- What was provided from the entries of one archive is what is provided from them again. -/
theorem Provided.unique {found' files' : FileSystem} {home' : Path}
    (h : Provided p cwd es found files home) (h' : Provided p cwd es found' files' home') :
    home' = home ∧ ∀ l, p.root cwd <+: l → files'.get? l = files.get? l := by
  refine ⟨h'.home.trans h.home.symm, fun l hl => ?_⟩
  by_cases hne : l = p.root cwd
  · rw [hne, h.root, h'.root]
  · refine Option.ext fun x => ?_
    rw [h.tree l hl hne, h'.tree l hl hne]

/-- Unpacking the archive once more gives the same files, after whatever has become of the directory
since it was prepared. -/
theorem Prepared.finish_again (hp : Prepared p cwd fs made)
    (hbytes : made.fileBytes cwd archive = .ok bytes) (hes : Zip.entries bytes = .ok es)
    (hunpack : unpack made (p.root cwd) es = (files, .ok ())) (htree : IsTree gs)
    (hout : AgreeOutside (p.root cwd) made gs)
    (hroot : ∀ bytes, gs.get? (p.root cwd) ≠ some (.file bytes)) :
    ∃ files', p.finish gs cwd archive = (files', .ok (p.homeIn cwd)) ∧ Alike files' files := by
  obtain ⟨gs', hprepare, halike⟩ := hp.again htree hout hroot
  obtain ⟨hfiles, hresult⟩ := alike_unpack halike (p.root cwd) es
  rw [hunpack] at hfiles hresult
  rcases hunpack' : unpack gs' (p.root cwd) es with ⟨files', r⟩
  rw [hunpack'] at hfiles hresult
  obtain rfl : r = .ok () := hresult
  rw [← halike.fileBytes] at hbytes
  exact ⟨files', finish_of_prepared hprepare hbytes hes hunpack', hfiles⟩

/-- Where an installation that is not there yet is provided, the tree of its archive stands below
the directory and nothing else. Any provision from the same bytes gives this tree and this home; and
one after another, be it the one that succeeded or one of any archive that failed, and after any
change below the directory, succeeds if the archive is found again. -/
theorem ensure_provides (hgiven : p.given? = none) (hfound : search fs = (found, .ok archive))
    (htree : IsTree found) (h : p.ensure fs cwd search = (files, .ok home)) :
    ∃ bytes es, found.get? (archive.location cwd) = some (.file bytes) ∧
      ¬ p.root cwd <+: archive.location cwd ∧ Zip.entries bytes = .ok es ∧
      Provided p cwd es found files home ∧
      (∀ fs' search' found' archive' files' home', search' fs' = (found', .ok archive') →
        IsTree found' → found'.get? (archive'.location cwd) = some (.file bytes) →
        p.ensure fs' cwd search' = (files', .ok home') →
        home' = home ∧ ∀ l, p.root cwd <+: l → files'.get? l = files.get? l) ∧
      ∀ earlier gs search', AgreeOutside (p.root cwd) (p.finish found cwd earlier).1 gs →
        IsTree gs → (∀ bytes, gs.get? (p.root cwd) ≠ some (.file bytes)) →
        search' gs = (gs, .ok archive) →
        ∃ files', p.ensure gs cwd search' = (files', .ok home) ∧ Alike files' files := by
  rw [ensure_of_found hgiven hfound] at h
  obtain ⟨made, bytes, es, hprepare, hp, hbytes, hes, hunpack, hout, harchive, hprovided⟩ :=
    provided_of_finish htree h
  refine ⟨bytes, es, harchive, hout, hes, hprovided, ?_, ?_⟩
  · intro fs' search' found' archive' files' home' hfound' htree' harchive' h'
    rw [ensure_of_found hgiven hfound'] at h'
    obtain ⟨-, bytes', es', -, -, -, hes', -, -, hsame, hprovided'⟩ :=
      provided_of_finish htree' h'
    obtain rfl : bytes' = bytes := by simpa [harchive'] using hsame.symm
    obtain rfl : es' = es := Except.ok.inj (hes'.symm.trans hes)
    exact hprovided.unique hprovided'
  · intro earlier gs search' hafter hgs hroot hfound'
    rw [ensure_of_found hgiven hfound', hprovided.home]
    have hout' := (hp.agreeOutside_finish hprepare earlier).trans hafter
    exact hp.finish_again hbytes hes hunpack hgs hout' hroot

/-- Where the archive is looked for in a repository, it is enough that the files form a tree before
the search. -/
theorem provided_of_resolve {s : Repository.Search} {answers : List (List Repository.News)}
    {result : Except Failure Path} (hgiven : p.given? = none) (htree : IsTree fs)
    (hsearch : search fs = ((s.resolve fs answers).files, result))
    (h : p.ensure fs cwd search = (files, .ok home)) :
    ∃ archive bytes es, result = .ok archive ∧
      (s.resolve fs answers).files.get? (archive.location cwd) = some (.file bytes) ∧
      Zip.entries bytes = .ok es ∧
      Provided p cwd es (s.resolve fs answers).files files home := by
  have hfound : IsTree (s.resolve fs answers).files := Repository.resolve_isTree htree answers
  cases result with
  | error f =>
    simp only [ensure, hgiven, hsearch] at h
    cases h
  | ok archive =>
    rw [ensure_of_found hgiven hsearch] at h
    obtain ⟨-, bytes, es, -, -, -, hes, -, -, harchive, hprovided⟩ := provided_of_finish hfound h
    exact ⟨archive, bytes, es, rfl, harchive, hes, hprovided⟩

/-- An archive of one directory. -/
def distribution : List UInt8 :=
  [80, 75, 3, 4, 20, 0, 0, 0, 0, 0, 0, 0, 33, 0, 0, 0, 0, 0, 0, 0, 0, 0, 0, 0, 0, 0, 8, 0, 0, 0,
    115, 45, 49, 47, 98, 105, 110, 47, 80, 75, 1, 2, 20, 3, 20, 0, 0, 0, 0, 0, 0, 0, 33, 0, 0,
    0, 0, 0, 0, 0, 0, 0, 0, 0, 0, 0, 8, 0, 0, 0, 0, 0, 0, 0, 0, 0, 0, 0, 128, 1, 0, 0, 0, 0,
    115, 45, 49, 47, 98, 105, 110, 47, 80, 75, 5, 6, 0, 0, 0, 0, 1, 0, 1, 0, 54, 0, 0, 0, 38, 0,
    0, 0, 0, 0]

/-- The archive beside a directory with what an earlier provision left. -/
def stock : FileSystem :=
  ⟨[(["a.zip"], .file distribution), (["t"], .directory), (["t", "asrun-server"], .directory),
    (["t", "asrun-server", "left"], .file [])]⟩

def order : Provision := ⟨none, ⟨"g", "s", "zip", "1"⟩, ⟨.relative, ["t"]⟩, "s"⟩

/-- A search that finds the archive. -/
def atHand (fs : FileSystem) : FileSystem × Except Failure Path := (fs, .ok ⟨.relative, ["a.zip"]⟩)

/-- What the order comes to. -/
def delivery : FileSystem × Except Failure Path := order.ensure stock ⟨.root, []⟩ atHand

theorem isTree_stock : IsTree stock := isTree_of_entries (by decide +kernel)

/-- The archive is unpacked, and what was left of an earlier provision is gone. -/
theorem ensure_provides_stock :
    IsTree stock ∧ ∃ files es,
      order.ensure stock ⟨.root, []⟩ atHand =
        (files, .ok ⟨.root, ["t", "asrun-server", "s-1"]⟩) ∧
      Zip.entries distribution = .ok es ∧
      Provided order ⟨.root, []⟩ es stock files ⟨.root, ["t", "asrun-server", "s-1"]⟩ ∧
      files.get? ["t", "asrun-server", "s-1", "bin"] = some .directory ∧
      files.get? ["t", "asrun-server", "left"] = none := by
  have hresult : delivery.2.toOption = some ⟨.root, ["t", "asrun-server", "s-1"]⟩ := by
    decide +kernel
  have hfiles : delivery.1.get? ["t", "asrun-server", "s-1", "bin"] = some .directory ∧
      delivery.1.get? ["t", "asrun-server", "left"] = none := by decide +kernel
  rcases hdelivery : delivery with ⟨files, f | home⟩ <;> rw [hdelivery] at hresult hfiles
  · cases hresult
  · obtain rfl : home = ⟨.root, ["t", "asrun-server", "s-1"]⟩ := Option.some.inj hresult
    have hfound : atHand stock = (stock, .ok ⟨.relative, ["a.zip"]⟩) := rfl
    obtain ⟨bytes, es, hbytes, -, hes, hprovided, -⟩ :=
      ensure_provides rfl hfound isTree_stock hdelivery
    have harchive : stock.get? ["a.zip"] = some (.file distribution) := rfl
    obtain rfl : distribution = bytes := by simpa using harchive.symm.trans hbytes
    exact ⟨isTree_stock, files, es, hdelivery, hes, hprovided, hfiles⟩

end ServerRun.Provision
