import ServerRun.Archive.Tree
import ServerRun.Proofs.Archive.Fault
import ServerRun.Proofs.File.Path
import ServerRun.Proofs.File.System

/-! Unpacking stays below its destination. Each entry changes locations on the way to its own place
only, and none that is a directory already; so as long as the destination is there, nothing outside
it changes, whatever the entries are called and whatever they hold. An entry whose place lies
outside ends the unpacking before it changes anything. -/

namespace ServerRun.Archive

open FileSystem

variable {fs gs hs : FileSystem} {root place l : List String} {cwd archive destination r : Path}
  {name : String} {e : Entry} {es before after : List Entry} {c : Content} {f : Failure}

/-! ### places -/

/-- The place of an entry is its name followed from the destination. -/
theorem location_div_resolve (destination cwd : Path) (e : Entry) :
    (destination.resolve cwd / e.name).location cwd = e.place (destination.location cwd) := by
  have habs : (destination.resolve cwd / e.name).isAbsolute = true := by
    rw [Path.div_eq, Path.join]
    split
    · assumption
    · rfl
  rw [Entry.place, Path.location_of_isAbsolute habs, ← Path.location_of_isAbsolute habs]
  rfl

theorem not_mem_place (e : Entry) (root : List String) : ".." ∉ e.place root :=
  Path.not_mem_location _ _

theorem prefix_place_of_mem_passes (hp : place <+: e.place root) (hl : l ∈ passes [] place) :
    l <+: e.place root := by
  have hdots : ".." ∉ place := fun hm => not_mem_place e root (hp.subset hm)
  exact (prefix_of_mem_passes hdots hl).trans hp

/-! ### one entry -/

theorem get?_writeEntry (fs : FileSystem) (place : List String) (c : Content) (l : List String) :
    (writeEntry fs place c).1.get? l = fs.get? l ∨ l = place ∧ fs.get? l ≠ some .directory := by
  unfold writeEntry
  split
  · exact .inl rfl
  · rename_i gs hgs
    obtain ⟨hd, rfl⟩ := storeFile_ok hgs
    have hput : (fs.put place (.file c.bytes)).get? l = fs.get? l ∨
        l = place ∧ fs.get? l ≠ some .directory := by
      rw [get?_put fs (ne_nil_of_not_directory hd)]
      split
      · rename_i hl
        exact .inr ⟨hl, hl ▸ hd⟩
      · exact .inl rfl
    split <;> exact hput

theorem unpackEntry_outside (fs : FileSystem) (h : ¬ root <+: e.place root) :
    unpackEntry fs root e = (fs, .error (.escapes e.name (Path.ofLocation root))) := by
  simp [unpackEntry, h]

/-- An entry changes only locations above or at its place, where that is inside, and none that is a
directory. -/
theorem get?_unpackEntry (fs : FileSystem) (root : List String) (e : Entry) (l : List String) :
    (unpackEntry fs root e).1.get? l = fs.get? l ∨
      root <+: e.place root ∧ l <+: e.place root ∧ fs.get? l ≠ some .directory := by
  by_cases hin : root <+: e.place root
  · have hmake {place} (hp : place <+: e.place root) :
        (fs.makeAt place).1.get? l = fs.get? l ∨
          root <+: e.place root ∧ l <+: e.place root ∧ fs.get? l ≠ some .directory :=
      (get?_makeAt fs place l).imp_right fun ⟨hl, hn, _⟩ =>
        ⟨hin, prefix_place_of_mem_passes hp hl, by simp [hn]⟩
    have hplace := hmake List.prefix_rfl
    have habove := hmake (List.dropLast_prefix (e.place root))
    have hpos : (!root.isPrefixOf (e.place root)) = false := by simpa using hin
    simp only [unpackEntry, hpos, Bool.false_eq_true, if_false]
    split
    · split <;> rename_i hgs <;> simpa only [hgs] using hplace
    · split <;> rename_i gs _ hgs <;> rw [hgs] at habove
      · exact habove
      · split
        · exact habove
        · rename_i c _
          rcases habove with hl | hl
          · rcases get?_writeEntry gs (e.place root) c l with hw | ⟨rfl, hd⟩
            · exact .inl (hw.trans hl)
            · exact .inr ⟨hin, List.prefix_rfl, hl ▸ hd⟩
          · exact .inr hl
  · rw [unpackEntry_outside fs hin]
    exact .inl rfl

theorem keepsDirectories_unpackEntry (fs : FileSystem) (root : List String) (e : Entry) :
    KeepsDirectories fs (unpackEntry fs root e).1 := by
  intro l hl
  rcases get?_unpackEntry fs root e l with h | ⟨-, -, h⟩
  · exact h.trans hl
  · exact absurd hl h

theorem AgreeOutside.refl (root : List String) (fs : FileSystem) : AgreeOutside root fs fs :=
  fun _ _ => rfl

theorem AgreeOutside.trans (h : AgreeOutside root fs gs) (hg : AgreeOutside root gs hs) :
    AgreeOutside root fs hs := fun l hl => (h l hl).trans (hg l hl)

/-- Below a destination that is there, an entry changes nothing outside. -/
theorem agreeOutside_unpackEntry (hroot : DirectoriesTo fs root.dropLast) (e : Entry) :
    AgreeOutside root fs (unpackEntry fs root e).1 := by
  intro l hl
  rcases get?_unpackEntry fs root e l with h | ⟨hin, hle, hd⟩
  · exact h.symm
  · rcases List.prefix_or_prefix_of_prefix hin hle with h | h
    · exact absurd h hl
    · have hne : l ≠ root := fun he => hl (he ▸ List.prefix_rfl)
      exact absurd (hroot l (prefix_dropLast h hne)) hd

/-! ### entries in order -/

theorem unpack_cons_ok (h : unpackEntry fs root e = (gs, .ok ())) (es : List Entry) :
    unpack fs root (e :: es) = unpack gs root es := by
  rw [unpack, h]

theorem unpack_cons_error (h : unpackEntry fs root e = (gs, .error f)) (es : List Entry) :
    unpack fs root (e :: es) = (gs, .error f) := by
  rw [unpack, h]

/-- Where entries were unpacked without a failure, further ones go on from what they left. -/
theorem unpack_append (h : (unpack fs root before).2 = .ok ()) (after : List Entry) :
    unpack fs root (before ++ after) = unpack (unpack fs root before).1 root after := by
  induction before generalizing fs with
  | nil => rfl
  | cons e before ih =>
    rcases he : unpackEntry fs root e with ⟨gs, f | ⟨⟨⟩⟩⟩
    · rw [unpack_cons_error he] at h
      cases h
    · rw [unpack_cons_ok he] at h ⊢
      rw [List.cons_append, unpack_cons_ok he]
      exact ih h

theorem agreeOutside_unpack (hroot : DirectoriesTo fs root.dropLast) (es : List Entry) :
    AgreeOutside root fs (unpack fs root es).1 := by
  induction es generalizing fs with
  | nil => exact .refl root fs
  | cons e es ih =>
    have hentry := agreeOutside_unpackEntry hroot e
    have hkeep := keepsDirectories_unpackEntry fs root e
    rcases he : unpackEntry fs root e with ⟨gs, f | ⟨⟨⟩⟩⟩ <;> rw [he] at hentry hkeep
    · rw [unpack_cons_error he]
      exact hentry
    · rw [unpack_cons_ok he]
      exact hentry.trans (ih (hroot.keep hkeep))

theorem keepsDirectories_unpack (fs : FileSystem) (root : List String) (es : List Entry) :
    KeepsDirectories fs (unpack fs root es).1 := by
  induction es generalizing fs with
  | nil => exact fun _ hl => hl
  | cons e es ih =>
    have hkeep := keepsDirectories_unpackEntry fs root e
    rcases he : unpackEntry fs root e with ⟨gs, f | ⟨⟨⟩⟩⟩ <;> rw [he] at hkeep
    · rw [unpack_cons_error he]
      exact hkeep
    · rw [unpack_cons_ok he]
      exact hkeep.trans (ih gs)

theorem agreeOutside_unpackFile (hroot : DirectoriesTo fs (destination.location cwd).dropLast) :
    AgreeOutside (destination.location cwd) fs (unpackFile fs cwd archive destination).1 := by
  unfold unpackFile
  split
  · exact .refl _ fs
  · split
    · exact .refl _ fs
    · exact agreeOutside_unpack hroot _

/-! ### which failures are escapes -/

/-- Whether a failure is that of an entry outside the destination. -/
def IsEscape : Failure → Prop
  | .escapes _ _ => True
  | _ => False

/-- Reading the entry never fails as an escape does: that failure is the unpacking's own. -/
structure Entry.ReadsPlainly (e : Entry) : Prop where
  opening : ∀ f, e.content = .error f → ¬ IsEscape f
  reading : ∀ c f, e.content = .ok c → c.fault = some f → ¬ IsEscape f

theorem unpackEntry_inside (he : e.ReadsPlainly) (hin : root <+: e.place root)
    (h : (unpackEntry fs root e).2 = .error f) : ¬ IsEscape f := by
  have hpos : (!root.isPrefixOf (e.place root)) = false := by simpa using hin
  simp only [unpackEntry, hpos, Bool.false_eq_true, if_false, writeEntry] at h
  split at h
  · split at h <;> cases h
    exact id
  · split at h
    · cases h
      exact id
    · split at h
      · rename_i hopen
        cases h
        exact he.opening f hopen
      · rename_i c hc
        split at h
        · cases h
          exact id
        · split at h
          · cases h
          · rename_i hfault
            cases h
            exact he.reading c f hc hfault

theorem exists_outside_of_escapes (hes : ∀ e ∈ es, e.ReadsPlainly)
    (h : (unpack fs root es).2 = .error (.escapes name r)) :
    ∃ e ∈ es, e.name = name ∧ ¬ root <+: e.place root := by
  induction es generalizing fs with
  | nil => cases h
  | cons e es ih =>
    by_cases hin : root <+: e.place root
    · rcases he : unpackEntry fs root e with ⟨gs, f | ⟨⟨⟩⟩⟩
      · rw [unpack_cons_error he] at h
        have hplain := hes e List.mem_cons_self
        cases h
        exact absurd trivial (unpackEntry_inside hplain hin (congrArg Prod.snd he))
      · rw [unpack_cons_ok he] at h
        obtain ⟨e', hmem, he'⟩ := ih (fun e' hm => hes e' (List.mem_cons_of_mem _ hm)) h
        exact ⟨e', List.mem_cons_of_mem _ hmem, he'⟩
    · rw [unpack_cons_error (unpackEntry_outside fs hin)] at h
      refine ⟨e, List.mem_cons_self, ?_, hin⟩
      cases h
      rfl

/-- A list fails as the escape of a name only if entries of this name are outside. -/
theorem outside_of_escapes (hes : ∀ e ∈ es, e.ReadsPlainly)
    (h : (unpack fs root es).2 = .error (.escapes e.name r)) : ¬ root <+: e.place root := by
  obtain ⟨e', -, hname, hout⟩ := exists_outside_of_escapes hes h
  simpa only [Entry.place, hname] using hout

/-- An entry outside that is come to ends the unpacking with what the entries before it left. -/
theorem unpack_outside (hbefore : (unpack fs root before).2 = .ok ())
    (hout : ¬ root <+: e.place root) :
    unpack fs root (before ++ e :: after) =
      ((unpack fs root before).1, .error (.escapes e.name (Path.ofLocation root))) := by
  rw [unpack_append hbefore, unpack_cons_error (unpackEntry_outside _ hout)]

/-! ### the entries of an archive -/

theorem OpeningFault.not_isEscape (h : OpeningFault f) : ¬ IsEscape f := by
  cases h <;> exact id

theorem ReadingFault.not_isEscape (h : ReadingFault f) : ¬ IsEscape f := by
  cases h <;> exact id

/-- The entries of an archive fail as escapes only where they are unpacked. -/
theorem Zip.readsPlainly_of_entries {bytes : List UInt8} (h : entries bytes = .ok es)
    (he : e ∈ es) : e.ReadsPlainly where
  opening f hf := ((sound_of_entries h he).opening f hf).not_isEscape
  reading c f hc hf := ((sound_of_entries h he).reading c f hc hf).not_isEscape

/-! ### containment -/

/-- What unpacking a list of entries below a destination may change, which entries it refuses, and
what a refusal leaves. -/
structure Contained (fs : FileSystem) (cwd destination : Path) (es : List Entry) : Prop where
  /-- Nothing outside the destination changes, whether all entries are unpacked or not. -/
  outside : AgreeOutside (destination.location cwd) fs (unpack fs (destination.location cwd) es).1
  /-- An entry that is come to is refused if, and only if, its name leads from the destination to a
  location that is neither the destination nor below it. -/
  refuses : ∀ (before : List Entry) (e : Entry) (after : List Entry), es = before ++ e :: after →
    (unpack fs (destination.location cwd) before).2 = .ok () →
    ((unpack fs (destination.location cwd) es).2 =
        .error (.escapes e.name (destination.resolve cwd)) ↔
      ¬ destination.location cwd <+: (destination.resolve cwd / e.name).location cwd)
  /-- A refusal leaves the files that the entries before it alone lead to. -/
  leaves : ∀ (before : List Entry) (e : Entry) (after : List Entry), es = before ++ e :: after →
    (unpack fs (destination.location cwd) before).2 = .ok () →
    (unpack fs (destination.location cwd) es).2 =
        .error (.escapes e.name (destination.resolve cwd)) →
    (unpack fs (destination.location cwd) es).1 =
      (unpack fs (destination.location cwd) before).1

theorem contained_of_readsPlainly (hd : fs.pathIsDirectory cwd destination = .ok true)
    (hes : ∀ e ∈ es, e.ReadsPlainly) : Contained fs cwd destination es := by
  refine ⟨agreeOutside_unpack (directoriesTo_of_pathIsDirectory hd) es, ?_, ?_⟩
  · rintro before e after rfl hbefore
    rw [location_div_resolve]
    refine ⟨outside_of_escapes hes, fun hout => ?_⟩
    rw [unpack_outside hbefore hout]
    rfl
  · rintro before e after rfl hbefore h
    rw [unpack_outside hbefore (outside_of_escapes hes h)]

/-- Unpacking below a directory that is there is contained, for every list of entries and for every
file that is taken for an archive. -/
theorem unpack_contained (hd : fs.pathIsDirectory cwd destination = .ok true) :
    (∀ es, (∀ e ∈ es, e.ReadsPlainly) → Contained fs cwd destination es) ∧
      ∀ archive,
        AgreeOutside (destination.location cwd) fs (unpackFile fs cwd archive destination).1 ∧
          ∀ bytes es, fs.fileBytes cwd archive = .ok bytes → Zip.entries bytes = .ok es →
            unpackFile fs cwd archive destination = unpack fs (destination.location cwd) es ∧
              Contained fs cwd destination es := by
  refine ⟨fun es hes => contained_of_readsPlainly hd hes, fun archive => ⟨?_, ?_⟩⟩
  · exact agreeOutside_unpackFile (directoriesTo_of_pathIsDirectory hd)
  · intro bytes es hbytes hes
    refine ⟨by simp only [unpackFile, hbytes, hes], ?_⟩
    exact contained_of_readsPlainly hd fun e he => Zip.readsPlainly_of_entries hes he

/-- A directory to unpack into, beside a file that an archive may aim at. -/
def yard : FileSystem := ⟨[(["out"], .directory), (["keep"], .file [1])]⟩

/-- Entries that fit below a directory. -/
def goods : List Entry := [⟨"bin/", .ok ⟨[], none⟩⟩, ⟨"./bin//run", .ok ⟨[2], none⟩⟩]

/-- An entry that leads out of a directory. -/
def stray : Entry := ⟨"bin/../../keep", .ok ⟨[3], none⟩⟩

/-- The stray entry is refused, the file beside the destination stays, and the goods are there. -/
theorem unpack_contained_yard :
    yard.pathIsDirectory ⟨.root, []⟩ ⟨.relative, ["out"]⟩ = .ok true ∧
      (unpack yard ["out"] (goods ++ stray :: goods)).2 =
        .error (.escapes stray.name ⟨.root, ["out"]⟩) ∧
      (unpack yard ["out"] (goods ++ stray :: goods)).1.get? ["keep"] = some (.file [1]) ∧
      (unpack yard ["out"] (goods ++ stray :: goods)).1.get? ["out", "bin", "run"] =
        some (.file [2]) := by
  have hd : yard.pathIsDirectory ⟨.root, []⟩ ⟨.relative, ["out"]⟩ = .ok true := by decide +kernel
  have hplain : ∀ e ∈ goods ++ stray :: goods, e.ReadsPlainly := by
    intro e he
    have hcontent : ∃ bytes, e.content = .ok ⟨bytes, none⟩ := by
      simp only [goods, stray, List.cons_append, List.nil_append, List.mem_cons,
        List.not_mem_nil, or_false] at he
      rcases he with rfl | rfl | rfl | rfl | rfl <;> exact ⟨_, rfl⟩
    obtain ⟨bytes, hcontent⟩ := hcontent
    exact ⟨fun f h => by simp [hcontent] at h, fun c f h hf => by simp_all⟩
  have hgoods : (unpack yard ["out"] goods).2 = .ok () := by rfl
  have hcontained := (unpack_contained hd).1 _ hplain
  have hrefused := (hcontained.refuses goods stray goods rfl hgoods).mpr (by decide +kernel)
  refine ⟨hd, hrefused, ?_, ?_⟩
  · exact (hcontained.outside ["keep"] (by decide +kernel)).symm.trans rfl
  · have hleft := hcontained.leaves goods stray goods rfl hgoods hrefused
    exact (congrArg (fun fs : FileSystem => fs.get? ["out", "bin", "run"]) hleft).trans rfl

end ServerRun.Archive
