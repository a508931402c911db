import ServerRun.Proofs.Provision.Extraction

/-! How providing an installation fails. What is wrong with the files or with an archive is told as
a failure to provide the coordinate, apart from five faults of an archive: an entry that is
encrypted, one that is packed in an unknown way, data deflated or coded that are damaged, and data
that end too early. These are passed on as they are, whenever they are the first thing that is
wrong, and so is whatever ends the search but the want of the archive. Nothing else is. -/

namespace ServerRun

namespace Archive

variable {fs : FileSystem} {root : List String} {e : Entry} {es : List Entry} {f : Failure}
  {cwd archive destination : Path} {bytes : List UInt8}

/-- Failures of unpacking that are told as failures to provide. -/
inductive IsTold : Failure → Prop
  | file (e : FileError) : IsTold (.file e)
  | system (message : String) : IsTold (.system message)
  | damagedArchive : IsTold .damagedArchive
  | badValue : IsTold .badValue
  | badText : IsTold .badText
  | escapes (name : String) (root : Path) : IsTold (.escapes name root)

/-- Unpacking comes to the content of an entry: it is a file inside, and there is a directory for
it. -/
structure Entry.IsReached (fs : FileSystem) (root : List String) (e : Entry) : Prop where
  inside : root <+: e.place root
  file : e.isDirectory = false
  directory : ∃ l, (fs.makeAt (e.place root).dropLast).2 = .ok l

/-- The file of an entry can be made, so that its content is copied to it. -/
def Entry.IsWritable (fs : FileSystem) (root : List String) (e : Entry) : Prop :=
  (fs.makeAt (e.place root).dropLast).1.writable (e.place root) = .ok ()

/-- An entry that unpacking comes to has a fault that is passed on. -/
inductive Entry.PassesOn (fs : FileSystem) (root : List String) (e : Entry) : Failure → Prop
  | encrypted (hr : e.IsReached fs root) (h : e.content = .error .encryptedEntry) :
      PassesOn fs root e .encryptedEntry
  | unknownMethod (hr : e.IsReached fs root) (h : e.content = .error .unknownMethod) :
      PassesOn fs root e .unknownMethod
  | deflated {c : Content} (hr : e.IsReached fs root) (hw : e.IsWritable fs root)
      (hc : e.content = .ok c) (h : c.fault = some .damagedData) : PassesOn fs root e .damagedData
  | coded {c : Content} (hr : e.IsReached fs root) (hw : e.IsWritable fs root)
      (hc : e.content = .ok c) (h : c.fault = some .damagedCode) : PassesOn fs root e .damagedCode
  | cutShort {c : Content} (hr : e.IsReached fs root) (hw : e.IsWritable fs root)
      (hc : e.content = .ok c) (h : c.fault = some .endOfData) : PassesOn fs root e .endOfData

/-- An archive has a fault that is passed on when it is unpacked: a line of its directory asks for
an unknown version, or the first entry that cannot be unpacked has such a fault. -/
inductive PassesOn (fs : FileSystem) (root : List String) (bytes : List UInt8) : Failure → Prop
  | version (h : Zip.entries bytes = .error .unknownMethod) : PassesOn fs root bytes .unknownMethod
  | entry {before after : List Entry} {e : Entry} {f : Failure}
      (hes : Zip.entries bytes = .ok (before ++ e :: after))
      (hbefore : (unpack fs root before).2 = .ok ())
      (h : e.PassesOn (unpack fs root before).1 root f) : PassesOn fs root bytes f

/-! ### one entry -/

theorem unpackEntry_of_reached (h : e.IsReached fs root) :
    unpackEntry fs root e =
      match e.content with
      | .error f => ((fs.makeAt (e.place root).dropLast).1, .error f)
      | .ok c => writeEntry (fs.makeAt (e.place root).dropLast).1 (e.place root) c := by
  obtain ⟨l, hl⟩ := h.directory
  have hpos : (!root.isPrefixOf (e.place root)) = false := by simpa using h.inside
  rcases hmade : fs.makeAt (e.place root).dropLast with ⟨made, r⟩
  rw [hmade] at hl
  cases hl
  cases hcontent : e.content <;>
    simp only [unpackEntry, hpos, h.file, Bool.false_eq_true, if_false, hmade, hcontent]

theorem Entry.IsReached.unpackEntry_error (hr : e.IsReached fs root) (h : e.content = .error f) :
    (unpackEntry fs root e).2 = .error f := by
  rw [unpackEntry_of_reached hr, h]

theorem Entry.IsReached.unpackEntry_fault (hr : e.IsReached fs root) (hw : e.IsWritable fs root)
    {c : Content} (hc : e.content = .ok c) (h : c.fault = some f) :
    (unpackEntry fs root e).2 = .error f := by
  rw [unpackEntry_of_reached hr, hc]
  dsimp only
  rw [writeEntry, FileSystem.storeFile, hw]
  simp only [h]

theorem Entry.PassesOn.unpackEntry (h : e.PassesOn fs root f) :
    (unpackEntry fs root e).2 = .error f := by
  cases h with
  | encrypted hr h => exact hr.unpackEntry_error h
  | unknownMethod hr h => exact hr.unpackEntry_error h
  | deflated hr hw hc h => exact hr.unpackEntry_fault hw hc h
  | coded hr hw hc h => exact hr.unpackEntry_fault hw hc h
  | cutShort hr hw hc h => exact hr.unpackEntry_fault hw hc h

/-- Before unpacking comes to its content, an entry fails for its place or for the files only. -/
theorem told_or_isReached (h : (unpackEntry fs root e).2 = .error f) :
    IsTold f ∨ e.IsReached fs root := by
  by_cases hin : root <+: e.place root
  · have hpos : (!root.isPrefixOf (e.place root)) = false := by simpa using hin
    simp only [unpackEntry, hpos, Bool.false_eq_true, if_false] at h
    cases hdir : e.isDirectory with
    | true =>
      rw [hdir, if_pos rfl] at h
      split at h <;> cases h
      exact .inl (.file _)
    | false =>
      rw [hdir, if_neg Bool.false_ne_true] at h
      split at h
      · cases h
        exact .inl (.file _)
      · rename_i l hmade
        exact .inr ⟨hin, hdir, l, congrArg Prod.snd hmade⟩
  · rw [unpackEntry_outside fs hin] at h
    cases h
    exact .inl (.escapes _ _)

theorem OpeningFault.told_or_passesOn (hr : e.IsReached fs root) (hc : e.content = .error f)
    (hf : OpeningFault f) : IsTold f ∨ e.PassesOn fs root f := by
  cases hf with
  | beforeStart => exact .inl (.system _)
  | badOffset => exact .inl .badValue
  | damaged => exact .inl .damagedArchive
  | badName => exact .inl .badText
  | encrypted => exact .inr (.encrypted hr hc)
  | unknownMethod => exact .inr (.unknownMethod hr hc)

theorem ReadingFault.told_or_passesOn (hr : e.IsReached fs root) (hw : e.IsWritable fs root)
    {c : Content} (hc : e.content = .ok c) (h : c.fault = some f) (hf : ReadingFault f) :
    IsTold f ∨ e.PassesOn fs root f := by
  cases hf with
  | badChecksum => exact .inl .damagedArchive
  | deflated => exact .inr (.deflated hr hw hc h)
  | sorted => exact .inl (.system _)
  | coded => exact .inr (.coded hr hw hc h)
  | cutShort => exact .inr (.cutShort hr hw hc h)

/-- Whatever is wrong with an entry is told or passed on. -/
theorem told_or_passesOn_of_unpackEntry (he : e.Sound) (h : (unpackEntry fs root e).2 = .error f) :
    IsTold f ∨ e.PassesOn fs root f := by
  rcases told_or_isReached h with hf | hr
  · exact .inl hf
  rw [unpackEntry_of_reached hr] at h
  cases hc : e.content with
  | error g =>
    rw [hc] at h
    cases h
    exact (he.opening f hc).told_or_passesOn hr hc
  | ok c =>
    rw [hc] at h
    dsimp only at h
    rw [writeEntry, FileSystem.storeFile] at h
    split at h
    · cases h
      exact .inl (.file _)
    · rename_i gs hstore
      split at h
      · cases h
      · rename_i g hfault
        cases h
        have hw : e.IsWritable fs root := by
          rw [Entry.IsWritable]
          split at hstore
          · assumption
          · cases hstore
        exact (he.reading c f hc hfault).told_or_passesOn hr hw hc hfault

/-! ### an archive -/

/-- Unpacking fails at the first entry that cannot be unpacked. -/
theorem exists_of_unpack_error (h : (unpack fs root es).2 = .error f) :
    ∃ before e after, es = before ++ e :: after ∧ (unpack fs root before).2 = .ok () ∧
      (unpackEntry (unpack fs root before).1 root e).2 = .error f := by
  induction es generalizing fs with
  | nil => cases h
  | cons e es ih =>
    rcases he : unpackEntry fs root e with ⟨gs, g | ⟨⟨⟩⟩⟩
    · rw [unpack_cons_error he] at h
      cases h
      exact ⟨[], e, es, rfl, rfl, congrArg Prod.snd he⟩
    · rw [unpack_cons_ok he] at h
      obtain ⟨before, e', after, rfl, hbefore, he'⟩ := ih h
      refine ⟨e :: before, e', after, rfl, ?_, ?_⟩ <;> rwa [unpack_cons_ok he]

theorem unpack_error {before after : List Entry} (hbefore : (unpack fs root before).2 = .ok ())
    (h : (unpackEntry (unpack fs root before).1 root e).2 = .error f) :
    (unpack fs root (before ++ e :: after)).2 = .error f := by
  rw [unpack_append hbefore]
  rcases he : unpackEntry (unpack fs root before).1 root e with ⟨gs, r⟩
  rw [he] at h
  cases h
  rw [unpack_cons_error he]

/-- Whatever is wrong with an archive that can be read is told or passed on. -/
theorem told_or_passesOn_of_unpackFile (hbytes : fs.fileBytes cwd archive = .ok bytes)
    (h : (unpackFile fs cwd archive destination).2 = .error f) :
    IsTold f ∨ PassesOn fs (destination.location cwd) bytes f := by
  rw [unpackFile, hbytes] at h
  dsimp only at h
  cases hes : Zip.entries bytes with
  | error g =>
    rw [hes] at h
    cases h
    cases Zip.directoryFault_of_entries hes with
    | damaged => exact .inl .damagedArchive
    | badName => exact .inl .badText
    | unknownVersion => exact .inr (.version hes)
  | ok es =>
    rw [hes] at h
    obtain ⟨before, e, after, rfl, hbefore, he⟩ := exists_of_unpack_error h
    have hsound : e.Sound := Zip.sound_of_entries hes (by simp)
    exact (told_or_passesOn_of_unpackEntry hsound he).imp_right (.entry hes hbefore)

theorem PassesOn.unpackFile (hbytes : fs.fileBytes cwd archive = .ok bytes)
    (h : PassesOn fs (destination.location cwd) bytes f) :
    (unpackFile fs cwd archive destination).2 = .error f := by
  rw [Archive.unpackFile, hbytes]
  dsimp only
  cases h with
  | version h => rw [h]
  | entry hes hbefore h =>
    rw [hes]
    exact unpack_error hbefore h.unpackEntry

end Archive

namespace Provision

open Archive (IsTold)

variable {p : Provision} {cwd archive : Path} {fs found made : FileSystem} {f : Failure}
  {search : FileSystem → FileSystem × Except Failure Path} {bytes : List UInt8}

/-- What providing an installation is to come to: the home that is given, the home in the directory,
or a failure to provide the coordinate. -/
inductive Settles (p : Provision) (cwd : Path) : Except Failure Path → Prop
  | given {home : Path} (h : p.given? = some home) : Settles p cwd (.ok home)
  | provided (h : p.given? = none) : Settles p cwd (.ok (p.homeIn cwd))
  | refused (message : String) (cause : ProvisioningCause) :
      Settles p cwd (.error (.run (.provisioning message p.coordinate.toString (some cause))))

/-- A search fails neither for want of the archive nor as a failure to provide the coordinate. -/
structure IsForeign (p : Provision) (f : Failure) : Prop where
  noWant : ∀ coordinate reason, f ≠ .run (.resolution coordinate reason)
  noRefusal : ∀ message cause,
    f ≠ .run (.provisioning message p.coordinate.toString (some cause))

/-- A provision passes on what ends the search for its archive, or a fault of the archive: the
directory was prepared, the file that was found can be read, and the fault is the first thing that
is wrong with it. -/
inductive PassesOn (p : Provision) (cwd : Path) (fs : FileSystem)
    (search : FileSystem → FileSystem × Except Failure Path) (f : Failure) : Prop
  | search (hgiven : p.given? = none) (h : (search fs).2 = .error f) (hf : p.IsForeign f)
  | archive {found made : FileSystem} {archive : Path} {bytes : List UInt8}
      (hgiven : p.given? = none) (hfound : search fs = (found, .ok archive))
      (hprepare : p.prepare found cwd = (made, .ok ()))
      (hbytes : made.fileBytes cwd archive = .ok bytes)
      (hfault : Archive.PassesOn made (p.root cwd) bytes f)

theorem settles_of_told (hf : IsTold f) (archive : Path) :
    p.Settles cwd (.error (p.extractionFailure archive f)) := by
  cases hf <;> exact .refused _ _

theorem extractionFailure_of_passesOn {root : List String}
    (hf : Archive.PassesOn fs root bytes f) : p.extractionFailure archive f = f := by
  cases hf with
  | version h => rfl
  | entry hes hbefore h => cases h <;> rfl

theorem not_settles_of_passesOn {root : List String} (hf : Archive.PassesOn fs root bytes f) :
    ¬ p.Settles cwd (.error f) := by
  cases hf with
  | version h => exact nofun
  | entry hes hbefore h => cases h <;> exact nofun

theorem prepare_error (h : (p.prepare fs cwd).2 = .error f) : ∃ e, f = .file e := by
  unfold prepare at h
  split at h
  · cases h
    exact ⟨_, rfl⟩
  · split at h <;> cases h
    exact ⟨_, rfl⟩

/-- Unpacking what was found comes to a home or to a failure that is told, unless a fault is passed
on. -/
theorem settles_or_passesOn_of_finish (hgiven : p.given? = none)
    (hfound : search fs = (found, .ok archive)) :
    p.Settles cwd (p.finish found cwd archive).2 ∨
      ∃ f, p.PassesOn cwd fs search f := by
  rw [finish, extract]
  rcases hprepare : p.prepare found cwd with ⟨made, f | ⟨⟨⟩⟩⟩
  · obtain ⟨e, rfl⟩ := prepare_error (congrArg Prod.snd hprepare)
    exact .inl (settles_of_told (.file e) archive)
  dsimp only
  rcases hunpack : Archive.unpackFile made cwd archive p.target with ⟨files, f | ⟨⟨⟩⟩⟩
  · cases hbytes : made.fileBytes cwd archive with
    | error e =>
      rw [Archive.unpackFile, hbytes] at hunpack
      cases hunpack
      exact .inl (settles_of_told (.file e) archive)
    | ok bytes =>
      rcases Archive.told_or_passesOn_of_unpackFile hbytes (congrArg Prod.snd hunpack) with hf | hf
      · exact .inl (settles_of_told hf archive)
      · exact .inr ⟨f, .archive hgiven hfound hprepare hbytes hf⟩
  · exact .inl (.provided hgiven)

theorem ensure_of_not_found (hgiven : p.given? = none) (h : (search fs).2 = .error f) :
    (p.ensure fs cwd search).2 = .error (p.searchFailure f) := by
  rcases hsearch : search fs with ⟨files, r⟩
  rw [hsearch] at h
  cases h
  simp only [Provision.ensure, hgiven, hsearch]

theorem IsForeign.not_settles (h : p.IsForeign f) : ¬ p.Settles cwd (.error f) := by
  intro hs
  cases hs
  exact h.noRefusal _ _ rfl

theorem IsForeign.searchFailure (h : p.IsForeign f) : p.searchFailure f = f := by
  unfold Provision.searchFailure
  split
  · exact absurd rfl (h.noWant _ _)
  · rfl

/-- What ends a search is told, or it is passed on. -/
theorem settles_or_isForeign (p : Provision) (cwd : Path) (f : Failure) :
    p.Settles cwd (.error (p.searchFailure f)) ∨ p.IsForeign f := by
  by_cases hwant : ∃ coordinate reason, f = .run (.resolution coordinate reason)
  · obtain ⟨coordinate, reason, rfl⟩ := hwant
    exact .inl (.refused _ _)
  by_cases hrefusal : ∃ message cause,
      f = .run (.provisioning message p.coordinate.toString (some cause))
  · obtain ⟨message, cause, rfl⟩ := hrefusal
    exact .inl (.refused _ _)
  · exact .inr ⟨fun c r h => hwant ⟨c, r, h⟩, fun m c h => hrefusal ⟨m, c, h⟩⟩

theorem PassesOn.ensure (h : p.PassesOn cwd fs search f) :
    (p.ensure fs cwd search).2 = .error f ∧ ¬ p.Settles cwd (.error f) := by
  cases h with
  | search hgiven h hf =>
    refine ⟨?_, hf.not_settles⟩
    rw [ensure_of_not_found hgiven h, hf.searchFailure]
  | @archive found made archive bytes hgiven hfound hprepare hbytes hfault =>
    refine ⟨?_, not_settles_of_passesOn hfault⟩
    have hunpack : (Archive.unpackFile made cwd archive p.target).2 = .error f :=
      hfault.unpackFile hbytes
    rw [ensure_of_found hgiven hfound, finish, extract, hprepare]
    dsimp only
    rcases hresult : Archive.unpackFile _ cwd _ p.target with ⟨files, r⟩
    rw [hresult] at hunpack
    cases hunpack
    exact congrArg Except.error (extractionFailure_of_passesOn hfault)

/-- An archive of one file whose data are no deflated data. -/
def damagedDistribution : List UInt8 :=
  [80, 75, 3, 4, 20, 0, 0, 0, 8, 0, 0, 0, 33, 0, 0, 0, 0, 0, 1, 0, 0, 0, 1, 0, 0, 0, 5, 0, 0, 0,
    115, 45, 49, 47, 97, 7, 80, 75, 1, 2, 20, 3, 20, 0, 0, 0, 8, 0, 0, 0, 33, 0, 0, 0, 0, 0, 1, 0,
    0, 0, 1, 0, 0, 0, 5, 0, 0, 0, 0, 0, 0, 0, 0, 0, 0, 0, 0, 0, 0, 0, 0, 0, 115, 45, 49, 47, 97,
    80, 75, 5, 6, 0, 0, 0, 0, 1, 0, 1, 0, 51, 0, 0, 0, 36, 0, 0, 0, 0, 0]

/-- The damaged archive and nothing else. -/
def damagedStock : FileSystem := ⟨[(["a.zip"], .file damagedDistribution)]⟩

/-- What the order comes to with the damaged archive. -/
def damagedDelivery : Except Failure Path := (order.ensure damagedStock ⟨.root, []⟩ atHand).2

theorem exists_of_atHand {fs : FileSystem} {f : Failure} (h : (atHand fs).2 = .error f) :
    ∃ coordinate reason, f = .run (.resolution coordinate reason) := by
  cases h

theorem damagedDelivery_not_settles : ¬ order.Settles ⟨.root, []⟩ damagedDelivery := by
  have hresult : (match damagedDelivery with
      | .error .damagedData => true
      | _ => false) = true := by
    decide +kernel
  intro h
  generalize damagedDelivery = r at h hresult
  cases h <;> cases hresult

/-- A search that the name of a version is too long for. -/
def outOfReach (fs : FileSystem) : FileSystem × Except Failure Path := (fs, .error (.file .tooLong))

end Provision

end ServerRun
