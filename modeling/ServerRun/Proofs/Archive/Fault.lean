import ServerRun.Archive.Zip
import ServerRun.Proofs.Failure

/-! What can be wrong with an archive. Its directory, the header of an entry and the data of an
entry fail in ways of their own, and in no others. -/

namespace ServerRun.Archive

/-- What keeps the directory of an archive from being read. -/
inductive DirectoryFault : Failure → Prop
  | damaged : DirectoryFault .damagedArchive
  | badName : DirectoryFault .badText
  | unknownVersion : DirectoryFault .unknownMethod

/-- What keeps an entry from being opened. -/
inductive OpeningFault : Failure → Prop
  | beforeStart : OpeningFault (.system Zip.seekFault)
  | badOffset : OpeningFault .badValue
  | damaged : OpeningFault .damagedArchive
  | badName : OpeningFault .badText
  | encrypted : OpeningFault .encryptedEntry
  | unknownMethod : OpeningFault .unknownMethod

/-- What keeps the content of an entry from being read to its end. -/
inductive ReadingFault : Failure → Prop
  | badChecksum : ReadingFault .damagedArchive
  | deflated : ReadingFault .damagedData
  | sorted : ReadingFault (.system Zip.sortedFault)
  | coded : ReadingFault .damagedCode
  | cutShort : ReadingFault .endOfData

/-- An entry fails as the entries of an archive do. -/
structure Entry.Sound (e : Entry) : Prop where
  opening : ∀ f, e.content = .error f → OpeningFault f
  reading : ∀ c f, e.content = .ok c → c.fault = some f → ReadingFault f

namespace Zip

variable {f : Failure} {r : Record} {flags : Nat} {bytes packed : List UInt8}
  {data dir : Array UInt8} {c : Content} {e : Entry} {es : List Entry}

theorem eq_badText_of_nameOf (h : nameOf flags bytes = .error f) : f = .badText := by
  unfold nameOf at h
  split at h
  · split at h <;> cases h
    rfl
  · cases h

/-! ### the directory -/

theorem directoryFault_of_recordAt {shift : Int} {place : Nat}
    (h : recordAt dir shift place = .error f) : DirectoryFault f := by
  obtain hname | ⟨name, -, h⟩ := error_of_bind h
  · cases eq_badText_of_nameOf hname
    exact .badName
  split at h
  · cases h
    exact .unknownVersion
  dsimp only at h
  split at h <;> cases h
  exact .damaged

theorem directoryFault_of_records {shift : Int} {size fuel place : Nat}
    (h : records dir shift size fuel place = .error f) : DirectoryFault f := by
  induction fuel generalizing place with
  | zero => cases h
  | succ fuel ih =>
    unfold records at h
    split at h
    · cases h
    split at h
    · cases h
      exact .damaged
    split at h
    · cases h
      exact .damaged
    obtain hrecord | ⟨r, -, h⟩ := error_of_bind h
    · exact directoryFault_of_recordAt hrecord
    obtain hrest | ⟨rest, -, h⟩ := error_of_bind h
    · exact ih hrest
    · cases h

theorem directoryFault_of_directoryEnd (h : directoryEnd data = .error f) : DirectoryFault f := by
  unfold directoryEnd at h
  split at h
  · cases h
    exact .damaged
  dsimp only at h
  split at h
  · cases h
  split at h
  · cases h
    exact .damaged
  split at h
  · cases h
    exact .damaged
  split at h <;> cases h

theorem directoryFault_of_directory (h : directory data = .error f) : DirectoryFault f := by
  obtain hend | ⟨e, -, h⟩ := error_of_bind h
  · exact directoryFault_of_directoryEnd hend
  split at h
  · cases h
    exact .damaged
  obtain hrecords | ⟨rs, -, h⟩ := error_of_bind h
  · exact directoryFault_of_records hrecords
  · cases h

theorem directoryFault_of_entries (h : entries bytes = .error f) : DirectoryFault f := by
  obtain hdirectory | ⟨rs, -, h⟩ := error_of_bind h
  · exact directoryFault_of_directory hdirectory
  · cases h

/-! ### the entries -/

theorem readingFault_of_verified (h : (verified r bytes).fault = some f) : ReadingFault f := by
  simp only [verified] at h
  split at h <;> cases h
  exact .badChecksum

theorem readingFault_of_stored (h : (stored r packed).fault = some f) : ReadingFault f := by
  unfold stored at h
  split at h
  · cases h
    exact .cutShort
  · exact readingFault_of_verified h

theorem readingFault_of_inflated (h : (inflated r packed).fault = some f) : ReadingFault f := by
  unfold inflated at h
  split at h
  · dsimp only at h
    split at h
    · exact readingFault_of_verified h
    · cases h
      exact .deflated
  · exact readingFault_of_verified h
  · split at h
    · cases h
      exact .cutShort
    · exact readingFault_of_verified h

/-- Data that are decompressed in stretches fail in their own way, end too soon, or miss their
checksum. -/
theorem readingFault_of_decompressed {decompress : List UInt8 → List UInt8 × Inflate.Ending}
    {damage : Failure} (hdamage : ReadingFault damage) {fuel taken : Nat}
    (h : (decompressed decompress damage r packed fuel taken bytes).fault = some f) :
    ReadingFault f := by
  induction fuel generalizing taken bytes with
  | zero =>
    cases h
    exact .cutShort
  | succ fuel ih =>
    unfold decompressed at h
    dsimp only at h
    split at h
    · cases h
      exact .cutShort
    split at h
    · cases h
      exact hdamage
    split at h
    · split at h <;> cases h
      exact .badChecksum
    · exact ih h

theorem readingFault_of_unpacked {p : Packing} (h : (p.unpacked r packed).fault = some f) :
    ReadingFault f := by
  cases p with
  | stored => exact readingFault_of_stored h
  | deflated => exact readingFault_of_inflated h
  | sorted => exact readingFault_of_decompressed .sorted h
  | coded => exact readingFault_of_decompressed .coded h

/-- What opening an entry comes to: its content is what its data unpack to, or it cannot be
opened. -/
inductive Opened (r : Record) : Except Failure Content → Prop
  | ok (p : Packing) (packed : List UInt8) : Opened r (.ok (p.unpacked r packed))
  | error {f : Failure} (hf : OpeningFault f) : Opened r (.error f)

theorem Opened.check {p : Prop} [Decidable p] {result : Except Failure Content}
    (hf : OpeningFault f) (h : Opened r result) : Opened r (if p then .error f else result) := by
  split
  · exact .error hf
  · exact h

/-- One check after the other, before and after the name of the entry is read. -/
theorem opened_openRecord (data : Array UInt8) (r : Record) : Opened r (openRecord data r) := by
  refine .check .beforeStart (.check .badOffset (.check .damaged (.check .damaged ?_)))
  refine .check .unknownMethod ?_
  rcases hname : nameOf _ _ with f | name
  · cases eq_badText_of_nameOf hname
    exact .error .badName
  · refine .check .damaged (.check .damaged (.check .encrypted ?_))
    split
    · exact .error .unknownMethod
    · exact .ok _ _

theorem Opened.sound (h : Opened r e.content) : e.Sound := by
  generalize hcontent : e.content = result at h
  cases h with
  | ok p packed =>
    refine ⟨fun f h => ?_, fun c f h hc => ?_⟩
    · simp [hcontent] at h
    · cases hcontent.symm.trans h
      exact readingFault_of_unpacked hc
  | error hf =>
    refine ⟨fun g h => ?_, fun c g h hc => ?_⟩
    · cases hcontent.symm.trans h
      exact hf
    · simp [hcontent] at h

theorem sound_of_entries (h : entries bytes = .ok es) (he : e ∈ es) : e.Sound := by
  unfold entries at h
  rcases hd : directory bytes.toArray with f | rs <;> simp only [hd, bind, Except.bind] at h <;>
    cases h
  obtain ⟨r, -, rfl⟩ := List.mem_map.mp he
  exact (opened_openRecord bytes.toArray r).sound

end Zip

end ServerRun.Archive
