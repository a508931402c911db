import ServerRun.Proofs.Archive.Containment
import ServerRun.Proofs.File.Tree

/-! What unpacking leaves. Entries that are all unpacked below an empty directory leave the tree of
the archive there, whatever order they stand in: each one adds its place and the directories above
it, and no file that stood in their way. -/

namespace ServerRun.Archive

open FileSystem

variable {fs gs hs : FileSystem} {root l : List String} {e : Entry} {es done : List Entry}
  {x : FileEntry} {bytes : List UInt8} {cwd archive destination : Path}

/-! ### the tree of some entries -/

theorem holds_file : Holds root es l (.file bytes) ↔ lastFile? root es l = some bytes :=
  ⟨fun h => by cases h; assumption, .file⟩

theorem holds_directory : Holds root es l .directory ↔ IsTreeDirectory root es l :=
  ⟨fun h => by cases h; assumption, .directory⟩

theorem lastFile?_concat_of_other (h : e.isDirectory = true ∨ e.place root ≠ l) :
    lastFile? root (es ++ [e]) l = lastFile? root es l := by
  have hpos : (!e.isDirectory && e.place root == l) = false := by
    rcases h with h | h <;> simp [h]
  rw [lastFile?, List.reverse_append, List.reverse_singleton, List.singleton_append,
    List.find?_cons, hpos]
  rfl

theorem lastFile?_concat_of_place {c : Content} (hd : e.isDirectory = false)
    (hc : e.content = .ok c) : lastFile? root (es ++ [e]) (e.place root) = some c.bytes := by
  rw [lastFile?, List.reverse_append, List.reverse_singleton, List.singleton_append,
    List.find?_cons]
  simp [hd, hc]

theorem isTreeDirectory_concat : IsTreeDirectory root (es ++ [e]) l ↔
    IsTreeDirectory root es l ∨ e.isDirectory = true ∧ e.place root = l ∨
      l <+: e.place root ∧ l ≠ e.place root := by
  simp only [IsTreeDirectory, List.mem_append, List.mem_singleton, or_and_right, exists_or,
    exists_eq_left]
  exact or_or_or_comm

/-- Whether the tree of some entries stands below a location, and nothing else. -/
def Shows (root : List String) (es : List Entry) (fs : FileSystem) : Prop :=
  ∀ l, root <+: l → l ≠ root → ∀ x, fs.get? l = some x ↔ Holds root es l x

theorem shows_nil (h : ∀ l, root <+: l → l ≠ root → fs.get? l = none) : Shows root [] fs := by
  intro l hl hne x
  rw [h l hl hne]
  constructor
  · rintro ⟨⟩
  · intro hx
    cases hx with
    | file hx => cases hx
    | directory hx => simp [IsTreeDirectory] at hx

/-! ### one entry -/

/-- What an entry that is unpacked finds and leaves: no file stands above its place, directories are
made there, and all else is as it was. -/
structure Unpacked (root : List String) (e : Entry) (fs gs : FileSystem) : Prop where
  inside : root <+: e.place root
  free : ∀ l bytes, l <+: e.place root → l ≠ e.place root → fs.get? l ≠ some (.file bytes)
  place : (e.isDirectory = true ∧ (∀ bytes, fs.get? (e.place root) ≠ some (.file bytes)) ∧
      gs.get? (e.place root) = some .directory) ∨
    (e.isDirectory = false ∧ fs.get? (e.place root) ≠ some .directory ∧
      ∃ c, e.content = .ok c ∧ c.fault = none ∧ gs.get? (e.place root) = some (.file c.bytes))
  above : ∀ l, l <+: e.place root → l ≠ e.place root → gs.get? l = some .directory
  other : ∀ l, ¬ l <+: e.place root → gs.get? l = fs.get? l

/-- Below directories and in the tree of some entries, no directory is sealed. -/
theorem Shows.open (hs : Shows root es fs) (hroot : DirectoriesTo fs root) {place : List String}
    (hin : root <+: place) : ∀ m, m <+: place → fs.get? m ≠ some .sealed := by
  intro m hm hsealed
  by_cases hle : m <+: root
  · simp [hroot m hle] at hsealed
  · have hbelow : root <+: m := (List.prefix_or_prefix_of_prefix hin hm).resolve_right hle
    have hne : m ≠ root := fun he => hle (he ▸ List.prefix_rfl)
    cases (hs m hbelow hne _).mp hsealed

theorem not_file_of_makePathFrom {place k : List String} (hdots : ".." ∉ place)
    (hopen : ∀ m, m <+: place → fs.get? m ≠ some .sealed)
    (h : fs.makePathFrom [] place = (gs, .ok k)) (hl : l <+: place) (bytes : List UInt8) :
    fs.get? l ≠ some (.file bytes) := by
  intro hfile
  have hmade := get?_of_makePathFrom hdots hopen h l
  rw [if_pos hl] at hmade
  rcases get?_makePathFrom fs [] place l with hsame | ⟨-, hnone, -⟩
  · rw [h, hmade, hfile] at hsame
    cases hsame
  · simp [hfile] at hnone

theorem writeEntry_ok {place : List String} {c : Content}
    (h : writeEntry fs place c = (gs, .ok ())) :
    c.fault = none ∧ fs.get? place ≠ some .directory ∧ gs = fs.put place (.file c.bytes) := by
  unfold writeEntry at h
  split at h
  · cases h
  · rename_i hstore
    obtain ⟨hd, rfl⟩ := storeFile_ok hstore
    split at h <;> cases h
    rename_i hfault
    exact ⟨hfault, hd, rfl⟩

theorem inside_of_ok (h : unpackEntry fs root e = (gs, .ok ())) : root <+: e.place root := by
  by_contra hout
  rw [unpackEntry_outside fs hout] at h
  cases h

theorem unpacked_of_ok (hopen : ∀ m, m <+: e.place root → fs.get? m ≠ some .sealed)
    (h : unpackEntry fs root e = (gs, .ok ())) : Unpacked root e fs gs := by
  have hin := inside_of_ok h
  have hpos : (!root.isPrefixOf (e.place root)) = false := by simpa using hin
  have hdots := not_mem_place e root
  simp only [unpackEntry, hpos, Bool.false_eq_true, if_false] at h
  split at h
  · rename_i hd
    split at h <;> rename_i made k hat <;> cases h
    have hmade := makeAt_ok hat
    have hget := get?_of_makePathFrom hdots hopen hmade
    have hfree := fun l hl => not_file_of_makePathFrom (l := l) hdots hopen hmade hl
    refine ⟨hin, fun l bytes hl _ => hfree l hl bytes, .inl ⟨hd, ?_, ?_⟩, ?_, ?_⟩
    · exact hfree _ List.prefix_rfl
    · rw [hget, if_pos List.prefix_rfl]
    · intro l hl _
      rw [hget, if_pos hl]
    · intro l hl
      rw [hget, if_neg hl]
  · rename_i hd
    split at h
    · cases h
    rename_i made k hat
    have hmade := makeAt_ok hat
    split at h
    · cases h
    rename_i c hc
    obtain ⟨hfault, hplace, rfl⟩ := writeEntry_ok h
    have hup : ".." ∉ (e.place root).dropLast := fun hm =>
      hdots ((List.dropLast_prefix _).subset hm)
    have hopen' : ∀ m, m <+: (e.place root).dropLast → fs.get? m ≠ some .sealed := fun m hm =>
      hopen m (hm.trans (List.dropLast_prefix _))
    have hget := get?_of_makePathFrom hup hopen' hmade
    have hput := get?_put made (ne_nil_of_not_directory hplace) (.file c.bytes)
    have habove : ¬ e.place root <+: (e.place root).dropLast := by
      intro hp
      rw [hget, if_pos hp] at hplace
      exact hplace rfl
    refine ⟨hin, fun l bytes hl hne => ?_, .inr ⟨by simpa using hd, ?_, c, hc, hfault, ?_⟩, ?_, ?_⟩
    · exact not_file_of_makePathFrom hup hopen' hmade (prefix_dropLast hl hne) bytes
    · rwa [hget, if_neg habove] at hplace
    · rw [hput, if_pos rfl]
    · intro l hl hne
      rw [hput, if_neg hne, hget, if_pos (prefix_dropLast hl hne)]
    · intro l hl
      have hne : l ≠ e.place root := fun he => hl (he ▸ List.prefix_rfl)
      have hnup : ¬ l <+: (e.place root).dropLast := fun hp =>
        hl (hp.trans (List.dropLast_prefix _))
      rw [hput, if_neg hne, hget, if_neg hnup]

/-- A directory that an entry leaves, where no file was, belongs to the tree. -/
theorem Shows.directory (hs : Shows root es fs) (hl : root <+: l) (hne : l ≠ root)
    (hfree : ∀ bytes, fs.get? l ≠ some (.file bytes))
    (hother : e.isDirectory = true ∨ e.place root ≠ l)
    (hd : IsTreeDirectory root (es ++ [e]) l) (hg : gs.get? l = some .directory) (x : FileEntry) :
    gs.get? l = some x ↔ Holds root (es ++ [e]) l x := by
  rw [hg]
  cases x with
  | directory => exact iff_of_true rfl (.directory hd)
  | sealed => exact iff_of_false (by simp) nofun
  | file bytes =>
    refine iff_of_false (by simp) fun h => hfree bytes ?_
    rw [holds_file, lastFile?_concat_of_other hother] at h
    exact (hs l hl hne _).mpr (.file h)

theorem Shows.unpacked (hs : Shows root es fs) (h : Unpacked root e fs gs) :
    Shows root (es ++ [e]) gs := by
  intro l hl hne x
  by_cases hplace : e.place root = l
  · subst hplace
    rcases h.place with ⟨hd, hfree, hg⟩ | ⟨hf, hplace, c, hc, -, hg⟩
    · have hdir : IsTreeDirectory root (es ++ [e]) (e.place root) :=
        isTreeDirectory_concat.mpr (.inr (.inl ⟨hd, rfl⟩))
      exact hs.directory hl hne hfree (.inl hd) hdir hg x
    · rw [hg]
      cases x with
      | file bytes => rw [holds_file, lastFile?_concat_of_place hf hc]; simp
      | sealed => exact iff_of_false (by simp) nofun
      | directory =>
        refine iff_of_false (by simp) fun h => hplace ?_
        rw [holds_directory, isTreeDirectory_concat] at h
        have hold : IsTreeDirectory root es (e.place root) := by simpa [hf] using h
        exact (hs _ hl hne _).mpr (.directory hold)
  · by_cases habove : l <+: e.place root
    · have hne' : l ≠ e.place root := Ne.symm hplace
      have hdir : IsTreeDirectory root (es ++ [e]) l :=
        isTreeDirectory_concat.mpr (.inr (.inr ⟨habove, hne'⟩))
      exact hs.directory hl hne (fun bytes => h.free l bytes habove hne') (.inr hplace) hdir
        (h.above l habove hne') x
    · rw [h.other l habove, hs l hl hne x]
      cases x with
      | file bytes => rw [holds_file, holds_file, lastFile?_concat_of_other (.inr hplace)]
      | sealed => exact iff_of_false nofun nofun
      | directory =>
        rw [holds_directory, holds_directory, isTreeDirectory_concat]
        simp [hplace, habove]

/-! ### entries in order -/

theorem Shows.unpack (hs : Shows root done fs) (hroot : DirectoriesTo fs root)
    (h : Archive.unpack fs root es = (gs, .ok ())) :
    Shows root (done ++ es) gs ∧ ∀ e ∈ es, root <+: e.place root ∧
      (e.isDirectory = false → ∃ c, e.content = .ok c ∧ c.fault = none) := by
  induction es generalizing fs done with
  | nil =>
    cases h
    exact ⟨by rwa [List.append_nil], by simp⟩
  | cons e es ih =>
    rcases he : unpackEntry fs root e with ⟨mid, f | ⟨⟨⟩⟩⟩
    · rw [unpack_cons_error he] at h
      cases h
    · rw [unpack_cons_ok he] at h
      have hentry := unpacked_of_ok (hs.open hroot (inside_of_ok he)) he
      have hkeep := keepsDirectories_unpackEntry fs root e
      rw [he] at hkeep
      obtain ⟨hshows, hrest⟩ := ih (hs.unpacked hentry) (hroot.keep hkeep) h
      rw [List.append_assoc, List.singleton_append] at hshows
      refine ⟨hshows, List.forall_mem_cons.mpr ⟨⟨hentry.inside, fun hf => ?_⟩, hrest⟩⟩
      rcases hentry.place with ⟨hd, -⟩ | ⟨-, -, c, hc, hfault, -⟩
      · simp [hd] at hf
      · exact ⟨c, hc, hfault⟩

/-! ### file systems that look alike -/

theorem alike_writeEntry (h : Alike fs gs) (place : List String) (c : Content) :
    Alike (writeEntry fs place c).1 (writeEntry gs place c).1 ∧
      (writeEntry fs place c).2 = (writeEntry gs place c).2 := by
  rw [writeEntry, writeEntry, storeFile, storeFile, h.writable]
  cases hw : gs.writable place with
  | error e => exact ⟨h, rfl⟩
  | ok =>
    have hput : Alike (fs.put place (.file c.bytes)) (gs.put place (.file c.bytes)) := by
      have hstore : gs.storeFile place c.bytes = .ok (gs.put place (.file c.bytes)) := by
        rw [storeFile, hw]
      obtain ⟨hd, -⟩ := storeFile_ok hstore
      exact h.put place (ne_nil_of_not_directory hd) _
    cases c.fault <;> exact ⟨hput, rfl⟩

theorem alike_unpackEntry (h : Alike fs gs) (root : List String) (e : Entry) :
    Alike (unpackEntry fs root e).1 (unpackEntry gs root e).1 ∧
      (unpackEntry fs root e).2 = (unpackEntry gs root e).2 := by
  by_cases hin : root <+: e.place root
  · have hpos : (!root.isPrefixOf (e.place root)) = false := by simpa using hin
    have hmake (place : List String) := h.makeAt place
    simp only [unpackEntry, hpos, Bool.false_eq_true, if_false]
    split
    · obtain ⟨hmade, hresult⟩ := hmake (e.place root)
      rcases hfs : fs.makeAt (e.place root) with ⟨made, err | k⟩ <;>
        rcases hgs : gs.makeAt (e.place root) with ⟨made', err' | k'⟩ <;>
        rw [hfs, hgs] at hmade hresult <;> cases hresult <;> exact ⟨hmade, rfl⟩
    · obtain ⟨hmade, hresult⟩ := hmake (e.place root).dropLast
      rcases hfs : fs.makeAt (e.place root).dropLast with ⟨made, err | k⟩ <;>
        rcases hgs : gs.makeAt (e.place root).dropLast with ⟨made', err' | k'⟩ <;>
        rw [hfs, hgs] at hmade hresult <;> cases hresult
      · exact ⟨hmade, rfl⟩
      · cases e.content with
        | error f => exact ⟨hmade, rfl⟩
        | ok c => exact alike_writeEntry hmade (e.place root) c
  · rw [unpackEntry_outside fs hin, unpackEntry_outside gs hin]
    exact ⟨h, rfl⟩

theorem alike_unpack (h : Alike fs gs) (root : List String) (es : List Entry) :
    Alike (unpack fs root es).1 (unpack gs root es).1 ∧
      (unpack fs root es).2 = (unpack gs root es).2 := by
  induction es generalizing fs gs with
  | nil => exact ⟨h, rfl⟩
  | cons e es ih =>
    obtain ⟨hentry, hresult⟩ := alike_unpackEntry h root e
    rcases he : unpackEntry fs root e with ⟨made, f | ⟨⟨⟩⟩⟩ <;>
      rcases he' : unpackEntry gs root e with ⟨made', f' | ⟨⟨⟩⟩⟩ <;>
      rw [he, he'] at hentry hresult
    · rw [unpack_cons_error he, unpack_cons_error he']
      exact ⟨hentry, hresult⟩
    · cases hresult
    · cases hresult
    · rw [unpack_cons_ok he, unpack_cons_ok he']
      exact ih hentry

end ServerRun.Archive
