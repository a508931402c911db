import ServerRun.Proofs.File.System
import ServerRun.Repository.Resolve

/-! The turns of a search and what they do to the files. A search that asks changes nothing but
directories on the way to its artifact; one that stores content writes to a file of its own, and
only when the content is complete to the artifact's place. -/

namespace ServerRun.Repository

open FileSystem

variable {s : Search} {files : FileSystem} {p : Point} {n : News} {t : Turn}
  {remote : String} {rest failures : List String} {part : List String}

/-- The location of the artifact. -/
def Search.place (s : Search) : List String := s.target.location s.cwd

/-- The locations that the way to the artifact's directory leads through. -/
def Search.way (s : Search) : List (List String) :=
  passes [] (s.target.parent.absolute s.cwd).segments

/-- The file that content is collected in. -/
def Point.part? : Point → Option (List String)
  | .storing part _ _ _ => some part
  | .asking _ _ _ => none

/-- The piece of content that news bring. -/
def News.chunk? : News → Option (List UInt8)
  | .chunk bytes => some bytes
  | _ => none

/-- Whether news end the storing of content. -/
def News.Ends : News → Prop
  | .complete | .broken _ | .unwritable | .cancelled => True
  | .refused _ | .status _ | .chunk _ => False

/-- A search stores nothing: it asks, or it has failed. -/
inductive Progress.IsIdle : Progress → Prop
  | asks {remote : String} {rest failures : List String} :
      IsIdle (.waiting (.asking remote rest failures))
  | failed {f : Failure} : IsIdle (.ended (.error f))

/-- The turns that a search takes when it hears news. -/
inductive Advance (s : Search) (files : FileSystem) : Point → News → Turn → Prop
  /-- The news mean nothing to the search. -/
  | ignored {p : Point} {n : News} (h : p.part? ≠ none → ¬ n.Ends ∧ n.chunk? = none) :
      Advance s files p n ⟨files, [], .waiting p⟩
  /-- A search that asks goes on or fails; directories may have been made. -/
  | passed {p : Point} {n : News} {t : Turn} (hp : p.part? = none)
      (hfiles : t.files = files ∨ t.files = (files.makeOpen s.cwd s.target.parent).1)
      (ht : t.progress.IsIdle) : Advance s files p n t
  /-- A file for the content is made. -/
  | opened {remote : String} {rest failures : List String} {code : Nat} {made : FileSystem}
      {directory : List String} (hcode : 200 ≤ code ∧ code < 300)
      (hmade : files.makeOpen s.cwd s.target.parent = (made, .ok directory)) :
      Advance s files (.asking remote rest failures) (.status code)
        ⟨made.put (directory ++ [made.freshName s.target.name]) (.file []), [],
          .waiting (.storing (directory ++ [made.freshName s.target.name]) remote rest failures)⟩
  /-- A piece of the content is written. -/
  | extended {part : List String} {remote : String} {rest failures : List String}
      {bytes : List UInt8} :
      Advance s files (.storing part remote rest failures) (.chunk bytes)
        ⟨files.extendFile part bytes, [], .waiting (.storing part remote rest failures)⟩
  /-- What was written is dropped. -/
  | dropped {part : List String} {remote : String} {rest failures : List String} {n : News}
      {t : Turn} (hfiles : t.files = files.erase part) (ht : t.progress.IsIdle) :
      Advance s files (.storing part remote rest failures) n t
  /-- The complete content takes the artifact's place. -/
  | stored {part : List String} {remote : String} {rest failures : List String}
      {effects : List Effect} {bytes : List UInt8} (hbytes : files.get? part = some (.file bytes))
      (hlocate : files.locate s.cwd s.target = .ok s.place)
      (hplace : files.get? s.place ≠ some .directory) :
      Advance s files (.storing part remote rest failures) .complete
        ⟨(files.erase part).put s.place (.file bytes), effects, .ended (.ok s.target)⟩

theorem isIdle_tryNext (s : Search) (files : FileSystem) (effects : List Effect)
    (failures remotes : List String) :
    (s.tryNext files effects failures remotes).files = files ∧
      (s.tryNext files effects failures remotes).progress.IsIdle := by
  cases remotes with
  | nil => exact ⟨rfl, .failed⟩
  | cons => exact ⟨rfl, .asks⟩

theorem isIdle_failed (s : Search) (files : FileSystem) (remote : String)
    (rest failures : List String) (reason : String) :
    (s.failed files remote rest failures reason).files = files ∧
      (s.failed files remote rest failures reason).progress.IsIdle := isIdle_tryNext ..

theorem isIdle_unstored (s : Search) (files : FileSystem) (remote : String)
    (rest failures : List String) (e : FileError) :
    (s.unstored files remote rest failures e).files = files ∧
      (s.unstored files remote rest failures e).progress.IsIdle := by
  unfold Search.unstored
  split
  · exact isIdle_failed ..
  · exact ⟨rfl, .failed⟩

theorem advance_store {bytes : List UInt8} (hbytes : files.get? part = some (.file bytes)) :
    Advance s files (.storing part remote rest failures) .complete
      (s.store files part remote rest failures) := by
  have dropped {t : Turn} (ht : t.files = files.erase part ∧ t.progress.IsIdle) :
      Advance s files (.storing part remote rest failures) .complete t := .dropped ht.1 ht.2
  rw [Search.store, hbytes]
  dsimp only
  split
  · exact dropped (isIdle_unstored ..)
  · rename_i place hlocate
    have hplace : place = s.place := eq_location_of_locate hlocate
    rw [hplace] at hlocate ⊢
    split
    · exact dropped (isIdle_failed ..)
    · rename_i hfree
      exact .stored hbytes hlocate (ne_directory_of_isDirectory (by simpa using hfree))

theorem next_status (s : Search) (files : FileSystem) (remote : String)
    (rest failures : List String) (code : Nat) :
    s.next files (.asking remote rest failures) (.status code) =
      if code = 404 then s.tryNext files [] (failures ++ [remote ++ ": not found"]) rest
      else if 200 ≤ code ∧ code < 300 then
        match files.makeOpen s.cwd s.target.parent with
        | (made, .error e) => s.unstored made remote rest failures e
        | (made, .ok directory) =>
          ⟨made.put (directory ++ [made.freshName s.target.name]) (.file []), [],
            .waiting (.storing (directory ++ [made.freshName s.target.name]) remote rest failures)⟩
      else s.failed files remote rest failures (Search.statusText code) := by
  unfold Search.next
  rcases files.makeOpen s.cwd s.target.parent with ⟨made, e | directory⟩ <;> rfl

theorem next_unwritable (s : Search) (files : FileSystem) (remote : String)
    (rest failures : List String) :
    s.next files (.asking remote rest failures) .unwritable =
      match files.makeOpen s.cwd s.target.parent with
      | (made, .error e) => s.unstored made remote rest failures e
      | (made, .ok _) => s.failed made remote rest failures detailText := by
  unfold Search.next
  rcases files.makeOpen s.cwd s.target.parent with ⟨made, e | directory⟩ <;> rfl

theorem advance_asking (s : Search) (files : FileSystem) (remote : String)
    (rest failures : List String) (n : News) :
    Advance s files (.asking remote rest failures) n
      (s.next files (.asking remote rest failures) n) := by
  have passed {t : Turn} (ht : t.files = files ∧ t.progress.IsIdle) :
      Advance s files (.asking remote rest failures) n t :=
    .passed rfl (.inl ht.1) ht.2
  have went {t : Turn} (ht : t.files = (files.makeOpen s.cwd s.target.parent).1 ∧
      t.progress.IsIdle) : Advance s files (.asking remote rest failures) n t :=
    .passed rfl (.inr ht.1) ht.2
  have ignored : Advance s files (.asking remote rest failures) n
      ⟨files, [], .waiting (.asking remote rest failures)⟩ :=
    .ignored fun h => absurd rfl h
  match n with
  | .refused (.told m) => exact passed (isIdle_failed ..)
  | .refused .untold => exact passed (isIdle_failed ..)
  | .refused .noScheme => exact passed ⟨rfl, .failed⟩
  | .unwritable =>
    rw [next_unwritable]
    rcases hmade : files.makeOpen s.cwd s.target.parent with ⟨made, e | directory⟩
    · exact went (by rw [hmade]; exact isIdle_unstored ..)
    · exact went (by rw [hmade]; exact isIdle_failed ..)
  | .cancelled => exact passed ⟨rfl, .failed⟩
  | .chunk _ => exact ignored
  | .complete => exact ignored
  | .broken _ => exact ignored
  | .status code =>
    rw [next_status]
    split
    · exact passed (isIdle_tryNext ..)
    split
    · rename_i hcode
      rcases hmade : files.makeOpen s.cwd s.target.parent with ⟨made, e | directory⟩
      · exact went (by rw [hmade]; exact isIdle_unstored ..)
      · exact .opened hcode hmade
    · exact passed (isIdle_failed ..)

/-- Every turn of a search is one of those, as long as the file for the content is there. -/
theorem advance_next (s : Search) (n : News)
    (hpart : ∀ part, p.part? = some part → ∃ bytes, files.get? part = some (.file bytes)) :
    Advance s files p n (s.next files p n) := by
  cases p with
  | asking remote rest failures => exact advance_asking s files remote rest failures n
  | storing part remote rest failures =>
    have dropped {t : Turn} (ht : t.files = files.erase part ∧ t.progress.IsIdle) :
        Advance s files (.storing part remote rest failures) n t := .dropped ht.1 ht.2
    obtain ⟨bytes, hbytes⟩ := hpart part rfl
    match n with
    | .chunk _ => exact .extended
    | .complete => exact advance_store hbytes
    | .broken _ => exact dropped (isIdle_failed ..)
    | .unwritable => exact dropped (isIdle_failed ..)
    | .cancelled => exact dropped ⟨rfl, .failed⟩
    | .refused _ => exact .ignored fun _ => ⟨id, rfl⟩
    | .status _ => exact .ignored fun _ => ⟨id, rfl⟩

theorem start_of_present (h : files.pathIsFile s.cwd s.target = .ok true) :
    s.start files = ⟨files, [], .ended (.ok s.target)⟩ := by
  rw [Search.start, h]

/-- A search begins with the file that is there, or it changes no file and stores nothing. -/
theorem start_cases (s : Search) (files : FileSystem) :
    (files.pathIsFile s.cwd s.target = .ok true ∧
        s.start files = ⟨files, [], .ended (.ok s.target)⟩) ∨
      (s.start files).files = files ∧ (s.start files).progress.IsIdle := by
  unfold Search.start
  split
  · exact .inr ⟨rfl, .failed⟩
  · rename_i hfile
    exact .inl ⟨hfile, rfl⟩
  · split
    · exact .inr ⟨rfl, .failed⟩
    · exact .inr (isIdle_tryNext ..)

/-! ### what a turn does to a location -/

/-- The file that a search collects content in after a turn. -/
def Turn.part? (t : Turn) : Option (List String) :=
  match t.progress with
  | .waiting p => p.part?
  | .ended _ => none

/-- What a turn of a search may do to a location, if `old` is the file that the search collected
content in before. -/
inductive Change (s : Search) (files : FileSystem) (old : Option (List String)) (t : Turn)
    (l : List String) : Prop
  | kept (hold : old ≠ some l) (h : t.files.get? l = files.get? l)
  | made (hl : l ∈ s.way) (hnone : files.get? l = none) (h : t.files.get? l = some .directory)
  | collecting (hp : t.part? = some l) (hd : files.get? l ≠ some .directory)
  | dropped (hold : old = some l) (h : t.files.get? l = none)
  | stored {part : List String} {bytes : List UInt8} (hl : l = s.place) (hold : old = some part)
      (hbytes : files.get? part = some (.file bytes)) (hd : files.get? l ≠ some .directory)
      (hend : t.progress = .ended (.ok s.target)) (h : t.files.get? l = some (.file bytes))

theorem part?_of_isIdle (h : t.progress.IsIdle) : t.part? = none := by
  obtain ⟨files, effects, progress⟩ := t
  cases h <;> rfl

theorem files_start (s : Search) (files : FileSystem) :
    (s.start files).files = files ∧ (s.start files).part? = none := by
  rcases start_cases s files with ⟨-, h⟩ | ⟨hfiles, hidle⟩
  · rw [h]
    exact ⟨rfl, rfl⟩
  · exact ⟨hfiles, part?_of_isIdle hidle⟩

theorem change_makeOpen (s : Search) (files : FileSystem) (l : List String)
    (h : t.files.get? l = (files.makeOpen s.cwd s.target.parent).1.get? l) :
    Change s files none t l := by
  rcases get?_makeOpen files s.cwd s.target.parent l with
    hl | ⟨hway, hnone, hdir⟩
  · exact .kept nofun (h.trans hl)
  · exact .made hway hnone (h.trans hdir)

theorem Advance.change (h : Advance s files p n t)
    (hpart : ∀ part, p.part? = some part → ∃ bytes, files.get? part = some (.file bytes))
    (l : List String) : Change s files p.part? t l := by
  cases h with
  | ignored h =>
    by_cases hl : p.part? = some l
    · obtain ⟨bytes, hbytes⟩ := hpart l hl
      exact .collecting hl (by rw [hbytes]; simp)
    · exact .kept hl rfl
  | passed hp hfiles ht =>
    rw [hp]
    rcases hfiles with hfiles | hfiles
    · exact .kept nofun (by rw [hfiles])
    · exact change_makeOpen s files l (by rw [hfiles])
  | @opened remote rest failures code made directory hcode hmade =>
    have hfree := get?_freshName made directory s.target.name
    have hput := get?_put made (l := directory ++ [made.freshName s.target.name]) (by simp)
      (.file []) l
    by_cases hl : l = directory ++ [made.freshName s.target.name]
    · subst hl
      refine .collecting rfl fun hd => ?_
      have hkeep := keepsDirectories_makeOpen files s.cwd s.target.parent _ hd
      rw [hmade, hfree] at hkeep
      cases hkeep
    · refine change_makeOpen s files l ?_
      rw [if_neg hl] at hput
      rw [hput, hmade]
  | @extended part remote rest failures bytes =>
    obtain ⟨old, hold⟩ := hpart part rfl
    have hextend := get?_extendFile hold bytes l
    by_cases hl : l = part
    · subst hl
      exact .collecting rfl (by rw [hold]; simp)
    · rw [if_neg hl] at hextend
      exact .kept (fun h => hl (Option.some.inj h).symm) hextend
  | @dropped part remote rest failures n t hfiles ht =>
    obtain ⟨old, hold⟩ := hpart part rfl
    have herase := get?_erase files (ne_nil_of_not_directory (l := part) (by rw [hold]; simp)) l
    by_cases hl : l = part
    · subst hl
      exact .dropped rfl (by rw [hfiles, herase, if_pos rfl])
    · exact .kept (fun h => hl (Option.some.inj h).symm) (by rw [hfiles, herase, if_neg hl])
  | @stored part remote rest failures effects bytes hbytes hlocate hplace =>
    have hput := get?_put (files.erase part) (ne_nil_of_not_directory hplace) (.file bytes) l
    have herase := get?_erase files (ne_nil_of_not_directory (l := part) (by rw [hbytes]; simp)) l
    by_cases hl : l = s.place
    · rw [if_pos hl] at hput
      exact .stored hl rfl hbytes (hl ▸ hplace) rfl hput
    · rw [if_neg hl] at hput
      by_cases hp : l = part
      · subst hp
        exact .dropped rfl (by rw [hput, herase, if_pos rfl])
      · exact .kept (fun h => hp (Option.some.inj h).symm) (by rw [hput, herase, if_neg hp])

theorem Change.keepsDirectories {old : Option (List String)}
    (h : ∀ l, Change s files old t l)
    (hold : ∀ part, old = some part → files.get? part ≠ some .directory) :
    KeepsDirectories files t.files := by
  intro l hl
  cases h l with
  | kept _ h => exact h.trans hl
  | made _ _ h => exact h
  | collecting _ hd => exact absurd hl hd
  | dropped hpart _ => exact absurd hl (hold l hpart)
  | stored _ _ _ hd => exact absurd hl hd

end ServerRun.Repository
