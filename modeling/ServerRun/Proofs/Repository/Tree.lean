import ServerRun.Proofs.File.Tree
import ServerRun.Proofs.Repository.Resolve

/-! A search leaves a tree a tree. It looks for a directory before it makes something there, and
removes nothing but the file that it collects content in. -/

namespace ServerRun.Repository

open FileSystem

variable {s : Search} {files : FileSystem} {p : Point} {n : News} {t : Turn} {part : List String}

/-- Whether the file that a search collects content in is there. -/
def Collecting (files : FileSystem) (part? : Option (List String)) : Prop :=
  ∀ part, part? = some part → ∃ bytes, files.get? part = some (.file bytes)

theorem collecting_none (files : FileSystem) : Collecting files none := nofun

theorem Collecting.not_directory (h : Collecting files (some part)) :
    files.get? part ≠ some .directory := by
  obtain ⟨bytes, hbytes⟩ := h part rfl
  simp [hbytes]

/-- After every turn the files form a tree, and the file for the content is there. -/
theorem Advance.isTree (h : Advance s files p n t) (htree : IsTree files)
    (hpart : Collecting files p.part?) : IsTree t.files ∧ Collecting t.files t.part? := by
  cases h with
  | ignored h => exact ⟨htree, hpart⟩
  | passed hp hfiles ht =>
    rw [part?_of_isIdle ht]
    refine ⟨?_, collecting_none _⟩
    rcases hfiles with hfiles | hfiles
    · rwa [hfiles]
    · rw [hfiles]
      exact isTree_makeOpen htree _ _
  | @opened remote rest failures code made directory hcode hmade =>
    have hmadeTree : IsTree made := by
      have hopen := isTree_makeOpen htree s.cwd s.target.parent
      rwa [hmade] at hopen
    have hfree := get?_freshName made directory s.target.name
    obtain ⟨-, -, hdirectory⟩ := makeOpen_ok hmade
    refine ⟨isTree_put hmadeTree (by rwa [List.dropLast_concat]) (by simp [hfree]) _, ?_⟩
    rintro part ⟨⟩
    exact ⟨[], by rw [get?_put made (by simp), if_pos rfl]⟩
  | @extended part remote rest failures bytes =>
    obtain ⟨old, hold⟩ := hpart part rfl
    have hd : files.get? part ≠ some .directory := hpart.not_directory
    have hextend : files.extendFile part bytes = files.put part (.file (old ++ bytes)) := by
      rw [extendFile, hold]
    rw [hextend]
    refine ⟨isTree_put htree (htree part (by simp [hold])) hd _, ?_⟩
    rintro _ ⟨⟩
    exact ⟨old ++ bytes, by rw [get?_put files (ne_nil_of_not_directory hd), if_pos rfl]⟩
  | @dropped part remote rest failures n t hfiles ht =>
    rw [part?_of_isIdle ht, hfiles]
    exact ⟨isTree_erase htree hpart.not_directory, collecting_none _⟩
  | @stored part remote rest failures effects bytes hbytes hlocate hplace =>
    have hpart' : files.get? part ≠ some .directory := hpart.not_directory
    have hup : files.get? s.place.dropLast = some .directory :=
      directoriesTo_of_locate hlocate _ List.prefix_rfl
    have hfree : (files.erase part).get? s.place ≠ some .directory := by
      rw [get?_erase files (ne_nil_of_not_directory hpart')]
      split
      · simp
      · exact hplace
    refine ⟨isTree_put (isTree_erase htree hpart') ?_ hfree _, collecting_none _⟩
    exact keepsDirectories_erase hpart' _ hup

/-! ### several turns -/

theorem hearAll_isTree (ns : List News) (htree : IsTree files) (hpart : Collecting files p.part?) :
    IsTree (hearAll s files p ns).files ∧
      Collecting (hearAll s files p ns).files (hearAll s files p ns).part? := by
  induction ns generalizing files p with
  | nil => exact ⟨htree, hpart⟩
  | cons n ns ih =>
    have hnext := (advance_next s n hpart).isTree htree hpart
    rw [hearAll]
    split
    · exact hnext
    · rename_i q hq
      split
      · refine ih hnext.1 ?_
        rw [Turn.part?, hq] at hnext
        exact hnext.2
      · exact hnext

theorem hear_isTree (ns : List News)
    (h : IsTree t.files ∧ Collecting t.files t.part?) :
    IsTree (s.hear t ns).files ∧ Collecting (s.hear t ns).files (s.hear t ns).part? := by
  rw [Search.hear]
  split
  · exact h
  · rename_i p hp
    rw [Turn.part?, hp] at h
    exact hearAll_isTree ns h.1 h.2

/-- A search leaves a tree a tree, whatever it hears. -/
theorem resolve_isTree (htree : IsTree files) (answers : List (List News)) :
    IsTree (s.resolve files answers).files := by
  have hstart : IsTree (s.start files).files ∧
      Collecting (s.start files).files (s.start files).part? := by
    obtain ⟨hfiles, hpart⟩ := files_start s files
    rw [hfiles, hpart]
    exact ⟨htree, collecting_none files⟩
  suffices h : ∀ t : Turn, IsTree t.files ∧ Collecting t.files t.part? →
      IsTree (answers.foldl s.hear t).files from h _ hstart
  induction answers with
  | nil => exact fun t h => h.1
  | cons ns answers ih => exact fun t h => ih (s.hear t ns) (hear_isTree ns h)

end ServerRun.Repository
