import Mathlib.Data.List.Basic
import ServerRun.Model.Coordinate
import ServerRun.Proofs.File.Tree

/-! The paths of coordinates. A coordinate leads through a directory for each part of its group, one
for its artifact and one for its version to a file that is named after its last three fields, and
all four fields can be read back from these segments. They are the path of the coordinate where none
of them means something else in a path. -/

namespace ServerRun.Path

variable {s : String} {done ss : List String}

theorem ofString_segment (h : IsSegment s) : ofString s = ⟨.relative, [s]⟩ := by
  have hslash : ∀ rest, s.toList ≠ '/' :: rest := fun rest he =>
    h.no_slash (he ▸ List.mem_cons_self)
  rw [ofString, anchorOf_relative hslash, segmentsOf_segment h]

/-- Segments that are put behind a path one after the other come to stand behind it in order. -/
theorem foldl_div (p : Path) (h : ∀ s ∈ ss, IsSegment s) :
    ss.foldl (fun (p : Path) (s : String) => p / s) p = ⟨p.anchor, p.segments ++ ss⟩ := by
  induction ss generalizing p with
  | nil => simp
  | cons s ss ih =>
    obtain ⟨hs, hss⟩ := List.forall_mem_cons.mp h
    rw [List.foldl_cons, div_eq, ofString_segment hs, join_of_relative rfl, ih _ hss]
    simp

theorem resolveFrom_of_not_mem (h : ".." ∉ ss) : resolveFrom done ss = done ++ ss := by
  induction ss generalizing done with
  | nil => simp [resolveFrom]
  | cons s ss ih =>
    rw [List.mem_cons, not_or] at h
    rw [resolveFrom, if_neg (Ne.symm h.1), ih h.2]
    simp

/-- What stands behind a path without double dots is found below the place of the path. -/
theorem location_join (p cwd : Path) (h : ".." ∉ ss) :
    (p.join ⟨.relative, ss⟩).location cwd = p.location cwd ++ ss := by
  have hsegments : ((p.join ⟨.relative, ss⟩).absolute cwd).segments =
      (p.absolute cwd).segments ++ ss := by
    obtain ⟨anchor, segments⟩ := p
    cases anchor <;> simp [absolute, join, isAbsolute]
  rw [location, hsegments, FileSystem.resolveFrom_append, resolveFrom_of_not_mem h, location]

end ServerRun.Path

namespace ServerRun.Coordinate

variable {c d : Coordinate} {s : String} {cs part : List Char}

/-! ### groups -/

theorem splitDots_ne_nil (cs : List Char) : splitDots cs ≠ [] := by
  cases cs with
  | nil => simp [splitDots]
  | cons c cs =>
    rw [splitDots]
    split
    · simp
    · split <;> simp

/-- The parts of a text with dots between them are the text. -/
theorem intercalate_splitDots (cs : List Char) : ['.'].intercalate (splitDots cs) = cs := by
  induction cs with
  | nil => rfl
  | cons c cs ih =>
    obtain ⟨part, more, hparts⟩ := List.exists_cons_of_ne_nil (splitDots_ne_nil cs)
    rw [splitDots, hparts]
    rw [hparts] at ih
    split
    · rename_i hc
      rw [List.intercalate_cons_cons, ih, hc]
      rfl
    · cases more with
      | nil => simpa using ih
      | cons part' more =>
        rw [List.intercalate_cons_cons] at ih ⊢
        simp [← ih]

theorem dot_not_mem_splitDots (h : part ∈ splitDots cs) : '.' ∉ part := by
  induction cs generalizing part with
  | nil =>
    rw [splitDots, List.mem_singleton] at h
    simp [h]
  | cons c cs ih =>
    obtain ⟨first, more, hparts⟩ := List.exists_cons_of_ne_nil (splitDots_ne_nil cs)
    rw [splitDots, hparts] at h
    rw [hparts] at ih
    split at h
    · rcases List.mem_cons.mp h with rfl | h
      · simp
      · exact ih h
    · rename_i hc
      rcases List.mem_cons.mp h with rfl | h
      · simp [Ne.symm hc, ih List.mem_cons_self]
      · exact ih (List.mem_cons_of_mem _ h)

/-- Groups with the same parts are the same. -/
theorem group_of_groupParts (h : c.groupParts = d.groupParts) : c.group = d.group := by
  have hsplit : splitDots c.group.toList = splitDots d.group.toList :=
    List.map_injective_iff.mpr (fun _ _ => String.ofList_injective) h
  have htext := congrArg (List.intercalate ['.']) hsplit
  rwa [intercalate_splitDots, intercalate_splitDots, String.toList_inj] at htext

/-! ### segments -/

/-- The directories that lead to an artifact and its file. -/
def segments (c : Coordinate) : List String := c.groupParts ++ [c.artifact, c.version, c.fileName]

/-- The fields of a coordinate can be read back from its segments, from their end. -/
theorem eq_of_segments (h : c.segments = d.segments) : c = d := by
  obtain ⟨hgroup, hlast⟩ := List.append_inj' h rfl
  obtain ⟨hartifact, hversion, hfile⟩ :
      c.artifact = d.artifact ∧ c.version = d.version ∧ c.fileName = d.fileName := by
    simpa using hlast
  have htype : c.archiveType = d.archiveType := by
    simp only [fileName, hartifact, hversion] at hfile
    exact String.append_right_inj _ |>.mp hfile
  have hgroup := group_of_groupParts hgroup
  cases c
  cases d
  exact Coordinate.mk.injEq .. |>.mpr ⟨hgroup, hartifact, htype, hversion⟩

/-- Whether every segment of a coordinate is a name in its directory: no part of the group is empty,
no field holds a slash, and the artifact and the version are neither empty nor one or two dots. -/
structure IsPlain (c : Coordinate) : Prop where
  group : ∀ s ∈ c.groupParts, s ≠ "" ∧ '/' ∉ s.toList
  artifact : c.artifact ≠ "" ∧ '/' ∉ c.artifact.toList
  version : c.version ≠ "" ∧ '/' ∉ c.version.toList
  artifact_dots : c.artifact ≠ "." ∧ c.artifact ≠ ".."
  version_dots : c.version ≠ "." ∧ c.version ≠ ".."
  archiveType : '/' ∉ c.archiveType.toList

theorem hyphen_mem_fileName (c : Coordinate) : '-' ∈ c.fileName.toList := by
  simp [fileName]

theorem IsPlain.isSegment (h : c.IsPlain) (hs : s ∈ c.segments) :
    Path.IsSegment s ∧ s ≠ ".." := by
  simp only [segments, List.mem_append, List.mem_cons, List.not_mem_nil, or_false] at hs
  rcases hs with hs | rfl | rfl | rfl
  · obtain ⟨hne, hslash⟩ := h.group s hs
    obtain ⟨part, hpart, rfl⟩ := List.mem_map.mp hs
    have hdot : '.' ∉ (String.ofList part).toList := by
      rw [String.toList_ofList]
      exact dot_not_mem_splitDots hpart
    exact ⟨⟨hne, fun he => hdot (by simp [he]), hslash⟩, fun he => hdot (by simp [he])⟩
  · exact ⟨⟨h.artifact.1, h.artifact_dots.1, h.artifact.2⟩, h.artifact_dots.2⟩
  · exact ⟨⟨h.version.1, h.version_dots.1, h.version.2⟩, h.version_dots.2⟩
  · have hhyphen := hyphen_mem_fileName c
    have hne {t : String} (ht : '-' ∉ t.toList) : c.fileName ≠ t := fun he => ht (he ▸ hhyphen)
    refine ⟨⟨hne (by simp), hne (by decide), ?_⟩, hne (by decide)⟩
    simp [fileName, h.artifact.2, h.version.2, h.archiveType]

theorem IsPlain.double_dots_not_mem (h : c.IsPlain) : ".." ∉ c.segments :=
  fun hm => (h.isSegment hm).2 rfl

/-- The path of a plain coordinate consists of its segments. -/
theorem IsPlain.relativePath_eq (h : c.IsPlain) : c.relativePath = ⟨.relative, c.segments⟩ :=
  Path.foldl_div _ fun _ hs => (h.isSegment hs).1

end ServerRun.Coordinate
