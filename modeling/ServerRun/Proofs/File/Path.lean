import Mathlib.Data.List.Basic
import ServerRun.File.Path

/-! Paths and their texts. The text of a path reads back as that path, and a path denotes the same
absolute path from two directories only if it is absolute itself or the two directories are one. -/

namespace ServerRun.Path

variable {p q cwd directory : Path} {s : String} {cs rest : List Char}

/-- A text that may stand between two slashes of a path. -/
structure IsSegment (s : String) : Prop where
  ne_empty : s ≠ ""
  ne_dot : s ≠ "."
  no_slash : '/' ∉ s.toList

/-- The segments of a path are segments. -/
def Normal (p : Path) : Prop := ∀ s ∈ p.segments, IsSegment s

/-! ### reading a text -/

theorem splitSlashes_of_not_mem (h : '/' ∉ cs) : splitSlashes cs = [cs] := by
  induction cs with
  | nil => rfl
  | cons c cs ih =>
    have hc : c ≠ '/' := fun hc => h (hc ▸ List.mem_cons_self)
    rw [splitSlashes, if_neg hc, ih fun hm => h (List.mem_cons_of_mem _ hm)]

theorem splitSlashes_slash (rest : List Char) :
    splitSlashes ('/' :: rest) = [] :: splitSlashes rest := by
  rw [splitSlashes, if_pos rfl]

theorem splitSlashes_append_slash (h : '/' ∉ cs) (rest : List Char) :
    splitSlashes (cs ++ '/' :: rest) = cs :: splitSlashes rest := by
  induction cs with
  | nil => exact splitSlashes_slash rest
  | cons c cs ih =>
    have hc : c ≠ '/' := fun hc => h (hc ▸ List.mem_cons_self)
    rw [List.cons_append, splitSlashes, if_neg hc, ih fun hm => h (List.mem_cons_of_mem _ hm)]

theorem no_slash_of_mem_splitSlashes (h : rest ∈ splitSlashes cs) : '/' ∉ rest := by
  induction cs generalizing rest with
  | nil =>
    rw [splitSlashes, List.mem_singleton] at h
    simp [h]
  | cons c cs ih =>
    rw [splitSlashes] at h
    split at h
    · rcases List.mem_cons.mp h with rfl | h
      · simp
      · exact ih h
    · rename_i hc
      have cons {part : List Char} (hp : '/' ∉ part) : '/' ∉ c :: part := fun hm =>
        (List.mem_cons.mp hm).elim (fun he => hc he.symm) hp
      cases hs : splitSlashes cs with
      | nil =>
        rw [hs] at h
        exact List.mem_singleton.mp h ▸ cons (by simp)
      | cons part more =>
        rw [hs] at h ih
        rcases List.mem_cons.mp h with rfl | h
        · exact cons (ih List.mem_cons_self)
        · exact ih (List.mem_cons_of_mem _ h)

theorem normal_ofString (s : String) : (ofString s).Normal := by
  intro t ht
  obtain ⟨part, hpart, rfl⟩ := List.mem_map.mp ht
  obtain ⟨hm, hkept⟩ := List.mem_filter.mp hpart
  obtain ⟨hne, hnd⟩ : part ≠ [] ∧ part ≠ ['.'] := by simpa using hkept
  refine ⟨fun he => hne ?_, fun he => hnd ?_, ?_⟩
  · simpa using congrArg String.toList he
  · simpa using congrArg String.toList he
  · rw [String.toList_ofList]
    exact no_slash_of_mem_splitSlashes hm

theorem Normal.join (hp : p.Normal) (hq : q.Normal) : (p.join q).Normal := by
  unfold Path.join
  split
  · exact hq
  · exact fun s hs => (List.mem_append.mp hs).elim (hp s) (hq s)

/-! ### reading the text of a path -/

theorem segmentsOf_segment (h : IsSegment s) : segmentsOf s.toList = [s] := by
  have hs : s.toList ≠ [] ∧ s.toList ≠ ['.'] := by
    refine ⟨fun he => h.ne_empty ?_, fun he => h.ne_dot ?_⟩ <;> exact String.toList_inj.mp he
  rw [segmentsOf, splitSlashes_of_not_mem h.no_slash, List.filter_cons_of_pos (by simp [hs])]
  simp

theorem segmentsOf_segment_slash (h : IsSegment s) (rest : List Char) :
    segmentsOf (s.toList ++ '/' :: rest) = s :: segmentsOf rest := by
  have hs : s.toList ≠ [] ∧ s.toList ≠ ['.'] := by
    refine ⟨fun he => h.ne_empty ?_, fun he => h.ne_dot ?_⟩ <;> exact String.toList_inj.mp he
  rw [segmentsOf, splitSlashes_append_slash h.no_slash, List.filter_cons_of_pos (by simp [hs])]
  simp [segmentsOf]

theorem segmentsOf_slash (rest : List Char) : segmentsOf ('/' :: rest) = segmentsOf rest := by
  simp [segmentsOf, splitSlashes_slash]

theorem segmentsOf_intercalate {ss : List String} (h : ∀ s ∈ ss, IsSegment s) :
    segmentsOf ("/".intercalate ss).toList = ss := by
  induction ss with
  | nil => rfl
  | cons s ss ih =>
    have hs := h s List.mem_cons_self
    cases ss with
    | nil => rw [String.intercalate_singleton, segmentsOf_segment hs]
    | cons t ss =>
      have htext : ("/".intercalate (s :: t :: ss)).toList =
          s.toList ++ '/' :: ("/".intercalate (t :: ss)).toList := by
        simp [String.intercalate_cons_cons]
      rw [htext, segmentsOf_segment_slash hs, ih fun u hu => h u (List.mem_cons_of_mem _ hu)]

/-- The text of segments does not begin with a slash. -/
theorem intercalate_ne_slash {ss : List String} (h : ∀ s ∈ ss, IsSegment s) (rest : List Char) :
    ("/".intercalate ss).toList ≠ '/' :: rest := by
  intro he
  cases ss with
  | nil => cases he
  | cons s ss =>
    have hs := h s List.mem_cons_self
    obtain ⟨c, cs, hc⟩ := List.exists_cons_of_ne_nil
      fun hn : s.toList = "".toList => hs.ne_empty (String.toList_inj.mp hn)
    have hhead : ("/".intercalate (s :: ss)).toList.head? = some c := by
      cases ss <;> simp [String.intercalate_cons_cons, hc]
    rw [he, List.head?_cons, Option.some.injEq] at hhead
    exact hs.no_slash (hc ▸ hhead ▸ List.mem_cons_self)

theorem anchorOf_relative (h : ∀ rest, cs ≠ '/' :: rest) : anchorOf cs = .relative := by
  unfold anchorOf
  split
  · exact absurd rfl (h _)
  · exact absurd rfl (h _)
  · exact absurd rfl (h _)
  · rfl

theorem anchorOf_root (h : ∀ rest, cs ≠ '/' :: rest) : anchorOf ('/' :: cs) = .root := by
  cases cs with
  | nil => rfl
  | cons c cs =>
    have hc : c ≠ '/' := fun hc => h cs (by rw [hc])
    simp [anchorOf, hc]

theorem anchorOf_doubleRoot (h : ∀ rest, cs ≠ '/' :: rest) :
    anchorOf ('/' :: '/' :: cs) = .doubleRoot := by
  cases cs with
  | nil => rfl
  | cons c cs =>
    simp [anchorOf]

/-- The text of a path writes that path. -/
theorem ofString_toString (h : p.Normal) : ofString p.toString = p := by
  obtain ⟨anchor, segments⟩ := p
  have hsegments : segmentsOf ("/".intercalate segments).toList = segments :=
    segmentsOf_intercalate h
  have hslash := intercalate_ne_slash h
  cases anchor with
  | relative =>
    cases segments with
    | nil => rfl
    | cons s ss =>
      have htext : (toString ⟨.relative, s :: ss⟩).toList = ("/".intercalate (s :: ss)).toList :=
        String.toList_append ..
      rw [ofString, htext, anchorOf_relative hslash, hsegments]
  | root =>
    have htext : (toString ⟨.root, segments⟩).toList =
        '/' :: ("/".intercalate segments).toList := by
      simp [toString, Anchor.text, -String.toList_intercalate]
    rw [ofString, htext, anchorOf_root hslash, segmentsOf_slash, hsegments]
  | doubleRoot =>
    have htext : (toString ⟨.doubleRoot, segments⟩).toList =
        '/' :: '/' :: ("/".intercalate segments).toList := by
      simp [toString, Anchor.text, -String.toList_intercalate]
    rw [ofString, htext, anchorOf_doubleRoot hslash, segmentsOf_slash, segmentsOf_slash, hsegments]

/-! ### absolute paths -/

theorem div_eq (p : Path) (s : String) : p / s = p.join (ofString s) := rfl

theorem join_of_isAbsolute (hq : q.isAbsolute = true) : p.join q = q := if_pos hq

theorem join_of_relative (hq : q.isAbsolute = false) :
    p.join q = ⟨p.anchor, p.segments ++ q.segments⟩ := if_neg (by simp [hq])

theorem isAbsolute_join (hq : q.isAbsolute = false) : (p.join q).isAbsolute = p.isAbsolute := by
  rw [join_of_relative hq]
  rfl

/-- Two directories give a path the same absolute path only if it does not start at them. -/
theorem absolute_inj : p.absolute directory = p.absolute cwd ↔
    p.isAbsolute = true ∨ directory = cwd := by
  cases hp : p.isAbsolute with
  | true => simp [absolute, join_of_isAbsolute hp]
  | false =>
    obtain ⟨anchor, segments⟩ := directory
    obtain ⟨anchor', segments'⟩ := cwd
    simp [absolute, join_of_relative hp]

/-! ### locations -/

theorem location_of_isAbsolute (hp : p.isAbsolute = true) (cwd : Path) :
    p.location cwd = resolveFrom [] p.segments := by
  rw [location, absolute, join_of_isAbsolute hp]

/-- What is resolved holds no double dots. -/
theorem not_mem_resolveFrom {done ss : List String} (h : ".." ∉ done) :
    ".." ∉ resolveFrom done ss := by
  induction ss generalizing done with
  | nil => exact h
  | cons s ss ih =>
    rw [resolveFrom]
    split
    · exact ih fun hm => h ((List.dropLast_sublist _).subset hm)
    · rename_i hs
      refine ih fun hm => ?_
      rcases List.mem_append.mp hm with hm | hm
      · exact h hm
      · exact hs (List.mem_singleton.mp hm).symm

theorem not_mem_location (p cwd : Path) : ".." ∉ p.location cwd :=
  not_mem_resolveFrom List.not_mem_nil

/-- A path goes on from the path above it by one segment, unless it has none. -/
theorem segments_absolute_parent (p cwd : Path) :
    (p.absolute cwd).segments = (p.parent.absolute cwd).segments ∨
      ∃ s, (p.absolute cwd).segments = (p.parent.absolute cwd).segments ++ [s] := by
  obtain ⟨anchor, segments⟩ := p
  rcases List.eq_nil_or_concat' segments with rfl | ⟨above, s, rfl⟩
  · exact .inl rfl
  · refine .inr ⟨s, ?_⟩
    cases anchor <;> simp [absolute, join, parent, isAbsolute]

end ServerRun.Path
