import ServerRun.Proofs.Model.Coordinate
import ServerRun.Proofs.Repository.Atomic

/-! The places of artifacts. In a local repository every plain coordinate has a place of its own
below the root, and none is the place of a temporary file. So what stands in a coordinate's place
was there at first or has been stored by a search for that coordinate, and a search never comes back
with the archive of another one. -/

namespace ServerRun.Repository

open FileSystem

variable {c d : Coordinate} {r : Repository} {s t search : Search} {fs files : FileSystem}
  {p : Point} {n : News} {turn : Turn} {root part : List String} {ms : List Move} {id : Nat}
  {path : Path} {x y : System}

theorem localPath_eq (hc : c.IsPlain) : r.localPath c = r.root.join ⟨.relative, c.segments⟩ :=
  congrArg r.root.join hc.relativePath_eq

theorem location_localPath (hc : c.IsPlain) (cwd : Path) :
    (r.localPath c).location cwd = r.root.location cwd ++ c.segments := by
  rw [localPath_eq hc, Path.location_join _ _ hc.double_dots_not_mem]

/-! ### places of their own -/

/-- A search for a plain coordinate, in the local repository at a location. -/
structure Search.IsPlainAt (root : List String) (s : Search) : Prop where
  coordinate : s.coordinate.IsPlain
  root : s.repository.root.location s.cwd = root

theorem Search.IsPlainAt.place_eq (h : s.IsPlainAt root) :
    s.place = root ++ s.coordinate.segments := by
  rw [← h.root]
  exact location_localPath h.coordinate s.cwd

theorem Search.IsPlainAt.coordinate_eq (hs : s.IsPlainAt root) (ht : t.IsPlainAt root)
    (h : s.place = t.place) : s.coordinate = t.coordinate := by
  rw [hs.place_eq, ht.place_eq] at h
  exact Coordinate.eq_of_segments (List.append_cancel_left h)

/-- A location with the name of a temporary file. -/
def IsTemporary (part : List String) : Prop :=
  ∃ directory gs other, part = directory ++ [FileSystem.freshName gs other]

/-- The name of an artifact's file has a hyphen in it, and that of a temporary file has none. -/
theorem Search.IsPlainAt.place_ne (h : s.IsPlainAt root) (hp : IsTemporary part) :
    s.place ≠ part := by
  obtain ⟨directory, gs, other, rfl⟩ := hp
  intro he
  have hlast := congrArg List.getLast? he
  have hname : s.coordinate.fileName = freshName gs other := by
    simpa [h.place_eq, Coordinate.segments] using hlast
  have hhyphen := s.coordinate.hyphen_mem_fileName
  rw [hname] at hhyphen
  simp [freshName] at hhyphen

theorem Advance.isTemporary (h : Advance s files p n turn) (ht : turn.part? = some part) :
    p.part? = some part ∨ IsTemporary part := by
  cases h with
  | ignored => exact .inl ht
  | passed hp hfiles hidle =>
    rw [part?_of_isIdle hidle] at ht
    cases ht
  | @opened remote rest failures code made directory =>
    exact .inr ⟨directory, made, s.target.name, (Option.some.inj ht).symm⟩
  | extended => exact .inl ht
  | dropped hfiles hidle =>
    rw [part?_of_isIdle hidle] at ht
    cases ht
  | stored => cases ht

/-! ### what is found -/

namespace System

/-- The invariant of searches for plain coordinates in one local repository. -/
structure Apart (fs : FileSystem) (root : List String) (x : System) : Prop where
  sound : Sound fs (Search.IsPlainAt root) x
  temporary : ∀ part ∈ x.parts, IsTemporary part

/-- The name of a temporary file is chosen when it is made, and no artifact has it. -/
theorem Apart.of_step? (hx : Apart fs root x) {m : Move}
    (hm : ∀ id s, m = .search id s → s.IsPlainAt root) (h : x.step? m = some y) :
    Apart fs root y := by
  have fresh (hy : ∀ part ∈ y.parts, IsTemporary part) :
      ∀ part ∈ y.parts, ∀ s, Search.IsPlainAt root s → s.place ≠ part :=
    fun part hpart s hs => hs.place_ne (hy part hpart)
  cases m with
  | search id search =>
    have hsteps := hx.sound.steps_search h
    have hy : ∀ part ∈ y.parts, IsTemporary part := by
      intro part hpart
      rcases hsteps.mem_parts.mp hpart with ht | ⟨i, s, p, -, hw, hp⟩
      · rw [(files_start search x.files).2] at ht
        cases ht
      · exact hx.temporary part (System.mem_parts.mpr ⟨i, s, p, hw, hp⟩)
    exact ⟨hsteps.sound hx.sound (hm id search rfl) (fresh hy), hy⟩
  | news id n =>
    obtain ⟨search, p, hw, hsteps⟩ := hx.sound.steps_news h
    have hlooked := hx.sound.within id search (hx.sound.orderly.began id search p hw)
    have hadvance := advance_next search n fun part hp =>
      (hx.sound.receiving id search p part hw hp).imp fun _ h => h.2
    have hy : ∀ part ∈ y.parts, IsTemporary part := by
      intro part hpart
      rcases hsteps.mem_parts.mp hpart with ht | ⟨i, s, p, -, hw, hp⟩
      · rcases hadvance.isTemporary ht with hp | htemporary
        · exact hx.temporary part (System.mem_parts.mpr ⟨id, search, p, hw, hp⟩)
        · exact htemporary
      · exact hx.temporary part (System.mem_parts.mpr ⟨i, s, p, hw, hp⟩)
    exact ⟨hsteps.sound hx.sound hlooked (fresh hy), hy⟩

theorem apart_of_reaches (hms : ∀ id s, .search id s ∈ ms → s.IsPlainAt root)
    (h : Reaches { files := fs } ms x) : Apart fs root x := by
  refine Leads.keeps h ⟨sound_initial fs _, by simp [parts]⟩ ?_
  rintro x m y ⟨before, after, rfl, -, hstep⟩ hx
  exact hx.of_step? (fun id s hm => hms id s (by simp [hm])) hstep

/-- What a search has come back with is what stood in its place at first, or the body that a search
for the same coordinate has stored there. -/
theorem Apart.served (hx : Apart fs root x) (hbegan : .began id search ∈ x.history)
    (hended : .ended id (.ok path) ∈ x.history) :
    path = search.target ∧ ∃ bytes, x.files.fileBytes search.cwd path = .ok bytes ∧
      (fs.get? search.place = some (.file bytes) ∨
        ∃ i other, x.Stored i other bytes ∧ other.coordinate = search.coordinate) := by
  obtain ⟨rfl, hfile⟩ := hx.sound.found id search path hbegan hended
  obtain ⟨hlocate, bytes, hbytes⟩ := exists_of_pathIsFile hfile
  have hplain := hx.sound.within id search hbegan
  refine ⟨rfl, bytes, by simp only [fileBytes, hlocate, hbytes], ?_⟩
  rcases hx.sound.file_cases hbytes with h | ⟨i, other, p, hw, hp⟩ | ⟨i, other, hstored, hplace⟩
  · exact .inl h
  · have hpart := System.mem_parts.mpr ⟨i, other, p, hw, hp⟩
    exact absurd rfl (hplain.place_ne (hx.temporary _ hpart))
  · have hother := hx.sound.within i other hstored.began
    exact .inr ⟨i, other, hstored, hother.coordinate_eq hplain hplace⟩

/-- A plain coordinate is identified by its path and by its place in a local repository, which is
strictly below the root. Whatever searches for plain coordinates run in a local repository, what a
search for a coordinate has come back with was in its place at first, or is the body that a search
for the same coordinate has stored. -/
theorem place_identifies (hc : c.IsPlain) (hd : d.IsPlain) :
    (c.relativePath = d.relativePath → c = d) ∧
    (∀ (r : Repository) (cwd : Path),
      ((r.localPath c).location cwd = (r.localPath d).location cwd → c = d) ∧
      ∃ s more, r.localPath c = ⟨r.root.anchor, r.root.segments ++ s :: more⟩ ∧
        (r.localPath c).location cwd = r.root.location cwd ++ s :: more) ∧
    ∀ (fs : FileSystem) (root : List String) (ms : List Move) (x : System),
      (∀ id s, .search id s ∈ ms → s.IsPlainAt root) → Reaches { files := fs } ms x →
      ∀ id search path, search.coordinate = c → .began id search ∈ x.history →
        .ended id (.ok path) ∈ x.history →
        path = search.target ∧ ∃ bytes, x.files.fileBytes search.cwd path = .ok bytes ∧
          (fs.get? search.place = some (.file bytes) ∨
            ∃ i other, x.Stored i other bytes ∧ other.coordinate = c) := by
  refine ⟨fun h => ?_, fun r cwd => ⟨fun h => ?_, ?_⟩, ?_⟩
  · rw [hc.relativePath_eq, hd.relativePath_eq, Path.mk.injEq] at h
    exact Coordinate.eq_of_segments h.2
  · rw [location_localPath hc, location_localPath hd] at h
    exact Coordinate.eq_of_segments (List.append_cancel_left h)
  · have hne : c.segments ≠ [] := by simp [Coordinate.segments]
    obtain ⟨s, more, hsegments⟩ := List.exists_cons_of_ne_nil hne
    refine ⟨s, more, ?_, ?_⟩
    · rw [localPath_eq hc, Path.join_of_relative rfl, hsegments]
    · rw [location_localPath hc, hsegments]
  · rintro fs root ms x hms h id search path rfl hbegan hended
    exact (apart_of_reaches hms h).served hbegan hended

/-- A coordinate with a hyphen in its artifact. -/
def hyphenated : Coordinate := ⟨"g.h", "a-1", "zip", "2"⟩

/-- The same text of artifact and version, divided at the other hyphen. -/
def shifted : Coordinate := ⟨"g.h", "a", "zip", "1-2"⟩

theorem hyphenated_isPlain : hyphenated.IsPlain := by
  constructor <;> decide +kernel

theorem shifted_isPlain : shifted.IsPlain := by
  constructor <;> decide +kernel

/-- The search for a coordinate in a repository that is reached over double dots. -/
def twinSearch (c : Coordinate) : Search :=
  ⟨⟨⟨.relative, ["..", "repo"]⟩, ["http://a"]⟩, c, ⟨.root, ["home"]⟩⟩

/-- Archives of both coordinates are downloaded, and then the first is looked for again. -/
def twinRun : List Move :=
  [.search 0 (twinSearch hyphenated), .news 0 (.status 200), .search 1 (twinSearch shifted),
    .news 1 (.status 200), .news 0 (.chunk [1]), .news 1 (.chunk [2]), .news 0 .complete,
    .news 1 .complete, .search 2 (twinSearch hyphenated)]

/-- The search that begins with an event. -/
def began? : Event → Option (Nat × Search)
  | .began id search => some (id, search)
  | _ => none

theorem began_of_began? {e : Event} (h : began? e = some (id, search)) : e = .began id search := by
  cases e <;> cases h
  rfl

/-- The path that a search comes back with in an event. -/
def found? : Event → Option (Nat × Path)
  | .ended id result => result.toOption.map fun path => (id, path)
  | _ => none

theorem ended_of_found? {e : Event} (h : found? e = some (id, path)) :
    e = .ended id (.ok path) := by
  cases e with
  | ended id result =>
    cases result <;> cases h
    rfl
  | began | effect | heard => cases h

/-- The files of both coordinates have the same name; the last search comes back with the archive of
its own one. -/
theorem place_identifies_twins :
    hyphenated.IsPlain ∧ shifted.IsPlain ∧ hyphenated.fileName = shifted.fileName ∧
      hyphenated.relativePath ≠ shifted.relativePath ∧
      (∀ id s, .search id s ∈ twinRun → s.IsPlainAt ["repo"]) ∧
      ∃ x search, Reaches { files := {} } twinRun x ∧ .began 2 search ∈ x.history ∧
        search.coordinate = hyphenated ∧ .ended 2 (.ok search.target) ∈ x.history ∧
        ∃ i other, x.Stored i other [1] ∧ other.coordinate = hyphenated := by
  obtain ⟨hpath, -, hserved⟩ := place_identifies hyphenated_isPlain shifted_isPlain
  have hplain : ∀ id s, .search id s ∈ twinRun → s.IsPlainAt ["repo"] := by
    intro id s hs
    simp only [twinRun, List.mem_cons, Move.search.injEq, reduceCtorEq, List.not_mem_nil, or_false,
      false_or] at hs
    rcases hs with ⟨-, rfl⟩ | ⟨-, rfl⟩ | ⟨-, rfl⟩
    · exact ⟨hyphenated_isPlain, by decide +kernel⟩
    · exact ⟨shifted_isPlain, by decide +kernel⟩
    · exact ⟨hyphenated_isPlain, by decide +kernel⟩
  have hends : ((twinRun.foldlM step? { files := {} }).any fun x =>
      (x.history.any fun e => (began? e).any fun b =>
        b.1 == 2 && b.2.coordinate == hyphenated && b.2.cwd == (twinSearch hyphenated).cwd) &&
      x.history.any fun e => (found? e).any fun f =>
        f.1 == 2 && (x.files.fileBytes (twinSearch hyphenated).cwd f.2).toOption == some [1]) =
      true := by
    decide +kernel
  obtain ⟨x, hx, hfacts⟩ := (Option.any_eq_true ..).mp hends
  simp only [Bool.and_eq_true, List.any_eq_true, Option.any_eq_true, beq_iff_eq] at hfacts
  obtain ⟨⟨e, hbegan, ⟨id, search⟩, he, ⟨rfl, hcoordinate⟩, hcwd⟩,
    e', hended, ⟨id, path⟩, he', rfl, hstored⟩ := hfacts
  rw [began_of_began? he] at hbegan
  rw [ended_of_found? he'] at hended
  have hreach : Reaches { files := {} } twinRun x := leads_iff.mpr hx
  obtain ⟨rfl, bytes, hbytes, hwhere⟩ :=
    hserved {} ["repo"] twinRun x hplain hreach 2 search path hcoordinate hbegan hended
  rw [← hcwd, hbytes] at hstored
  obtain rfl : bytes = [1] := Option.some.inj hstored
  refine ⟨hyphenated_isPlain, shifted_isPlain, rfl, fun h => ?_, hplain, x, search, hreach, hbegan,
    hcoordinate, hended, hwhere.resolve_left ?_⟩
  · exact absurd (hpath h) (by decide)
  · simp [get?]

end System

end ServerRun.Repository
