import ServerRun.Proofs.Repository.Move

/-! Any number of searches over the same files, move by move. What stands at a location is what
stood there at first, a directory made on the way to an artifact, the file that a waiting search
collects content in, or the complete body that a search which succeeded has put in its artifact's
place. So no artifact is ever there in part, and what a search leaves behind is an artifact or
nothing. -/

namespace ServerRun.Repository

open FileSystem

variable {fs files : FileSystem} {s search : Search} {p : Point} {n : News} {t : Turn}
  {id i : Nat} {l part : List String} {body bytes : List UInt8} {news : List News}
  {first : Event} {path : Path} {old : Option (List String)} {looked : Search → Prop}
  {x y : System}

/-! ### what is received -/

/-- After an answer of success, content has come, and has not ended. -/
def Receiving (news : List News) (body : List UInt8) : Prop :=
  ∃ earlier code mid, news = earlier ++ .status code :: mid ∧ (200 ≤ code ∧ code < 300) ∧
    (∀ n ∈ mid, ¬ n.Ends) ∧ body = (mid.filterMap News.chunk?).flatten

/-- The content of one answer of success has come completely. -/
def Received (news : List News) (body : List UInt8) : Prop :=
  ∃ before after, news = before ++ .complete :: after ∧ Receiving before body

theorem Receiving.status {code : Nat} (hcode : 200 ≤ code ∧ code < 300) (news : List News) :
    Receiving (news ++ [.status code]) [] :=
  ⟨news, code, [], rfl, hcode, by simp, rfl⟩

theorem Receiving.more (h : Receiving news body) (hn : ¬ n.Ends) :
    Receiving (news ++ [n]) (body ++ n.chunk?.getD []) := by
  obtain ⟨earlier, code, mid, rfl, hcode, hmid, rfl⟩ := h
  refine ⟨earlier, code, mid ++ [n], by simp, hcode, fun m hm => ?_, ?_⟩
  · rcases List.mem_append.mp hm with hm | hm
    · exact hmid m hm
    · exact List.mem_singleton.mp hm ▸ hn
  · cases hchunk : n.chunk? <;> simp [hchunk]

theorem Receiving.complete (h : Receiving news body) : Received (news ++ [.complete]) body :=
  ⟨news, [], rfl, h⟩

theorem Received.append (h : Received news body) (more : List News) :
    Received (news ++ more) body := by
  obtain ⟨before, after, rfl, h⟩ := h
  exact ⟨before, after ++ more, by simp, h⟩

/-- The file that a search collects content in holds what it has received. -/
theorem Advance.receiving (h : Advance s files p n t)
    (hpart : ∀ part, p.part? = some part →
      ∃ body, Receiving news body ∧ files.get? part = some (.file body))
    (ht : t.part? = some part) :
    (p.part? = some part ∨ files.get? part = none) ∧
      ∃ body, Receiving (news ++ [n]) body ∧ t.files.get? part = some (.file body) := by
  cases h with
  | ignored h =>
    have hp : p.part? = some part := ht
    obtain ⟨hn, hchunk⟩ := h (by rw [hp]; simp)
    obtain ⟨body, hbody, hfile⟩ := hpart part hp
    exact ⟨.inl hp, body, by simpa [hchunk] using hbody.more hn, hfile⟩
  | passed hp hfiles hidle =>
    rw [part?_of_isIdle hidle] at ht
    cases ht
  | @opened remote rest failures code made directory hcode hmade =>
    obtain rfl : directory ++ [made.freshName s.target.name] = part := Option.some.inj ht
    refine ⟨.inr ?_, [], .status hcode news, ?_⟩
    · have hfree := get?_freshName made directory s.target.name
      have hmake := get?_makeOpen files s.cwd s.target.parent
        (directory ++ [made.freshName s.target.name])
      rw [hmade, hfree] at hmake
      rcases hmake with hmake | ⟨-, hnone, -⟩
      · exact hmake.symm
      · exact hnone
    · rw [get?_put made (by simp), if_pos rfl]
  | @extended part' remote rest failures bytes =>
    obtain rfl : part' = part := Option.some.inj ht
    obtain ⟨body, hbody, hfile⟩ := hpart part' rfl
    refine ⟨.inl rfl, body ++ bytes, hbody.more (n := .chunk bytes) id, ?_⟩
    rw [get?_extendFile hfile, if_pos rfl]
  | dropped hfiles hidle =>
    rw [part?_of_isIdle hidle] at ht
    cases ht
  | stored => cases ht

/-- A search that hears news succeeds only by putting a complete body in place. -/
theorem Advance.success (h : Advance s files p n t)
    (hpart : ∀ part, p.part? = some part → ∃ bytes, files.get? part = some (.file bytes))
    (ht : t.progress = .ended (.ok path)) :
    n = .complete ∧ path = s.target ∧ t.files.pathIsFile s.cwd s.target = .ok true := by
  have hkeep : KeepsDirectories files t.files :=
    Change.keepsDirectories (h.change hpart) fun part hp => by
      obtain ⟨bytes, hbytes⟩ := hpart part hp
      simp [hbytes]
  cases h with
  | ignored => cases ht
  | passed hp hfiles hidle =>
    rw [ht] at hidle
    cases hidle
  | opened => cases ht
  | extended => cases ht
  | dropped hfiles hidle =>
    rw [ht] at hidle
    cases hidle
  | @stored part remote rest failures effects bytes hbytes hlocate hplace =>
    cases ht
    have hput := get?_put (files.erase part) (ne_nil_of_not_directory hplace) (.file bytes) s.place
    rw [if_pos rfl] at hput
    exact ⟨rfl, rfl, pathIsFile_of_locate (hkeep.locate hlocate) hput⟩

/-- The search for the same artifact in the same place, with other remote repositories. -/
def Search.withRemotes (s : Search) (remotes : List String) : Search :=
  { s with repository := { s.repository with remotes } }

namespace System

/-! ### what stands where -/

/-- A search has put a complete body in its artifact's place and has ended with it. -/
structure Stored (x : System) (id : Nat) (search : Search) (body : List UInt8) : Prop where
  began : .began id search ∈ x.history
  ended : .ended id (.ok search.target) ∈ x.history
  received : Received (x.heard id) body

/-- Why what stands at a location stands there. -/
inductive Accounted (fs : FileSystem) (x : System) (l : List String) : Prop
  | initial (h : x.files.get? l = fs.get? l)
  | made (hnone : fs.get? l = none) (h : x.files.get? l = some .directory) {id : Nat}
      {search : Search} (hbegan : .began id search ∈ x.history) (hl : l ∈ search.way)
  | collecting (h : l ∈ x.parts)
  | stored {id : Nat} {search : Search} {body : List UInt8} (h : x.Stored id search body)
      (hl : search.place = l) (hbody : x.files.get? l = some (.file body))

/-- The invariant of searches over files that were `fs` at first, where `looked` are the searches
that are ever begun. -/
structure Sound (fs : FileSystem) (looked : Search → Prop) (x : System) : Prop where
  orderly : x.Orderly
  within : ∀ id search, .began id search ∈ x.history → looked search
  fresh : ∀ part ∈ x.parts, ∀ search, looked search → search.place ≠ part
  new : ∀ part ∈ x.parts, fs.get? part = none
  receiving : ∀ id search p part, (id, search, p) ∈ x.waiting → p.part? = some part →
    ∃ body, Receiving (x.heard id) body ∧ x.files.get? part = some (.file body)
  apart : ∀ id search p id' search' p' part, (id, search, p) ∈ x.waiting →
    (id', search', p') ∈ x.waiting → p.part? = some part → p'.part? = some part → id = id'
  accounted : ∀ l, x.Accounted fs l
  found : ∀ id search path, .began id search ∈ x.history → .ended id (.ok path) ∈ x.history →
    path = search.target ∧ x.files.pathIsFile search.cwd search.target = .ok true

theorem sound_initial (fs : FileSystem) (looked : Search → Prop) :
    Sound fs looked { files := fs } where
  orderly := orderly_initial fs
  within := by simp
  fresh := by simp [parts]
  new := by simp [parts]
  receiving := by simp
  apart := by simp
  accounted l := .initial rfl
  found := by simp

/-- What a move does, seen from the invariant. -/
structure Steps (x : System) (id : Nat) (search : Search) (old : Option (List String))
    (first : Event) (t : Turn) (y : System) : Prop extends Goes x id search first t y where
  old_iff : ∀ part, old = some part ↔
    ∃ search p, (id, search, p) ∈ x.waiting ∧ p.part? = some part
  change : ∀ l, Change search x.files old t l
  receiving : ∀ part, t.part? = some part → (old = some part ∨ x.files.get? part = none) ∧
    ∃ body, Receiving (y.heard id) body ∧ t.files.get? part = some (.file body)
  received : ∀ part body, old = some part → x.files.get? part = some (.file body) →
    t.progress = .ended (.ok search.target) → Received (y.heard id) body
  success : ∀ path, t.progress = .ended (.ok path) →
    path = search.target ∧ t.files.pathIsFile search.cwd search.target = .ok true

theorem Stored.goes {i : Nat} {s : Search} (hs : x.Stored i s body)
    (h : Goes x id search first t y) : y.Stored i s body := by
  obtain ⟨news, hnews⟩ := h.exists_heard i
  exact ⟨h.began_iff.mpr (.inl hs.began), h.ended_iff.mpr (.inl hs.ended),
    hnews ▸ hs.received.append news⟩

/-- Where nothing stands, nothing stood at first. -/
theorem Sound.none_initially (hx : Sound fs looked x) (hl : x.files.get? l = none) :
    fs.get? l = none := by
  cases hx.accounted l with
  | initial h => exact h.symm.trans hl
  | made hnone => exact hnone
  | collecting h => exact hx.new l h
  | stored _ _ hbody => simp [hl] at hbody

namespace Steps

theorem mem_parts_of_old (h : Steps x id search old first t y) (hold : old = some part) :
    part ∈ x.parts := by
  obtain ⟨s, p, hw, hp⟩ := (h.old_iff part).mp hold
  exact System.mem_parts.mpr ⟨id, s, p, hw, hp⟩

variable (h : Steps x id search old first t y) (hx : Sound fs looked x)

include h hx

theorem exists_file_of_old (hold : old = some part) :
    ∃ bytes, x.files.get? part = some (.file bytes) := by
  obtain ⟨s, p, hw, hp⟩ := (h.old_iff part).mp hold
  obtain ⟨body, -, hbody⟩ := hx.receiving id s p part hw hp
  exact ⟨body, hbody⟩

theorem keepsDirectories : KeepsDirectories x.files y.files := by
  rw [h.files]
  refine Change.keepsDirectories h.change fun part hold => ?_
  obtain ⟨bytes, hbytes⟩ := h.exists_file_of_old hx hold
  simp [hbytes]

theorem old_ne {s : Search} (hi : i ≠ id) (hw : (i, s, p) ∈ x.waiting)
    (hp : p.part? = some part) : old ≠ some part := by
  intro hold
  obtain ⟨s', p', hw', hp'⟩ := (h.old_iff part).mp hold
  exact hi (hx.apart i s p id s' p' part hw hw' hp hp')

theorem part?_ne {s : Search} (hi : i ≠ id) (hw : (i, s, p) ∈ x.waiting)
    (hp : p.part? = some part) : t.part? ≠ some part := by
  intro ht
  obtain ⟨body, -, hbody⟩ := hx.receiving i s p part hw hp
  rcases (h.receiving part ht).1 with hold | hnone
  · exact h.old_ne hx hi hw hp hold
  · simp [hnone] at hbody

theorem get?_part_of_ne {s : Search} (hlooked : looked search) (hi : i ≠ id)
    (hw : (i, s, p) ∈ x.waiting) (hp : p.part? = some part) :
    y.files.get? part = x.files.get? part := by
  have hpart : part ∈ x.parts := System.mem_parts.mpr ⟨i, s, p, hw, hp⟩
  obtain ⟨body, -, hbody⟩ := hx.receiving i s p part hw hp
  rw [h.files]
  cases h.change part with
  | kept _ hkept => exact hkept
  | made _ hnone _ => simp [hnone] at hbody
  | collecting ht _ => exact absurd ht (h.part?_ne hx hi hw hp)
  | dropped hold _ => exact absurd hold (h.old_ne hx hi hw hp)
  | stored hl => exact absurd hl.symm (hx.fresh part hpart search hlooked)

theorem get?_place {s : Search} (hs : looked s)
    (hfresh : ∀ part ∈ y.parts, ∀ s, looked s → s.place ≠ part)
    (hfile : x.files.get? s.place = some (.file bytes)) :
    ∃ bytes, y.files.get? s.place = some (.file bytes) := by
  rw [h.files]
  cases h.change s.place with
  | kept _ hkept => exact ⟨bytes, hkept.trans hfile⟩
  | made _ hnone _ => simp [hnone] at hfile
  | collecting ht _ => exact absurd rfl (hfresh s.place (h.mem_parts.mpr (.inl ht)) s hs)
  | dropped ho _ => exact absurd rfl (hx.fresh s.place (h.mem_parts_of_old ho) s hs)
  | stored _ _ _ _ _ hbody => exact ⟨_, hbody⟩

theorem accounted (l : List String) : y.Accounted fs l := by
  cases h.change l with
  | kept hold hkept =>
    have hkept : y.files.get? l = x.files.get? l := (by rw [h.files]; exact hkept)
    cases hx.accounted l with
    | initial hl => exact .initial (hkept.trans hl)
    | made hnone hdir hbegan hl =>
      exact .made hnone (hkept.trans hdir) (h.began_iff.mpr (.inl hbegan)) hl
    | collecting hl =>
      obtain ⟨i, s, p, hw, hp⟩ := System.mem_parts.mp hl
      have hi : i ≠ id := fun hi => hold ((h.old_iff l).mpr ⟨s, p, hi ▸ hw, hp⟩)
      exact .collecting (h.mem_parts.mpr (.inr ⟨i, s, p, hi, hw, hp⟩))
    | stored hs hl hbody => exact .stored (hs.goes h.toGoes) hl (hkept.trans hbody)
  | made hl hnone hdir =>
    exact .made (hx.none_initially hnone) (by rw [h.files]; exact hdir)
      (h.began_iff.mpr (.inr ⟨rfl, rfl⟩)) hl
  | collecting ht => exact .collecting (h.mem_parts.mpr (.inl ht))
  | dropped hold hnone =>
    have hnew := hx.new l (h.mem_parts_of_old hold)
    exact .initial (by rw [h.files, hnone, hnew])
  | stored hl hold hbytes _ hend hbody =>
    have hstored : y.Stored id search _ :=
      ⟨h.began_iff.mpr (.inr ⟨rfl, rfl⟩), h.ended_iff.mpr (.inr ⟨rfl, hend⟩),
        h.received _ _ hold hbytes hend⟩
    exact .stored hstored hl.symm (by rw [h.files]; exact hbody)

theorem found (hfresh : ∀ part ∈ y.parts, ∀ s, looked s → s.place ≠ part) {s : Search}
    (hbegan : .began i s ∈ y.history) (hended : .ended i (.ok path) ∈ y.history) :
    path = s.target ∧ y.files.pathIsFile s.cwd s.target = .ok true := by
  rcases h.ended_iff.mp hended with hended | ⟨rfl, hend⟩
  · rcases h.began_iff.mp hbegan with hbegan | ⟨rfl, -⟩
    · obtain ⟨hpath, hfile⟩ := hx.found i s path hbegan hended
      obtain ⟨hlocate, bytes, hbytes⟩ := exists_of_pathIsFile hfile
      obtain ⟨bytes', hbytes'⟩ := h.get?_place hx (hx.within i s hbegan) hfresh hbytes
      exact ⟨hpath, pathIsFile_of_locate ((h.keepsDirectories hx).locate hlocate) hbytes'⟩
    · exact absurd hended (h.unended _)
  · obtain rfl : s = search := by
      rcases h.began_iff.mp hbegan with hbegan | ⟨-, rfl⟩
      · exact (h.began s).mp (List.mem_append_left _ hbegan)
      · rfl
    rw [h.files]
    exact h.success path hend

theorem sound (hlooked : looked search)
    (hfresh : ∀ part ∈ y.parts, ∀ s, looked s → s.place ≠ part) : Sound fs looked y where
  orderly := h.orderly hx.orderly
  within i s hbegan := by
    rcases h.began_iff.mp hbegan with hbegan | ⟨-, rfl⟩
    · exact hx.within i s hbegan
    · exact hlooked
  fresh := hfresh
  new part hpart := by
    rcases h.mem_parts.mp hpart with ht | ⟨i, s, p, -, hw, hp⟩
    · rcases (h.receiving part ht).1 with hold | hnone
      · exact hx.new part (h.mem_parts_of_old hold)
      · exact hx.none_initially hnone
    · exact hx.new part (System.mem_parts.mpr ⟨i, s, p, hw, hp⟩)
  receiving i s p part hw hp := by
    rcases (h.waiting i s p).mp hw with ⟨rfl, rfl, ht⟩ | ⟨hi, hw⟩
    · rw [h.files]
      exact (h.receiving part (by rw [Turn.part?, ht]; exact hp)).2
    · rw [h.heard_of_ne hi, h.get?_part_of_ne hx hlooked hi hw hp]
      exact hx.receiving i s p part hw hp
  apart i s p i' s' p' part hw hw' hp hp' := by
    rcases (h.waiting i s p).mp hw with ⟨rfl, rfl, ht⟩ | ⟨hi, hw⟩ <;>
      rcases (h.waiting i' s' p').mp hw' with ⟨hi', rfl, ht'⟩ | ⟨hi', hw'⟩
    · exact hi'.symm
    · exact absurd (by rw [Turn.part?, ht]; exact hp) (h.part?_ne hx hi' hw' hp')
    · exact absurd (by rw [Turn.part?, ht']; exact hp') (h.part?_ne hx hi hw hp)
    · exact hx.apart i s p i' s' p' part hw hw' hp hp'
  accounted := h.accounted hx
  found i s path := h.found hx hfresh

end Steps

/-! ### moves and runs -/

theorem Sound.steps_search (hx : Sound fs looked x) (h : x.step? (.search id search) = some y) :
    Steps x id search none (.began id search) (search.start x.files) y := by
  obtain ⟨hfiles, hpart⟩ := files_start search x.files
  refine ⟨goes_search hx.orderly h, fun part => ⟨nofun, ?_⟩, fun l => ?_, fun part ht => ?_, nofun,
    fun path hpath => ?_⟩
  · rintro ⟨s, p, hw, -⟩
    exact absurd (hx.orderly.named _ (hx.orderly.began id s p hw)) (step?_search h).1
  · exact .kept nofun (by rw [hfiles])
  · rw [hpart] at ht
    cases ht
  · rcases start_cases search x.files with ⟨hfile, hstart⟩ | ⟨-, hidle⟩
    · rw [hstart] at hpath ⊢
      cases hpath
      exact ⟨rfl, hfile⟩
    · rw [hpath] at hidle
      cases hidle

theorem Sound.steps_news (hx : Sound fs looked x) (h : x.step? (.news id n) = some y) :
    ∃ search p, (id, search, p) ∈ x.waiting ∧
      Steps x id search p.part? (.heard id n) (search.next x.files p n) y := by
  obtain ⟨search, p, hw, hgoes⟩ := goes_news hx.orderly h
  have hreceiving := hx.receiving id search p
  have hpart : ∀ part, p.part? = some part → ∃ bytes, x.files.get? part = some (.file bytes) :=
    fun part hp => (hreceiving part hw hp).imp fun _ h => h.2
  have hadvance := advance_next search n hpart
  have hheard := hgoes.heard_eq rfl
  refine ⟨search, p, hw, hgoes, fun part => ⟨fun hp => ⟨search, p, hw, hp⟩, ?_⟩,
    hadvance.change hpart, fun part ht => ?_, fun part body hold hbody hend => ?_,
    fun path hend => ?_⟩
  · rintro ⟨s', p', hw', hp'⟩
    obtain ⟨-, rfl⟩ := hx.orderly.alone id search p s' p' hw hw'
    exact hp'
  · rw [hheard]
    exact hadvance.receiving (fun part hp => hreceiving part hw hp) ht
  · obtain ⟨rfl, -⟩ := hadvance.success hpart hend
    obtain ⟨body', hbody', hfile⟩ := hreceiving part hw hold
    obtain rfl : body' = body := by simpa [hbody] using hfile.symm
    rw [hheard]
    exact hbody'.complete
  · exact (hadvance.success hpart hend).2

/-- The temporary files of a run are fresh: none stands where one of its searches looks for its
artifact. -/
def FreshParts (fs : FileSystem) (ms : List Move) : Prop :=
  ∀ before after x, ms = before ++ after → Reaches { files := fs } before x →
    ∀ part ∈ x.parts, ∀ id search, .search id search ∈ ms → search.place ≠ part

theorem sound_of_reaches {ms : List Move} (h : Reaches { files := fs } ms x)
    (hfresh : FreshParts fs ms) : Sound fs (fun s => ∃ id, .search id s ∈ ms) x := by
  refine Leads.keeps h (sound_initial fs _) ?_
  rintro x m y ⟨before, after, hms, hbefore, hstep⟩ hx
  have hy : Reaches { files := fs } (before ++ [m]) y := hbefore.append (.step hstep (.refl y))
  have hparts : ∀ part ∈ y.parts, ∀ s, (∃ id, .search id s ∈ ms) → s.place ≠ part :=
    fun part hpart s ⟨id, hs⟩ =>
      hfresh (before ++ [m]) after y (by simp [hms]) hy part hpart id s hs
  cases m with
  | search id search =>
    exact (hx.steps_search hstep).sound hx ⟨id, by simp [hms]⟩ hparts
  | news id n =>
    obtain ⟨search, p, hw, hsteps⟩ := hx.steps_news hstep
    exact hsteps.sound hx (hx.within id search (hx.orderly.began id search p hw)) hparts

/-! ### atomic downloads -/

/-- What searches over files that were `fs` at first do to them, and what they come to. -/
structure Atomic (fs : FileSystem) (x : System) : Prop where
  /-- The artifact's place is as it was, or it holds a complete body; only where nothing stood and
  the way of a search leads through the place may a directory stand there. -/
  artifact : ∀ id search, .began id search ∈ x.history →
    x.files.get? search.place = fs.get? search.place ∨
      (∃ i other body, x.Stored i other body ∧ other.place = search.place ∧
        x.files.get? search.place = some (.file body)) ∨
      fs.get? search.place = none ∧ x.files.get? search.place = some .directory ∧
        ∃ i other, .began i other ∈ x.history ∧ search.place ∈ other.way
  /-- Every file elsewhere stays as it was. -/
  others : ∀ l bytes, fs.get? l = some (.file bytes) →
    (∀ id search, .began id search ∈ x.history → search.place ≠ l) →
    x.files.get? l = some (.file bytes)
  /-- Where no search waits, every file was there at first or is a complete artifact. -/
  tidy : x.waiting = [] → ∀ l bytes, x.files.get? l = some (.file bytes) →
    fs.get? l = some (.file bytes) ∨ ∃ id search, x.Stored id search bytes ∧ search.place = l
  /-- A search that has failed leaves no file of its own: every file was there at first, or another
  search collects content in it or has stored it. -/
  failed : ∀ id f, .ended id (.error f) ∈ x.history → ∀ l bytes,
    x.files.get? l = some (.file bytes) →
    fs.get? l = some (.file bytes) ∨
      (∃ i search p, i ≠ id ∧ (i, search, p) ∈ x.waiting ∧ p.part? = some l) ∨
      ∃ i search, i ≠ id ∧ x.Stored i search bytes ∧ search.place = l
  /-- After a success, a search for the same artifact ends at once with the same path, whatever the
  remote repositories are. -/
  cached : ∀ id search path, .began id search ∈ x.history → .ended id (.ok path) ∈ x.history →
    path = search.target ∧ ∀ i remotes, i ∉ x.begun →
      x.step? (.search i (search.withRemotes remotes)) = some
        { x with
          begun := i :: x.begun
          history := x.history ++
            [.began i (search.withRemotes remotes), .ended i (.ok path)] }

theorem Sound.artifact (hx : Sound fs looked x) (hbegan : .began id search ∈ x.history) :
    x.files.get? search.place = fs.get? search.place ∨
      (∃ i other body, x.Stored i other body ∧ other.place = search.place ∧
        x.files.get? search.place = some (.file body)) ∨
      fs.get? search.place = none ∧ x.files.get? search.place = some .directory ∧
        ∃ i other, .began i other ∈ x.history ∧ search.place ∈ other.way := by
  cases hx.accounted search.place with
  | initial h => exact .inl h
  | made hnone hdir hother hway => exact .inr (.inr ⟨hnone, hdir, _, _, hother, hway⟩)
  | collecting h => exact absurd rfl (hx.fresh _ h search (hx.within id search hbegan))
  | stored hs hl hbody => exact .inr (.inl ⟨_, _, _, hs, hl, hbody⟩)

theorem Sound.file_cases (hx : Sound fs looked x) (hfile : x.files.get? l = some (.file bytes)) :
    fs.get? l = some (.file bytes) ∨
      (∃ i search p, (i, search, p) ∈ x.waiting ∧ p.part? = some l) ∨
      ∃ i search, x.Stored i search bytes ∧ search.place = l := by
  cases hx.accounted l with
  | initial h => exact .inl (h.symm.trans hfile)
  | made _ hdir => simp [hdir] at hfile
  | collecting h => exact .inr (.inl (System.mem_parts.mp h))
  | @stored i search body hs hl hbody =>
    obtain rfl : body = bytes := by simpa [hbody] using hfile
    exact .inr (.inr ⟨i, search, hs, hl⟩)

theorem Sound.cached (hx : Sound fs looked x) (hbegan : .began id search ∈ x.history)
    (hended : .ended id (.ok path) ∈ x.history) (hi : i ∉ x.begun) (remotes : List String) :
    x.step? (.search i (search.withRemotes remotes)) = some
      { x with
        begun := i :: x.begun
        history := x.history ++ [.began i (search.withRemotes remotes), .ended i (.ok path)] } := by
  obtain ⟨rfl, hfile⟩ := hx.found id search path hbegan hended
  have hstart : (search.withRemotes remotes).start x.files =
      ⟨x.files, [], .ended (.ok search.target)⟩ :=
    start_of_present (s := search.withRemotes remotes) hfile
  rw [step?_search_of_not_mem _ hi, hstart]
  rfl

theorem Sound.atomic (hx : Sound fs looked x) : Atomic fs x where
  artifact id search := hx.artifact
  others l bytes hl hne := by
    cases hx.accounted l with
    | initial h => exact h.trans hl
    | made hnone => simp [hl] at hnone
    | collecting h =>
      have hnew := hx.new l h
      simp [hl] at hnew
    | stored hs hplace => exact absurd hplace (hne _ _ hs.began)
  tidy hnone l bytes hfile := by
    rcases hx.file_cases hfile with h | ⟨i, search, p, hw, -⟩ | h
    · exact .inl h
    · simp [hnone] at hw
    · exact .inr h
  failed id f hended l bytes hfile := by
    rcases hx.file_cases hfile with h | ⟨i, search, p, hw, hp⟩ | ⟨i, search, hs, hl⟩
    · exact .inl h
    · refine .inr (.inl ⟨i, search, p, ?_, hw, hp⟩)
      rintro rfl
      exact hx.orderly.unended i search p _ hw hended
    · refine .inr (.inr ⟨i, search, ?_, hs, hl⟩)
      rintro rfl
      exact hx.orderly.ends i _ f hs.ended hended
  cached id search path hbegan hended :=
    ⟨(hx.found id search path hbegan hended).1,
      fun i remotes hi => hx.cached hbegan hended hi remotes⟩

/-- However searches over the same files are interleaved, at every moment their downloads are
atomic, as long as temporary files are fresh. -/
theorem atomic_of_reaches {ms : List Move} (hfresh : FreshParts fs ms)
    (h : Reaches { files := fs } ms x) : Atomic fs x :=
  (sound_of_reaches h hfresh).atomic

/-- Whether temporary files are fresh can be read off the beginnings of the moves. -/
theorem freshParts_iff {ms : List Move} : FreshParts fs ms ↔
    ∀ k ≤ ms.length, ∀ x ∈ (ms.take k).foldlM step? { files := fs }, ∀ part ∈ x.parts,
      ∀ m ∈ ms, m.place? ≠ some part := by
  constructor
  · intro h k _ x hx part hpart m hm
    have hreach : Reaches { files := fs } (ms.take k) x := leads_iff.mpr hx
    cases m with
    | search id search =>
      intro hplace
      exact h _ _ x (List.take_append_drop k ms).symm hreach part hpart id search hm
        (Option.some.inj hplace)
    | news => simp [Move.place?]
  · rintro h before after x rfl hreach part hpart id search hm hplace
    refine h before.length (by simp) x ?_ part hpart _ hm (congrArg some hplace)
    rw [List.take_left]
    exact leads_iff.mp hreach

instance (fs : FileSystem) (ms : List Move) : Decidable (FreshParts fs ms) :=
  decidable_of_iff _ freshParts_iff.symm

/-- The coordinate of an application. -/
def application : Coordinate := ⟨"g", "app", "war", "1"⟩

/-- The search for the application in a repository beside the root. -/
def applicationSearch (remotes : List String) : Search :=
  ⟨⟨⟨.root, ["repo"]⟩, remotes⟩, application, ⟨.root, []⟩⟩

/-- Two searches for the application: the first breaks off after the second has begun to store its
content, and goes on to another remote repository. -/
def sharedRun : List Move :=
  [.search 0 (applicationSearch ["http://a", "http://b"]),
    .search 1 (applicationSearch ["http://b"]), .news 0 (.status 200), .news 0 (.chunk [1]),
    .news 1 (.status 200), .news 1 (.chunk [2]), .news 0 (.broken "reset"), .news 1 (.chunk [3]),
    .news 1 .complete]

/-- While the first search asks again, the second has put its complete body in place. -/
theorem atomic_of_sharedRun : FreshParts {} sharedRun ∧
    ∃ x, Reaches { files := {} } sharedRun x ∧ x.waiting ≠ [] ∧
      ∃ i search, x.Stored i search [2, 3] ∧ search.place = (applicationSearch []).place := by
  have hfresh : FreshParts {} sharedRun := by decide +kernel
  have hends : ((sharedRun.foldlM step? { files := {} }).any fun x =>
      !x.waiting.isEmpty &&
        x.files.get? (applicationSearch []).place == some (.file [2, 3]) &&
        x.history.any fun e =>
          match e with
          | .began 1 search => search.place == (applicationSearch []).place
          | _ => false) = true := by
    decide +kernel
  obtain ⟨x, hx, hfacts⟩ := (Option.any_eq_true ..).mp hends
  simp only [Bool.and_eq_true, Bool.not_eq_true', List.isEmpty_eq_false_iff, beq_iff_eq,
    List.any_eq_true] at hfacts
  obtain ⟨⟨hwaiting, hfile⟩, e, he, hbegan⟩ := hfacts
  split at hbegan
  · rename_i search
    have hplace : search.place = (applicationSearch []).place := eq_of_beq hbegan
    have hreach : Reaches { files := {} } sharedRun x := leads_iff.mpr hx
    have hatomic := atomic_of_reaches hfresh hreach
    rcases hatomic.artifact 1 search he with h | ⟨i, other, body, hs, hother, hbody⟩ | ⟨-, h, -⟩
    · rw [hplace, hfile] at h
      cases h
    · rw [hplace, hfile] at hbody
      cases hbody
      exact ⟨hfresh, x, hreach, hwaiting, i, other, hs, hother.trans hplace⟩
    · rw [hplace, hfile] at h
      cases h
  · cases hbegan

/-- A coordinate whose double dots lead through the place of its own artifact. -/
def windingSearch : Search :=
  ⟨⟨⟨.root, ["repo"]⟩, ["http://m/r"]⟩, ⟨"g", "a", "zip/N/../N", "1"⟩, ⟨.root, []⟩⟩

/-- The only search is answered with a complete body. -/
def windingRun : List Move :=
  [.search 0 windingSearch, .news 0 (.status 200), .news 0 (.chunk [98]), .news 0 .complete]

/-- At the end of the run, a directory stands in the artifact's place, where nothing was: neither
what was there at first, nor a file. -/
theorem artifact_neither_initial_nor_body : FreshParts {} windingRun ∧
    ∃ x, Reaches { files := {} } windingRun x ∧
      ¬ (x.files.get? windingSearch.place = ({} : FileSystem).get? windingSearch.place ∨
        ∃ body, x.files.get? windingSearch.place = some (.file body)) := by
  have hfresh : FreshParts {} windingRun := by decide +kernel
  have hends : ((windingRun.foldlM step? { files := {} }).any fun x =>
      x.files.get? windingSearch.place == some .directory) = true := by
    decide +kernel
  have hnothing : ({} : FileSystem).get? windingSearch.place = none := by decide +kernel
  obtain ⟨x, hx, hdirectory⟩ := (Option.any_eq_true ..).mp hends
  refine ⟨hfresh, x, leads_iff.mpr hx, ?_⟩
  rw [eq_of_beq hdirectory, hnothing]
  simp

end System

end ServerRun.Repository
