import ServerRun.Proofs.Model.Coordinate
import ServerRun.Proofs.Repository.Turn

/-! What a search comes to, from what its remote repositories do when they are asked. A local file
is taken as it is. Otherwise the remote repositories are asked in their order, up to the first that
delivers a complete body which can be put in place; each that does not leaves the files as good as
they were and adds one reason to the failure of the search. Two errors escape a search: the
system's, where it does not say whether the local file is there, and that of a path with a NUL in
it, where content is to be stored. -/

namespace ServerRun.Repository

open FileSystem

/-! ### what remote repositories do -/

/-- How the content of an answer ends. -/
inductive Ending where
  | complete
  | broken (message : String)
  /-- A piece, or the end, cannot be written. -/
  | unwritable
deriving DecidableEq, Repr

def Ending.news : Ending → News
  | .complete => .complete
  | .broken m => .broken m
  | .unwritable => .unwritable

/-- What a remote repository does when it is asked. -/
inductive Behaviour where
  /-- It gives no answer, or its address is rejected; the failure may have a text of its own. -/
  | refused (message : Option String)
  /-- It answers with success, but the local file cannot be made. -/
  | unwritable
  | answered (code : Nat) (chunks : List (List UInt8)) (ending : Ending)
deriving DecidableEq, Repr

namespace Behaviour

/-- What a search hears of it. -/
def news : Behaviour → List News
  | .refused (some m) => [.refused (.told m)]
  | .refused none => [.refused .untold]
  | .unwritable => [.unwritable]
  | .answered code chunks ending =>
    if 200 ≤ code ∧ code < 300 then .status code :: chunks.map .chunk ++ [ending.news]
    else [.status code]

end Behaviour

/-- What comes of asking a remote repository. -/
inductive Verdict where
  /-- It delivers a complete body, which is put in place. -/
  | supplies (body : List UInt8)
  /-- It does not, with a text of what is wrong. -/
  | fails (reason : String)
  /-- The search ends with an error that is none of the system. -/
  | raises (error : FileError)
deriving DecidableEq, Repr

namespace Verdict

/-- What comes of an error where the local file is made or put in place. -/
def ofError (e : FileError) : Verdict := if e.isSystem then .fails detailText else .raises e

def reason? : Verdict → Option String
  | .fails m => some m
  | .supplies _ | .raises _ => none

theorem eq_of_ofError {e g : FileError} (h : ofError g = .raises e) :
    g = e ∧ e.isSystem = false := by
  unfold ofError at h
  split at h <;> cases h
  rename_i he
  exact ⟨rfl, by simpa using he⟩

end Verdict

namespace Search

/-- A search that waits hears what comes of its request. -/
def hear (s : Search) (t : Turn) (ns : List News) : Turn :=
  match t.progress with
  | .ended _ => t
  | .waiting p =>
    let u := hearAll s t.files p ns
    { u with effects := t.effects ++ u.effects }

/-- A search over given files that hears, in order, what comes of its requests. -/
def resolve (s : Search) (files : FileSystem) (answers : List (List News)) : Turn :=
  answers.foldl s.hear (s.start files)

/-- What comes of content that is complete: it takes the artifact's place, where no directory
stands. -/
def placing (s : Search) (made : FileSystem) (body : List UInt8) : Verdict :=
  match made.locate s.cwd s.target with
  | .error e => .ofError e
  | .ok place => if made.isDirectory place then .fails detailText else .supplies body

/-- What comes of content whose end is known, once the directory of the artifact is made. -/
def storing (s : Search) (made : FileSystem) (body : List UInt8) : Ending → Verdict
  | .complete => s.placing made body
  | .broken m => .fails m
  | .unwritable => .fails detailText

/-- What comes of making the directory of the artifact, and of what follows. -/
def making (s : Search) (files : FileSystem) (next : FileSystem → Verdict) : Verdict :=
  match files.makeOpen s.cwd s.target.parent with
  | (_, .error e) => .ofError e
  | (made, .ok _) => next made

/-- What comes of asking a remote repository over given files. -/
def verdict (s : Search) (files : FileSystem) : Behaviour → Verdict
  | .refused m => .fails (m.getD detailText)
  | .unwritable => s.making files fun _ => .fails detailText
  | .answered code chunks ending =>
    if code = 404 then .fails "not found"
    else if 200 ≤ code ∧ code < 300 then
      s.making files fun made => s.storing made chunks.flatten ending
    else .fails (statusText code)

end Search

theorem verdict_answered (s : Search) (files : FileSystem) (code : Nat)
    (chunks : List (List UInt8)) (ending : Ending) :
    s.verdict files (.answered code chunks ending) =
      if code = 404 then .fails "not found"
      else if 200 ≤ code ∧ code < 300 then
        s.making files fun made => s.storing made chunks.flatten ending
      else .fails (Search.statusText code) := rfl

/-- The address that is asked, if one is. -/
def Effect.fetch? : Effect → Option String
  | .fetch url => some url
  | .log _ => none

/-- The addresses that are asked, in order. -/
def Turn.fetches (t : Turn) : List String := t.effects.filterMap Effect.fetch?

/-! ### files that are as good as others -/

variable {s : Search} {files gs made : FileSystem} {part : List String} {written : List UInt8}
  {remote m : String} {rest failures : List String} {p : Point} {n : News} {ns : List News}
  {effects : List Effect} {b : Behaviour} {bytes body : List UInt8} {e : FileError} {t : Turn}

/-- Making the directory of the artifact comes to the same over two file systems. -/
structure AsGood (s : Search) (gs files : FileSystem) : Prop where
  result : (gs.makeOpen s.cwd s.target.parent).2 = (files.makeOpen s.cwd s.target.parent).2
  made : Alike (gs.makeOpen s.cwd s.target.parent).1 (files.makeOpen s.cwd s.target.parent).1

theorem AsGood.refl (s : Search) (files : FileSystem) : AsGood s files files :=
  ⟨rfl, .refl _⟩

theorem AsGood.trans {hs : FileSystem} (h : AsGood s hs gs) (hg : AsGood s gs files) :
    AsGood s hs files := ⟨h.result.trans hg.result, h.made.trans hg.made⟩

theorem AsGood.of_made (h : Alike gs (files.makeOpen s.cwd s.target.parent).1) :
    AsGood s gs files := by
  obtain ⟨hmade, hresult⟩ := h.makeOpen s.cwd s.target.parent
  rw [makeOpen_again] at hmade hresult
  exact ⟨hresult, hmade⟩

theorem placing_of_alike (h : Alike gs files) (body : List UInt8) :
    s.placing gs body = s.placing files body := by
  rw [Search.placing, Search.placing, h.locate]
  split
  · rfl
  · rw [isDirectory, isDirectory, h]

theorem AsGood.making {next : FileSystem → Verdict} (h : AsGood s gs files)
    (hnext : ∀ {fs fs'}, Alike fs fs' → next fs = next fs') :
    s.making gs next = s.making files next := by
  have hresult := h.result
  have hmade := h.made
  rw [Search.making, Search.making]
  rcases hgs : gs.makeOpen s.cwd s.target.parent with ⟨made, e | l⟩ <;>
    rcases hfiles : files.makeOpen s.cwd s.target.parent with ⟨made', e' | l'⟩ <;>
    rw [hgs, hfiles] at hresult hmade <;> cases hresult
  · rfl
  · exact hnext hmade

/-- The same comes of a remote repository over files that are as good. -/
theorem AsGood.verdict (h : AsGood s gs files) (b : Behaviour) :
    s.verdict gs b = s.verdict files b := by
  cases b with
  | refused m => rfl
  | unwritable =>
    rw [Search.verdict, Search.verdict]
    exact h.making fun _ => rfl
  | answered code chunks ending =>
    have hstoring : s.making gs (s.storing · chunks.flatten ending) =
        s.making files (s.storing · chunks.flatten ending) := by
      refine h.making fun hfs => ?_
      cases ending with
      | complete => exact placing_of_alike hfs _
      | broken | unwritable => rfl
    rw [verdict_answered, verdict_answered, hstoring]

/-! ### a file that collects content -/

/-- A file at a location of its own holds what was written, beside given files. -/
structure Collects (made : FileSystem) (part : List String) (written : List UInt8)
    (files : FileSystem) : Prop where
  fresh : made.get? part = none
  content : files.get? part = some (.file written)
  elsewhere : ∀ l, l ≠ part → files.get? l = made.get? l

theorem Collects.put (hfresh : made.get? part = none) :
    Collects made part [] (made.put part (.file [])) := by
  have hput := get?_put made (ne_nil_of_not_directory (by rw [hfresh]; simp)) (.file []) (l := part)
  exact ⟨hfresh, by rw [hput, if_pos rfl], fun l hl => by rw [hput, if_neg hl]⟩

theorem Collects.extend (h : Collects made part written files) (bytes : List UInt8) :
    Collects made part (written ++ bytes) (files.extendFile part bytes) := by
  have hextend := get?_extendFile h.content bytes
  exact ⟨h.fresh, by rw [hextend, if_pos rfl],
    fun l hl => by rw [hextend, if_neg hl, h.elsewhere l hl]⟩

theorem Collects.alike_erase (h : Collects made part written files) :
    Alike (files.erase part) made := by
  intro l
  rw [get?_erase files (ne_nil_of_not_directory (by rw [h.content]; simp))]
  split
  · rename_i hl
    rw [hl, h.fresh]
  · rename_i hl
    exact h.elsewhere l hl

theorem Collects.keepsDirectories (h : Collects made part written files) :
    KeepsDirectories made files := by
  intro l hl
  rw [h.elsewhere l fun he => ?_, hl]
  rw [he, h.fresh] at hl
  cases hl

/-! ### hearing of one request -/

/-- Where a search goes on to the next remote repository or gives up, the rest of the news is not
heard. -/
theorem hearAll_of_tryNext (h : s.next files p n = s.tryNext gs effects failures rest) :
    hearAll s files p (n :: ns) = s.tryNext gs effects failures rest := by
  rw [hearAll, h]
  cases rest with
  | nil => rfl
  | cons remote rest =>
    have hsome : (effects ++ [Effect.log ⟨.info, "Downloading artifact",
        [("coordinate", .str s.coordinate.toString),
          ("url", .str (remoteUrl remote s.coordinate))]⟩,
        .fetch (remoteUrl remote s.coordinate)]).isEmpty = false := by simp
    simp only [Search.tryNext, hsome, Bool.false_eq_true, if_false]

theorem hearAll_of_ended {r : Except Failure Path} (h : s.next files p n = t)
    (ht : t.progress = .ended r) : hearAll s files p (n :: ns) = t := by
  rw [hearAll, h]
  simp only [ht]

/-- What a search has come to when it has heard of a request, by what comes of the remote
repository. -/
inductive Heard (s : Search) (files : FileSystem) (remote : String) (rest failures : List String) :
    Verdict → Turn → Prop
  /-- The files are as good as they were, and the fault is noted. -/
  | fails {gs : FileSystem} {logs : List Effect} {m : String} (good : AsGood s gs files)
      (hlogs : logs.filterMap Effect.fetch? = []) :
      Heard s files remote rest failures (.fails m)
        (s.tryNext gs logs (failures ++ [remote ++ ": " ++ m]) rest)
  /-- The search has ended with the body in place. -/
  | supplies {gs : FileSystem} {record : Log.Record} {body : List UInt8}
      (hbytes : gs.fileBytes s.cwd s.target = .ok body) :
      Heard s files remote rest failures (.supplies body)
        ⟨gs, [.log record], .ended (.ok s.target)⟩
  | raises {gs : FileSystem} {e : FileError} :
      Heard s files remote rest failures (.raises e) ⟨gs, [], .ended (.error (.file e))⟩

theorem Heard.of_failed (h : s.next gs p n = s.failed made remote rest failures m)
    (hmade : AsGood s made files) :
    Heard s files remote rest failures (.fails m) (hearAll s gs p (n :: ns)) := by
  rw [hearAll_of_tryNext h]
  exact .fails hmade rfl

theorem Heard.of_unstored (h : s.next gs p n = s.unstored made remote rest failures e)
    (hmade : AsGood s made files) :
    Heard s files remote rest failures (.ofError e) (hearAll s gs p (n :: ns)) := by
  unfold Search.unstored at h
  unfold Verdict.ofError
  split at h <;> rename_i he
  · rw [if_pos he]
    rw [hearAll_of_tryNext h]
    exact .fails hmade rfl
  · rw [if_neg he, hearAll_of_ended h rfl]
    exact .raises

theorem Heard.of_asGood {v : Verdict} (h : Heard s gs remote rest failures v t)
    (hgood : AsGood s gs files) : Heard s files remote rest failures v t := by
  cases h with
  | fails good hlogs => exact .fails (good.trans hgood) hlogs
  | supplies hbytes => exact .supplies hbytes
  | raises => exact .raises

section

variable (remote : String) (rest failures : List String) (ns : List News)

theorem hearAll_chunks (h : Collects made part written files) (chunks : List (List UInt8)) :
    ∃ gs, Collects made part (written ++ chunks.flatten) gs ∧
      hearAll s files (.storing part remote rest failures) (chunks.map .chunk ++ ns) =
        hearAll s gs (.storing part remote rest failures) ns := by
  induction chunks generalizing files written with
  | nil => exact ⟨files, by simpa using h, rfl⟩
  | cons bytes chunks ih =>
    obtain ⟨gs, hgs, hhear⟩ := ih (h.extend bytes)
    exact ⟨gs, by simpa using hgs, hhear⟩

theorem hearAll_success {code : Nat} (hcode : 200 ≤ code ∧ code < 300) {directory : List String}
    (hmade : files.makeOpen s.cwd s.target.parent = (made, .ok directory))
    (chunks : List (List UInt8)) :
    ∃ part gs, Collects made part chunks.flatten gs ∧
      hearAll s files (.asking remote rest failures)
          (.status code :: (chunks.map .chunk ++ ns)) =
        hearAll s gs (.storing part remote rest failures) ns := by
  have hfresh := get?_freshName made directory s.target.name
  obtain ⟨gs, hgs, hhear⟩ := hearAll_chunks remote rest failures ns (.put hfresh) chunks
  refine ⟨_, gs, hgs, hhear ▸ ?_⟩
  have h404 : code ≠ 404 := by omega
  rw [hearAll, next_status, if_neg h404, if_pos hcode, hmade]
  rfl

/-- What comes of content that is complete comes of putting it in place. -/
theorem heard_complete {directory : List String}
    (hmade : files.makeOpen s.cwd s.target.parent = (made, .ok directory))
    (hc : Collects made part body gs) :
    Heard s files remote rest failures (s.placing made body)
      (hearAll s gs (.storing part remote rest failures) [.complete]) := by
  have hgood : AsGood s (gs.erase part) files :=
    .of_made (by rw [hmade]; exact hc.alike_erase)
  have hnext : s.next gs (.storing part remote rest failures) .complete =
      s.store gs part remote rest failures := rfl
  have hlocate := locate_of_makeOpen_parent hmade hc.keepsDirectories
  rw [Search.placing]
  cases hplace : made.locate s.cwd s.target with
  | error e =>
    have hstore : s.store gs part remote rest failures =
        s.unstored (gs.erase part) remote rest failures e := by
      simp only [Search.store, hlocate, hplace]
    exact .of_unstored (hnext.trans hstore) hgood
  | ok place =>
    have hsame : gs.isDirectory place = made.isDirectory place := by
      by_cases hpart : place = part
      · rw [hpart, isDirectory, isDirectory, hc.content, hc.fresh]
        rfl
      · rw [isDirectory, isDirectory, hc.elsewhere place hpart]
    dsimp only
    cases hd : made.isDirectory place with
    | true =>
      have hstore : s.store gs part remote rest failures =
          s.failed (gs.erase part) remote rest failures detailText := by
        simp only [Search.store, hlocate, hplace, hsame, hd, if_true]
      exact .of_failed (hnext.trans hstore) hgood
    | false =>
      have hfree : (gs.erase part).get? place ≠ some .directory :=
        (hc.alike_erase place).symm ▸ ne_directory_of_isDirectory hd
      have hstore : s.store gs part remote rest failures =
          ⟨(gs.erase part).put place (.file body),
            [.log ⟨.info, "Artifact downloaded", [("path", .str s.target.toString)]⟩],
            .ended (.ok s.target)⟩ := by
        simp only [Search.store, hlocate, hplace, hsame, hd, hc.content, Bool.false_eq_true,
          if_false]
      have hkeep : KeepsDirectories made ((gs.erase part).put place (.file body)) :=
        KeepsDirectories.trans (fun l hl => (hc.alike_erase l).trans hl)
          (keepsDirectories_put hfree _)
      rw [hearAll_of_ended (hnext.trans hstore) rfl]
      refine .supplies ?_
      rw [fileBytes, hkeep.locate hplace]
      simp only [get?_put _ (ne_nil_of_not_directory hfree), if_true]

/-- What comes of content whose end is heard. -/
theorem heard_ending {directory : List String}
    (hmade : files.makeOpen s.cwd s.target.parent = (made, .ok directory))
    (hc : Collects made part body gs) (ending : Ending) :
    Heard s files remote rest failures (s.storing made body ending)
      (hearAll s gs (.storing part remote rest failures) [ending.news]) := by
  have hgood : AsGood s (gs.erase part) files :=
    .of_made (by rw [hmade]; exact hc.alike_erase)
  cases ending with
  | complete => exact heard_complete remote rest failures hmade hc
  | broken m => exact .of_failed rfl hgood
  | unwritable => exact .of_failed rfl hgood

/-- A search that has heard of a request has come to what comes of the remote repository. -/
theorem heard_news (s : Search) (files : FileSystem) (b : Behaviour) :
    Heard s files remote rest failures (s.verdict files b)
      (hearAll s files (.asking remote rest failures) b.news) := by
  have hself := AsGood.refl s files
  have hmade {made result} (h : files.makeOpen s.cwd s.target.parent = (made, result)) :
      AsGood s made files := .of_made (by rw [h]; exact .refl made)
  rcases b with (_ | m) | _ | ⟨code, chunks, ending⟩
  · exact .of_failed rfl hself
  · exact .of_failed rfl hself
  · rw [Search.verdict, Search.making]
    have hnext := next_unwritable s files remote rest failures
    rcases h : files.makeOpen s.cwd s.target.parent with ⟨made, e | directory⟩ <;> rw [h] at hnext
    · exact .of_unstored hnext (hmade h)
    · exact .of_failed hnext (hmade h)
  · have hnext := next_status s files remote rest failures code
    rw [verdict_answered]
    by_cases h404 : code = 404
    · subst h404
      rw [if_pos rfl] at hnext ⊢
      refine (hearAll_of_tryNext hnext).symm ▸ ?_
      have htext : remote ++ ": not found" = remote ++ ": " ++ "not found" := by
        rw [String.append_assoc]
        rfl
      rw [htext]
      exact .fails hself rfl
    rw [if_neg h404] at hnext ⊢
    by_cases hcode : 200 ≤ code ∧ code < 300
    · have hnews : (Behaviour.answered code chunks ending).news =
          .status code :: (chunks.map .chunk ++ [ending.news]) := if_pos hcode
      rw [if_pos hcode] at hnext ⊢
      rw [hnews, Search.making]
      rcases h : files.makeOpen s.cwd s.target.parent with ⟨made, e | directory⟩
      · rw [h] at hnext
        exact .of_unstored hnext (hmade h)
      · obtain ⟨part, gs, hgs, hhear⟩ :=
          hearAll_success remote rest failures [ending.news] hcode h chunks
        rw [hhear]
        exact heard_ending remote rest failures h hgs ending
    · have hnews : (Behaviour.answered code chunks ending).news = [.status code] := if_neg hcode
      rw [if_neg hcode] at hnext ⊢
      rw [hnews]
      exact .of_failed hnext hself

end

/-! ### hearing of all requests -/

theorem foldl_hear_of_ended {t : Turn} {r : Except Failure Path} (h : t.progress = .ended r)
    (answers : List (List News)) : answers.foldl s.hear t = t := by
  induction answers with
  | nil => rfl
  | cons ns answers ih =>
    have hhear : s.hear t ns = t := by rw [Search.hear, h]
    rw [List.foldl_cons, hhear, ih]

/-- The search for an artifact in a repository with given remote ones. -/
def Search.among (root cwd : Path) (coordinate : Coordinate)
    (remotes : List (String × Behaviour)) : Search :=
  ⟨⟨root, remotes.map (·.1)⟩, coordinate, cwd⟩

/-- The reason why remote repositories do not supply the artifact: one fault each, in order. -/
def Search.reason (s : Search) (files : FileSystem) (remotes : List (String × Behaviour)) :
    String :=
  String.intercalate "; "
    (remotes.map fun r => r.1 ++ ": " ++ ((s.verdict files r.2).reason?.getD ""))

def Search.url (s : Search) (remote : String) : String := remoteUrl remote s.coordinate

variable {remotes before after : List (String × Behaviour)} {r : String × Behaviour}

theorem fetches_tryNext (s : Search) (gs : FileSystem) (effects : List Effect)
    (failures : List String) (remote : String) (rest : List String) :
    (s.tryNext gs effects failures (remote :: rest)).fetches =
      effects.filterMap Effect.fetch? ++ [s.url remote] := by
  rw [Turn.fetches, Search.tryNext, List.filterMap_append]
  rfl

theorem hear_tryNext (s : Search) (gs : FileSystem) (effects : List Effect)
    (failures : List String) (remote : String) (rest : List String) (ns : List News) :
    s.hear (s.tryNext gs effects failures (remote :: rest)) ns =
      { hearAll s gs (.asking remote rest failures) ns with
        effects := (s.tryNext gs effects failures (remote :: rest)).effects ++
          (hearAll s gs (.asking remote rest failures) ns).effects } := rfl

theorem tryNext_effects (s : Search) (gs : FileSystem) (earlier effects : List Effect)
    (failures rest : List String) :
    { s.tryNext gs effects failures rest with
        effects := earlier ++ (s.tryNext gs effects failures rest).effects } =
      s.tryNext gs (earlier ++ effects) failures rest := by
  cases rest <;> simp [Search.tryNext]

/-- Each of some remote repositories fails. -/
def Search.AllFail (s : Search) (files : FileSystem) (remotes : List (String × Behaviour)) : Prop :=
  ∀ r ∈ remotes, ∃ m, s.verdict files r.2 = .fails m

/-- One remote repository after the other is passed over; the faults and the addresses add up, and
the files stay as good as they were at first. -/
theorem foldl_hear_of_allFail (effects : List Effect) (failures : List String)
    (hgood : AsGood s gs files) (hbefore : s.AllFail files before) (after : List String) :
    ∃ hs logs, AsGood s hs files ∧
      logs.filterMap Effect.fetch? =
        effects.filterMap Effect.fetch? ++ before.map (s.url ·.1) ∧
      (before.map (·.2.news)).foldl s.hear
          (s.tryNext gs effects failures (before.map (·.1) ++ after)) =
        s.tryNext hs logs
          (failures ++ before.map fun q =>
            q.1 ++ ": " ++ ((s.verdict files q.2).reason?.getD "")) after := by
  induction before generalizing gs effects failures with
  | nil => exact ⟨gs, effects, hgood, by simp, by simp⟩
  | cons q before ih =>
    obtain ⟨m, hm⟩ := hbefore q List.mem_cons_self
    have hheard := heard_news q.1 (before.map (·.1) ++ after) failures s gs q.2
    rw [hgood.verdict, hm] at hheard
    generalize hhear : hearAll s gs (.asking q.1 (before.map (·.1) ++ after) failures) q.2.news = u
      at hheard
    obtain @⟨hs, logs, m, hhs, hlogs⟩ := hheard
    obtain ⟨ks, more, hks, hmore, hrest⟩ := ih
      ((s.tryNext gs effects failures (q.1 :: (before.map (·.1) ++ after))).effects ++ logs)
      (failures ++ [q.1 ++ ": " ++ m]) (hhs.trans hgood)
      fun q' hq' => hbefore q' (List.mem_cons_of_mem _ hq')
    refine ⟨ks, more, hks, ?_, ?_⟩
    · have hfetch := fetches_tryNext s gs effects failures q.1 (before.map (·.1) ++ after)
      rw [Turn.fetches] at hfetch
      rw [hmore, List.filterMap_append, hfetch, hlogs]
      simp
    · rw [List.map_cons, List.map_cons, List.foldl_cons, List.cons_append, hear_tryNext, hhear,
        tryNext_effects, hrest]
      simp [hm, Verdict.reason?]

/-- What a search is to come to, from what its remote repositories do. -/
structure Resolves (s : Search) (files : FileSystem) (remotes : List (String × Behaviour))
    (t : Turn) : Prop where
  /-- A local file is returned with no request and no change. -/
  found : files.pathIsFile s.cwd s.target = .ok true → t = ⟨files, [], .ended (.ok s.target)⟩
  unconfigured : files.pathIsFile s.cwd s.target ≠ .ok true → remotes = [] →
    t = ⟨files, [], .ended (.error s.unconfigured)⟩
  /-- The remote repositories are asked in order up to the first that supplies the artifact, and
  the path that is returned holds exactly its body. -/
  supplied : files.pathIsFile s.cwd s.target ≠ .ok true → ∀ before r after body,
    remotes = before ++ r :: after →
    (∀ q ∈ before, ∀ other, s.verdict files q.2 ≠ .supplies other) →
    s.verdict files r.2 = .supplies body →
    t.fetches = (before ++ [r]).map (s.url ·.1) ∧ t.progress = .ended (.ok s.target) ∧
      t.files.fileBytes s.cwd s.target = .ok body
  /-- If none supplies it, all are asked in order, and the failure has one reason for each. -/
  exhausted : files.pathIsFile s.cwd s.target ≠ .ok true → remotes ≠ [] →
    (∀ r ∈ remotes, ∀ body, s.verdict files r.2 ≠ .supplies body) →
    t.fetches = remotes.map (s.url ·.1) ∧
      t.progress = .ended (.error (.run (.resolution s.coordinate.toString
        (s.reason files remotes))))
  /-- Nothing else is raised. -/
  ends : t.progress = .ended (.ok s.target) ∨
    ∃ reason, t.progress =
      .ended (.error (.run (.resolution s.coordinate.toString reason)))

/-- The errors that escape a search. -/
inductive Escapes (s : Search) (files : FileSystem) (remotes : List (String × Behaviour)) :
    FileError → Prop
  /-- The system does not say whether the local file is there. -/
  | look {e : FileError} (h : files.pathIsFile s.cwd s.target = .error e) :
      Escapes s files remotes e
  /-- Of the first remote repository that does not fail comes an error. -/
  | store {before after : List (String × Behaviour)} {r : String × Behaviour} {e : FileError}
      (hfile : files.pathIsFile s.cwd s.target = .ok false)
      (hremotes : remotes = before ++ r :: after) (hbefore : s.AllFail files before)
      (h : s.verdict files r.2 = .raises e) : Escapes s files remotes e

theorem start_of_absent (hfile : files.pathIsFile s.cwd s.target = .ok false)
    (hne : s.repository.remotes ≠ []) :
    s.start files = s.tryNext files [] [] s.repository.remotes := by
  simp only [Search.start, hfile, if_neg hne]

/-- The first remote repository that does not fail ends the search with what comes of it. -/
theorem foldl_hear_of_first (hbefore : s.AllFail files before) (after : List String)
    (hr : (s.verdict files r.2).reason? = none) (answers : List (List News)) :
    ∃ failures effects u, Heard s files r.1 after failures (s.verdict files r.2) u ∧
      (before.map (·.2.news) ++ r.2.news :: answers).foldl s.hear
          (s.tryNext files [] [] (before.map (·.1) ++ r.1 :: after)) =
        { u with effects := effects ++ u.effects } ∧
      effects.filterMap Effect.fetch? = (before ++ [r]).map (s.url ·.1) := by
  obtain ⟨gs, logs, hgs, hlogs, hpassed⟩ :=
    foldl_hear_of_allFail [] [] (.refl s files) hbefore (r.1 :: after)
  generalize [] ++ before.map
    (fun q => q.1 ++ ": " ++ ((s.verdict files q.2).reason?.getD "")) = failures at hpassed
  have hheard := heard_news r.1 after failures s gs r.2
  rw [hgs.verdict] at hheard
  have hended : ∃ result, (hearAll s gs (.asking r.1 after failures) r.2.news).progress =
      .ended result := by
    generalize hearAll s gs (.asking r.1 after failures) r.2.news = u at hheard
    generalize s.verdict files r.2 = v at hheard hr
    cases hheard with
    | fails => cases hr
    | supplies | raises => exact ⟨_, rfl⟩
  obtain ⟨result, hended⟩ := hended
  have hfetch := fetches_tryNext s gs logs failures r.1 after
  rw [Turn.fetches] at hfetch
  refine ⟨failures, (s.tryNext gs logs failures (r.1 :: after)).effects, _,
    hheard.of_asGood hgs, ?_, ?_⟩
  · have hrest {u : Turn} (hu : u.progress = .ended result) : answers.foldl s.hear u = u :=
      foldl_hear_of_ended hu answers
    rw [List.foldl_append, hpassed, List.foldl_cons, hear_tryNext]
    exact hrest hended
  · rw [hfetch, hlogs]
    simp

/-- The first remote repository that supplies the artifact ends the search. -/
theorem foldl_hear_of_supplies (hbefore : s.AllFail files before)
    (hr : s.verdict files r.2 = .supplies body) (after : List String)
    (answers : List (List News)) :
    ∃ gs effects,
      (before.map (·.2.news) ++ r.2.news :: answers).foldl s.hear
          (s.tryNext files [] [] (before.map (·.1) ++ r.1 :: after)) =
        ⟨gs, effects, .ended (.ok s.target)⟩ ∧
      effects.filterMap Effect.fetch? = (before ++ [r]).map (s.url ·.1) ∧
      gs.fileBytes s.cwd s.target = .ok body := by
  obtain ⟨failures, effects, u, hheard, hhear, hfetch⟩ :=
    foldl_hear_of_first hbefore after (by rw [hr]; rfl) answers
  rw [hr] at hheard
  cases hheard with
  | @supplies gs record _ hbytes =>
    refine ⟨gs, effects ++ [.log record], hhear, ?_, hbytes⟩
    rw [List.filterMap_append, hfetch]
    simp [Effect.fetch?]

theorem resolve_of_present (hfile : files.pathIsFile s.cwd s.target = .ok true)
    (answers : List (List News)) :
    s.resolve files answers = ⟨files, [], .ended (.ok s.target)⟩ := by
  rw [Search.resolve, start_of_present hfile, foldl_hear_of_ended rfl]

theorem resolve_of_no_remotes (hfile : files.pathIsFile s.cwd s.target = .ok false)
    (hnone : s.repository.remotes = []) (answers : List (List News)) :
    s.resolve files answers = ⟨files, [], .ended (.error s.unconfigured)⟩ := by
  have hstart : s.start files = ⟨files, [], .ended (.error s.unconfigured)⟩ := by
    simp only [Search.start, hfile, hnone, if_true]
  rw [Search.resolve, hstart, foldl_hear_of_ended rfl]

theorem resolve_of_supplies (hfile : files.pathIsFile s.cwd s.target = .ok false)
    (hremotes : s.repository.remotes = (before ++ r :: after).map (·.1))
    (hbefore : s.AllFail files before) (hr : s.verdict files r.2 = .supplies body) :
    (s.resolve files ((before ++ r :: after).map (·.2.news))).fetches =
        (before ++ [r]).map (s.url ·.1) ∧
      (s.resolve files ((before ++ r :: after).map (·.2.news))).progress = .ended (.ok s.target) ∧
      (s.resolve files ((before ++ r :: after).map (·.2.news))).files.fileBytes s.cwd s.target =
        .ok body := by
  obtain ⟨gs, effects, hturn, hfetch, hbytes⟩ := foldl_hear_of_supplies hbefore hr
    (after.map (·.1)) (after.map (·.2.news))
  have hstart := start_of_absent hfile (by simp [hremotes])
  rw [Search.resolve, hstart, hremotes]
  rw [List.map_append, List.map_cons, List.map_append, List.map_cons, hturn]
  exact ⟨hfetch, rfl, hbytes⟩

theorem resolve_of_allFail (hfile : files.pathIsFile s.cwd s.target = .ok false)
    (hremotes : s.repository.remotes = remotes.map (·.1)) (hne : remotes ≠ [])
    (hall : s.AllFail files remotes) :
    (s.resolve files (remotes.map (·.2.news))).fetches = remotes.map (s.url ·.1) ∧
      (s.resolve files (remotes.map (·.2.news))).progress =
        .ended (.error (.run (.resolution s.coordinate.toString (s.reason files remotes)))) := by
  obtain ⟨gs, logs, -, hlogs, hpassed⟩ :=
    foldl_hear_of_allFail [] [] (.refl s files) hall []
  rw [List.append_nil] at hpassed
  have hstart := start_of_absent hfile (by simpa [hremotes] using hne)
  rw [Search.resolve, hstart, hremotes, hpassed]
  exact ⟨hlogs, rfl⟩

/-- A search comes to the error that escapes it. -/
theorem Escapes.progress (h : Escapes s files remotes e)
    (hremotes : s.repository.remotes = remotes.map (·.1)) :
    (s.resolve files (remotes.map (·.2.news))).progress = .ended (.error (.file e)) := by
  cases h with
  | look h =>
    have hstart : s.start files = ⟨files, [], .ended (.error (.file e))⟩ := by
      simp only [Search.start, h]
    rw [Search.resolve, hstart, foldl_hear_of_ended rfl]
  | @store before after r _ hfile heq hbefore h =>
    subst heq
    obtain ⟨failures, effects, u, hheard, hhear, -⟩ :=
      foldl_hear_of_first hbefore (after.map (·.1)) (by rw [h]; rfl) (after.map (·.2.news))
    rw [h] at hheard
    cases hheard
    have hstart := start_of_absent hfile (by simp [hremotes])
    rw [Search.resolve, hstart, hremotes]
    rw [List.map_append, List.map_cons, List.map_append, List.map_cons, hhear]

/-- Where no error escapes, remote repositories that do not supply the artifact all fail. -/
theorem allFail_of_not_escapes (passed : List (String × Behaviour))
    (hfile : files.pathIsFile s.cwd s.target = .ok false)
    (hnone : ¬ ∃ e, Escapes s files (passed ++ (before ++ after)) e)
    (hpassed : s.AllFail files passed)
    (hbefore : ∀ q ∈ before, ∀ body, s.verdict files q.2 ≠ .supplies body) :
    s.AllFail files before := by
  induction before generalizing passed with
  | nil => exact nofun
  | cons q before ih =>
    rw [List.forall_mem_cons] at hbefore
    cases hv : s.verdict files q.2 with
    | supplies body => exact absurd hv (hbefore.1 body)
    | raises e => exact absurd ⟨e, .store hfile rfl hpassed hv⟩ hnone
    | fails m =>
      have hq : s.AllFail files [q] := List.forall_mem_singleton.mpr ⟨m, hv⟩
      have hall : s.AllFail files (passed ++ [q]) := List.forall_mem_append.mpr ⟨hpassed, hq⟩
      rw [List.cons_append, ← List.singleton_append, ← List.append_assoc] at hnone
      exact List.forall_mem_cons.mpr ⟨⟨m, hv⟩, ih _ hnone hall hbefore.2⟩

theorem exists_first_supplies
    (h : ∃ r ∈ remotes, ∃ body, s.verdict files r.2 = .supplies body) :
    ∃ before r after body, remotes = before ++ r :: after ∧
      (∀ q ∈ before, ∀ other, s.verdict files q.2 ≠ .supplies other) ∧
      s.verdict files r.2 = .supplies body := by
  induction remotes with
  | nil => simp at h
  | cons q remotes ih =>
    by_cases hq : ∃ body, s.verdict files q.2 = .supplies body
    · obtain ⟨body, hbody⟩ := hq
      exact ⟨[], q, remotes, body, rfl, nofun, hbody⟩
    · have hrest : ∃ r ∈ remotes, ∃ body, s.verdict files r.2 = .supplies body := by
        simpa [hq] using h
      obtain ⟨before, r, after, body, rfl, hbefore, hr⟩ := ih hrest
      refine ⟨q :: before, r, after, body, rfl, List.forall_mem_cons.mpr ⟨?_, hbefore⟩, hr⟩
      exact not_exists.mp hq

theorem resolves_of_not_escapes (hremotes : s.repository.remotes = remotes.map (·.1))
    (hnone : ¬ ∃ e, Escapes s files remotes e) :
    Resolves s files remotes (s.resolve files (remotes.map (·.2.news))) := by
  cases hfile : files.pathIsFile s.cwd s.target with
  | error e => exact absurd ⟨e, .look hfile⟩ hnone
  | ok there =>
    cases there with
    | true =>
      have hturn := resolve_of_present hfile (remotes.map (·.2.news))
      exact ⟨fun _ => hturn, fun h => absurd hfile h, fun h => absurd hfile h,
        fun h => absurd hfile h, .inl (by rw [hturn])⟩
    | false =>
      have hfails {before after} (heq : remotes = before ++ after)
          (hbefore : ∀ q ∈ before, ∀ body, s.verdict files q.2 ≠ .supplies body) :
          s.AllFail files before :=
        allFail_of_not_escapes [] hfile (heq ▸ hnone) nofun hbefore
      refine ⟨fun h => ?_, fun _ hempty => ?_, ?_, fun _ hne hall => ?_, ?_⟩
      · rw [hfile] at h
        cases h
      · exact resolve_of_no_remotes hfile (by simp [hremotes, hempty]) _
      · rintro - before r after body rfl hbefore hr
        exact resolve_of_supplies hfile hremotes (hfails rfl hbefore) hr
      · exact resolve_of_allFail hfile hremotes hne (hfails (List.append_nil _).symm hall)
      · by_cases hempty : remotes = []
        · exact .inr ⟨_, by rw [resolve_of_no_remotes hfile (by simp [hremotes, hempty])]; rfl⟩
        by_cases hsome : ∃ r ∈ remotes, ∃ body, s.verdict files r.2 = .supplies body
        · obtain ⟨before, r, after, body, rfl, hbefore, hr⟩ := exists_first_supplies hsome
          exact .inl (resolve_of_supplies hfile hremotes (hfails rfl hbefore) hr).2.1
        · simp only [not_exists, not_and] at hsome
          have hall := hfails (List.append_nil _).symm hsome
          exact .inr ⟨_, (resolve_of_allFail hfile hremotes hempty hall).2⟩

/-- The error that comes of a remote repository is that of a path with a NUL in it. -/
theorem nul_of_raises (h : s.verdict files b = .raises e) :
    e = .nul ∧ ∃ n ∈ s.target.segments, '\x00' ∈ n.toList := by
  have hparent : ∀ n ∈ s.target.parent.segments, n ∈ s.target.segments :=
    fun n hn => List.dropLast_subset _ hn
  have hmaking {next : FileSystem → Verdict} (h : s.making files next = .raises e) :
      (e = .nul ∧ ∃ n ∈ s.target.segments, '\x00' ∈ n.toList) ∨
        ∃ made, next made = .raises e := by
    rw [Search.making] at h
    split at h
    · rename_i made g hmade
      obtain ⟨rfl, he⟩ := Verdict.eq_of_ofError h
      obtain ⟨rfl, n, hn, hnul⟩ := nul_of_makeOpen hmade he
      exact .inl ⟨rfl, n, hparent n hn, hnul⟩
    · exact .inr ⟨_, h⟩
  cases b with
  | refused m => cases h
  | unwritable => exact (hmaking h).resolve_right (by simp)
  | answered code chunks ending =>
    rw [verdict_answered] at h
    split at h
    · cases h
    split at h
    · refine (hmaking h).elim id fun ⟨made, hmade⟩ => ?_
      cases ending with
      | broken m => cases hmade
      | unwritable => cases hmade
      | complete =>
        rw [Search.storing, Search.placing] at hmade
        split at hmade
        · rename_i g hlocate
          obtain ⟨rfl, he⟩ := Verdict.eq_of_ofError hmade
          exact nul_of_locate hlocate he
        · split at hmade <;> cases hmade
    · cases h

theorem escapes_iff (hplain : ∀ n ∈ s.target.segments, '\x00' ∉ n.toList) :
    Escapes s files remotes e ↔ files.pathIsFile s.cwd s.target = .error e := by
  refine ⟨fun h => ?_, .look⟩
  cases h with
  | look h => exact h
  | store _ _ _ h =>
    obtain ⟨-, n, hn, hnul⟩ := nul_of_raises h
    exact absurd hnul (hplain n hn)

/-- A search comes to what it is to come to, over any files and whatever its remote repositories do,
unless an error escapes it; then it comes to that error. Where the path has no NUL in it, one does
exactly if the system does not say whether the local file is there. -/
theorem resolve_resolves_iff (root cwd : Path) (coordinate : Coordinate) (files : FileSystem)
    (remotes : List (String × Behaviour)) :
    (Resolves (.among root cwd coordinate remotes) files remotes
        ((Search.among root cwd coordinate remotes).resolve files (remotes.map (·.2.news))) ↔
      ¬ ∃ e, Escapes (.among root cwd coordinate remotes) files remotes e) ∧
    (∀ e, Escapes (.among root cwd coordinate remotes) files remotes e →
      ((Search.among root cwd coordinate remotes).resolve files
        (remotes.map (·.2.news))).progress = .ended (.error (.file e))) ∧
    ((∀ n ∈ (Search.among root cwd coordinate remotes).target.segments, '\x00' ∉ n.toList) →
      ∀ e, Escapes (.among root cwd coordinate remotes) files remotes e ↔
        files.pathIsFile cwd (Search.among root cwd coordinate remotes).target = .error e) := by
  have hremotes : (Search.among root cwd coordinate remotes).repository.remotes =
      remotes.map (·.1) := rfl
  refine ⟨⟨?_, resolves_of_not_escapes hremotes⟩, fun e he => he.progress hremotes,
    fun hplain e => escapes_iff hplain⟩
  rintro hresolves ⟨e, he⟩
  have hprogress := he.progress hremotes
  rcases hresolves.ends with h | ⟨reason, h⟩ <;> rw [hprogress] at h <;> cases h

/-- A repository that has an artifact in other versions. -/
def shelf : FileSystem :=
  ⟨[(["repo"], .directory), (["repo", "g"], .directory), (["repo", "g", "a"], .directory)]⟩

/-- Two remote repositories, of which the second delivers. -/
def mirrors : List (String × Behaviour) :=
  [("http://a", .answered 503 [] .complete), ("http://b", .answered 200 [[1], [2]] .complete)]

/-- A version of so many characters. -/
def longVersion (n : Nat) : Coordinate := ⟨"g", "a", "zip", String.ofList (List.replicate n '1')⟩

theorem longVersion_groupParts (n : Nat) : (longVersion n).groupParts = ["g"] := by
  simp [longVersion, Coordinate.groupParts, Coordinate.splitDots]

theorem longVersion_segments (n : Nat) : (longVersion n).segments =
    ["g", "a", (longVersion n).version, (longVersion n).fileName] := by
  rw [Coordinate.segments, longVersion_groupParts]
  rfl

theorem longVersion_isPlain {n : Nat} (h : n ≠ 0) : (longVersion n).IsPlain := by
  have hone : '1' ∈ (longVersion n).version.toList := by simp [longVersion, h]
  have hne {t : String} (ht : '1' ∉ t.toList) : (longVersion n).version ≠ t :=
    fun he => ht (he ▸ hone)
  have hslash : '/' ∉ (longVersion n).version.toList := by simp [longVersion]
  exact
    { group := by simp [longVersion, Coordinate.groupParts, Coordinate.splitDots]
      artifact := by simp [longVersion]
      version := ⟨hne (by decide), hslash⟩
      artifact_dots := by simp [longVersion]
      version_dots := ⟨hne (by decide), hne (by decide)⟩
      archiveType := by simp [longVersion] }

/-- The search for such a version. -/
def versionSearch (length : Nat) (remotes : List (String × Behaviour)) : Search :=
  .among ⟨.root, ["repo"]⟩ ⟨.root, []⟩ (longVersion length) remotes

theorem versionSearch_target {n : Nat} (h : n ≠ 0) (remotes : List (String × Behaviour)) :
    (versionSearch n remotes).target = ⟨.root, "repo" :: (longVersion n).segments⟩ := by
  have hpath : (longVersion n).relativePath = ⟨.relative, (longVersion n).segments⟩ :=
    (longVersion_isPlain h).relativePath_eq
  change Path.join ⟨.root, ["repo"]⟩ (longVersion n).relativePath = _
  rw [hpath, Path.join_of_relative rfl]
  rfl

/-- A repository that has an artifact in other versions does not say whether it has one with too
long a name. -/
theorem shelf_escapes {n : Nat} (h : Path.nameLimit < (longVersion n).version.utf8ByteSize) :
    Escapes (versionSearch n []) shelf [] .tooLong := by
  have hn : n ≠ 0 := by
    rintro rfl
    exact absurd h (by decide)
  have hnul : ∀ s ∈ "repo" :: (longVersion n).segments, '\x00' ∉ s.toList := by
    rw [longVersion_segments]
    simp [longVersion, Coordinate.fileName]
  have hplain : (Path.mk .root ("repo" :: (longVersion n).segments)).segments.any
      (fun s => s.toList.contains '\x00') = false := by
    rw [List.any_eq_false]
    exact fun s hs => by simpa using hnul s hs
  have hwalk : shelf.walk [] ("repo" :: (longVersion n).segments) = .error .tooLong := by
    have hrepo : shelf.obstacle? [] "repo" = none := by decide
    have hgroup : shelf.obstacle? ["repo"] "g" = none := by decide
    have hartifact : shelf.obstacle? ["repo", "g"] "a" = none := by decide
    have hversion : shelf.obstacle? ["repo", "g", "a"] (longVersion n).version =
        some .tooLong := by
      have hdirectory : shelf.get? ["repo", "g", "a"] = some .directory := by decide
      simp only [FileSystem.obstacle?, hdirectory, h, if_true]
    simp [longVersion_segments, FileSystem.walk, hrepo, hgroup, hartifact, hversion]
  have hlocate : shelf.locate ⟨.root, []⟩ ⟨.root, "repo" :: (longVersion n).segments⟩ =
      .error .tooLong := by
    rw [FileSystem.locate, Path.fault?, hplain]
    by_cases hsize : Path.textLimit <
        (Path.toString ⟨.root, "repo" :: (longVersion n).segments⟩).utf8ByteSize
    · simp [hsize]
    · simp only [Bool.false_eq_true, if_false, hsize]
      exact hwalk
  refine .look ?_
  rw [versionSearch_target hn]
  change shelf.look ⟨.root, []⟩ _ _ = _
  rw [FileSystem.look, hlocate]
/-- That a version has too long a name is no failure to resolve, but an error of the system. -/
theorem resolves_fails_of_longName :
    ¬ ∀ (root cwd : Path) (coordinate : Coordinate) (files : FileSystem)
      (remotes : List (String × Behaviour)),
      Resolves (.among root cwd coordinate remotes) files remotes
        ((Search.among root cwd coordinate remotes).resolve files (remotes.map (·.2.news))) := by
  intro h
  have hescapes : Escapes (versionSearch 300 []) shelf [] .tooLong :=
    shelf_escapes (by decide +kernel)
  have hprogress := hescapes.progress rfl
  rcases (h ⟨.root, ["repo"]⟩ ⟨.root, []⟩ _ shelf []).ends with hends | ⟨_, hends⟩
  · cases hprogress.symm.trans hends
  · cases hprogress.symm.trans hends

/-- The error of the long name escapes; a short one is resolved, from the second remote
repository. -/
theorem resolve_resolves_shelf :
    Escapes (versionSearch 300 []) shelf [] .tooLong ∧
      ((versionSearch 300 []).resolve shelf []).progress = .ended (.error (.file .tooLong)) ∧
      (∀ n ∈ (versionSearch 3 mirrors).target.segments, '\x00' ∉ n.toList) ∧
      Resolves (versionSearch 3 mirrors) shelf mirrors
        ((versionSearch 3 mirrors).resolve shelf (mirrors.map (·.2.news))) := by
  have hplain : ∀ n ∈ (versionSearch 3 mirrors).target.segments, '\x00' ∉ n.toList := by
    decide +kernel
  have habsent : shelf.pathIsFile ⟨.root, []⟩ (versionSearch 3 mirrors).target = .ok false := by
    decide +kernel
  have hlong : Escapes (versionSearch 300 []) shelf [] .tooLong :=
    shelf_escapes (by decide +kernel)
  obtain ⟨-, hprogress, -⟩ :=
    resolve_resolves_iff ⟨.root, ["repo"]⟩ ⟨.root, []⟩ (longVersion 300) shelf []
  obtain ⟨hresolves, -, hescapes⟩ :=
    resolve_resolves_iff ⟨.root, ["repo"]⟩ ⟨.root, []⟩ (longVersion 3) shelf mirrors
  refine ⟨hlong, hprogress _ hlong, hplain, hresolves.mpr ?_⟩
  rintro ⟨e, he⟩
  have hlook := (hescapes hplain e).mp he
  cases habsent.symm.trans hlook

end ServerRun.Repository
