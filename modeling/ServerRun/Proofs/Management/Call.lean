import ServerRun.Http.Client
import ServerRun.Proofs.Management.Operation

/-! What the operations of a channel promise of their end: an operation that is executed has the
result that the last answer carries and is refused under its name otherwise, the state of the server
is always told, and the others end with a refusal if they fail, or with the system's error of the
file that they were to read. They keep this promise exactly when no failure is passed on. -/

namespace ServerRun.Management

open Http

/-- A call of an operation of a channel. -/
inductive Call where
  | execute (operation : Fields)
  | serverState
  | deploymentNames
  | upload (file : Path)
  | deploy (file : Path) (name : String)
  | shutdown

namespace Call

open Channel

/-- What a call has as its result. -/
abbrev Result : Call → Type
  | .execute _ | .upload _ => Json
  | .serverState => Option String
  | .deploymentNames => List Json
  | .deploy _ _ | .shutdown => Unit

/-- The dialogue of a call. -/
def dialogue (c : Channel) (fs : FileSystem) (cwd : Path) :
    (call : Call) → Talk (Except Failure call.Result)
  | .execute operation => c.execute operation
  | .serverState => c.serverState
  | .deploymentNames => c.deploymentNames
  | .upload file => withFile fs cwd file c.upload
  | .deploy file name => withFile fs cwd file (c.deploy name)
  | .shutdown => c.shutdown

/-- An operation was executed as promised: it has the result that the last answer carries, and is
refused under its name if it carries none. -/
structure Executes (name : String) (xs : List Exchange) (r : Except Failure Json) : Prop where
  carried (v : Json) : r = .ok v ↔ ∃ x, xs.getLast? = some x ∧ x.2.Carries v
  refused (f : Failure) : r = .error f → ∃ d, f = refusal d name

/-- A failure refuses the operation or is the system's error of a file that cannot be read. -/
def IsReported (fs : FileSystem) (cwd file : Path) (f : Failure) : Prop :=
  IsRefusal f ∨ ∃ e, fs.fileBytes cwd file = .error e ∧ e.isSystem ∧ f = .file e

/-- What a call promises of its end. -/
def Keeps (c : Channel) (fs : FileSystem) (cwd : Path) (xs : List Exchange) :
    (call : Call) → Except Failure call.Result → Prop
  | .execute operation, result =>
    ∃ name, c.spelling.text (nameOf operation) = .ok name ∧ Executes name xs result
  | .serverState, result => ∃ state, result = .ok state
  | .deploymentNames, result | .shutdown, result => ∀ f, result = .error f → IsRefusal f
  | .upload file, result | .deploy file _, result =>
    ∀ f, result = .error f → IsReported fs cwd file f

/-- What a call passes on: the failure that the client raises over the last post, that of a name
which cannot be spelt, of a result that lists nothing, or of a path that is none to the system. -/
inductive PassesOn (c : Channel) (fs : FileSystem) (cwd : Path) (xs : List Exchange) :
    Failure → Call → Prop
  | raised {call : Call} {x : Exchange} {f : Failure} (hlast : xs.getLast? = some x)
      (h : x.2.Raises f) : PassesOn c fs cwd xs f call
  | unspelt {operation : Fields} {f : Foreign}
      (h : c.spelling.text (nameOf operation) = .error f) :
      PassesOn c fs cwd xs f.val (.execute operation)
  | unlisted {x : Exchange} {v : Json} {f : Failure} (hlast : xs.getLast? = some x)
      (hv : x.2.Carries v) (hitems : itemsOf v = .error f) :
      PassesOn c fs cwd xs f .deploymentNames
  | unlistedDeploy {file : Path} {name : String} {x y : Exchange} {v : Json} {f : Failure}
      (hxs : xs = [x, y]) (hv : y.2.Carries v) (hitems : itemsOf v = .error f) :
      PassesOn c fs cwd xs f (.deploy file name)
  | unread {file : Path} {e : FileError} (hread : fs.fileBytes cwd file = .error e)
      (he : e.isSystem = false) : PassesOn c fs cwd xs (.file e) (.upload file)
  | unreadDeploy {file : Path} {name : String} {e : FileError}
      (hread : fs.fileBytes cwd file = .error e) (he : e.isSystem = false) :
      PassesOn c fs cwd xs (.file e) (.deploy file name)

variable {c : Channel} {fs : FileSystem} {cwd file : Path} {xs : List Exchange} {x : Exchange}
  {f : Failure} {url name fileName : String} {body : Body} {content : List UInt8} {v : Json}
  {r : Except Failure Json}

theorem eq_notIterable (h : itemsOf v = .error f) : f = .notIterable := by
  unfold itemsOf at h
  split at h <;> try cases h
  split at h <;> cases h
  rfl

theorem PassesOn.ne_run {call : Call} (h : PassesOn c fs cwd xs f call) (e : RunError) :
    f ≠ .run e := by
  cases h with
  | raised _ h => exact h.ne_run e
  | @unspelt _ f => exact f.property e
  | unlisted _ _ h | unlistedDeploy _ _ h =>
    rw [eq_notIterable h]
    nofun
  | unread | unreadDeploy => nofun

/-! ### one post -/

theorem posting_eq_error (h : Posting url body name xs r) (hlast : xs.getLast? = some x)
    (hf : x.2.Raises f) : r = .error f := by
  obtain ⟨h⟩ := h
  cases hlast
  exact h.eq_error hf

theorem posting_error (h : Posting url body name xs (.error f)) :
    (∃ d, f = refusal d name) ∨ ∃ x, xs.getLast? = some x ∧ x.2.Raises f := by
  obtain ⟨h⟩ := h
  exact h.refusal_or_raises.imp_right fun h => ⟨_, rfl, h⟩

theorem posting_executes (h : Posting url body name xs r)
    (hnone : ¬ ∃ f x, xs.getLast? = some x ∧ x.2.Raises f) : Executes name xs r := by
  obtain ⟨h⟩ := h
  constructor
  · intro v
    constructor
    · rintro rfl
      exact ⟨_, rfl, h.carries⟩
    · rintro ⟨x, ⟨⟩, hv⟩
      exact h.eq_ok hv
  · rintro f rfl
    exact h.refusal_or_raises.resolve_right fun hf => hnone ⟨f, _, rfl, hf⟩

theorem stateOf_error (hf : ∀ e, f ≠ .run e) : stateOf (.error f) = .error f := by
  cases f with
  | run e => exact absurd rfl (hf e)
  | _ => rfl

theorem exists_of_stateOf (v : Json) : ∃ state, stateOf (.ok v) = .ok state := by
  cases v <;> exact ⟨_, rfl⟩

theorem referenceOf_error (h : referenceOf r = .error f) : IsRefusal f ∨ r = .error f := by
  unfold referenceOf at h
  split at h <;> cases h
  · exact .inl ⟨_, _, rfl⟩
  · exact .inr rfl

theorem bind_itemsOf_error (h : r.bind itemsOf = .error f) :
    r = .error f ∨ ∃ v, r = .ok v ∧ itemsOf v = .error f := by
  rcases r with g | v
  · cases h
    exact .inl rfl
  · exact .inr ⟨v, rfl, h⟩

/-! ### files -/

theorem comes_of_unread {α : Type} {e : FileError}
    {next : String → List UInt8 → Talk (Except Failure α)} {result : Except Failure α}
    (hread : fs.fileBytes cwd file = .error e)
    (h : (withFile fs cwd file next).Comes xs result) : xs = [] ∧ result = .error (.file e) := by
  rw [withFile, hread] at h
  cases h
  exact ⟨rfl, rfl⟩

/-! ### deployments -/

theorem deploying_eq_error {result : Except Failure Unit}
    (h : Deploying c name fileName content xs result) (hlast : xs.getLast? = some x)
    (hf : x.2.Raises f) : result = .error f := by
  cases h with
  | notUploaded hp h =>
    cases hlast
    rw [hp.eq_error hf] at h
    cases h
    rfl
  | notListed hp hq h =>
    cases hlast
    rw [hq.eq_error hf] at h
    cases h
    rfl
  | asked hp hq hnames hlast' =>
    cases hlast
    rw [hlast'.eq_error hf]
    rfl

theorem deploying_error (h : Deploying c name fileName content xs (.error f)) :
    IsRefusal f ∨ (∃ x, xs.getLast? = some x ∧ x.2.Raises f) ∨
      ∃ x y v, xs = [x, y] ∧ y.2.Carries v ∧ itemsOf v = .error f := by
  generalize hresult : (Except.error f : Except Failure Unit) = result at h
  cases h with
  | notUploaded hp h =>
    cases hresult
    rcases referenceOf_error h with href | rfl
    · exact .inl href
    · exact hp.refusal_or_raises.imp (fun ⟨d, h⟩ => ⟨d, _, h⟩) fun h => .inl ⟨_, rfl, h⟩
  | notListed hp hq h =>
    cases hresult
    rcases bind_itemsOf_error h with rfl | ⟨v, rfl, hitems⟩
    · exact hq.refusal_or_raises.imp (fun ⟨d, h⟩ => ⟨d, _, h⟩) fun h => .inl ⟨_, rfl, h⟩
    · exact .inr (.inr ⟨_, _, v, rfl, hq.carries, hitems⟩)
  | @asked _ _ _ _ _ _ _ r hp hq hnames hlast =>
    rcases r with g | v <;> cases hresult
    exact hlast.refusal_or_raises.imp (fun ⟨d, h⟩ => ⟨d, _, h⟩) fun h => .inl ⟨_, rfl, h⟩

theorem deploying_unlisted {result : Except Failure Unit} {x y : Exchange}
    (h : Deploying c name fileName content [x, y] result) (hv : y.2.Carries v)
    (hitems : itemsOf v = .error f) : result = .error f := by
  generalize hxs : [x, y] = xs at h
  cases h with
  | notUploaded => cases hxs
  | notListed hp hq h =>
    cases hxs
    rw [hq.eq_ok hv] at h
    cases h.symm.trans hitems
    rfl
  | asked => cases hxs

/-! ### calls -/

theorem eq_error {call : Call} {result : Except Failure call.Result}
    (h : (call.dialogue c fs cwd).Comes xs result) (hf : PassesOn c fs cwd xs f call) :
    result = .error f := by
  cases hf with
  | raised hlast hf =>
    cases call with
    | execute operation =>
      rcases execute_comes h with ⟨g, -, rfl, -⟩ | ⟨name, -, hposting⟩
      · cases hlast
      · exact posting_eq_error hposting hlast hf
    | serverState =>
      obtain ⟨r, hposting, rfl⟩ := serverState_comes h
      rw [posting_eq_error hposting hlast hf]
      exact stateOf_error hf.ne_run
    | deploymentNames =>
      obtain ⟨r, hposting, rfl⟩ := deploymentNames_comes h
      rw [posting_eq_error hposting hlast hf]
      rfl
    | upload file =>
      rcases hread : fs.fileBytes cwd file with e | content
      · rw [(comes_of_unread hread h).1] at hlast
        cases hlast
      · rw [dialogue, withFile_of_read hread] at h
        obtain ⟨r, hposting, rfl⟩ := upload_comes h
        rw [posting_eq_error hposting hlast hf]
        rfl
    | deploy file name =>
      rcases hread : fs.fileBytes cwd file with e | content
      · rw [(comes_of_unread hread h).1] at hlast
        cases hlast
      · rw [dialogue, withFile_of_read hread] at h
        exact deploying_eq_error (deploying_of_comes h) hlast hf
    | shutdown =>
      obtain ⟨r, hposting, rfl⟩ := shutdown_comes h
      rw [posting_eq_error hposting hlast hf]
      rfl
  | unspelt hspelt =>
    rcases execute_comes h with ⟨g, hg, -, rfl⟩ | ⟨name, hname, -⟩
    · cases hspelt.symm.trans hg
      rfl
    · cases hspelt.symm.trans hname
  | unlisted hlast hv hitems =>
    obtain ⟨r, ⟨hposted⟩, rfl⟩ := deploymentNames_comes h
    cases hlast
    rw [hposted.eq_ok hv]
    exact hitems
  | @unlistedDeploy file name x y v f hxs hv hitems =>
    rcases hread : fs.fileBytes cwd file with e | content
    · rw [(comes_of_unread hread h).1] at hxs
      cases hxs
    · rw [dialogue, withFile_of_read hread, hxs] at h
      exact deploying_unlisted (deploying_of_comes h) hv hitems
  | unread hread he => exact (comes_of_unread hread h).2
  | unreadDeploy hread he => exact (comes_of_unread hread h).2

/-- A call that passes nothing on keeps its promise. -/
theorem keeps_of_comes {call : Call} {result : Except Failure call.Result}
    (h : (call.dialogue c fs cwd).Comes xs result)
    (hnone : ¬ ∃ f, PassesOn c fs cwd xs f call) : call.Keeps c fs cwd xs result := by
  have hraised : ¬ ∃ f x, xs.getLast? = some x ∧ x.2.Raises f :=
    fun ⟨f, x, hlast, hf⟩ => hnone ⟨f, .raised hlast hf⟩
  cases call with
  | execute operation =>
    rcases execute_comes h with ⟨g, hg, -⟩ | ⟨name, hname, hposting⟩
    · exact absurd ⟨_, .unspelt hg⟩ hnone
    · exact ⟨name, hname, posting_executes hposting hraised⟩
  | serverState =>
    obtain ⟨r, hposting, rfl⟩ := serverState_comes h
    rcases r with f | v
    · rcases posting_error hposting with ⟨d, rfl⟩ | hf
      · exact ⟨none, rfl⟩
      · exact absurd ⟨f, hf⟩ hraised
    · exact exists_of_stateOf v
  | deploymentNames =>
    rintro f rfl
    obtain ⟨r, hposting, heq⟩ := deploymentNames_comes h
    rcases bind_itemsOf_error heq.symm with rfl | ⟨v, rfl, hitems⟩
    · obtain ⟨d, hd⟩ := (posting_error hposting).resolve_right fun hf => hraised ⟨f, hf⟩
      exact ⟨d, _, hd⟩
    · obtain ⟨hposted⟩ := hposting
      exact absurd ⟨f, .unlisted rfl hposted.carries hitems⟩ hnone
  | upload file =>
    rintro f rfl
    rcases hread : fs.fileBytes cwd file with e | content
    · cases (comes_of_unread hread h).2
      cases he : e.isSystem with
      | true => exact .inr ⟨e, hread, he, rfl⟩
      | false => exact absurd ⟨_, .unread hread he⟩ hnone
    · rw [dialogue, withFile_of_read hread] at h
      obtain ⟨r, hposting, heq⟩ := upload_comes h
      rcases referenceOf_error heq.symm with href | rfl
      · exact .inl href
      · obtain ⟨d, hd⟩ := (posting_error hposting).resolve_right fun hf => hraised ⟨f, hf⟩
        exact .inl ⟨d, _, hd⟩
  | deploy file name =>
    rintro f rfl
    rcases hread : fs.fileBytes cwd file with e | content
    · cases (comes_of_unread hread h).2
      cases he : e.isSystem with
      | true => exact .inr ⟨e, hread, he, rfl⟩
      | false => exact absurd ⟨_, .unreadDeploy hread he⟩ hnone
    · rw [dialogue, withFile_of_read hread] at h
      rcases deploying_error (deploying_of_comes h) with href | hf | ⟨x, y, v, hxs, hv, hitems⟩
      · exact .inl href
      · exact absurd ⟨f, hf⟩ hraised
      · exact absurd ⟨f, .unlistedDeploy hxs hv hitems⟩ hnone
  | shutdown =>
    rintro f hresult
    obtain ⟨r, hposting, rfl⟩ := shutdown_comes h
    rcases r with g | v <;> cases hresult
    obtain ⟨d, hd⟩ := (posting_error hposting).resolve_right fun hf => hraised ⟨f, hf⟩
    exact ⟨d, _, hd⟩

theorem not_keeps_of_passesOn {call : Call} (h : (call.dialogue c fs cwd).Comes xs (.error f))
    (hf : PassesOn c fs cwd xs f call) : ¬ call.Keeps c fs cwd xs (.error f) := by
  have hrefusal : ¬ IsRefusal f := fun ⟨_, _, h⟩ => hf.ne_run _ h
  intro hkeeps
  cases call with
  | execute =>
    obtain ⟨name, -, hexecutes⟩ := hkeeps
    obtain ⟨d, hd⟩ := hexecutes.refused f rfl
    exact hrefusal ⟨d, name, hd⟩
  | serverState =>
    obtain ⟨state, ⟨⟩⟩ := hkeeps
  | deploymentNames | shutdown => exact hrefusal (hkeeps f rfl)
  | upload =>
    obtain ⟨e, hread, he, -⟩ := (hkeeps f rfl).resolve_left hrefusal
    cases hf with
    | raised hlast =>
      rw [(comes_of_unread hread h).1] at hlast
      cases hlast
    | unread hread' he' =>
      cases hread.symm.trans hread'
      rw [he] at he'
      cases he'
  | deploy =>
    obtain ⟨e, hread, he, -⟩ := (hkeeps f rfl).resolve_left hrefusal
    cases hf with
    | raised hlast =>
      rw [(comes_of_unread hread h).1] at hlast
      cases hlast
    | unlistedDeploy hxs =>
      rw [(comes_of_unread hread h).1] at hxs
      cases hxs
    | unreadDeploy hread' he' =>
      cases hread.symm.trans hread'
      rw [he] at he'
      cases he'

/-- With every channel and all files, and whatever its client makes of what is posted, a call keeps
its promise exactly when it passes no failure on; one that it passes on is what it ends with. -/
theorem keeps_iff_passes_nothing_on {σ : Type} (call : Call) (c : Channel) (fs : FileSystem)
    (cwd : Path) (answer : σ → Post → Posted × σ) (s : σ) :
    let xs := (call.dialogue c fs cwd).exchanges answer s
    let result := ((call.dialogue c fs cwd).run answer s).2.1
    (call.Keeps c fs cwd xs result ↔ ¬ ∃ f, call.PassesOn c fs cwd xs f) ∧
      ∀ f, call.PassesOn c fs cwd xs f → result = .error f := by
  intro xs result
  have hcomes : (call.dialogue c fs cwd).Comes xs result := Dialogue.comes_run answer s _
  refine ⟨⟨?_, keeps_of_comes hcomes⟩, fun f hf => eq_error hcomes hf⟩
  rintro hkeeps ⟨f, hf⟩
  have hresult := eq_error hcomes hf
  rw [hresult] at hcomes hkeeps
  exact not_keeps_of_passesOn hcomes hf hkeeps

/-- The dialogue that reads the state of a server on the host `::1`. -/
def unbracketed : Talk (Except Failure (Option String)) :=
  serverState.dialogue (.create "http://::1:9990/management" none none) {} ⟨.root, []⟩

/-- A client of which no request is answered. -/
def unheard : Client × Unit → Post → Posted × Client × Unit :=
  Dialogue.through Client.post fun _ _ => (.failed "", ())

/-- A client posts nothing to an address whose host has colons but no brackets, so that the state of
the server is not told. -/
theorem not_keeps_of_unbracketed_host :
    ¬ serverState.Keeps (.create "http://::1:9990/management" none none) {} ⟨.root, []⟩
      (unbracketed.exchanges unheard ({}, ())) (unbracketed.run unheard ({}, ())).2.1 := by
  rintro ⟨state, h⟩
  cases h

end Call

end ServerRun.Management
