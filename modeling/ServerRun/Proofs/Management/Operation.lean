import ServerRun.Proofs.Management.Request

/-! The operations of a channel, told by what they post. Each is one post, apart from a deployment,
which goes on from an upload to a listing and from there to its last post. -/

namespace ServerRun.Management.Channel

open Http

variable {c : Channel} {xs : List Exchange} {operation : Fields} {name fileName : String}
  {content : List UInt8} {r : Except Failure Json}

/-- What comes of one post: the exchange, and what is made of it. -/
inductive Posting (url : String) (body : Body) (name : String) :
    List Exchange → Except Failure Json → Prop
  | posted {p : Posted} {r : Except Failure Json} (h : Result name p r) :
      Posting url body name [(⟨url, body⟩, p)] r

/-- The operation at the end of a deployment: uploaded content takes the place of what is listed
under its name, and is added otherwise. -/
def lastOperation (names : List Json) (name : String) (hash : Json) : Fields :=
  if listsName names name then replacement name (.arr [.obj [("hash", hash)]])
  else addition name (.arr [.obj [("hash", hash)]])

theorem withFile_of_read {α : Type} {fs : FileSystem} {cwd file : Path}
    (hread : fs.fileBytes cwd file = .ok content)
    (next : String → List UInt8 → Talk (Except Failure α)) :
    withFile fs cwd file next = next file.name content := by
  rw [withFile, hread]

/-! ### one post -/

theorem request_comes (h : (c.request name operation).Comes xs r) :
    Posting c.url (.json (.obj operation)) name xs r := by
  cases h with | ask h =>
  cases h
  exact .posted (result_resultOfPosted _ name _)

/-- An operation that has a text for its name is posted. -/
theorem execute_of_name (h : nameOf operation = .str name) :
    c.execute operation = c.request name operation := by
  simp only [execute, h, c.spelling.text_str]

/-- An operation is posted if its name is spelt. -/
theorem execute_comes (h : (c.execute operation).Comes xs r) :
    (∃ f, c.spelling.text (nameOf operation) = .error f ∧ xs = [] ∧ r = .error f.val) ∨
      ∃ name, c.spelling.text (nameOf operation) = .ok name ∧
        Posting c.url (.json (.obj operation)) name xs r := by
  unfold execute at h
  split at h
  · exact .inr ⟨_, ‹_›, request_comes h⟩
  · cases h
    exact .inl ⟨_, ‹_›, rfl, rfl⟩

theorem serverState_comes {result : Except Failure (Option String)}
    (h : c.serverState.Comes xs result) :
    ∃ r, Posting c.url (.json (.obj stateQuery)) "read-attribute" xs r ∧ result = stateOf r := by
  obtain ⟨r, hexecute, heq⟩ := Dialogue.Comes.of_bind_pure h
  rw [execute_of_name rfl] at hexecute
  exact ⟨r, request_comes hexecute, heq⟩

theorem deploymentNames_comes {names : Except Failure (List Json)}
    (h : c.deploymentNames.Comes xs names) :
    ∃ r, Posting c.url (.json (.obj listing)) "read-children-names" xs r ∧
      names = r.bind itemsOf := by
  obtain ⟨r, hexecute, heq⟩ := Dialogue.Comes.of_bind_pure h
  rw [execute_of_name rfl] at hexecute
  exact ⟨r, request_comes hexecute, heq⟩

theorem shutdown_comes {result : Except Failure Unit} (h : c.shutdown.Comes xs result) :
    ∃ r, Posting c.url (.json (.obj shutdownRequest)) "shutdown" xs r ∧
      result = r.map fun _ => () := by
  obtain ⟨r, hexecute, heq⟩ := Dialogue.Comes.of_bind_pure h
  rw [execute_of_name rfl] at hexecute
  exact ⟨r, request_comes hexecute, heq⟩

theorem upload_comes {result : Except Failure Json}
    (h : (c.upload fileName content).Comes xs result) :
    ∃ r, Posting c.contentUrl (.file fileName content) "add-content" xs r ∧
      result = referenceOf r := by
  cases h with | ask h =>
  cases h
  exact ⟨_, .posted (result_resultOfPosted _ _ _), rfl⟩

theorem exists_of_referenceOf {reference : Json} (h : referenceOf r = .ok reference) :
    ∃ hash, r = .ok (.obj hash) ∧ reference = .obj hash := by
  unfold referenceOf at h
  split at h <;> cases h
  exact ⟨_, rfl, rfl⟩

/-! ### deployments -/

/-- What comes of a deployment: its content is not uploaded, or what is deployed is not listed, or
the last operation is what the listing calls for. -/
inductive Deploying (c : Channel) (name fileName : String) (content : List UInt8) :
    List Exchange → Except Failure Unit → Prop
  | notUploaded {p : Posted} {r : Except Failure Json} {f : Failure}
      (hp : Result "add-content" p r) (h : referenceOf r = .error f) :
      Deploying c name fileName content [(⟨c.contentUrl, .file fileName content⟩, p)] (.error f)
  | notListed {p q : Posted} {hash : Fields} {r : Except Failure Json} {f : Failure}
      (hp : p.Carries (.obj hash)) (hq : Result "read-children-names" q r)
      (h : r.bind itemsOf = .error f) :
      Deploying c name fileName content
        [(⟨c.contentUrl, .file fileName content⟩, p), (⟨c.url, .json (.obj listing)⟩, q)] (.error f)
  | asked {p q last : Posted} {hash : Fields} {v : Json} {names : List Json} {kind : String}
      {r : Except Failure Json} (hp : p.Carries (.obj hash)) (hq : q.Carries v)
      (hnames : itemsOf v = .ok names) (hlast : Result kind last r) :
      Deploying c name fileName content
        [(⟨c.contentUrl, .file fileName content⟩, p), (⟨c.url, .json (.obj listing)⟩, q),
          (⟨c.url, .json (.obj (lastOperation names name (.obj hash)))⟩, last)]
        (r.map fun _ => ())

/-- The last operation of a deployment has a text for its name. -/
theorem exists_name_lastOperation (names : List Json) (name : String) (hash : Json) :
    ∃ kind, nameOf (lastOperation names name hash) = .str kind := by
  unfold lastOperation
  split <;> exact ⟨_, rfl⟩

theorem deploying_of_comes {result : Except Failure Unit}
    (h : (c.deploy name fileName content).Comes xs result) :
    Deploying c name fileName content xs result := by
  obtain ⟨ys, zs, reference, rfl, hupload, h⟩ := Dialogue.Comes.of_bind h
  obtain ⟨r, ⟨hp⟩, rfl⟩ := upload_comes hupload
  cases hreference : referenceOf r with
  | error f =>
    rw [hreference] at h
    obtain ⟨rfl, rfl⟩ := Dialogue.Comes.of_pure h
    exact .notUploaded hp hreference
  | ok reference =>
    obtain ⟨hash, rfl, rfl⟩ := exists_of_referenceOf hreference
    rw [hreference] at h
    obtain ⟨ys, zs, listed, rfl, hlisting, h⟩ := Dialogue.Comes.of_bind h
    obtain ⟨r, ⟨hq⟩, rfl⟩ := deploymentNames_comes hlisting
    cases hnames : r.bind itemsOf with
    | error f =>
      rw [hnames] at h
      obtain ⟨rfl, rfl⟩ := Dialogue.Comes.of_pure h
      exact .notListed hp.carries hq hnames
    | ok names =>
      rcases r with f | v
      · cases hnames
      rw [hnames] at h
      have hlast : ∃ r, (c.execute (lastOperation names name (.obj hash))).Comes zs r ∧
          result = r.map fun _ => () := by
        dsimp only at h
        rw [lastOperation]
        split at h
        · rename_i hlists
          rw [if_pos hlists]
          cases h with | tell h =>
          exact Dialogue.Comes.of_bind_pure h
        · rename_i hlists
          rw [if_neg hlists]
          exact Dialogue.Comes.of_bind_pure h
      obtain ⟨r, hexecute, rfl⟩ := hlast
      obtain ⟨kind, hkind⟩ := exists_name_lastOperation names name (.obj hash)
      rw [execute_of_name hkind] at hexecute
      obtain ⟨hlast⟩ := request_comes hexecute
      exact .asked hp.carries hq.carries hnames hlast

end ServerRun.Management.Channel
