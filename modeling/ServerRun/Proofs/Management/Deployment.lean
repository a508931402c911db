import ServerRun.Http.Client
import ServerRun.Proofs.Management.Operation

/-! The posts of a deployment. A deployment posts at most three things, each of them only when what
came before has succeeded: it uploads the content, lists what is deployed, and puts the content in
its place. It succeeds when all three do. -/

namespace ServerRun.Management.Channel

open Http

variable {c : Channel} {name fileName : String} {xs : List Exchange} {content : List UInt8}
  {f : Failure} {v : Json} {operation hash : Fields} {names : List Json}

/-! ### the last operation -/

/-- An operation replaces the content that is deployed under a name. -/
structure Replaces (name : String) (hash operation : Fields) : Prop where
  kind : Fields.get? operation "operation" = some (.str "full-replace-deployment")
  target : Fields.get? operation "name" = some (.str name)
  content : Fields.get? operation "content" = some (.arr [.obj [("hash", .obj hash)]])

/-- An operation adds content under a name and deploys it, both or neither. -/
structure Adds (name : String) (hash operation : Fields) : Prop where
  kind : Fields.get? operation "operation" = some (.str "composite")
  steps : ∃ add deploy, Fields.get? operation "steps" = some (.arr [.obj add, .obj deploy]) ∧
    Fields.get? add "operation" = some (.str "add") ∧
    Fields.get? add "address" = some (.arr [.obj [("deployment", .str name)]]) ∧
    Fields.get? add "content" = some (.arr [.obj [("hash", .obj hash)]]) ∧
    Fields.get? deploy "operation" = some (.str "deploy") ∧
    Fields.get? deploy "address" = some (.arr [.obj [("deployment", .str name)]])

/-- An operation is the one that the names of what is deployed call for. -/
def Places (names : List Json) (name : String) (hash operation : Fields) : Prop :=
  (.str name ∈ names → Replaces name hash operation) ∧
    (.str name ∉ names → Adds name hash operation)

theorem listsName_iff : listsName names name = true ↔ .str name ∈ names := by
  rw [listsName, List.any_eq_true]
  refine ⟨?_, fun h => ⟨_, h, by simp [Json.str?]⟩⟩
  rintro ⟨v, hv, h⟩
  cases v <;> simp [Json.str?] at h
  rwa [← h]

theorem places_lastOperation : Places names name hash (lastOperation names name (.obj hash)) := by
  unfold lastOperation
  refine ⟨fun h => ?_, fun h => ?_⟩
  · rw [if_pos (listsName_iff.mpr h)]
    exact ⟨rfl, rfl, rfl⟩
  · rw [if_neg (mt listsName_iff.mp h)]
    exact ⟨rfl, _, _, rfl, rfl, rfl, rfl, rfl, rfl⟩

/-! ### the whole deployment -/

/-- The first post uploaded content, which is referred to by an object. -/
def Uploaded (xs : List Exchange) (hash : Fields) : Prop :=
  ∃ x, xs[0]? = some x ∧ x.2.Carries (.obj hash)

/-- The second post listed what is deployed. -/
def Listed (xs : List Exchange) (names : List Json) : Prop :=
  ∃ y v, xs[1]? = some y ∧ y.2.Carries v ∧ itemsOf v = .ok names

/-- The third post carries a result. -/
def Placed (xs : List Exchange) : Prop := ∃ z v, xs[2]? = some z ∧ z.2.Carries v

/-- A deployment posts an upload, a listing and the operation that the listing calls for, each of
them exactly when what came before has succeeded, and succeeds when all three do. -/
structure InTurn (c : Channel) (name fileName : String) (content : List UInt8)
    (xs : List Exchange) (result : Except Failure Unit) : Prop where
  few : xs.length ≤ 3
  starts : 0 < xs.length
  first (x : Exchange) (h : xs[0]? = some x) : x.1 = ⟨c.contentUrl, .file fileName content⟩
  lists : 1 < xs.length ↔ ∃ hash, Uploaded xs hash
  second (y : Exchange) (h : xs[1]? = some y) : y.1 = ⟨c.url, .json (.obj listing)⟩
  places : 2 < xs.length ↔ (∃ hash, Uploaded xs hash) ∧ ∃ names, Listed xs names
  third (z : Exchange) (h : xs[2]? = some z) :
    ∃ hash names operation, Uploaded xs hash ∧ Listed xs names ∧ Places names name hash operation ∧
      z.1 = ⟨c.url, .json (.obj operation)⟩
  succeeds : result = .ok () ↔
    (∃ hash, Uploaded xs hash) ∧ (∃ names, Listed xs names) ∧ Placed xs

theorem not_carries_of_referenceOf {p : Posted} {r : Except Failure Json}
    (hp : Result "add-content" p r) (h : referenceOf r = .error f) (hash : Fields) :
    ¬ p.Carries (.obj hash) := by
  intro hv
  rw [hp.eq_ok hv] at h
  cases h

theorem itemsOf_ne_ok {q : Posted} {r : Except Failure Json}
    (hq : Result name q r) (h : r.bind itemsOf = .error f) (hv : q.Carries v) :
    itemsOf v ≠ .ok names := by
  intro hnames
  rw [hq.eq_ok hv] at h
  cases h.symm.trans hnames

theorem InTurn.of_deploying {result : Except Failure Unit}
    (h : Deploying c name fileName content xs result) :
    InTurn c name fileName content xs result := by
  cases h with
  | @notUploaded p r f hp h =>
    have hnot (hash : Fields) :
        ¬ Uploaded [(⟨c.contentUrl, .file fileName content⟩, p)] hash := by
      rintro ⟨x, ⟨⟩, hv⟩
      exact not_carries_of_referenceOf hp h hash hv
    exact
      { few := by simp
        starts := by simp
        first := fun x hx => Option.some.inj hx ▸ rfl
        lists := ⟨by simp, fun ⟨hash, hup⟩ => absurd hup (hnot hash)⟩
        second := fun y hy => absurd hy (by simp)
        places := ⟨by simp, fun ⟨⟨hash, hup⟩, _⟩ => absurd hup (hnot hash)⟩
        third := fun z hz => absurd hz (by simp)
        succeeds := ⟨nofun, fun ⟨⟨hash, hup⟩, _⟩ => absurd hup (hnot hash)⟩ }
  | @notListed p q hash r f hp hq h =>
    have hnot (names : List Json) :
        ¬ Listed [(⟨c.contentUrl, .file fileName content⟩, p), (⟨c.url, .json (.obj listing)⟩, q)]
          names := by
      rintro ⟨y, v, ⟨⟩, hv, hnames⟩
      exact itemsOf_ne_ok hq h hv hnames
    exact
      { few := by simp
        starts := by simp
        first := fun x hx => Option.some.inj hx ▸ rfl
        lists := ⟨fun _ => ⟨hash, _, rfl, hp⟩, by simp⟩
        second := fun y hy => Option.some.inj hy ▸ rfl
        places := ⟨by simp, fun ⟨_, names, hlist⟩ => absurd hlist (hnot names)⟩
        third := fun z hz => absurd hz (by simp)
        succeeds := ⟨nofun, fun ⟨_, ⟨names, hlist⟩, _⟩ => absurd hlist (hnot names)⟩ }
  | @asked p q last hash v names kind r hp hq hnames hlast =>
    refine
      { few := by simp
        starts := by simp
        first := fun x hx => Option.some.inj hx ▸ rfl
        lists := ⟨fun _ => ⟨hash, _, rfl, hp⟩, by simp⟩
        second := fun y hy => Option.some.inj hy ▸ rfl
        places := ⟨fun _ => ⟨⟨hash, _, rfl, hp⟩, names, _, v, rfl, hq, hnames⟩, by simp⟩
        third := ?_
        succeeds := ⟨fun hok => ?_, ?_⟩ }
    · rintro z ⟨⟩
      exact ⟨hash, names, _, ⟨_, rfl, hp⟩, ⟨_, v, rfl, hq, hnames⟩, places_lastOperation, rfl⟩
    · rcases r with f | w
      · cases hok
      · exact ⟨⟨hash, _, rfl, hp⟩, ⟨names, _, v, rfl, hq, hnames⟩, _, w, rfl, hlast.carries⟩
    · rintro ⟨-, -, z, w, ⟨⟩, hw⟩
      rw [hlast.eq_ok hw]
      rfl

/-- An endpoint that gives its replies one after the other. -/
def replyFrom : List Reply → Request → Reply × List Reply
  | [], _ => (.failed "", [])
  | reply :: more, _ => (reply, more)

/-- A client whose endpoint does so. -/
def replied : Client × List Reply → Post → Posted × Client × List Reply :=
  Dialogue.through Client.post replyFrom

/-- A reply that carries the value which a text writes. -/
def telling (text : String) : Reply :=
  .response
    { chunks := [Text.utf8 ("\x7b\"outcome\": \"success\", \"result\": " ++ text ++ "\x7d")] }

/-- The replies to an upload, to a listing that lists `a`, and to a replacement. -/
def replacing : List Reply := [telling "\x7b\"h\": 1\x7d", telling "[\"a\"]", telling "null"]

/-- The dialogue that deploys an application from a file as `a`. -/
def application : Talk (Except Failure Unit) :=
  withFile ⟨[(["a.war"], .file [1, 2])]⟩ ⟨.root, []⟩ ⟨.relative, ["a.war"]⟩
    ((create "http://localhost:9990/management" none none).deploy "a")

end ServerRun.Management.Channel
