import ServerRun.Http.Challenge
import ServerRun.Http.Dialogue
import ServerRun.Http.Post
import ServerRun.Http.Url
import ServerRun.Json.Bytes
import ServerRun.Text.Charset

/-! A client that posts by requests, as far as it is written out here: addresses that it does not
take are refused, and a challenge to prove the user is met once. -/

namespace ServerRun.Http

/-- A client: its user, and whether it is still open. -/
structure Client where
  user : Option String := none
  /-- Whether a challenge was met, so that further requests carry proof of the user. -/
  challenged : Bool := false
  closed : Bool := false
deriving Repr

/-- What comes of a challenge that cannot be met. -/
def ChallengeFault.posted : ChallengeFault → Posted
  | .unnamed => .raised ⟨.badValue, nofun⟩
  | .incomplete m => .failed m
  | .unknownAlgorithm => .raised ⟨.badWord, nofun⟩
  | .unsupported => .raised ⟨.unknownMethod, nofun⟩

namespace Response

/-- How deep lists and objects may stand in one another to be read. -/
def depthLimit : Nat := 950

/-- The content of an answer as JSON. -/
def json (r : Response) : Except JsonFault Json :=
  match Json.ofBytes? r.chunks.flatten with
  | some j => if j.depth ≤ depthLimit then .ok j else .error (.raised ⟨.tooDeep, nofun⟩)
  | none => .error .malformed

/-- The content of an answer as text, in the character set that it names. -/
def text (r : Response) : String :=
  let set := ((r.header? "Content-Type").bind charsetName?).bind Text.Charset.ofName?
  let set : Text.Charset := match set with
    | some .multiByte | none => .utf8
    | some s => s
  set.decodeLossy r.chunks.flatten

/-- An answer whose content arrived as a whole. -/
def posted (r : Response) : Posted :=
  match r.broken with
  | some m => .failed m
  | none => .answered ⟨r.status, r.json, .ok r.text⟩

end Response

/-- What comes of a request. -/
def Reply.posted : Reply → Posted
  | .failed m => .failed m
  | .response r => r.posted

namespace Client

/-- The digest challenge of an answer, if it is one and the client has a user to name. -/
def challengeOf? (c : Client) (r : Response) : Option (List Char) :=
  if r.status = 401 ∧ c.user.isSome then
    (r.headerValues "WWW-Authenticate").findSome? digestParts?
  else none

/-- Goes on after an answer: a challenge that can be met is met by sending the request again. -/
def settle (c : Client) (request : Request) (r : Response) :
    Dialogue Request Reply (Posted × Client) :=
  match c.challengeOf? r with
  | none => .done (r.posted, c)
  | some parts =>
    match checkChallenge parts, r.broken with
    | .error f, _ => .done (f.posted, c)
    | .ok (), some m => .done (.failed m, { c with challenged := true })
    | .ok (), none =>
      .ask { request with user := c.user } fun reply =>
        .done (reply.posted, { c with challenged := true })

/-- Posts something. -/
def post (c : Client) (p : Post) : Dialogue Request Reply (Posted × Client) :=
  match Url.ofRequest? p.url with
  | none => .done (.raised ⟨.refusedAddress, nofun⟩, c)
  | some u =>
    if c.closed then .done (.raised ⟨.closedClient, nofun⟩, c)
    else
      let request : Request := { method := "POST", url := u.text, body := p.body }
      .ask { request with user := if c.challenged then c.user else none } fun reply =>
        match reply with
        | .failed m => .done (.failed m, c)
        | .response r =>
          if u.scheme = "" then .done (.raised ⟨.badAddress, nofun⟩, c) else c.settle request r

end Client

end ServerRun.Http
