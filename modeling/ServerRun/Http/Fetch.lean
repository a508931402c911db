import ServerRun.Http.Dialogue
import ServerRun.Http.Message
import ServerRun.Http.Url

/-! Fetching a resource: redirections are followed, twenty of them at most. -/

namespace ServerRun.Http

/-- Why a resource could not be fetched. -/
inductive FetchFault where
  /-- A failure with a text of its own. -/
  | told (message : String)
  /-- An improper address or too many redirections. -/
  | untold
  /-- An address without a scheme. -/
  | noScheme
deriving DecidableEq, Repr

/-- Asks for the resource at an address and follows a number of redirections. -/
def fetchFrom : Nat → Url → Dialogue Request Reply (Except FetchFault Response)
  | hops, u =>
    .ask { method := "GET", url := u.text } fun reply =>
      match reply with
      | .failed m => .done (.error (.told m))
      | .response r =>
        if u.scheme = "" then .done (.error .noScheme)
        else
          match r.redirection? with
          | none => .done (.ok r)
          | some location =>
            match u.redirect? location, r.broken with
            | none, _ => .done (.error .untold)
            | some _, some m => .done (.error (.told m))
            | some next, none =>
              match hops with
              | 0 => .done (.error .untold)
              | hops + 1 => fetchFrom hops next

/-- Fetches the resource at an address. -/
def fetch (url : String) : Dialogue Request Reply (Except FetchFault Response) :=
  match Url.ofRequest? url with
  | some u => fetchFrom 20 u
  | none => .done (.error .untold)

end ServerRun.Http
