import ServerRun.Json.Basic

/-! Requests and their answers. -/

namespace ServerRun.Http

/-- What a request carries. -/
inductive Body where
  | empty
  | json (value : Json)
  | file (name : String) (bytes : List UInt8)
deriving Repr

structure Request where
  method : String
  url : String
  /-- The user in whose name the request is sent, if it carries proof of that. -/
  user : Option String := none
  body : Body := .empty
deriving Repr

/-- An answer: its status, its headers, and its content as it arrives, which may break off. -/
structure Response where
  status : Nat := 200
  headers : List (String × String) := []
  chunks : List (List UInt8) := []
  broken : Option String := none
deriving Repr, Inhabited

/-- What comes of a request: an answer, or the news that there is none. -/
inductive Reply where
  | response (r : Response)
  | failed (message : String)
deriving Repr

namespace Response

/-- The values of a header, in whichever case its name is written. -/
def headerValues (r : Response) (name : String) : List String :=
  let lower (s : String) : List Char := s.toList.map Char.toLower
  (r.headers.filter fun h => lower h.1 == lower name).map (·.2)

/-- The value of a header; several values count as one list. -/
def header? (r : Response) (name : String) : Option String :=
  match r.headerValues name with
  | [] => none
  | vs => some (String.intercalate ", " vs)

/-- Whether the status says that all went well. -/
def isSuccess (r : Response) : Bool := 200 ≤ r.status && r.status < 300

/-- Where an answer redirects to. -/
def redirection? (r : Response) : Option String :=
  if [301, 302, 303, 307, 308].contains r.status then r.header? "Location" else none

end Response

end ServerRun.Http
