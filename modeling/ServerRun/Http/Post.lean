import ServerRun.Error
import ServerRun.Http.Message

/-! Posting by a client. How a client sends what is posted is up to it, and so is what it makes of
the answer: its content as JSON and as text. -/

namespace ServerRun

/-- A failure of a library, which is no condition of a run. -/
abbrev Foreign := { f : Failure // ∀ e, f ≠ .run e }

namespace Http

/-- What is posted. -/
structure Post where
  url : String
  body : Body

/-- Why content is not read as JSON. -/
inductive JsonFault where
  | malformed
  /-- Another failure than that of content which is no JSON. -/
  | raised (failure : Foreign)

/-- An answer as a client has it: its content as JSON and as text, or why there is none. -/
structure Answer where
  status : Nat
  json : Except JsonFault Json
  text : Except Foreign String

/-- What comes of posting: an answer, the news that there is none, or another failure. -/
inductive Posted where
  | answered (answer : Answer)
  | failed (message : String)
  | raised (failure : Foreign)

end Http

end ServerRun
