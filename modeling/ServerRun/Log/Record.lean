import ServerRun.Json.Basic

/-! Log records: a level, a message and named values. -/

namespace ServerRun.Log

inductive Level where
  | info
  | success
  | warning
  | error
deriving DecidableEq, Repr

def Level.text : Level → String
  | .info => "INFO"
  | .success => "SUCCESS"
  | .warning => "WARNING"
  | .error => "ERROR"

/-- One message with its named values. -/
structure Record where
  level : Level
  message : String
  extra : Fields := []
deriving Repr

end ServerRun.Log
