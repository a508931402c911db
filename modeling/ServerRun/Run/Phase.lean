/-! The phases of a run. -/

namespace ServerRun

inductive Phase where
  | idle
  | provisioning
  | validating
  | launching
  | preCommands
  | deploying
  | postCommands
  | running
  | shutDown
  | failed
deriving DecidableEq, Repr, Inhabited

def Phase.name : Phase → String
  | .idle => "idle"
  | .provisioning => "provisioning"
  | .validating => "validating"
  | .launching => "launching"
  | .preCommands => "pre_commands"
  | .deploying => "deploying"
  | .postCommands => "post_commands"
  | .running => "running"
  | .shutDown => "shut_down"
  | .failed => "failed"

end ServerRun
