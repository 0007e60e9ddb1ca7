/-! Records of what happened, for whoever looks after a running program. -/

namespace DiceTower

inductive Channel where
  | vocabulary
  | resolution
  | dice
  | engine
  | session
  deriving DecidableEq, Repr

inductive Severity where
  | info
  | warning
  | error
  deriving DecidableEq, Repr

def Severity.name : Severity → String
  | info => "INFO"
  | warning => "WARNING"
  | error => "ERROR"

structure Record where
  severity : Severity
  channel : Channel
  message : String
  deriving DecidableEq, Repr

end DiceTower
