import ServerRun.Json.Basic

/-! Administrative commands: an address of typed names, an operation and named parameters, and the
request that a command stands for. -/

namespace ServerRun

/-- An administrative command as it is written. -/
structure Command where
  address : List (String × String)
  operation : String
  parameters : Fields
deriving Repr, Inhabited

namespace Command

/-- One segment of an address as a request shows it. -/
def segment (s : String × String) : Json := .obj [(s.1, .str s.2)]

/-- The request of a command: its operation and address, over which its parameters are merged. -/
def request (c : Command) : Fields :=
  Fields.merge
    [("operation", .str c.operation), ("address", .arr (c.address.map segment))] c.parameters

/-- The request that runs several requests as one: all of them take effect or none does. -/
def composite (steps : List Json) : Fields :=
  [("operation", .str "composite"), ("address", .arr []), ("steps", .arr steps)]

/-- The named parts of a command that may be missing. -/
inductive Part where
  | addressType
  | addressName
  | operationName
  | parameterName
deriving DecidableEq, Repr

def Part.text : Part → String
  | .addressType => "address type"
  | .addressName => "address name"
  | .operationName => "operation name"
  | .parameterName => "parameter name"

/-- Why a text is no command. -/
inductive Reason where
  | expected (c : Char)
  | expectedNext (close : Char)
  | missing (part : Part)
  | missingValue
  | unterminatedString
  | trailingInput
deriving DecidableEq, Repr

def Reason.text : Reason → String
  | .expected c => "expected '" ++ c.toString ++ "'"
  | .expectedNext close => "expected ',' or '" ++ close.toString ++ "'"
  | .missing part => "missing " ++ part.text
  | .missingValue => "missing value"
  | .unterminatedString => "unterminated string"
  | .trailingInput => "unexpected trailing input"

/-- A text that is no command, the reason, and the position where reading stopped, counted in code
points of the text without the blanks at its ends. -/
structure ParseError where
  command : String
  reason : Reason
  position : Nat
deriving DecidableEq, Repr

def ParseError.description (e : ParseError) : String :=
  e.reason.text ++ " at position " ++ toString e.position

end Command

end ServerRun
