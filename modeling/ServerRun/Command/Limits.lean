import ServerRun.Command.Parser
import ServerRun.Error

/-! How much of a command can be read. A whole number may have so many digits, and the readers of
values and parameters may call each other so deep. A command that asks for more is not told to be no
command: reading it ends in an error of another kind, at the first place that asks for too much. -/

namespace ServerRun

namespace Command

/-- What reading a command asks too much of. -/
inductive Excess where
  /-- A whole number has too many digits. -/
  | digits
  /-- Values stand too deep in one another. -/
  | calls
deriving DecidableEq, Repr

def Excess.failure : Excess → Failure
  | .digits => .badValue
  | .calls => .tooDeep

/-- How many digits a whole number may have, and how many calls of the readers of values and
parameters may be inside one another. -/
structure Limits where
  digits : Nat
  calls : Nat
deriving DecidableEq, Repr

/-- The limits where a command is read from within a few other calls. -/
def Limits.standard : Limits := ⟨Text.digitLimit, 950⟩

/-- Whether a bare word is a whole number of too many digits. -/
def isTooLong (digits : Nat) (word : List Char) : Bool :=
  (Text.int? word).isSome && digits < (word.filter Text.isDigit).length

-- Each of the following goes through a text as the reader of that name does and is given how many
-- calls are left to it. It ends where the reader stops with a fault.

mutual

/-- The first excess in a value. -/
def excessOfValue (digits : Nat) : Nat → Nat → List Char → List Char → Option Excess
  | 0, _, _, _ => none
  | fuel + 1, calls, stops, cs =>
    match Text.trimStart cs with
    | '"' :: _ => none
    | '[' :: rest => excessOfItems digits fuel calls rest
    | '\x7b' :: rest =>
      if calls = 0 then some .calls else excessOfParameters digits fuel (calls - 1) '\x7d' rest
    | cs => if isTooLong digits (readBare stops cs).1 then some .digits else none

/-- The first excess in the items of a list. -/
def excessOfItems (digits : Nat) : Nat → Nat → List Char → Option Excess
  | 0, _, _ => none
  | fuel + 1, calls, cs =>
    match Text.trimStart cs with
    | ']' :: _ => none
    | cs =>
      if calls = 0 then some .calls
      else
        (excessOfValue digits fuel (calls - 1) [',', ']'] cs).or <|
          match readValue fuel [',', ']'] cs with
          | .error _ => none
          | .ok (_, rest) =>
            match Text.trimStart rest with
            | ',' :: rest => excessOfItems digits fuel calls rest
            | _ => none

/-- The first excess in the parameters up to a closing bracket. -/
def excessOfParameters (digits : Nat) : Nat → Nat → Char → List Char → Option Excess
  | 0, _, _, _ => none
  | fuel + 1, calls, close, cs =>
    match Text.trimStart cs with
    | [] => if calls = 0 then some .calls else none
    | c :: cs =>
      if c = close then none
      else if calls = 0 then some .calls
      else
        match readName ['=', close] .parameterName (c :: cs) with
        | .error _ => none
        | .ok (_, rest) =>
          match expect '=' rest with
          | .error _ => none
          | .ok rest =>
            (excessOfValue digits fuel (calls - 1) [',', close] rest).or <|
              match readValue fuel [',', close] rest with
              | .error _ => none
              | .ok (_, rest) =>
                match Text.trimStart rest with
                | ',' :: rest => excessOfParameters digits fuel calls close rest
                | _ => none

end

/-- The text behind the operation of a command. -/
def readHead (cs : List Char) : Except Fault (List Char) := do
  let (_, rest) ← readAddress (cs.length + 1) [] (Text.trimStart cs)
  let rest ← expect ':' rest
  let (_, rest) ← readName ['('] .operationName rest
  return rest

/-- The first excess in a command. -/
def Limits.excess? (limits : Limits) (text : String) : Option Excess :=
  if limits.calls = 0 then some .calls
  else
    match readHead (Text.trim text.toList) with
    | .error _ => none
    | .ok rest =>
      match Text.trimStart rest with
      | '(' :: rest =>
        excessOfParameters limits.digits (2 * rest.length + 2) (limits.calls - 1) ')' rest
      | _ => none

/-- Reads a command unless that asks too much. -/
def parseUnless (excess? : String → Option Excess) (text : String) : Except Failure Command :=
  match excess? text with
  | some e => .error e.failure
  | none =>
    match parse text with
    | .ok c => .ok c
    | .error e => .error (.run (.commandSyntax e.command e.description))

/-- Reads a command within limits. -/
def parseWithin (limits : Limits) (text : String) : Except Failure Command :=
  parseUnless limits.excess? text

end Command

end ServerRun
