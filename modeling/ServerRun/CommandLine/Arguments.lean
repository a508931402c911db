/-! Words of a command line. A word that begins with a hyphen is an option, written with its value
in the next word, or behind an equals sign if it is a long one, or at once behind the letter if it
is a short one; two hyphens alone end the options; every other word is an operand. -/

namespace ServerRun.CommandLine

/-- What is wrong with the words of a command line. -/
inductive UsageError where
  | unknownOption (word : String)
  | missingValue (word : String)
  | needlessValue (word : String)
  | badValue (option value : String)
  | extraOperand (word : String)
  | missingCommand
  | unknownCommand (word : String)
deriving DecidableEq, Repr

/-- An option that takes a value: its name, and the letter of its short form. -/
structure Switch where
  name : String
  letter : Option Char := none
deriving DecidableEq, Repr

/-- How the words of a command line are read. -/
structure Grammar where
  switches : List Switch
  /-- Whether options may follow operands. -/
  mixed : Bool := true

/-- What the words of a command line say: the values of options, the latest last; whether help is
asked for; and the operands. -/
structure Words where
  values : List (String × String) := []
  help : Bool := false
  operands : List String := []
deriving DecidableEq, Repr

/-- What one word that begins with a hyphen says. -/
inductive OptionWord where
  | help
  /-- An option whose value is part of the word or else is the next word. -/
  | switch (name : String) (value : Option String)
deriving DecidableEq, Repr

/-- The option that asks for help. -/
def helpOption : String := "--help"

/-- A text up to its first equals sign, and the text after that. -/
def splitEquals (word : String) : String × Option String :=
  let (name, rest) := word.toList.span (· != '=')
  (String.ofList name, match rest with
    | [] => none
    | _ :: value => some (String.ofList value))

/-- Reads a word that begins with a hyphen. -/
def Grammar.optionWord (g : Grammar) (word : String) : Except UsageError OptionWord :=
  let (name, value) := splitEquals word
  if name = helpOption then
    match value with
    | none => .ok .help
    | some _ => .error (.needlessValue word)
  else
    match g.switches.find? fun s => "--" ++ s.name == name with
    | some s => .ok (.switch s.name value)
    | none =>
      match word.toList with
      | '-' :: '-' :: _ => .error (.unknownOption word)
      | _ :: c :: rest =>
        match g.switches.find? fun s => s.letter == some c with
        | some s => .ok (.switch s.name (if rest = [] then none else some (String.ofList rest)))
        | none => .error (.unknownOption word)
      | _ => .error (.unknownOption word)

def beginsOption (word : String) : Bool := word.toList.head? == some '-' && word != "-"

/-- A reading with one more thing in front. -/
def Words.withValue (name value : String) (w : Words) : Words :=
  { w with values := (name, value) :: w.values }

def Words.withOperand (word : String) (w : Words) : Words :=
  { w with operands := word :: w.operands }

/-- Reads words from the left. -/
def Grammar.read (g : Grammar) : List String → Except UsageError Words
  | [] => .ok {}
  | word :: rest =>
    if word = "--" then .ok { operands := rest }
    else if beginsOption word then
      match g.optionWord word with
      | .error e => .error e
      | .ok .help => (g.read rest).map fun w => { w with help := true }
      | .ok (.switch name (some v)) => (g.read rest).map (·.withValue name v)
      | .ok (.switch name none) =>
        match rest with
        | [] => .error (.missingValue word)
        | v :: rest => (g.read rest).map (·.withValue name v)
    else if g.mixed then (g.read rest).map (·.withOperand word)
    else .ok { operands := word :: rest }

/-- The value of an option: the latest one counts. -/
def Words.value? (w : Words) (name : String) : Option String := w.values.reverse.lookup name

end ServerRun.CommandLine
