import ServerRun.Command.Basic
import ServerRun.Text.Blank
import ServerRun.Text.Digit

/-! Reading administrative commands. Every reader takes the rest of the text and returns what it
read and the text after it; blanks before a token are skipped. A bare word ends before the
delimiters of its position and loses the blanks at its ends; a quoted string may hold any character,
a backslash taking the next one as it is. Numbers of any length and values in one another to any
depth are read here; `ServerRun.Command.Limits` says which of them are too much. -/

namespace ServerRun.Command

/-- A reason for which reading stopped, and the text that was left. -/
structure Fault where
  reason : Reason
  rest : List Char
deriving Repr

/-- What a reader returns: a value and the text after it, or a fault. -/
abbrev Reading (α : Type) := Except Fault (α × List Char)

/-- The rest of a text after a character that has to come next. -/
def expect (c : Char) (cs : List Char) : Except Fault (List Char) :=
  match Text.trimStart cs with
  | d :: rest => if d = c then .ok rest else .error ⟨.expected c, d :: rest⟩
  | [] => .error ⟨.expected c, []⟩

/-- The characters of a quoted string after its opening quote, and the text after the closing
quote. -/
def readQuoted : List Char → Reading (List Char)
  | [] => .error ⟨.unterminatedString, []⟩
  | ['\\'] => .error ⟨.unterminatedString, []⟩
  | '\\' :: c :: cs => (readQuoted cs).map fun (s, rest) => (c :: s, rest)
  | '"' :: cs => .ok ([], cs)
  | c :: cs => (readQuoted cs).map fun (s, rest) => (c :: s, rest)

/-- The text before the first delimiter without the blanks at its ends, and the text from there. -/
def readBare (stops : List Char) (cs : List Char) : List Char × List Char :=
  (Text.trim (cs.takeWhile (!stops.contains ·)), cs.dropWhile (!stops.contains ·))

/-- A name: a quoted string, or a bare word that is not empty. -/
def readName (stops : List Char) (part : Part) (cs : List Char) : Reading String :=
  match Text.trimStart cs with
  | '"' :: rest => (readQuoted rest).map fun (s, rest) => (String.ofList s, rest)
  | cs =>
    match readBare stops cs with
    | ([], rest) => .error ⟨.missing part, rest⟩
    | (name, rest) => .ok (String.ofList name, rest)

/-- The value that a bare word stands for: a truth value, a whole number or itself. -/
def bareValue (word : List Char) : Json :=
  if word = "true".toList then .bool true
  else if word = "false".toList then .bool false
  else
    match Text.int? word with
    | some i => .int i
    | none => .str (String.ofList word)

mutual

/-- A value that ends before the given delimiters. -/
def readValue : Nat → List Char → List Char → Reading Json
  | 0, _, cs => .error ⟨.missingValue, cs⟩
  | fuel + 1, stops, cs =>
    match Text.trimStart cs with
    | '"' :: rest => (readQuoted rest).map fun (s, rest) => (.str (String.ofList s), rest)
    | '[' :: rest => (readItems fuel [] rest).map fun (xs, rest) => (.arr xs, rest)
    | '\x7b' :: rest => (readParameters fuel '\x7d' [] rest).map fun (fs, rest) => (.obj fs, rest)
    | cs =>
      match readBare stops cs with
      | ([], rest) => .error ⟨.missingValue, rest⟩
      | (word, rest) => .ok (bareValue word, rest)

/-- The items of a list up to its closing bracket, after the items read so far. -/
def readItems : Nat → List Json → List Char → Reading (List Json)
  | 0, _, cs => .error ⟨.missingValue, cs⟩
  | fuel + 1, acc, cs =>
    match Text.trimStart cs with
    | ']' :: rest => .ok (acc, rest)
    | cs =>
      match readValue fuel [',', ']'] cs with
      | .error e => .error e
      | .ok (v, rest) =>
        match Text.trimStart rest with
        | ',' :: rest => readItems fuel (acc ++ [v]) rest
        | ']' :: rest => .ok (acc ++ [v], rest)
        | rest => .error ⟨.expectedNext ']', rest⟩

/-- The parameters up to a closing bracket, after the parameters read so far; of several with one
name the last one counts. -/
def readParameters : Nat → Char → Fields → List Char → Reading Fields
  | 0, _, _, cs => .error ⟨.missingValue, cs⟩
  | fuel + 1, close, acc, cs =>
    match Text.trimStart cs with
    | [] => .error ⟨.missing .parameterName, []⟩
    | c :: cs =>
      if c = close then .ok (acc, cs)
      else
        match readName ['=', close] .parameterName (c :: cs) with
        | .error e => .error e
        | .ok (name, rest) =>
          match expect '=' rest with
          | .error e => .error e
          | .ok rest =>
            match readValue fuel [',', close] rest with
            | .error e => .error e
            | .ok (v, rest) =>
              let acc := Fields.insert acc name v
              match Text.trimStart rest with
              | [] => .error ⟨.expectedNext close, []⟩
              | d :: rest =>
                if d = ',' then readParameters fuel close acc rest
                else if d = close then .ok (acc, rest)
                else .error ⟨.expectedNext close, d :: rest⟩

end

/-- The segments of an address from the start of one, after the segments read so far. A slash that a
colon or the end follows closes the address. -/
def readAddress : Nat → List (String × String) → List Char → Reading (List (String × String))
  | 0, acc, cs => .ok (acc, cs)
  | fuel + 1, acc, '/' :: cs =>
    match Text.trimStart cs with
    | [] => .ok (acc, [])
    | ':' :: cs => .ok (acc, ':' :: cs)
    | cs =>
      match readName ['=', ':', '/'] .addressType cs with
      | .error e => .error e
      | .ok (key, rest) =>
        match expect '=' rest with
        | .error e => .error e
        | .ok rest =>
          match readName ['/', ':'] .addressName rest with
          | .error e => .error e
          | .ok (value, rest) => readAddress fuel (acc ++ [(key, value)]) rest
  | _ + 1, acc, cs => .ok (acc, cs)

/-- The parameters after an operation name, if an opening bracket comes next. -/
def readOptionalParameters (cs : List Char) : Reading Fields :=
  match Text.trimStart cs with
  | '(' :: rest => readParameters (2 * rest.length + 2) ')' [] rest
  | cs => .ok ([], cs)

/-- A command that takes up a whole text without blanks at its ends. -/
def read (cs : List Char) : Except Fault Command := do
  let (address, rest) ← readAddress (cs.length + 1) [] (Text.trimStart cs)
  let rest ← expect ':' rest
  let (operation, rest) ← readName ['('] .operationName rest
  let (parameters, rest) ← readOptionalParameters rest
  match Text.trimStart rest with
  | [] => .ok ⟨address, operation, parameters⟩
  | rest => .error ⟨.trailingInput, rest⟩

/-- Reads a command, the blanks at its ends aside. -/
def parse (command : String) : Except ParseError Command :=
  let cs := Text.trim command.toList
  match read cs with
  | .ok c => .ok c
  | .error e => .error ⟨command, e.reason, cs.length - e.rest.length⟩

end ServerRun.Command
