import ServerRun.Text.Blank
import ServerRun.Json.Basic

/-! Files of environment variables: one `name=value` a line, with comments, an optional `export`,
quoted values that may span lines, and `$` with a braced name for the value of another variable. A
line of any other form is left out. -/

namespace ServerRun.VariableFile

/-- The blanks within a line. -/
def isLineBlank (c : Char) : Bool := Text.isBlank c && c != '\n' && c != '\x0d'

def isLineEnd (c : Char) : Bool := c == '\n' || c == '\x0d'

/-- The text up to the quote that closes it, and the rest. A quote after a backslash closes the text
only if no later quote does. -/
def quoted (q : Char) : List Char → Option (List Char × List Char)
  | [] => none
  | c :: cs =>
    if c = q then some ([], cs)
    else
      match cs with
      | d :: ds =>
        if c = '\\' ∧ d = q then
          match quoted q ds with
          | some (t, rest) => some (c :: d :: t, rest)
          | none => some ([c], ds)
        else
          match quoted q (d :: ds) with
          | some (t, rest) => some (c :: t, rest)
          | none => none
      | [] => none

/-- Replaces the escapes in single quotes. -/
def unescapeSingle : List Char → List Char
  | '\\' :: '\\' :: cs => '\\' :: unescapeSingle cs
  | '\\' :: '\'' :: cs => '\'' :: unescapeSingle cs
  | c :: cs => c :: unescapeSingle cs
  | [] => []

/-- Replaces the escapes in double quotes. -/
def unescapeDouble : List Char → List Char
  | '\\' :: c :: cs =>
    match c with
    | '\\' => '\\' :: unescapeDouble cs
    | '\'' => '\'' :: unescapeDouble cs
    | '"' => '"' :: unescapeDouble cs
    | 'a' => '\x07' :: unescapeDouble cs
    | 'b' => '\x08' :: unescapeDouble cs
    | 'f' => '\x0c' :: unescapeDouble cs
    | 'n' => '\n' :: unescapeDouble cs
    | 'r' => '\x0d' :: unescapeDouble cs
    | 't' => '\t' :: unescapeDouble cs
    | 'v' => '\x0b' :: unescapeDouble cs
    | _ => '\\' :: unescapeDouble (c :: cs)
  | c :: cs => c :: unescapeDouble cs
  | [] => []

/-- The part of a value before a comment, which is a number sign after a blank. -/
def beforeComment : List Char → List Char
  | [] => []
  | c :: cs =>
    if Text.isBlank c && ((cs.dropWhile Text.isBlank).head? == some '#') then []
    else c :: beforeComment cs

/-- The name at the front of a line; a comment has none. -/
def name? (cs : List Char) : Option (Option (List Char) × List Char) :=
  match cs with
  | '#' :: _ => some (none, cs)
  | '\'' :: rest =>
    match rest.span (· != '\'') with
    | (c :: n, _ :: rest) => some (some (c :: n), rest)
    | _ => none
  | _ =>
    match cs.span fun c => c != '=' && c != '#' && !Text.isBlank c with
    | ([], _) => none
    | (n, rest) => some (some n, rest)

/-- The value after an equals sign and its blanks, and the rest. -/
def value? (cs : List Char) : Option (List Char × List Char) :=
  match cs with
  | [] => some ([], [])
  | '\'' :: rest => (quoted '\'' rest).map fun r => (unescapeSingle r.1, r.2)
  | '"' :: rest => (quoted '"' rest).map fun r => (unescapeDouble r.1, r.2)
  | _ =>
    let (part, rest) := cs.span (!isLineEnd ·)
    some (Text.trimEnd (beforeComment part), rest)

def dropLineEnd : List Char → List Char
  | '\x0d' :: '\n' :: cs => cs
  | c :: cs => if isLineEnd c then cs else c :: cs
  | [] => []

/-- The rest after a comment and the end of the line, if nothing else stands there. -/
def lineEnd? (cs : List Char) : Option (List Char) :=
  let cs := cs.dropWhile isLineBlank
  let cs := if cs.head? == some '#' then cs.dropWhile (!isLineEnd ·) else cs
  match cs with
  | [] => some []
  | c :: _ => if isLineEnd c then some (dropLineEnd cs) else none

/-- Drops `export` and the blanks after it. -/
def dropExport : List Char → List Char
  | 'e' :: 'x' :: 'p' :: 'o' :: 'r' :: 't' :: c :: cs =>
    if isLineBlank c then cs.dropWhile isLineBlank
    else 'e' :: 'x' :: 'p' :: 'o' :: 'r' :: 't' :: c :: cs
  | cs => cs

/-- A name with its value; a name without an equals sign has none. -/
abbrev Binding := String × Option String

/-- Where reading a line goes on after a fault. -/
def skipLine (cs : List Char) : List Char := dropLineEnd (cs.dropWhile (!isLineEnd ·))

/-- What a line binds, and the rest; without a fault or after one. -/
def line (cs : List Char) : Option Binding × List Char :=
  let cs := dropExport (cs.dropWhile Text.isBlank)
  match name? cs with
  | none => (none, skipLine cs)
  | some (name, rest) =>
    let rest := rest.dropWhile isLineBlank
    match rest with
    | '=' :: more =>
      let more := more.dropWhile isLineBlank
      match value? more with
      | none => (none, skipLine more)
      | some (v, more) =>
        match lineEnd? more with
        | none => (none, skipLine more)
        | some more => (name.map fun n => (String.ofList n, some (String.ofList v)), more)
    | _ =>
      match lineEnd? rest with
      | none => (none, skipLine rest)
      | some more => (name.map fun n => (String.ofList n, none), more)

/-- The bindings of a text, line by line. -/
def bindingsFrom : Nat → List Char → List Binding
  | 0, _ => []
  | fuel + 1, cs =>
    match cs with
    | [] => []
    | _ =>
      match line cs with
      | (some b, rest) => b :: bindingsFrom fuel rest
      | (none, rest) => bindingsFrom fuel rest

/-- The name and the default of a reference after its opening brace, and the rest. -/
def reference? (cs : List Char) : Option (String × String × List Char) :=
  match cs.span fun c => c != '}' && c != ':' with
  | (n, '}' :: rest) => some (String.ofList n, "", rest)
  | (n, ':' :: '-' :: more) =>
    match more.span (· != '}') with
    | (d, _ :: rest) => some (String.ofList n, String.ofList d, rest)
    | _ => none
  | _ => none

/-- Replaces the references to variables in a value. -/
def expand (lookup : String → Option (Option String)) : Nat → List Char → List Char
  | 0, cs => cs
  | _ + 1, [] => []
  | fuel + 1, c :: cs =>
    match c, cs with
    | '$', '\x7b' :: more =>
      match reference? more with
      | some (name, dflt, rest) =>
        (((lookup name).getD (some dflt)).getD "").toList ++ expand lookup fuel rest
      | none => c :: expand lookup fuel cs
    | _, _ => c :: expand lookup fuel cs

/-- Gives the bindings their values one after the other: a reference takes the value bound above it
or, failing that, the one in the environment. -/
def resolve (environment : List (String × String)) (bindings : List Binding) : List Binding :=
  bindings.foldl (fun done b =>
    let lookup (name : String) : Option (Option String) :=
      (Fields.get? done name).or ((Fields.get? environment name).map some)
    let v := b.2.map fun v => String.ofList (expand lookup (v.length + 1) v.toList)
    Fields.insert done b.1 v) []

/-- The variables that a text binds, references replaced. -/
def read (environment : List (String × String)) (text : String) : List Binding :=
  let cs := text.toList
  resolve environment (bindingsFrom (cs.length + 1) cs)

end ServerRun.VariableFile
