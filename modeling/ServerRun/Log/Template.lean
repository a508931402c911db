import ServerRun.Json.Writer
import ServerRun.Log.Palette

/-! Templates for log lines. A template is text with colour tags and with fields in braces; a brace
that is text is written twice. Texts from outside are written so that they neither open a field nor
read as a colour tag. -/

namespace ServerRun.Log

/-- What a template is made of. -/
inductive Piece where
  | char (c : Char)
  /-- A field: its name and, after a colon, how to write it. -/
  | field (name : List Char) (form : List Char)
deriving DecidableEq, Repr

/-! ### reading templates -/

/-- The name and the form of a field up to its closing brace, and the rest. -/
def fieldBefore? : List Char → Option (List Char × List Char)
  | '}' :: rest => some ([], rest)
  | '\x7b' :: _ => none
  | c :: cs => (fieldBefore? cs).map fun r => (c :: r.1, r.2)
  | [] => none

/-- A field from the text between its braces. -/
def Piece.ofField (cs : List Char) : Piece :=
  .field (cs.takeWhile (· != ':')) ((cs.dropWhile (· != ':')).drop 1)

/-- The pieces of a template; none if a brace stands alone or a field stays open. -/
def piecesFrom : Nat → List Char → Option (List Piece)
  | 0, _ => none
  | _ + 1, [] => some []
  | fuel + 1, c :: cs =>
    if c = '\x7b' then
      match cs with
      | '\x7b' :: rest => (piecesFrom fuel rest).map (.char '\x7b' :: ·)
      | _ => do
        let (inner, rest) ← fieldBefore? cs
        let pieces ← piecesFrom fuel rest
        some (.ofField inner :: pieces)
    else if c = '\x7d' then
      match cs with
      | '\x7d' :: rest => (piecesFrom fuel rest).map (.char '\x7d' :: ·)
      | _ => none
    else (piecesFrom fuel cs).map (.char c :: ·)

def pieces? (template : List Char) : Option (List Piece) :=
  piecesFrom (template.length + 1) template

/-! ### writing templates -/

/-- A text with its braces written twice. -/
def doubleBraces : List Char → List Char
  | [] => []
  | c :: cs =>
    if c = '\x7b' ∨ c = '\x7d' then c :: c :: doubleBraces cs else c :: doubleBraces cs

/-- A text in which no angle bracket opens a tag. -/
def guardTags : List Char → List Char
  | [] => []
  | c :: cs => if c = '<' then '\\' :: c :: guardTags cs else c :: guardTags cs

/-- A text in a colour, as a template writes it. -/
def tagged (color text : String) : String := "<fg " ++ color ++ ">" ++ text ++ "</>"

/-- The tag that opens the colour of a level. -/
def levelTag (level : String) : String :=
  let fg (color : String) : String := "<fg " ++ color ++ ">"
  match level with
  | "TRACE" => fg dim
  | "DEBUG" => fg muted
  | "INFO" => fg blue
  | "SUCCESS" => fg green
  | "WARNING" => fg amber
  | "ERROR" => fg red
  | "CRITICAL" => fg red ++ "<bold>"
  | _ => fg pale

/-- Named values as a line shows them: each name with the text of its value. -/
def extraText (extra : List (String × String)) : String :=
  String.intercalate " " (extra.map fun e => e.1 ++ "=" ++ e.2)

/-- The part of a template for the time, the level and the message. -/
def lineStart (level : String) : String :=
  tagged muted "\x7btime:HH:mm:ss\x7d" ++ " " ++ tagged dim "│" ++ " " ++ levelTag level ++
    "\x7blevel: <8\x7d</>" ++ tagged dim "│" ++ " " ++ tagged pale "\x7bmessage\x7d"

/-- The part of a template for named values. -/
def extraPart (extra : List (String × String)) : String :=
  if extra.isEmpty then ""
  else
    " " ++ tagged muted
      ("│ " ++ String.ofList (guardTags (doubleBraces (extraText extra).toList)))

/-- The end of a template: a line end, and the exception on lines of its own if there is one. -/
def lineEnd (hasException : Bool) : String :=
  "\n" ++ if hasException then "\x7bexception\x7d\n" else ""

/-- The template of the line for a record of a level with named values, whatever their texts are. -/
def templateOfTexts (level : String) (extra : List (String × String)) (hasException : Bool) :
    String :=
  lineStart level ++ extraPart extra ++ lineEnd hasException

/-- The template of the line for a record of a level with named values. -/
def template (level : String) (extra : Fields) (hasException : Bool) : String :=
  templateOfTexts level (extra.map fun e => (e.1, e.2.display)) hasException

end ServerRun.Log
