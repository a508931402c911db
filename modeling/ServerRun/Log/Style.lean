import ServerRun.Text.WordChar

/-! Colours of server output: a line takes the colour of the first level word near its start. -/

namespace ServerRun.Log

/-- The level words of server logs and their colours; where one word begins another, the shorter one
comes first. -/
def levelStyles : List (String × String) :=
  [("FATAL", "#B5452F"), ("ERROR", "#B5452F"), ("WARN", "#E8A33D"), ("WARNING", "#E8A33D"),
    ("INFO", "#5B8A72"), ("DEBUG", "#88A896"), ("TRACE", "#88A896")]

/-- The colour of a line without a level word. -/
def plainStyle : String := "#EFF8E2"

/-- Whether a text goes on with a word and the word ends there. -/
def startsWithWord (word cs : List Char) : Bool :=
  word.isPrefixOf cs &&
    match cs.drop word.length with
    | [] => true
    | c :: _ => !Text.isWordChar c

/-- The colour of the first level word that stands alone, in a text after a character. -/
def styleFrom (previous : Option Char) : List Char → Option String
  | [] => none
  | c :: cs =>
    let free := match previous with
      | some p => !Text.isWordChar p
      | none => true
    let found :=
      if free then levelStyles.find? fun l => startsWithWord l.1.toList (c :: cs) else none
    match found with
    | some l => some l.2
    | none => styleFrom (some c) cs

/-- The colour of a line of server output; only its first 64 characters are looked at. -/
def lineStyle (text : String) : String := (styleFrom none (text.toList.take 64)).getD plainStyle

end ServerRun.Log
