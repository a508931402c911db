/-! Tokens of YAML documents, and a cursor over their text. Past the end of the text the cursor sees
the null character, which no document holds. -/

namespace ServerRun.Yaml

inductive Token where
  | streamEnd
  | versionDirective (major minor : Nat)
  | tagDirective (handle expansion : String)
  | otherDirective
  | documentStart
  | documentEnd
  | blockSequenceStart
  | blockMappingStart
  | blockEnd
  | flowSequenceStart
  | flowSequenceEnd
  | flowMappingStart
  | flowMappingEnd
  | blockEntry
  | flowEntry
  | key
  | value
  | alias (name : String)
  | anchor (name : String)
  | tag (handle : Option String) (suffix : String)
  | scalar (text : String) (plain : Bool)
deriving DecidableEq, Repr, Inhabited

/-- Why a document cannot be read. -/
inductive Fault where
  | malformed
  /-- A value that is written well and cannot be built. -/
  | badValue
  /-- A word that its tag does not know. -/
  | badWord
  /-- A text that its tag cannot take apart. -/
  | badForm
  /-- A text that is empty where its tag needs a character. -/
  | emptyText
deriving DecidableEq, Repr

/-- A line break. -/
def isBreak (c : Char) : Bool :=
  c == '\n' || c == '\x0d' || c == '\u0085' || c == '\u2028' || c == '\u2029'

/-- A line break or the end of the text. -/
def isBreakOrEnd (c : Char) : Bool := c == '\x00' || isBreak c

/-- A space, a line break or the end of the text. -/
def isSpaceOrEnd (c : Char) : Bool := c == ' ' || isBreakOrEnd c

/-- A blank, a line break or the end of the text. -/
def isBlankOrEnd (c : Char) : Bool := c == '\t' || isSpaceOrEnd c

def isBlank (c : Char) : Bool := c == ' ' || c == '\t'

/-- A place in a text. -/
structure Cursor where
  rest : List Char
  index : Nat := 0
  line : Nat := 0
  column : Nat := 0
deriving Repr

namespace Cursor

def peek (c : Cursor) : Char := c.rest.headD '\x00'

def peekAt (c : Cursor) (k : Nat) : Char := (c.rest[k]?).getD '\x00'

/-- The next characters, at most as many as asked for. -/
def look (c : Cursor) (n : Nat) : List Char := c.rest.take n

/-- Moves over one character. -/
def forward (c : Cursor) : Cursor :=
  match c.rest with
  | [] => c
  | ch :: rest =>
    if ch == '\x0d' && rest.head? == some '\n' then
      { c with rest, index := c.index + 1, column := c.column + 1 }
    else if isBreak ch then ⟨rest, c.index + 1, c.line + 1, 0⟩
    else if ch == '\ufeff' then { c with rest, index := c.index + 1 }
    else { c with rest, index := c.index + 1, column := c.column + 1 }

/-- Moves over several characters. -/
def advance (c : Cursor) : Nat → Cursor
  | 0 => c
  | n + 1 => c.forward.advance n

/-- The longest run of characters of a class, and the cursor after it. -/
def span (p : Char → Bool) (c : Cursor) : List Char × Cursor :=
  let taken := c.rest.takeWhile p
  (taken, c.advance taken.length)

def skip (p : Char → Bool) (c : Cursor) : Cursor := (c.span p).2

/-- The line break that comes next, in its normal form, and the cursor after it. -/
def lineBreak (c : Cursor) : List Char × Cursor :=
  match c.rest with
  | '\x0d' :: '\n' :: _ => (['\n'], c.advance 2)
  | ch :: _ =>
    if ch == '\u2028' || ch == '\u2029' then ([ch], c.forward)
    else if isBreak ch then (['\n'], c.forward)
    else ([], c)
  | [] => ([], c)

/-- Whether a document marker stands here, and ends here. -/
def atMarker (c : Cursor) : Bool :=
  (c.look 3 == ['-', '-', '-'] || c.look 3 == ['.', '.', '.']) && isBlankOrEnd (c.peekAt 3)

end Cursor

end ServerRun.Yaml
