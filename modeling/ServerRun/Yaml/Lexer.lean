import ServerRun.Yaml.Scalar

/-! From text to tokens. Indentation is made visible by tokens that open and close block
collections. A scalar may turn out to be a key only when a colon follows it; the tokens that open a
mapping are then put in front of it. -/

namespace ServerRun.Yaml

/-- A place where a key may have begun. -/
structure PossibleKey where
  /-- How many tokens came before it. -/
  tokens : Nat
  required : Bool
  index : Nat
  line : Nat
  column : Nat
deriving Repr

/-- The state of the lexer between two tokens. -/
structure Lexer where
  cursor : Cursor
  tokens : Array Token := #[]
  flowLevel : Int := 0
  indent : Int := -1
  indents : List Int := []
  allowKey : Bool := true
  keys : List (Int × PossibleKey) := []
  done : Bool := false

namespace Lexer

abbrev Step := Except Fault Lexer

def inFlow (l : Lexer) : Bool := l.flowLevel != 0

def push (l : Lexer) (t : Token) : Lexer := { l with tokens := l.tokens.push t }

def forward (l : Lexer) (n : Nat) : Lexer := { l with cursor := l.cursor.advance n }

/-- Puts a token in front of those after the first `n`. -/
def insertAt (l : Lexer) (n : Nat) (t : Token) : Lexer :=
  { l with tokens := (l.tokens.toList.insertIdx n t).toArray }

/-- Moves to the next token; outside of flow collections a new line may begin with a key. -/
def skipToToken : Nat → Lexer → Lexer
  | 0, l => l
  | fuel + 1, l =>
    let c := l.cursor.skip (· == ' ')
    let c := if c.peek == '#' then c.skip (!isBreakOrEnd ·) else c
    if isBreak c.peek then
      skipToToken fuel
        { l with cursor := c.lineBreak.2, allowKey := l.allowKey || !l.inFlow }
    else { l with cursor := c }

/-- Forgets the possible keys that are on an earlier line or too far back. -/
def dropStaleKeys (l : Lexer) : Step :=
  let stale (k : PossibleKey) : Bool :=
    k.line != l.cursor.line || decide (1024 < l.cursor.index - k.index)
  if l.keys.any fun k => k.2.required && stale k.2 then malformed
  else .ok { l with keys := l.keys.filter fun k => !stale k.2 }

/-- Closes the block collections that are indented deeper than a column. -/
def unwind (l : Lexer) (column : Int) : Lexer :=
  if l.inFlow then l
  else
    let rec close (tokens : Array Token) (indent : Int) : List Int → Array Token × Int × List Int
      | [] => (tokens, indent, [])
      | i :: rest =>
        if column < indent then close (tokens.push .blockEnd) i rest
        else (tokens, indent, i :: rest)
    let (tokens, indent, indents) := close l.tokens l.indent l.indents
    { l with tokens, indent, indents }

/-- Opens an indentation, and whether it is deeper than the one before. -/
def addIndent (l : Lexer) (column : Int) : Bool × Lexer :=
  if l.indent < column then (true, { l with indents := l.indent :: l.indents, indent := column })
  else (false, l)

/-- Gives up the possible key of the present level. -/
def removeKey (l : Lexer) : Step :=
  if l.keys.any fun k => k.1 == l.flowLevel && k.2.required then malformed
  else .ok { l with keys := l.keys.filter fun k => k.1 != l.flowLevel }

/-- Notes that a key may begin here. -/
def saveKey (l : Lexer) : Step :=
  if l.allowKey then do
    let required := !l.inFlow && l.indent == l.cursor.column
    let l ← l.removeKey
    let k : PossibleKey :=
      ⟨l.tokens.size, required, l.cursor.index, l.cursor.line, l.cursor.column⟩
    .ok { l with keys := (l.flowLevel, k) :: l.keys }
  else .ok l

def streamEnd (l : Lexer) : Step := do
  let l ← (l.unwind (-1)).removeKey
  .ok ({ l with allowKey := false, keys := [], done := true }.push .streamEnd)

/-- The digits of a version number. -/
def versionNumber (c : Cursor) : Except Fault (Nat × Cursor) :=
  match c.span Char.isDigit with
  | ([], _) => malformed
  | (ds, c) => .ok (Text.natOfDigits 0 ds, c)

def directive (l : Lexer) : Step := do
  let l ← (l.unwind (-1)).removeKey
  let (name, c) := l.cursor.forward.span isNameChar
  if name = [] ∨ !isSpaceOrEnd c.peek then malformed
  else do
    let (t, c) ←
      if name = "YAML".toList then do
        let (major, c) ← versionNumber (c.skip (· == ' '))
        if c.peek != '.' then malformed
        else do
          let (minor, c) ← versionNumber c.forward
          if isSpaceOrEnd c.peek then pure (Token.versionDirective major minor, c) else malformed
      else if name = "TAG".toList then do
        let (handle, c) ← tagHandle (c.skip (· == ' '))
        if c.peek != ' ' then malformed
        else do
          let (expansion, c) ← tagUri (c.skip (· == ' '))
          if isSpaceOrEnd c.peek then pure (Token.tagDirective handle expansion, c) else malformed
      else pure (Token.otherDirective, c.skip (!isBreakOrEnd ·))
    let c ← ignoredLine c
    .ok ({ l with cursor := c, allowKey := false }.push t)

def documentMarker (l : Lexer) (t : Token) : Step := do
  let l ← (l.unwind (-1)).removeKey
  .ok (({ l with allowKey := false }.forward 3).push t)

def flowStart (l : Lexer) (t : Token) : Step := do
  let l ← l.saveKey
  .ok (({ l with flowLevel := l.flowLevel + 1, allowKey := true }.forward 1).push t)

def flowEnd (l : Lexer) (t : Token) : Step := do
  let l ← l.removeKey
  .ok (({ l with flowLevel := l.flowLevel - 1, allowKey := false }.forward 1).push t)

def flowEntry (l : Lexer) : Step := do
  let l ← { l with allowKey := true }.removeKey
  .ok ((l.forward 1).push .flowEntry)

/-- Opens a block collection here if the indentation is new, where one may begin. -/
def openBlock (l : Lexer) (t : Token) : Step :=
  if l.inFlow then .ok l
  else if !l.allowKey then malformed
  else
    let (new, l) := l.addIndent l.cursor.column
    .ok (if new then l.push t else l)

def blockEntry (l : Lexer) : Step := do
  let l ← l.openBlock .blockSequenceStart
  let l ← { l with allowKey := true }.removeKey
  .ok ((l.forward 1).push .blockEntry)

def key (l : Lexer) : Step := do
  let l ← l.openBlock .blockMappingStart
  let l ← { l with allowKey := !l.inFlow }.removeKey
  .ok ((l.forward 1).push .key)

def value (l : Lexer) : Step :=
  match l.keys.find? fun k => k.1 == l.flowLevel with
  | some (_, k) =>
    let l := { l with keys := l.keys.filter fun k => k.1 != l.flowLevel }.insertAt k.tokens .key
    let l :=
      if l.inFlow then l
      else
        let (new, l) := l.addIndent k.column
        if new then l.insertAt k.tokens .blockMappingStart else l
    .ok (({ l with allowKey := false }.forward 1).push .value)
  | none => do
    let l ← l.openBlock .blockMappingStart
    let l ← { l with allowKey := !l.inFlow }.removeKey
    .ok ((l.forward 1).push .value)

/-- A token that may begin a key. -/
def leaf (l : Lexer) (read : Cursor → Except Fault (Token × Cursor)) : Step := do
  let l ← l.saveKey
  let (t, c) ← read l.cursor
  .ok ({ l with cursor := c, allowKey := false }.push t)

def blockScalar (l : Lexer) (folded : Bool) : Step := do
  let l ← { l with allowKey := true }.removeKey
  let (s, c) ← block folded l.indent l.cursor
  .ok ({ l with cursor := c }.push (.scalar s false))

def plainScalar (l : Lexer) : Step := do
  let l ← l.saveKey
  let (s, broke, c) := plain l.inFlow l.indent l.cursor
  .ok ({ l with cursor := c, allowKey := broke }.push (.scalar s true))

/-- Whether a plain scalar may begin here. -/
def beginsPlain (l : Lexer) : Bool :=
  let ch := l.cursor.peek
  if isBlankOrEnd ch then false
  else if "-?:,[]\x7b\x7d#&*!|>'\"%@".toList.contains ch || ch.toNat == 96 then
    !isBlankOrEnd (l.cursor.peekAt 1) &&
      (ch == '-' || (!l.inFlow && (ch == '?' || ch == ':')))
  else true

/-- Reads the next token. -/
def next (l : Lexer) : Step := do
  let l ← (skipToToken (l.cursor.rest.length + 1) l).dropStaleKeys
  let l := l.unwind l.cursor.column
  let c := l.cursor
  let ch := c.peek
  let spaceNext := isBlankOrEnd (c.peekAt 1)
  if ch == '\x00' then l.streamEnd
  else if ch == '%' && c.column == 0 then l.directive
  else if c.column == 0 && c.atMarker then
    l.documentMarker (if ch == '-' then .documentStart else .documentEnd)
  else if ch == '[' then l.flowStart .flowSequenceStart
  else if ch == '\x7b' then l.flowStart .flowMappingStart
  else if ch == ']' then l.flowEnd .flowSequenceEnd
  else if ch == '\x7d' then l.flowEnd .flowMappingEnd
  else if ch == ',' then l.flowEntry
  else if ch == '-' && spaceNext then l.blockEntry
  else if ch == '?' && (l.inFlow || spaceNext) then l.key
  else if ch == ':' && (l.inFlow || spaceNext) then l.value
  else if ch == '*' then l.leaf fun c => do
    let (name, c) ← anchorName c
    pure (.alias name, c)
  else if ch == '&' then l.leaf fun c => do
    let (name, c) ← anchorName c
    pure (.anchor name, c)
  else if ch == '!' then l.leaf fun c => do
    let ((handle, suffix), c) ← tag c
    pure (.tag handle suffix, c)
  else if ch == '|' && !l.inFlow then l.blockScalar false
  else if ch == '>' && !l.inFlow then l.blockScalar true
  else if ch == '\'' || ch == '"' then l.leaf fun c => do
    let (s, c) ← quoted (ch == '"') c
    pure (.scalar s false, c)
  else if l.beginsPlain then l.plainScalar
  else malformed

/-- Reads tokens up to the end of the text. -/
def run : Nat → Lexer → Except Fault (List Token)
  | 0, _ => malformed
  | fuel + 1, l =>
    match l.next with
    | .error e => .error e
    | .ok l => if l.done then .ok l.tokens.toList else run fuel l

end Lexer

/-- The characters that a document may hold. -/
def isPrintable (c : Char) : Bool :=
  let n := c.toNat
  n == 9 || n == 10 || n == 13 || (0x20 ≤ n && n ≤ 0x7E) || n == 0x85 ||
    (0xA0 ≤ n && n ≤ 0xD7FF) || (0xE000 ≤ n && n ≤ 0xFFFD) || 0x10000 ≤ n

/-- The tokens of a text; a byte order mark at its start is skipped. -/
def tokens (text : List Char) : Except Fault (List Token) :=
  if !text.all isPrintable then malformed
  else
    let c : Cursor := { rest := text }
    let c := if c.peek == '\ufeff' then c.forward else c
    Lexer.run (2 * text.length + 2) { cursor := c }

end ServerRun.Yaml
