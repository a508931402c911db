import ServerRun.Yaml.Token
import ServerRun.Text.Digit
import ServerRun.Text.Encoding

/-! Scalars of YAML documents as their text is written: plain, quoted, literal and folded; and the
anchors and tags in front of nodes. -/

namespace ServerRun.Yaml

def malformed : Except Fault α := .error .malformed

/-! ### quoted scalars -/

/-- The characters of escapes that are one letter. -/
def escapeTable : List (Char × Char) :=
  [('0', '\x00'), ('a', '\x07'), ('b', '\x08'), ('t', '\t'), ('\t', '\t'), ('n', '\n'),
    ('v', '\x0b'), ('f', '\x0c'), ('r', '\x0d'), ('e', '\x1b'), (' ', ' '), ('"', '"'),
    ('\\', '\\'), ('/', '/'), ('N', '\u0085'), ('_', '\u00a0'), ('L', '\u2028'), ('P', '\u2029')]

/-- How many hexadecimal digits follow an escape. -/
def escapeWidth? : Char → Option Nat
  | 'x' => some 2
  | 'u' => some 4
  | 'U' => some 8
  | _ => none

/-- The number that some hexadecimal digits write. -/
def hexNumber? (cs : List Char) : Option Nat :=
  cs.foldl (fun acc c => acc.bind fun n => (Text.hexValue? c).map (n * 16 + ·)) (some 0)

/-- The line breaks after the first one inside a quoted scalar. -/
def quotedBreaks : Nat → Cursor → Except Fault (List Char × Cursor)
  | 0, c => .ok ([], c)
  | fuel + 1, c =>
    if c.atMarker then malformed
    else
      let c := c.skip isBlank
      if isBreak c.peek then do
        let (br, c) := c.lineBreak
        let (more, c) ← quotedBreaks fuel c
        .ok (br ++ more, c)
      else .ok ([], c)

/-- The blanks and line breaks between two words of a quoted scalar, folded. -/
def quotedSpaces (c : Cursor) : Except Fault (List Char × Cursor) :=
  let (blanks, c) := c.span isBlank
  if c.peek == '\x00' then malformed
  else if isBreak c.peek then do
    let (br, c) := c.lineBreak
    let (breaks, c) ← quotedBreaks c.rest.length c
    let first := if br ≠ ['\n'] then br else if breaks = [] then [' '] else []
    .ok (first ++ breaks, c)
  else .ok (blanks, c)

/-- The characters of a quoted scalar up to a blank, a line break or the closing quote. -/
def quotedText (double : Bool) : Nat → Cursor → Except Fault (List Char × Cursor)
  | 0, c => .ok ([], c)
  | fuel + 1, c =>
    let (word, c) := c.span fun ch =>
      !(ch == '\'' || ch == '"' || ch == '\\' || isBlankOrEnd ch)
    let ch := c.peek
    let goOn (chunk : List Char) (c : Cursor) : Except Fault (List Char × Cursor) := do
      let (more, c) ← quotedText double fuel c
      .ok (word ++ chunk ++ more, c)
    if !double && ch == '\'' && c.peekAt 1 == '\'' then goOn ['\''] (c.advance 2)
    else if (double && ch == '\'') || (!double && (ch == '"' || ch == '\\')) then
      goOn [ch] c.forward
    else if double && ch == '\\' then
      let c := c.forward
      let ch := c.peek
      match escapeTable.lookup ch with
      | some e => goOn [e] c.forward
      | none =>
        match escapeWidth? ch with
        | some width =>
          let c := c.forward
          let digits := c.look width
          if digits.length < width then malformed
          else
            match hexNumber? digits with
            | none => malformed
            | some n =>
              if 0x10FFFF < n then .error .badValue
              else goOn [(Text.scalar? n).getD '\ufffd'] (c.advance width)
        | none =>
          if isBreak ch then do
            let (_, c) := c.lineBreak
            let (breaks, c) ← quotedBreaks c.rest.length c
            goOn breaks c
          else malformed
    else .ok (word, c)

/-- The rest of a quoted scalar up to its closing quote. -/
def quotedRest (double : Bool) (quote : Char) : Nat → Cursor → Except Fault (List Char × Cursor)
  | 0, _ => malformed
  | fuel + 1, c =>
    if c.peek == quote then .ok ([], c.forward)
    else do
      let (spaces, c) ← quotedSpaces c
      let (word, c) ← quotedText double (c.rest.length + 1) c
      let (more, c) ← quotedRest double quote fuel c
      .ok (spaces ++ word ++ more, c)

/-- A quoted scalar. -/
def quoted (double : Bool) (c : Cursor) : Except Fault (String × Cursor) := do
  let quote := c.peek
  let c := c.forward
  let (word, c) ← quotedText double (c.rest.length + 1) c
  let (more, c) ← quotedRest double quote (c.rest.length + 1) c
  .ok (String.ofList (word ++ more), c)

/-! ### plain scalars -/

/-- What follows a word of a plain scalar: nothing more of it, or blanks and line breaks. -/
def plainBreaks : Nat → Cursor → Option (List Char) × Cursor
  | 0, c => (some [], c)
  | fuel + 1, c =>
    if c.peek == ' ' then plainBreaks fuel c.forward
    else if isBreak c.peek then
      let (br, c) := c.lineBreak
      if c.atMarker then (none, c)
      else
        let (more, c) := plainBreaks fuel c
        (more.map (br ++ ·), c)
    else (some [], c)

/-- The spaces and line breaks after a word of a plain scalar, folded, and whether there was a line
break; nothing when the scalar ends here. -/
def plainSpaces (c : Cursor) : List Char × Bool × Cursor :=
  let (spaces, c) := c.span (· == ' ')
  if isBreak c.peek then
    let (br, c) := c.lineBreak
    if c.atMarker then ([], true, c)
    else
      match plainBreaks (c.rest.length + 1) c with
      | (none, c) => ([], true, c)
      | (some breaks, c) =>
        let first := if br ≠ ['\n'] then br else if breaks = [] then [' '] else []
        (first ++ breaks, true, c)
  else (spaces, false, c)

/-- A flow indicator that ends a plain scalar inside a flow collection. -/
def isFlowIndicator (ch : Char) : Bool :=
  ch == ',' || ch == '[' || ch == ']' || ch == '\x7b' || ch == '\x7d'

/-- The length of the next word of a plain scalar. -/
def plainLength (flow : Bool) : List Char → Nat
  | [] => 0
  | ch :: rest =>
    let next := rest.headD '\x00'
    if isBlankOrEnd ch || (ch == ':' && (isBlankOrEnd next || (flow && isFlowIndicator next))) ||
        (flow && (ch == '?' || isFlowIndicator ch)) then 0
    else 1 + plainLength flow rest

/-- The words of a plain scalar, and whether it ran over a line break. -/
def plainWords (flow : Bool) (indent : Int) :
    Nat → List Char → Bool → Cursor → List Char × Bool × Cursor
  | 0, _, broke, c => ([], broke, c)
  | fuel + 1, spaces, broke, c =>
    let n := if c.peek == '#' then 0 else plainLength flow c.rest
    if n = 0 then ([], broke, c)
    else
      let word := c.look n
      let (next, brk, c) := plainSpaces (c.advance n)
      if next = [] ∨ c.peek = '#' ∨ (!flow ∧ (c.column : Int) < indent) then
        (spaces ++ word, brk, c)
      else
        let (more, broke, c) := plainWords flow indent fuel next brk c
        (spaces ++ word ++ more, broke, c)

/-- A plain scalar, and whether a line break came after its last word. -/
def plain (flow : Bool) (indent : Int) (c : Cursor) : String × Bool × Cursor :=
  let (cs, broke, c) := plainWords flow (indent + 1) (c.rest.length + 1) [] false c
  (String.ofList cs, broke, c)

/-! ### block scalars -/

/-- Whether the line breaks at the end of a block scalar are kept, dropped, or kept up to one. -/
inductive Chomping where
  | keep
  | strip
  | clip
deriving DecidableEq, Repr

def chomping? : Char → Option Chomping
  | '+' => some .keep
  | '-' => some .strip
  | _ => none

/-- The indicators after the head of a block scalar: its chomping and its indentation. -/
def blockIndicators (c : Cursor) : Except Fault ((Chomping × Option Nat) × Cursor) := do
  let digit (c : Cursor) : Except Fault (Option Nat × Cursor) :=
    if c.peek.isDigit then
      if c.peek == '0' then malformed else .ok (some (c.peek.toNat - 48), c.forward)
    else .ok (none, c)
  let (result, c) ←
    match chomping? c.peek with
    | some chomp => do
      let (increment, c) ← digit c.forward
      pure ((chomp, increment), c)
    | none => do
      let (increment, c) ← digit c
      match increment, chomping? c.peek with
      | some n, some chomp => pure ((chomp, some n), c.forward)
      | i, _ => pure ((.clip, i), c)
  if isSpaceOrEnd c.peek then .ok (result, c) else malformed

/-- The rest of a line that may hold a comment and nothing else. -/
def ignoredLine (c : Cursor) : Except Fault Cursor :=
  let c := c.skip (· == ' ')
  let c := if c.peek == '#' then c.skip (!isBreakOrEnd ·) else c
  if isBreakOrEnd c.peek then .ok c.lineBreak.2 else malformed

/-- The line breaks and leading spaces before a block scalar whose indentation is not given, and the
deepest indentation among them. -/
def blockIndentation : Nat → Nat → Cursor → List Char × Nat × Cursor
  | 0, deepest, c => ([], deepest, c)
  | fuel + 1, deepest, c =>
    if c.peek == ' ' then
      let c := c.forward
      blockIndentation fuel (max deepest c.column) c
    else if isBreak c.peek then
      let (br, c) := c.lineBreak
      let (more, deepest, c) := blockIndentation fuel deepest c
      (br ++ more, deepest, c)
    else ([], deepest, c)

/-- Moves over spaces up to an indentation. -/
def skipIndent (indent : Nat) : Nat → Cursor → Cursor
  | 0, c => c
  | fuel + 1, c =>
    if c.column < indent ∧ c.peek = ' ' then skipIndent indent fuel c.forward else c

/-- The empty lines before the next line of a block scalar. -/
def blockBreaks (indent : Nat) : Nat → Cursor → List Char × Cursor
  | 0, c => ([], c)
  | fuel + 1, c =>
    let c := skipIndent indent indent c
    if isBreak c.peek then
      let (br, c) := c.lineBreak
      let (more, c) := blockBreaks indent fuel c
      (br ++ more, c)
    else ([], c)

/-- The lines of a block scalar after its first empty lines: its text, the last line break and the
empty lines after it. -/
def blockLines (folded : Bool) (indent : Nat) :
    Nat → List Char → Cursor → List Char × List Char × List Char × Cursor
  | 0, breaks, c => ([], [], breaks, c)
  | fuel + 1, breaks, c =>
    if c.column = indent ∧ c.peek ≠ '\x00' then
      let leadingText := !isBlank c.peek
      let (line, c) := c.span (!isBreakOrEnd ·)
      let (br, c) := c.lineBreak
      let (next, c) := blockBreaks indent (c.rest.length + 1) c
      if c.column = indent ∧ c.peek ≠ '\x00' then
        let joint :=
          if folded ∧ br = ['\n'] ∧ leadingText ∧ !isBlank c.peek then
            if next = [] then [' '] else []
          else br
        let (more, last, tail, c) := blockLines folded indent fuel next c
        (breaks ++ line ++ joint ++ more, last, tail, c)
      else (breaks ++ line, br, next, c)
    else ([], [], breaks, c)

/-- A literal or folded block scalar, below an indentation. -/
def block (folded : Bool) (outer : Int) (c : Cursor) : Except Fault (String × Cursor) := do
  let ((chomp, increment), c) ← blockIndicators c.forward
  let c ← ignoredLine c
  let least : Nat := (max (outer + 1) 1).toNat
  let (breaks, indent, c) :=
    match increment with
    | none =>
      let (breaks, deepest, c) := blockIndentation (c.rest.length + 1) 0 c
      (breaks, max least deepest, c)
    | some n =>
      let indent := least + n - 1
      let (breaks, c) := blockBreaks indent (c.rest.length + 1) c
      (breaks, indent, c)
  let (text, last, tail, c) := blockLines folded indent (c.rest.length + 1) breaks c
  let ending :=
    match chomp with
    | .strip => []
    | .clip => last
    | .keep => last ++ tail
  .ok (String.ofList (text ++ ending), c)

/-! ### anchors and tags -/

def isNameChar (c : Char) : Bool := c.isAlphanum || c == '-' || c == '_'

/-- The name of an anchor or an alias. -/
def anchorName (c : Cursor) : Except Fault (String × Cursor) :=
  let (name, c) := c.forward.span isNameChar
  if name = [] then malformed
  else if isBlankOrEnd c.peek || "?:,]\x7d%@`".toList.contains c.peek then
    .ok (String.ofList name, c)
  else malformed

def isUriChar (c : Char) : Bool :=
  c.isAlphanum || "-;/?:@&=+$,_.!~*'()[]%".toList.contains c

/-- The bytes of escapes of the form `%hh` that come next. -/
def uriEscapes : Nat → Cursor → Except Fault (List UInt8 × Cursor)
  | 0, c => .ok ([], c)
  | fuel + 1, c =>
    if c.peek == '%' then
      let c := c.forward
      match Text.hexValue? (c.peekAt 0), Text.hexValue? (c.peekAt 1) with
      | some a, some b => do
        let (more, c) ← uriEscapes fuel (c.advance 2)
        .ok (UInt8.ofNat (a * 16 + b) :: more, c)
      | _, _ => malformed
    else .ok ([], c)

def uriFrom : Nat → Cursor → Except Fault (List Char × Cursor)
  | 0, c => .ok ([], c)
  | fuel + 1, c =>
    if c.peek == '%' then do
      let (bytes, c) ← uriEscapes (c.rest.length + 1) c
      match Text.ofUtf8? bytes with
      | some s => do
        let (more, c) ← uriFrom fuel c
        .ok (s.toList ++ more, c)
      | none => malformed
    else if isUriChar c.peek then do
      let ch := c.peek
      let (more, c) ← uriFrom fuel c.forward
      .ok (ch :: more, c)
    else .ok ([], c)

/-- The text of a tag after its handle. -/
def tagUri (c : Cursor) : Except Fault (String × Cursor) := do
  let (cs, c) ← uriFrom (c.rest.length + 1) c
  if cs = [] then malformed else .ok (String.ofList cs, c)

/-- The handle of a tag: one exclamation mark, or a name between two. -/
def tagHandle (c : Cursor) : Except Fault (String × Cursor) :=
  if c.peek != '!' then malformed
  else
    let c := c.forward
    if c.peek == ' ' then .ok ("!", c)
    else
      let (name, c) := c.span isNameChar
      if c.peek == '!' then .ok (String.ofList ('!' :: name ++ ['!']), c.forward) else malformed

/-- Whether another exclamation mark follows before the next space. -/
def hasHandle : List Char → Bool
  | [] => false
  | c :: rest => if isSpaceOrEnd c then false else c == '!' || hasHandle rest

/-- A tag: its handle, if it has one, and the rest. -/
def tag (c : Cursor) : Except Fault ((Option String × String) × Cursor) := do
  let next := c.peekAt 1
  let (t, c) ←
    if next == '<' then do
      let (uri, c) ← tagUri (c.advance 2)
      if c.peek == '>' then pure ((none, uri), c.forward) else malformed
    else if isBlankOrEnd next then pure ((none, "!"), c.forward)
    else do
      let (handle, c) ←
        if hasHandle (c.rest.drop 1) then tagHandle c else pure ("!", c.forward)
      let (suffix, c) ← tagUri c
      pure ((some handle, suffix), c)
  if isSpaceOrEnd c.peek then .ok (t, c) else malformed

end ServerRun.Yaml
