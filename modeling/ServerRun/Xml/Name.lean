/-! Names in XML documents, the blanks between them, and the characters a document may hold. -/

namespace ServerRun.Xml

/-- Whether a document may hold a character. -/
def isLegal (c : Char) : Bool :=
  let n := c.toNat
  (0x20 ≤ n || n == 9 || n == 10 || n == 13) && n != 0xFFFE && n != 0xFFFF

def isSpace (c : Char) : Bool := c == ' ' || c == '\t' || c == '\n' || c == '\x0d'

/-- The ranges of characters besides the ASCII ones that may start a name. -/
def nameStartRanges : List (Nat × Nat) :=
  [(0xC0, 0xD6), (0xD8, 0xF6), (0xF8, 0x131), (0x134, 0x13E), (0x141, 0x148), (0x14A, 0x17E),
    (0x180, 0x1C3), (0x1CD, 0x1F0), (0x1F4, 0x1F5), (0x1FA, 0x217), (0x250, 0x2A8),
    (0x2BB, 0x2C1), (0x386, 0x386), (0x388, 0x38A), (0x38C, 0x38C), (0x38E, 0x3A1),
    (0x3A3, 0x3CE), (0x3D0, 0x3D6), (0x401, 0x40C), (0x40E, 0x44F), (0x451, 0x45C),
    (0x45E, 0x481), (0x490, 0x4C4), (0x531, 0x556), (0x561, 0x586), (0x5D0, 0x5EA),
    (0x621, 0x63A), (0x641, 0x64A), (0x671, 0x6B7), (0x905, 0x939), (0xE01, 0xE2E),
    (0x10A0, 0x10C5), (0x10D0, 0x10F6), (0x1E00, 0x1E9B), (0x1EA0, 0x1EF9), (0x1F00, 0x1F15),
    (0x2126, 0x2126), (0x212A, 0x212B), (0x2180, 0x2182), (0x3007, 0x3007), (0x3021, 0x3029),
    (0x3041, 0x3094), (0x30A1, 0x30FA), (0x3105, 0x312C), (0x4E00, 0x9FA5), (0xAC00, 0xD7A3)]

/-- The further ranges of characters that a name may go on with. -/
def nameRestRanges : List (Nat × Nat) :=
  [(0xB7, 0xB7), (0x2D0, 0x2D1), (0x300, 0x345), (0x360, 0x361), (0x387, 0x387),
    (0x483, 0x486), (0x591, 0x5A1), (0x640, 0x640), (0x64B, 0x652), (0x660, 0x669),
    (0x6F0, 0x6F9), (0x901, 0x903), (0x966, 0x96F), (0xE31, 0xE3A), (0xE40, 0xE4E),
    (0xE50, 0xE59), (0x3005, 0x3005), (0x302A, 0x302F), (0x3031, 0x3035), (0x3099, 0x309A),
    (0x309D, 0x309E), (0x30FC, 0x30FE)]

def inRanges (ranges : List (Nat × Nat)) (c : Char) : Bool :=
  ranges.any fun r => r.1 ≤ c.toNat && c.toNat ≤ r.2

/-- Whether a character may start a name, colons aside. -/
def isNameStart (c : Char) : Bool := c.isAlpha || c == '_' || inRanges nameStartRanges c

/-- Whether a name may go on with a character, colons aside. -/
def isNameRest (c : Char) : Bool :=
  isNameStart c || c.isDigit || c == '.' || c == '-' || inRanges nameRestRanges c

/-- A name at the front of a text, and the rest. -/
def name? : List Char → Option (List Char × List Char)
  | [] => none
  | c :: cs =>
    if isNameStart c then
      let (n, rest) := cs.span isNameRest
      some (c :: n, rest)
    else none

/-- A name with the qualifier in front of its colon, if it has one. -/
structure QualifiedName where
  qualifier : Option (List Char)
  name : List Char
deriving DecidableEq, Repr

/-- A name with at most one colon inside, and the rest. -/
def qualifiedName? (cs : List Char) : Option (QualifiedName × List Char) := do
  let (a, rest) ← name? cs
  match rest with
  | ':' :: more => do
    let (b, rest) ← name? more
    if rest.head? == some ':' then none else some (⟨some a, b⟩, rest)
  | _ => some (⟨none, a⟩, rest)

def dropSpaces (cs : List Char) : List Char := cs.dropWhile isSpace

/-- The rest after at least one blank and all that follow. -/
def spaces? : List Char → Option (List Char)
  | [] => none
  | c :: cs => if isSpace c then some (dropSpaces cs) else none

/-- The rest after given characters. -/
def literally? : List Char → List Char → Option (List Char)
  | [], cs => some cs
  | w :: ws, c :: cs => if w = c then literally? ws cs else none
  | _ :: _, [] => none

/-- The text between quotes, and the rest. -/
def quotedText? : List Char → Option (List Char × List Char)
  | [] => none
  | q :: cs =>
    if q = '"' ∨ q = '\'' then
      match cs.span (· != q) with
      | (t, _ :: rest) => some (t, rest)
      | (_, []) => none
    else none

/-- The rest after a comment whose opening is past; two hyphens end it. -/
def afterComment? : List Char → Option (List Char)
  | '-' :: '-' :: cs =>
    match cs with
    | '>' :: rest => some rest
    | _ => none
  | _ :: cs => afterComment? cs
  | [] => none

/-- The rest after the end of an instruction. -/
def afterInstructionEnd? : List Char → Option (List Char)
  | '?' :: '>' :: rest => some rest
  | _ :: cs => afterInstructionEnd? cs
  | [] => none

/-- The rest after an instruction whose opening is past; its name must not be that of the
declaration. -/
def afterInstruction? (cs : List Char) : Option (List Char) := do
  let (n, rest) ← name? cs
  if n.map Char.toLower = ['x', 'm', 'l'] then none
  else
    match rest with
    | '?' :: '>' :: more => some more
    | c :: more => if isSpace c then afterInstructionEnd? more else none
    | [] => none

end ServerRun.Xml
