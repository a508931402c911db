import ServerRun.Xml.Basic
import ServerRun.Xml.Name
import ServerRun.Text.Charset

/-! The characters of an XML document: its encoding is told by its first bytes and by the
declaration at its start. -/

namespace ServerRun.Xml

/-! ### the declaration -/

/-- The characters of the values in the declaration. -/
def isDeclarationChar (c : Char) : Bool := c.isAlphanum || c == '.' || c == '-' || c == '_'

/-- An attribute of the declaration and the rest; blanks alone hold none. -/
def declared? (cs : List Char) : Option (Option (List Char × List Char) × List Char) :=
  match cs with
  | [] => some (none, [])
  | _ => do
    let cs ← spaces? cs
    match cs with
    | [] => some (none, [])
    | _ => do
      let (n, rest) := cs.span fun c => c != '=' && !isSpace c
      match dropSpaces rest with
      | '=' :: more => do
        let (v, rest) ← quotedText? (dropSpaces more)
        if n ≠ [] ∧ v.all isDeclarationChar then some (some (n, v), rest) else none
      | _ => none

/-- What stands in the declaration between its opening and its end. -/
def declarationText? (cs : List Char) : Option (List Char) :=
  let rec upTo : List Char → Option (List Char)
    | '?' :: '>' :: _ => some []
    | c :: cs => (upTo cs).map (c :: ·)
    | [] => none
  upTo cs

/-- Whether the rest of a declaration says nothing or whether the document stands alone. -/
def isStandaloneOrEmpty (cs : List Char) : Bool :=
  match declared? cs with
  | some (none, _) => true
  | some (some (n, v), rest) =>
    n == "standalone".toList && (v == "yes".toList || v == "no".toList) && rest.all isSpace
  | none => false

/-- Whether the attributes of a declaration say that the document stands alone; there are no more
than a few. -/
def saysStandalone : Nat → List Char → Bool
  | 0, _ => false
  | more + 1, cs =>
    match declared? cs with
    | some (some (n, v), rest) =>
      (n == "standalone".toList && v == "yes".toList) || saysStandalone more rest
    | _ => false

/-- The encoding that a declaration names, if any; the outer nothing stands for a declaration that
is not well formed. -/
def declaredEncoding? (cs : List Char) : Option (Option (List Char)) := do
  let (version, rest) ← declared? cs
  let (n, _) ← version
  if n ≠ "version".toList then none
  else do
    let (second, more) ← declared? rest
    match second with
    | none => some none
    | some (n, v) =>
      if n = "encoding".toList then
        if (v.head?.map Char.isAlpha).getD false && isStandaloneOrEmpty more then some (some v)
        else none
      else if isStandaloneOrEmpty rest then some none
      else none

/-- The rest of a document after the opening of a declaration, if it starts with one. -/
def afterDeclarationStart? (cs : List Char) : Option (List Char) := do
  let rest ← literally? "<?xml".toList cs
  match rest with
  | c :: _ => if isSpace c || c == '?' then some rest else none
  | [] => none

/-- Whether a document stands alone, so that declarations elsewhere do not matter to it. -/
def isStandalone (cs : List Char) : Bool :=
  (((afterDeclarationStart? cs).bind declarationText?).map (saysStandalone 3)).getD false

/-- The encoding that the declaration of a document names, if there is one and it does. -/
def encodingOf (cs : List Char) : Except Fault (Option String) :=
  match afterDeclarationStart? cs with
  | none => .ok none
  | some rest =>
    match (declarationText? rest).bind declaredEncoding? with
    | none => .error .malformed
    | some v => .ok (v.map String.ofList)

/-! ### bytes -/

/-- The characters that were decoded, if they were. -/
def decoded (cs : Option String) : Except Fault (List Char) :=
  match cs with
  | some s => .ok s.toList
  | none => .error .malformed

/-- Whether a name is one of the sets with several bytes to a character that a document can declare
with effect. -/
def isUnits (name : String) : Bool :=
  ["utf_16", "utf_16le", "utf_16be"].contains (Text.plainName name)

/-- Decodes bytes in a declared encoding that has single bytes for ASCII. -/
def decodeNamed (name : String) (bs : List UInt8) : Except Fault (List Char) :=
  if isUnits name then .error .malformed
  else
    match Text.Charset.ofName? name with
    | none => .error .unknownEncoding
    | some .multiByte => .error .unsupportedEncoding
    | some .utf8 =>
      let set : Text.Charset := if Text.plainName name = "utf_8" then .utf8 else .asciiHalf
      decoded (set.decode? bs)
    | some set => decoded (set.decode? bs)

/-- Decodes bytes of UTF-16; a declaration must not name another encoding. -/
def decodeUnits (bigEndian : Bool) (bs : List UInt8) : Except Fault (List Char) := do
  let cs ← decoded (Text.ofUtf16? bigEndian bs)
  match ← encodingOf cs with
  | none => .ok cs
  | some name =>
    let plain := Text.plainName name
    if plain = "utf_16" || plain = (if bigEndian then "utf_16be" else "utf_16le") then .ok cs
    else do
      let _ ← decodeNamed name []
      .error .malformed

/-- The bytes of a document without a mark at their start: in UTF-8 unless its declaration says
otherwise. -/
def decodeDeclared (bs : List UInt8) : Except Fault (List Char) := do
  match ← encodingOf (Text.ofLatin1 bs).toList with
  | none => decoded (Text.ofUtf8? bs)
  | some name => decodeNamed name bs

/-- The characters of a document. -/
def decode : List UInt8 → Except Fault (List Char)
  | 0xEF :: 0xBB :: 0xBF :: bs => decodeDeclared bs
  | 0xFE :: 0xFF :: bs => decodeUnits true bs
  | 0xFF :: 0xFE :: bs => decodeUnits false bs
  | 0 :: bs => decodeUnits true (0 :: bs)
  | b :: 0 :: bs => decodeUnits false (b :: 0 :: bs)
  | bs => decodeDeclared bs

end ServerRun.Xml
