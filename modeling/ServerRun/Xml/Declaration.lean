import ServerRun.Xml.Reference

/-! Declarations in the document type of an XML document besides those of entities: what elements
hold, which attributes they have, and where notations are described. Of these only the default
values of attributes say something about the document; the others have to be of their form. -/

namespace ServerRun.Xml

/-- The rest after blanks and the end of a declaration. -/
def declarationEnd? (cs : List Char) : Option (List Char) :=
  match dropSpaces cs with
  | '>' :: rest => some rest
  | _ => none

/-- A name in a declaration, and the rest; what follows its colon starts with any character that
names go on with. -/
def declaredName? (cs : List Char) : Option (QualifiedName × List Char) := do
  let (a, rest) ← name? cs
  match rest with
  | ':' :: more =>
    match more.span isNameRest with
    | ([], _) => none
    | (b, rest) => if rest.head? == some ':' then none else some (⟨some a, b⟩, rest)
  | _ => some (⟨none, a⟩, rest)

/-! ### names of things elsewhere -/

/-- The characters of public names. -/
def isPublicChar (c : Char) : Bool := c.isAlphanum || " \x0d\n-'()+,./:=?;!*#@$_%".toList.contains c

/-- The rest after a public name in quotes. -/
def publicName? (cs : List Char) : Option (List Char) := do
  let (t, rest) ← quotedText? cs
  if t.all isPublicChar then some rest else none

/-- The rest after the names of something elsewhere: a system name, or a public and a system
name. -/
def outerName? (cs : List Char) : Option (List Char) :=
  match literally? "SYSTEM".toList cs with
  | some rest => do
    let rest ← spaces? rest
    let (_, rest) ← quotedText? rest
    some rest
  | none => do
    let rest ← literally? "PUBLIC".toList cs
    let rest ← spaces? rest
    let rest ← publicName? rest
    let rest ← spaces? rest
    let (_, rest) ← quotedText? rest
    some rest

/-- The rest after the declaration of a notation; a public name is enough for one. -/
def afterNotationDeclaration? (cs : List Char) : Option (List Char) := do
  let (_, rest) ← name? cs
  let rest ← spaces? rest
  match (outerName? rest).bind declarationEnd? with
  | some rest => some rest
  | none => do
    let rest ← literally? "PUBLIC".toList rest
    let rest ← spaces? rest
    let rest ← publicName? rest
    declarationEnd? rest

/-! ### what elements hold -/

/-- The rest after the mark for how often something may occur, if there is one. -/
def afterOccurrence : List Char → List Char
  | [] => []
  | c :: cs => if c = '?' ∨ c = '*' ∨ c = '+' then cs else c :: cs

mutual

/-- The rest after a name or a group in a content model. -/
def afterItem? : Nat → List Char → Option (List Char)
  | 0, _ => none
  | fuel + 1, cs =>
    match dropSpaces cs with
    | '(' :: rest => afterGroup? fuel none rest
    | rest => (declaredName? rest).map fun r => afterOccurrence r.2

/-- The rest after the items of a group and its end; one separator stands between all of them. -/
def afterGroup? : Nat → Option Char → List Char → Option (List Char)
  | 0, _, _ => none
  | fuel + 1, separator, cs => do
    let rest ← afterItem? fuel cs
    match dropSpaces rest with
    | ')' :: rest => some (afterOccurrence rest)
    | c :: rest =>
      if (c = ',' ∨ c = '|') ∧ (separator.all (· == c)) then afterGroup? fuel (some c) rest
      else none
    | [] => none

end

/-- The rest after the names that may stand between text, and the end of their group. -/
def afterMixed? : Nat → List Char → Option (List Char)
  | 0, _ => none
  | fuel + 1, cs =>
    match dropSpaces cs with
    | ')' :: '*' :: rest => some rest
    | '|' :: rest => do
      let (_, rest) ← declaredName? (dropSpaces rest)
      afterMixed? fuel rest
    | _ => none

/-- The rest after what an element holds: nothing, anything, text, or items. -/
def afterContentModel? (cs : List Char) : Option (List Char) :=
  match cs with
  | '(' :: rest =>
    match literally? "#PCDATA".toList (dropSpaces rest) with
    | some more =>
      match dropSpaces more with
      | ')' :: '*' :: rest => some rest
      | ')' :: rest => some rest
      | rest => afterMixed? (rest.length + 1) rest
    | none => afterGroup? (2 * rest.length + 2) none rest
  | _ => do
    let (n, rest) ← name? cs
    if n = "EMPTY".toList ∨ n = "ANY".toList then some rest else none

/-- The rest after the declaration of what an element holds. -/
def afterElementDeclaration? (cs : List Char) : Option (List Char) := do
  let (_, rest) ← declaredName? cs
  let rest ← spaces? rest
  let rest ← afterContentModel? rest
  declarationEnd? rest

/-! ### attributes -/

/-- A declared attribute with the value it has where none is given. -/
structure DeclaredAttribute where
  element : QualifiedName
  name : QualifiedName
  value : Option (List Char)
deriving Repr

/-- Whether a character may be part of a name token, which has no rule for its start. -/
def isTokenChar (c : Char) : Bool := c == ':' || isNameRest c

/-- The rest after the alternatives of an enumeration and its end. -/
def afterAlternatives? (word? : List Char → Option (List Char)) : Nat → List Char →
    Option (List Char)
  | 0, _ => none
  | fuel + 1, cs => do
    let rest ← word? (dropSpaces cs)
    match dropSpaces rest with
    | ')' :: rest => some rest
    | '|' :: rest => afterAlternatives? word? fuel rest
    | _ => none

/-- The rest after a name token. -/
def afterToken? (cs : List Char) : Option (List Char) :=
  match cs.span isTokenChar with
  | ([], _) => none
  | (_, rest) => some rest

/-- The types of attributes that a word names. -/
def attributeTypes : List (List Char) :=
  ["CDATA", "ID", "IDREF", "IDREFS", "ENTITY", "ENTITIES", "NMTOKEN", "NMTOKENS"].map String.toList

/-- The rest after the type of an attribute. -/
def afterAttributeType? (cs : List Char) : Option (List Char) :=
  match cs with
  | '(' :: rest => afterAlternatives? afterToken? (rest.length + 1) rest
  | _ => do
    let (n, rest) ← name? cs
    if n = "NOTATION".toList then do
      let rest ← spaces? rest
      let rest ← literally? ['('] rest
      afterAlternatives? (fun cs => (name? cs).map (·.2)) (rest.length + 1) rest
    else if attributeTypes.contains n then some rest
    else none

/-- The default of an attribute as it is written, if it has one, and the rest. -/
def attributeDefault? (cs : List Char) : Option (Option (List Char) × List Char) :=
  match cs with
  | '#' :: rest => do
    let (n, rest) ← name? rest
    if n = "REQUIRED".toList ∨ n = "IMPLIED".toList then some (none, rest)
    else if n = "FIXED".toList then do
      let rest ← spaces? rest
      let (t, rest) ← quotedText? rest
      some (some t, rest)
    else none
  | _ => (quotedText? cs).map fun r => (some r.1, r.2)

/-- The attributes that an element is declared to have, with their defaults as they are written,
and the rest. -/
def declaredAttributes? (element : QualifiedName) : Nat → List Char →
    Option (List DeclaredAttribute × List Char)
  | 0, _ => none
  | fuel + 1, cs =>
    match declarationEnd? cs with
    | some rest => some ([], rest)
    | none => do
      let rest ← spaces? cs
      let (n, rest) ← declaredName? rest
      let rest ← spaces? rest
      let rest ← afterAttributeType? rest
      let rest ← spaces? rest
      let (v, rest) ← attributeDefault? rest
      let (more, rest) ← declaredAttributes? element fuel rest
      some (⟨element, n, v⟩ :: more, rest)

/-- The declaration of attributes after its keyword, and the rest. -/
def attributeDeclaration? (cs : List Char) : Option (List DeclaredAttribute × List Char) := do
  let (element, rest) ← declaredName? cs
  declaredAttributes? element (rest.length + 1) rest

end ServerRun.Xml
