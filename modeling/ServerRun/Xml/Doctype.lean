import ServerRun.Xml.Declaration

/-! The document type of an XML document, of which the declared entities and the default values of
attributes matter. -/

namespace ServerRun.Xml

/-- The text of an entity: characters referred to by number are put in, references to entities
stay. -/
def entityText : Nat → List Char → Option (List Char)
  | 0, _ => none
  | _ + 1, [] => some []
  | fuel + 1, c :: cs =>
    if c = '%' then none
    else if c = '&' then
      match reference? cs with
      | none => none
      | some (.char r, rest) => (entityText fuel rest).map (r :: ·)
      | some (.entity name, rest) =>
        (entityText fuel rest).map fun t => '&' :: (name.toList ++ ';' :: t)
    else (entityText fuel cs).map (c :: ·)

/-- The rest after the notation of an unparsed entity, if one is given. -/
def afterNotation (cs : List Char) : Option (List Char) :=
  match (spaces? cs).bind (literally? "NDATA".toList) with
  | some rest => do
    let rest ← spaces? rest
    let (_, rest) ← name? rest
    some rest
  | none => some cs

/-- Adds an entity, unless one of its name is there. -/
def Entities.add (es : Entities) (name : String) (text : Option (List Char)) : Entities :=
  if (Fields.get? es.texts name).isSome then es else { es with texts := es.texts ++ [(name, text)] }

/-- The declaration of an entity after its keyword: its name and text, unless it is one for
declarations only, and the rest. -/
def entityDeclaration? (cs : List Char) :
    Option (Option (String × Option (List Char)) × List Char) := do
  let (isParameter, cs) ←
    match cs with
    | '%' :: rest => (spaces? rest).map (true, ·)
    | _ => some (false, cs)
  let (n, rest) ← name? cs
  let rest ← spaces? rest
  let (text, rest) ←
    match quotedText? rest with
    | some (t, rest) => (entityText (t.length + 1) t).map fun t => (some t, rest)
    | none => do
      let rest ← outerName? rest
      let rest ← if isParameter then some rest else afterNotation rest
      some (none, rest)
  let rest ← declarationEnd? rest
  some (if isParameter then none else some (String.ofList n, text), rest)

/-- What a document type declares. -/
structure Doctype where
  entities : Entities := {}
  attributes : List DeclaredAttribute := []
  /-- Whether declarations no longer count because some before them are elsewhere. -/
  isSkipping : Bool := false
deriving Repr

namespace Doctype

/-- Adds an entity unless declarations no longer count. -/
def addEntity (d : Doctype) (name : String) (text : Option (List Char)) : Doctype :=
  if d.isSkipping then d else { d with entities := d.entities.add name text }

/-- Whether an attribute of an element is declared. -/
def declares (d : Doctype) (element name : QualifiedName) : Bool :=
  d.attributes.any fun a => a.element == element && a.name == name

/-- Adds an attribute unless it is declared or declarations no longer count; its default has to be
a proper value. -/
def addAttribute? (d : Doctype) (a : DeclaredAttribute) : Option Doctype :=
  if d.isSkipping then some d
  else do
    let value ←
      match a.value with
      | some t => (d.entities.attributeValue? t).map some
      | none => some none
    if d.declares a.element a.name then some d
    else some { d with attributes := d.attributes ++ [{ a with value := value }] }

/-- A document type with a part elsewhere, after which undeclared entities may be declared there. -/
def withOuterPart (d : Doctype) : Doctype :=
  { d with entities := { d.entities with openEnded := true } }

/-- The attributes of an element that have a value where none is given. -/
def defaults (d : Doctype) (element : QualifiedName) : List (QualifiedName × List Char) :=
  (d.attributes.filter (·.element == element)).filterMap fun a => a.value.map (a.name, ·)

/-- The declarations between the brackets of a document type, and the rest; declarations elsewhere
matter unless the document stands alone. -/
def declarations? (standalone : Bool) : Nat → Doctype → List Char →
    Option (Doctype × List Char)
  | 0, _, _ => none
  | fuel + 1, d, cs =>
    match dropSpaces cs with
    | ']' :: rest => some (d, rest)
    | '%' :: rest => do
      let (_, rest) ← name? rest
      let rest ← literally? [';'] rest
      let d := if standalone then d else { d.withOuterPart with isSkipping := true }
      declarations? standalone fuel d rest
    | '<' :: '?' :: rest => (afterInstruction? rest).bind (declarations? standalone fuel d)
    | '<' :: '!' :: '-' :: '-' :: rest =>
      (afterComment? rest).bind (declarations? standalone fuel d)
    | '<' :: '!' :: rest => do
      let (keyword, rest) ← name? rest
      let rest ← spaces? rest
      match String.ofList keyword with
      | "ENTITY" => do
        let (entity, rest) ← entityDeclaration? rest
        let d := match entity with
          | some (name, text) => d.addEntity name text
          | none => d
        declarations? standalone fuel d rest
      | "ATTLIST" => do
        let (attributes, rest) ← attributeDeclaration? rest
        let d ← attributes.foldlM addAttribute? d
        declarations? standalone fuel d rest
      | "ELEMENT" => (afterElementDeclaration? rest).bind (declarations? standalone fuel d)
      | "NOTATION" => (afterNotationDeclaration? rest).bind (declarations? standalone fuel d)
      | _ => none
    | _ => none

/-- The document type after its keyword, and the rest. -/
def ofText? (standalone : Bool) (cs : List Char) : Option (Doctype × List Char) := do
  let cs ← spaces? cs
  let (_, rest) ← declaredName? cs
  let (d, rest) : Doctype × List Char :=
    match (spaces? rest).bind outerName? with
    | some rest => (if standalone then {} else withOuterPart {}, rest)
    | none => ({}, rest)
  match dropSpaces rest with
  | '[' :: inner => do
    let (d, rest) ← declarations? standalone (inner.length + 1) d inner
    let rest ← declarationEnd? rest
    some (d, rest)
  | rest => do
    let rest ← declarationEnd? rest
    some (d, rest)

end Doctype

end ServerRun.Xml
