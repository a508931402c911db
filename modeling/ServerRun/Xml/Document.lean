import ServerRun.Xml.Encoding
import ServerRun.Xml.Doctype

/-! Reading XML documents. A document is well formed as a whole or not at all: tags nest, attributes
of a tag differ, every qualifier is bound to a namespace, every entity is declared and none refers
to itself. -/

namespace ServerRun.Xml

/-- The namespaces that qualifiers are bound to. -/
abbrev Scope := List (List Char × List Char)

/-- The namespace of the qualifier `xml`, which is always bound. -/
def xmlNamespace : List Char := "http://www.w3.org/XML/1998/namespace".toList

/-- The namespace of the attributes that bind qualifiers. -/
def xmlnsNamespace : List Char := "http://www.w3.org/2000/xmlns/".toList

/-- The attributes of a tag up to its end, whether the tag closes itself, and the rest. -/
def attributes? (es : Entities) : Nat → List Char →
    Option (List (QualifiedName × List Char) × Bool × List Char)
  | 0, _ => none
  | fuel + 1, cs =>
    match dropSpaces cs with
    | '>' :: rest => some ([], false, rest)
    | '/' :: '>' :: rest => some ([], true, rest)
    | _ => do
      let cs ← spaces? cs
      let (n, rest) ← qualifiedName? cs
      let rest ← literally? ['='] (dropSpaces rest)
      let (raw, rest) ← quotedText? (dropSpaces rest)
      let v ← es.attributeValue? raw
      let (more, closed, rest) ← attributes? es fuel rest
      some ((n, v) :: more, closed, rest)

/-- The qualifier that an attribute binds; the empty one is for names without qualifier. -/
def boundQualifier? (n : QualifiedName) : Option (List Char) :=
  match n.qualifier with
  | some q => if q = "xmlns".toList then some n.name else none
  | none => if n.name = "xmlns".toList then some [] else none

/-- Whether a qualifier may be bound to a namespace. -/
def mayBind (q uri : List Char) : Bool :=
  q != "xmlns".toList && ((q == "xml".toList) == (uri == xmlNamespace)) &&
    uri != xmlnsNamespace && !uri.contains '}' && (q.isEmpty || !uri.isEmpty)

/-- The scope inside a tag with given attributes. -/
def bindAll (scope : Scope) (attributes : List (QualifiedName × List Char)) : Option Scope :=
  attributes.foldlM (fun s a =>
    match boundQualifier? a.1 with
    | some q => if mayBind q a.2 then some ((q, a.2) :: s) else none
    | none => some s) scope

/-- The namespace of a qualifier. -/
def namespaceOf? (scope : Scope) (q : List Char) : Option (List Char) :=
  if q = "xml".toList then some xmlNamespace
  else (scope.find? fun b => b.1 == q).map (·.2)

/-- Whether the qualifier of a name is bound. -/
def isBound (scope : Scope) (n : QualifiedName) : Bool :=
  match n.qualifier with
  | some q => (namespaceOf? scope q).isSome
  | none => true

/-- An attribute's name with the namespace for the qualifier. -/
def expandedName (scope : Scope) (n : QualifiedName) : Option (List Char) × List Char :=
  (n.qualifier.bind (namespaceOf? scope), n.name)

def allDiffer [BEq α] : List α → Bool
  | [] => true
  | x :: xs => !xs.contains x && allDiffer xs

/-- Whether the attributes of a tag differ and their qualifiers are bound. -/
def areProper (scope : Scope) (attributes : List (QualifiedName × List Char)) : Bool :=
  let names := attributes.map (·.1)
  let plain := names.filter fun n => (boundQualifier? n).isNone
  allDiffer names && plain.all (isBound scope) && allDiffer (plain.map (expandedName scope))

/-- What the content of an element is made of. -/
inductive Piece where
  | char (c : Char)
  | child (e : Element)
deriving Repr

def elementOf (n : QualifiedName) (content : List Piece) : Element :=
  let front := content.takeWhile fun p => match p with | .char _ => true | .child _ => false
  .node (String.ofList n.name)
    (String.ofList (front.filterMap fun p => match p with | .char c => some c | .child _ => none))
    (content.filterMap fun p => match p with | .child e => some e | .char _ => none)

/-- The characters up to the end of a literal section, and the rest. -/
def literalSection? : List Char → Option (List Char × List Char)
  | ']' :: ']' :: '>' :: rest => some ([], rest)
  | c :: cs => (literalSection? cs).map fun r => (c :: r.1, r.2)
  | [] => none

mutual

/-- Content up to an end tag or the end of the text; `inside` names the entities whose text is being
read. -/
def content? (d : Doctype) : Nat → Scope → List String → List Char →
    Option (List Piece × List Char)
  | 0, _, _, _ => none
  | fuel + 1, scope, inside, cs =>
    let goOn (front : List Piece) (rest : List Char) : Option (List Piece × List Char) :=
      (content? d fuel scope inside rest).map fun r => (front ++ r.1, r.2)
    match cs with
    | [] => some ([], [])
    | '<' :: '/' :: _ => some ([], cs)
    | '<' :: '!' :: '-' :: '-' :: rest => (afterComment? rest).bind (goOn [])
    | '<' :: '!' :: rest => do
      let rest ← literally? "[CDATA[".toList rest
      let (t, rest) ← literalSection? rest
      goOn (t.map Piece.char) rest
    | '<' :: '?' :: rest => (afterInstruction? rest).bind (goOn [])
    | '<' :: rest => do
      let (e, rest) ← element? d fuel scope inside rest
      goOn [.child e] rest
    | '&' :: rest =>
      match reference? rest with
      | none => none
      | some (.char c, rest) => goOn [.char c] rest
      | some (.entity name, rest) =>
        match standardEntity? name with
        | some c => goOn [.char c] rest
        | none =>
          if inside.contains name then none
          else
            match Fields.get? d.entities.texts name with
            | some (some t) => do
              let (pieces, left) ← content? d fuel scope (name :: inside) t
              if left = [] then goOn pieces rest else none
            | _ => none
    | ']' :: ']' :: '>' :: _ => none
    | c :: rest => goOn [.char c] rest

/-- An element after its opening bracket, and the rest. -/
def element? (d : Doctype) : Nat → Scope → List String → List Char →
    Option (Element × List Char)
  | 0, _, _, _ => none
  | fuel + 1, scope, inside, cs => do
    let (n, rest) ← qualifiedName? cs
    let (given, closed, rest) ← attributes? d.entities fuel rest
    let attributes := given ++ (d.defaults n).filter fun a => !given.any (·.1 == a.1)
    let inner ← bindAll scope attributes
    if isBound inner n && n.qualifier != some "xmlns".toList && areProper inner attributes then
      if closed then some (elementOf n [], rest)
      else do
        let (pieces, rest) ← content? d fuel inner inside rest
        let rest ← literally? ['<', '/'] rest
        let (m, rest) ← qualifiedName? rest
        let rest ← declarationEnd? rest
        if m = n then some (elementOf n pieces, rest) else none
    else none

end

/-- The rest of a document after comments, instructions and blanks. -/
def afterMisc? : Nat → List Char → Option (List Char)
  | 0, _ => none
  | fuel + 1, cs =>
    match dropSpaces cs with
    | '<' :: '!' :: '-' :: '-' :: rest => (afterComment? rest).bind (afterMisc? fuel)
    | '<' :: '?' :: rest => (afterInstruction? rest).bind (afterMisc? fuel)
    | rest => some rest

/-- The root element of a document after its declaration. -/
def root? (standalone : Bool) (cs : List Char) : Option Element := do
  let size := cs.length + 1
  let rest ← afterMisc? size cs
  let (d, rest) ←
    match literally? "<!DOCTYPE".toList rest with
    | some rest => do
      let (d, rest) ← Doctype.ofText? standalone rest
      let rest ← afterMisc? size rest
      some (d, rest)
    | none => some ({}, rest)
  let rest ← literally? ['<'] rest
  let (e, rest) ← element? d (2 * size) [] [] rest
  let rest ← afterMisc? size rest
  if rest = [] then some e else none

/-- Line ends in one form: a line feed alone. -/
def plainLineEnds : List Char → List Char
  | '\x0d' :: '\n' :: rest => '\n' :: plainLineEnds rest
  | '\x0d' :: rest => '\n' :: plainLineEnds rest
  | c :: rest => c :: plainLineEnds rest
  | [] => []

/-- The rest of a document after its declaration, if it has one. -/
def afterDeclaration (cs : List Char) : List Char :=
  match afterDeclarationStart? cs with
  | some rest => (afterInstructionEnd? rest).getD []
  | none => cs

/-- The root element of a document. -/
def Element.parse (bytes : List UInt8) : Except Fault Element := do
  let cs ← decode bytes
  if cs.all isLegal then
    match root? (isStandalone cs) (plainLineEnds (afterDeclaration cs)) with
    | some e => .ok e
    | none => .error .malformed
  else .error .malformed

end ServerRun.Xml
