import ServerRun.Xml.Name
import ServerRun.Text.Digit
import ServerRun.Json.Basic

/-! References in XML documents: characters by their numbers, and entities by their names. -/

namespace ServerRun.Xml

/-- What a reference refers to. -/
inductive Reference where
  | char (c : Char)
  | entity (name : String)
deriving DecidableEq, Repr

/-- The character with a number, if a document may refer to it. -/
def referable? (n : Nat) : Option Char :=
  if n.isValidChar then
    let c := Char.ofNat n
    if isLegal c then some c else none
  else none

/-- The number that digits up to a semicolon write, and the rest. -/
def numberBefore? (digit? : Char → Option Nat) (base : Nat) (cs : List Char) :
    Option (Nat × List Char) :=
  match cs.span (· != ';') with
  | (d :: ds, _ :: rest) =>
    ((d :: ds).foldlM (fun n c => (digit? c).map (n * base + ·)) 0).map (·, rest)
  | _ => none

def decimalDigit? (c : Char) : Option Nat :=
  if c.isDigit then some (c.toNat - '0'.toNat) else none

/-- The reference after its ampersand, and the rest. -/
def reference? : List Char → Option (Reference × List Char)
  | '#' :: 'x' :: cs => do
    let (n, rest) ← numberBefore? Text.hexValue? 16 cs
    let c ← referable? n
    some (.char c, rest)
  | '#' :: cs => do
    let (n, rest) ← numberBefore? decimalDigit? 10 cs
    let c ← referable? n
    some (.char c, rest)
  | cs => do
    let (n, rest) ← name? cs
    match rest with
    | ';' :: rest => some (.entity (String.ofList n), rest)
    | _ => none

/-- The entities that every document knows. -/
def standardEntity? : String → Option Char
  | "lt" => some '<'
  | "gt" => some '>'
  | "amp" => some '&'
  | "quot" => some '"'
  | "apos" => some '\''
  | _ => none

/-- The entities that a document declares: their texts, or nothing where the text is elsewhere. -/
structure Entities where
  texts : List (String × Option (List Char)) := []
  /-- Whether there may be further declarations elsewhere. -/
  openEnded : Bool := false
deriving Repr

/-- A text in quotes with its references replaced; `inside` names the entities whose text is being
read. -/
def Entities.replace? (es : Entities) : Nat → List String → List Char → Option (List Char)
  | 0, _, _ => none
  | _ + 1, _, [] => some []
  | fuel + 1, inside, c :: cs =>
    if c = '<' then none
    else if c = '&' then
      match reference? cs with
      | none => none
      | some (.char r, rest) => (es.replace? fuel inside rest).map (r :: ·)
      | some (.entity name, rest) =>
        match standardEntity? name with
        | some r => (es.replace? fuel inside rest).map (r :: ·)
        | none =>
          if inside.contains name then none
          else
            match Fields.get? es.texts name with
            | some (some t) => do
              let t ← es.replace? fuel (name :: inside) t
              let rest ← es.replace? fuel inside rest
              some (t ++ rest)
            | some none => none
            | none => if es.openEnded then es.replace? fuel inside rest else none
    else
      (es.replace? fuel inside cs).map ((if isSpace c then ' ' else c) :: ·)

/-- The number of characters in the texts of the entities. -/
def Entities.size (es : Entities) : Nat :=
  es.texts.foldl (fun n e => n + (e.2.getD []).length) 0

/-- The value of an attribute; no entity lies inside itself, so that the characters to read are
fewer than those of all texts. -/
def Entities.attributeValue? (es : Entities) (cs : List Char) : Option (List Char) :=
  es.replace? (cs.length + es.size + es.texts.length + 1) [] cs

end ServerRun.Xml
