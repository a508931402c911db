import ServerRun.Json.Basic

/-! Elements of XML documents: a name without its qualifier, the text in front of the first child,
and the children. Comments and instructions leave no trace. -/

namespace ServerRun.Xml

inductive Element where
  | node (name text : String) (children : List Element)
deriving Repr, Inhabited

namespace Element

def name : Element → String
  | .node n _ _ => n

/-- The text in front of the first child. -/
def text : Element → String
  | .node _ t _ => t

def children : Element → List Element
  | .node _ _ cs => cs

/-- The elements that a path of names leads to from an element, in the order of the document. -/
def select (e : Element) : List String → List Element
  | [] => [e]
  | [n] => e.children.filter (·.name == n)
  | n :: m :: path =>
    (e.children.filter (·.name == n)).flatMap fun c => select c (m :: path)

/-- The first element that a path of names leads to. -/
def find? (e : Element) (path : List String) : Option Element := (e.select path).head?

end Element

/-- Why bytes are no document that can be read. -/
inductive Fault where
  | malformed
  | unknownEncoding
  | unsupportedEncoding
deriving DecidableEq, Repr

end ServerRun.Xml
