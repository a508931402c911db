import ServerRun.Yaml.Node
import ServerRun.Yaml.Implicit
import ServerRun.Schema.Datum
import ServerRun.Error

/-! From nodes to data, by their tags or, without one, by what they are. Mappings under a merge key
are spread out in front of the entries beside it. Of several entries with one key the last one
counts, in the place of the first. -/

namespace ServerRun.Yaml

/-- The tags that values are built by. -/
inductive Kind where
  | plain (kind : Implicit)
  | sequence
  | mapping
  | set
  | orderedMap
  | pairs
  | binary
  | unknown
deriving DecidableEq, Repr

/-- What a tag asks for. -/
def kindOfTag : String → Kind
  | "tag:yaml.org,2002:null" => .plain .null
  | "tag:yaml.org,2002:bool" => .plain .bool
  | "tag:yaml.org,2002:int" => .plain .int
  | "tag:yaml.org,2002:float" => .plain .float
  | "tag:yaml.org,2002:binary" => .binary
  | "tag:yaml.org,2002:timestamp" => .plain .date
  | "tag:yaml.org,2002:omap" => .orderedMap
  | "tag:yaml.org,2002:pairs" => .pairs
  | "tag:yaml.org,2002:set" => .set
  | "tag:yaml.org,2002:str" => .plain .text
  | "tag:yaml.org,2002:seq" => .sequence
  | "tag:yaml.org,2002:map" => .mapping
  | "tag:yaml.org,2002:merge" => .plain .merge
  | "tag:yaml.org,2002:value" => .plain .value
  | _ => .unknown

namespace Node

/-- What a node is to be built as. -/
def kind : Node → Kind
  | .scalar (some t) _ _ => kindOfTag t
  | .scalar none true text => .plain (implicitOf text)
  | .scalar none false _ => .plain .text
  | .sequence (some t) _ => kindOfTag t
  | .sequence none _ => .sequence
  | .mapping (some t) _ => kindOfTag t
  | .mapping none _ => .mapping

/-- Whether a key asks for its mapping to be merged. -/
def isMerge (n : Node) : Bool := n.kind == .plain .merge

mutual

/-- The entries of a mapping with the mappings under merge keys spread out in front; of a list of
mappings the first one comes last and so wins. -/
def flatten : Nat → List (Node × Node) → Except Fault (List (Node × Node))
  | 0, _ => .error .malformed
  | fuel + 1, es => do
    let merged ← mergedEntries fuel es
    .ok (merged ++ es.filter fun e => !e.1.isMerge)

/-- The entries that the merge keys of a mapping bring in. -/
def mergedEntries : Nat → List (Node × Node) → Except Fault (List (Node × Node))
  | 0, _ => .error .malformed
  | _ + 1, [] => .ok []
  | fuel + 1, (k, v) :: es => do
    let here ←
      if k.isMerge then
        match v with
        | .mapping _ inner => flatten fuel inner
        | .sequence _ items => mergedItems fuel items
        | .scalar _ _ _ => .error .malformed
      else .ok []
    let rest ← mergedEntries fuel es
    .ok (here ++ rest)

/-- The entries of a list of mappings, those of the last one first. -/
def mergedItems : Nat → List Node → Except Fault (List (Node × Node))
  | 0, _ => .error .malformed
  | _ + 1, [] => .ok []
  | fuel + 1, n :: ns =>
    match n with
    | .mapping _ inner => do
      let here ← flatten fuel inner
      let rest ← mergedItems fuel ns
      .ok (rest ++ here)
    | _ => .error .malformed

end

mutual

/-- How many nodes a node is made of. -/
def size : Node → Nat
  | .scalar _ _ _ => 1
  | .sequence _ items => 1 + sizeItems items
  | .mapping _ entries => 1 + sizeEntries entries

def sizeItems : List Node → Nat
  | [] => 0
  | n :: ns => 1 + size n + sizeItems ns

def sizeEntries : List (Node × Node) → Nat
  | [] => 0
  | (k, v) :: es => 1 + size k + size v + sizeEntries es

end

/-- The text of a scalar; a mapping stands for the scalar under its value mark. -/
def scalarText? : Nat → Node → Option String
  | 0, _ => none
  | _ + 1, .scalar _ _ text => some text
  | _ + 1, .sequence _ _ => none
  | fuel + 1, .mapping _ entries =>
    match entries.find? fun e => e.1.kind == .plain .value with
    | some (_, v) => scalarText? fuel v
    | none => none

mutual

/-- Whether a value may be a key of a mapping. -/
def isHashable : Datum → Bool
  | .list _ | .set _ | .map _ => false
  | .tuple xs => areHashable xs
  | _ => true

def areHashable : List Datum → Bool
  | [] => true
  | x :: xs => isHashable x && areHashable xs

end

/-- Gives a key its value, in place if the key is there. -/
def putEntry (k v : Datum) : List (Datum × Datum) → List (Datum × Datum)
  | [] => [(k, v)]
  | e :: es =>
    if k.text?.isSome && e.1.text? == k.text? then (e.1, v) :: es else e :: putEntry k v es

def scalarValue (kind : Kind) (text : String) : Except Fault Datum :=
  match kind with
  | .plain .null => .ok .null
  | .plain .bool =>
    let word := String.ofList (text.toList.map Char.toLower)
    if trueWords.contains word then .ok (.bool true)
    else if falseWords.contains word then .ok (.bool false)
    else .error .badWord
  | .plain .int => (intValue text).map .int
  | .plain .float => (floatValue text).map .float
  | .plain .date =>
    match Stamp.ofText? text.toList with
    | none => .error .badForm
    | some s => if s.isValid then .ok .date else .error .badValue
  | .plain .text => .ok (.str text)
  | .binary =>
    if text.toList.all (·.toNat < 128) then
      match Text.ofBase64? text.toList with
      | some bs => .ok (.bytes bs)
      | none => .error .malformed
    else .error .malformed
  | _ => .error .malformed

mutual

/-- The value that a node stands for. -/
def build : Nat → Node → Except Fault Datum
  | 0, _ => .error .malformed
  | fuel + 1, n =>
    match n.kind with
    | .sequence =>
      match n with
      | .sequence _ items => (buildItems fuel items).map .list
      | _ => .error .malformed
    | .mapping =>
      match n with
      | .mapping _ entries => do
        let es ← flatten fuel entries
        (buildEntries fuel [] es).map .map
      | _ => .error .malformed
    | .set =>
      match n with
      | .mapping _ entries => do
        let es ← flatten fuel entries
        let es ← buildEntries fuel [] es
        .ok (.set (es.map (·.1)))
      | _ => .error .malformed
    | .orderedMap | .pairs =>
      match n with
      | .sequence _ items => (buildPairs fuel items).map .list
      | _ => .error .malformed
    | kind =>
      match scalarText? fuel n with
      | some text => scalarValue kind text
      | none => .error .malformed

def buildItems : Nat → List Node → Except Fault (List Datum)
  | 0, _ => .error .malformed
  | _ + 1, [] => .ok []
  | fuel + 1, n :: ns => do
    let d ← build fuel n
    let ds ← buildItems fuel ns
    .ok (d :: ds)

/-- The entries of a mapping after the entries built so far. -/
def buildEntries : Nat → List (Datum × Datum) → List (Node × Node) →
    Except Fault (List (Datum × Datum))
  | 0, _, _ => .error .malformed
  | _ + 1, acc, [] => .ok acc
  | fuel + 1, acc, (k, v) :: es => do
    let key ←
      match k with
      | .scalar _ _ text =>
        if k.kind == .plain .value then .ok (.str text) else build fuel k
      | _ => build fuel k
    if !isHashable key then .error .malformed
    else do
      let d ← build fuel v
      buildEntries fuel (putEntry key d acc) es

/-- A list of mappings of one entry each, as pairs. -/
def buildPairs : Nat → List Node → Except Fault (List Datum)
  | 0, _ => .error .malformed
  | _ + 1, [] => .ok []
  | fuel + 1, n :: ns =>
    match n with
    | .mapping _ [(k, v)] => do
      let key ← build fuel k
      let d ← build fuel v
      let ds ← buildPairs fuel ns
      .ok (.tuple [key, d] :: ds)
    | _ => .error .malformed

end

end Node

/-- The failure of reading a document. -/
def Fault.failure : Fault → Failure
  | .malformed => .malformedDocument
  | .badValue => .badValue
  | .badWord => .badWord
  | .badForm => .noMapping
  | .emptyText => .emptyText

/-- The text of a file with its line ends in one form. -/
def plainLineEnds : List Char → List Char
  | '\x0d' :: '\n' :: rest => '\n' :: plainLineEnds rest
  | '\x0d' :: rest => '\n' :: plainLineEnds rest
  | c :: rest => c :: plainLineEnds rest
  | [] => []

/-- The value that a document holds; an empty one holds null. -/
def load (text : String) : Except Fault Datum := do
  let ts ← tokens (plainLineEnds text.toList)
  match ← Node.ofTokens? ts with
  | none => .ok .null
  | some n => Node.build (4 * n.size + 8) n

end ServerRun.Yaml
