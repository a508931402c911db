import ServerRun.Json.Basic

/-! Data as configuration documents hold them: JSON's values, and besides them bytes, dates, sets
and pairs, and mappings with keys of any kind. -/

namespace ServerRun

/-- A value of a configuration document. -/
inductive Datum where
  | null
  | bool (value : Bool)
  | int (value : Int)
  | float (value : Binary64)
  | str (value : String)
  | bytes (value : List UInt8)
  | date
  | list (items : List Datum)
  | tuple (items : List Datum)
  | set (items : List Datum)
  | map (entries : List (Datum × Datum))
deriving Repr, Inhabited

namespace Datum

mutual

/-- A JSON value as a document holds it. -/
def ofJson : Json → Datum
  | .null => .null
  | .bool b => .bool b
  | .int i => .int i
  | .float x => .float x
  | .str s => .str s
  | .arr xs => .list (ofJsonItems xs)
  | .obj fs => .map (ofJsonFields fs)

def ofJsonItems : List Json → List Datum
  | [] => []
  | x :: xs => ofJson x :: ofJsonItems xs

def ofJsonFields : List (String × Json) → List (Datum × Datum)
  | [] => []
  | (name, v) :: fs => (.str name, ofJson v) :: ofJsonFields fs

end

/-- Whether a value counts as holding something: neither null, false nor zero, nor empty. -/
def isTruthy : Datum → Bool
  | .null => false
  | .bool b => b
  | .int i => i != 0
  | .float x => !x.isZero
  | .str s => s != ""
  | .bytes bs => !bs.isEmpty
  | .date => true
  | .list xs => !xs.isEmpty
  | .tuple xs => !xs.isEmpty
  | .set xs => !xs.isEmpty
  | .map es => !es.isEmpty

/-- The text that a key is, if it is one. -/
def text? : Datum → Option String
  | .str s => some s
  | _ => none

/-- The entries of a mapping whose keys are texts, in order. -/
def textEntries (es : List (Datum × Datum)) : List (String × Datum) :=
  es.filterMap fun e => e.1.text?.map (·, e.2)

mutual

/-- Lays a value over another one: mappings are merged key by key, any other value replaces the
one below. -/
def layOn (below : Datum) : Datum → Datum
  | .map es =>
    match below with
    | .map bs => .map (layEntries bs es)
    | _ => .map es
  | v => v

/-- Lays entries over the entries of a mapping. -/
def layEntries (bs : List (Datum × Datum)) : List (Datum × Datum) → List (Datum × Datum)
  | [] => bs
  | (k, v) :: es =>
    match k with
    | .str name =>
      let old := (bs.find? fun b => b.1.text? == some name).map (·.2)
      let v := match old with
        | some o => layOn o v
        | none => v
      let bs :=
        if (bs.any fun b => b.1.text? == some name) then
          bs.map fun b => if b.1.text? == some name then (b.1, v) else b
        else bs ++ [(k, v)]
      layEntries bs es
    | _ => layEntries (bs ++ [(k, v)]) es

end

end Datum

end ServerRun
