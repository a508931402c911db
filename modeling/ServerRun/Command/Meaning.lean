import Mathlib.Data.List.Forall2
import ServerRun.Command.Source

/-! What is said in a command. The meaning of its words, values and parameters is told by the way
they are written alone: a bare value is what it looks like, and of several parts with one name the
last one has the word. -/

namespace ServerRun.Command

/-- What a bare value is: a truth value, a whole number of decimal digits behind an optional sign,
or itself if it is none of these. -/
inductive BareMeans : List Char → Json → Prop where
  | true : BareMeans "true".toList (.bool true)
  | false : BareMeans "false".toList (.bool false)
  | digits {ds : List Char} (hne : ds ≠ []) (hd : ∀ c ∈ ds, Text.isDigit c = true) :
      BareMeans ds (.int (Text.natOfDigits 0 ds))
  | minus {ds : List Char} (hne : ds ≠ []) (hd : ∀ c ∈ ds, Text.isDigit c = true) :
      BareMeans ('-' :: ds) (.int (-Text.natOfDigits 0 ds))
  | text {word : List Char} (htrue : word ≠ "true".toList) (hfalse : word ≠ "false".toList)
      (hd : ∀ ds, ds ≠ [] → (∀ c ∈ ds, Text.isDigit c = true) → word ≠ ds ∧ word ≠ '-' :: ds) :
      BareMeans word (.str (String.ofList word))

/-- The last of the written parts with a name. -/
def lastNamed? (fields : List (Word × Item)) (name : String) : Option Item :=
  (fields.reverse.find? fun f => f.1.text == name).map (·.2)

/-- What a written value is. -/
inductive Item.Means : Item → Json → Prop where
  | quoted (chars : List (Bool × Char)) :
      Means (.word (.quoted chars)) (.str (String.ofList (chars.map (·.2))))
  | bare {word : List Char} {v : Json} (h : BareMeans word v) : Means (.word (.bare word)) v
  | list {items : List Item} {xs : List Json} (comma : Bool) (h : List.Forall₂ Means items xs) :
      Means (.list items comma) (.arr xs)
  | object {fields : List (Word × Item)} {fs : Fields} (comma : Bool)
      (hnodup : (fs.map (·.1)).Nodup)
      (h : ∀ name, Option.Rel Means (lastNamed? fields name) (Fields.get? fs name)) :
      Means (.object fields comma) (.obj fs)

namespace Source

/-- The written parameters. -/
def fields (s : Source) : List (Word × Item) :=
  match s.parameters with
  | some (fs, _) => fs
  | none => []

/-- The operation and the address that are written, as entries of a request. -/
def entries (s : Source) : Fields :=
  [("operation", .str s.operation.text),
    ("address", .arr (s.address.map fun p => .obj [(p.1.text, .str p.2.text)]))]

/-- Whether a request says what is written: each parameter that is the last one with its name, and
the operation and the address where no parameter has the name of theirs. -/
structure Means (s : Source) (request : Fields) : Prop where
  nodup : (request.map (·.1)).Nodup
  parameter : ∀ {name i}, lastNamed? s.fields name = some i →
    ∃ v, Fields.get? request name = some v ∧ i.Means v
  entry : ∀ {name}, lastNamed? s.fields name = none →
    Fields.get? request name = Fields.get? s.entries name

/-- Whether a request asks for the operation and the address that are written. -/
structure IsAskedBy (s : Source) (request : Fields) : Prop where
  operation : Fields.get? request "operation" = some (.str s.operation.text)
  address : Fields.get? request "address" =
    some (.arr (s.address.map fun p => .obj [(p.1.text, .str p.2.text)]))

end Source

end ServerRun.Command
