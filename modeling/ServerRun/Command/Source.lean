import ServerRun.Command.Parser

/-! How commands are written. A command has many texts: a word may stand in quotes or bare, a comma
may close a list, a slash may close an address, and blanks may stand around every token. A source is
one choice of all but the blanks; it has tokens, and it stands for a command. -/

namespace ServerRun.Command

/-- A written word: in quotes, where a backslash may stand before any character, or bare. -/
inductive Word where
  | quoted (chars : List (Bool × Char))
  | bare (chars : List Char)
deriving DecidableEq, Repr

namespace Word

/-- The characters that a word stands for. -/
def chars : Word → List Char
  | .quoted cs => cs.map (·.2)
  | .bare cs => cs

/-- The characters of a word as it is written. -/
def token : Word → List Char
  | .quoted cs => '"' :: cs.flatMap (fun c => if c.1 then ['\\', c.2] else [c.2]) ++ ['"']
  | .bare cs => cs

/-- A word in quotes with a backslash before each quote and each backslash. -/
def quote (s : String) : Word := .quoted (s.toList.map fun c => (c == '"' || c == '\\', c))

/-- Whether a word may be written so where the given characters end a bare word and the given ones
begin something else: quotes and backslashes inside quotes follow a backslash, and a bare word is
not empty and has no blanks at its ends. -/
def FitsBefore (stops openings : List Char) : Word → Prop
  | .quoted cs => ∀ c ∈ cs, c.1 = false → c.2 ≠ '"' ∧ c.2 ≠ '\\'
  | .bare cs =>
    cs ≠ [] ∧ Text.trim cs = cs ∧ (∀ c ∈ cs, c ∉ stops) ∧ ∀ c, cs.head? = some c → c ∉ openings

/-- Whether a word may be a name that ends before the given characters. -/
def IsName (stops : List Char) (w : Word) : Prop := w.FitsBefore stops ['"']

/-- The text that a word stands for. -/
def text (w : Word) : String := String.ofList w.chars

end Word

/-- A written value: a word, or a list or an object with an optional comma behind its last part. -/
inductive Item where
  | word (w : Word)
  | list (items : List Item) (comma : Bool)
  | object (fields : List (Word × Item)) (comma : Bool)

/-- The tokens of parts between commas. -/
def withCommas (comma : Bool) : List (List (List Char)) → List (List Char)
  | [] => []
  | [part] => part ++ if comma then [[',']] else []
  | part :: parts => part ++ [','] :: withCommas comma parts

namespace Item

mutual

/-- The value that an item stands for. -/
def value : Item → Json
  | .word (.quoted cs) => .str (Word.text (.quoted cs))
  | .word (.bare cs) => bareValue cs
  | .list items _ => .arr (values items)
  | .object fields _ => .obj (valueFields [] fields)

def values : List Item → List Json
  | [] => []
  | i :: is => i.value :: values is

/-- The members of an object: fields read from the left, the last of several with one name
counting. -/
def valueFields (acc : Fields) : List (Word × Item) → Fields
  | [] => acc
  | (name, i) :: fs => valueFields (Fields.insert acc name.text i.value) fs

end

mutual

def tokens : Item → List (List Char)
  | .word w => [w.token]
  | .list items comma => ['['] :: withCommas comma (tokensOfItems items) ++ [[']']]
  | .object fields comma => ['\x7b'] :: withCommas comma (tokensOfFields fields) ++ [['\x7d']]

/-- The tokens of each of several items. -/
def tokensOfItems : List Item → List (List (List Char))
  | [] => []
  | i :: is => i.tokens :: tokensOfItems is

/-- The tokens of each of several fields. -/
def tokensOfFields : List (Word × Item) → List (List (List Char))
  | [] => []
  | (name, i) :: fs => (name.token :: ['='] :: i.tokens) :: tokensOfFields fs

end

mutual

/-- Whether an item may be written so before the given characters. -/
def FitsBefore (stops : List Char) : Item → Prop
  | .word w => w.FitsBefore stops ['"', '[', '\x7b']
  | .list items comma => ItemsFit items ∧ (comma = true → items ≠ [])
  | .object fields comma => FieldsFit '\x7d' fields ∧ (comma = true → fields ≠ [])

/-- Whether items may be written so in a list. -/
def ItemsFit : List Item → Prop
  | [] => True
  | i :: is => i.FitsBefore [',', ']'] ∧ ItemsFit is

/-- Whether fields may be written so before a closing bracket. A bare name does not begin with that
bracket. -/
def FieldsFit (close : Char) : List (Word × Item) → Prop
  | [] => True
  | (name, i) :: fs =>
    name.IsName ['=', close] ∧ i.FitsBefore [',', close] ∧ FieldsFit close fs

end

end Item

/-- A written command: its address and whether a slash closes it, its operation, and its parameters
with an optional comma behind the last one, if there are brackets. -/
structure Source where
  address : List (Word × Word) := []
  slash : Bool := false
  operation : Word
  parameters : Option (List (Word × Item) × Bool) := none

namespace Source

/-- The command that a source stands for. -/
def command (s : Source) : Command :=
  { address := s.address.map fun p => (p.1.text, p.2.text)
    operation := s.operation.text
    parameters := match s.parameters with
      | some (fs, _) => Item.valueFields [] fs
      | none => [] }

def tokens (s : Source) : List (List Char) :=
  s.address.flatMap (fun p => [['/'], p.1.token, ['='], p.2.token]) ++
    (if s.slash then [['/']] else []) ++ [[':'], s.operation.token] ++
    match s.parameters with
    | some (fs, comma) => ['('] :: withCommas comma (Item.tokensOfFields fs) ++ [[')']]
    | none => []

/-- Whether a command may be written so. -/
structure IsValid (s : Source) : Prop where
  types : ∀ p ∈ s.address, p.1.IsName ['=', ':', '/']
  names : ∀ p ∈ s.address, p.2.IsName ['/', ':']
  operation : s.operation.IsName ['(']
  parameters : ∀ p, s.parameters = some p →
    Item.FieldsFit ')' p.1 ∧ (p.2 = true → p.1 ≠ [])

end Source

/-- Whether a text consists of tokens in order, with any blanks before, between and after them. -/
inductive Spread : List (List Char) → List Char → Prop where
  | nil {gap : List Char} (h : ∀ c ∈ gap, Text.isBlank c = true) : Spread [] gap
  | cons {gap token rest : List Char} {tokens : List (List Char)}
      (h : ∀ c ∈ gap, Text.isBlank c = true) (hr : Spread tokens rest) :
      Spread (token :: tokens) (gap ++ (token ++ rest))

end ServerRun.Command
