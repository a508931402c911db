import ServerRun.Schema.Datum
import ServerRun.Number.Decimal
import ServerRun.Text.Encoding
import ServerRun.Text.Blank
import ServerRun.File.Path

/-! Checking data against the type of a field. A check is lenient where a text or a neighbouring
type has one obvious reading, and otherwise names what is wrong; the issues of a record are
collected over all its fields. -/

namespace ServerRun

/-- What is wrong with a value. -/
inductive IssueKind where
  | missing
  | stringType | stringUnicode
  | intType | intParsing | intFromFloat | intSize | finiteNumber
  | floatType | floatParsing
  | boolType | boolParsing
  | listType | tupleType
  | pathType
  | choice
  | recordType
  | greaterThan | greaterThanEqual | lessThanEqual
  | frozen
deriving DecidableEq, Repr

def IssueKind.text : IssueKind → String
  | .missing => "missing"
  | .stringType => "string_type"
  | .stringUnicode => "string_unicode"
  | .intType => "int_type"
  | .intParsing => "int_parsing"
  | .intFromFloat => "int_from_float"
  | .intSize => "int_parsing_size"
  | .finiteNumber => "finite_number"
  | .floatType => "float_type"
  | .floatParsing => "float_parsing"
  | .boolType => "bool_type"
  | .boolParsing => "bool_parsing"
  | .listType => "list_type"
  | .tupleType => "tuple_type"
  | .pathType => "path_type"
  | .choice => "enum"
  | .recordType => "model_type"
  | .greaterThan => "greater_than"
  | .greaterThanEqual => "greater_than_equal"
  | .lessThanEqual => "less_than_equal"
  | .frozen => "frozen_instance"

/-- One step from a record to the place of an issue: a field or the index of an item. -/
inductive Key where
  | name (s : String)
  | index (n : Nat)
deriving DecidableEq, Repr

def Key.text : Key → String
  | .name s => s
  | .index n => toString n

/-- A place in a record and what is wrong there. -/
structure Issue where
  location : List Key
  kind : IssueKind
deriving DecidableEq, Repr

namespace Issue

/-- Whether one list of texts comes before another or equals it, item by item. -/
def notAfter : List String → List String → Bool
  | [], _ => true
  | _ :: _, [] => false
  | a :: as, b :: bs => if a < b then true else if b < a then false else notAfter as bs

/-- Issues in the order of their places and, at one place, of their names. -/
def sort (issues : List Issue) : List Issue :=
  issues.mergeSort fun a b =>
    let la := a.location.map Key.text
    let lb := b.location.map Key.text
    if la = lb then !(decide (b.kind.text < a.kind.text)) else notAfter la lb

/-- An issue as seen from the record around it. -/
def under (key : Key) (i : Issue) : Issue := { i with location := key :: i.location }

end Issue

/-- What a check returns: the value it stands for, or the issues. -/
abbrev Checked (α : Type) := Except (List Issue) α

namespace Checked

/-- Puts issues below a key. -/
def under (key : Key) (c : Checked α) : Checked α := c.mapError (·.map (Issue.under key))

/-- Both values, or the issues of both. -/
def both (a : Checked α) (b : Checked β) : Checked (α × β) :=
  match a, b with
  | .ok x, .ok y => .ok (x, y)
  | .ok _, .error e => .error e
  | .error e, .ok _ => .error e
  | .error e, .error f => .error (e ++ f)

/-- Gives a function its next argument, and collects the issues of both. -/
def field (a : Checked α) (f : Checked (α → β)) : Checked β := (both f a).map fun p => p.1 p.2

end Checked

/-- An issue at the place itself. -/
def issue (kind : IssueKind) : Checked α := .error [⟨[], kind⟩]

namespace Schema

/-- The characters that count as blanks around numbers in texts. -/
def isNumberBlank (c : Char) : Bool := Text.isBlank c && !(28 ≤ c.toNat && c.toNat ≤ 31)

def trimNumber (cs : List Char) : List Char :=
  ((cs.dropWhile isNumberBlank).reverse.dropWhile isNumberBlank).reverse

/-- A text without its single underscores; none if an underscore stands at an end or by another
one. -/
def dropUnderscores : List Char → Option (List Char)
  | [] => some []
  | ['_'] => none
  | '_' :: '_' :: _ => none
  | '_' :: _ :: _ => none
  | c :: '_' :: d :: cs => if d = '_' then none else (dropUnderscores (d :: cs)).map (c :: ·)
  | c :: cs => (dropUnderscores cs).map (c :: ·)

/-- Reads a whole number: blanks around it, a sign, single underscores between digits, and a
fraction of zeros are allowed. -/
def intOfText? (cs : List Char) : Option Int :=
  let cs := trimNumber cs
  let (negative, cs) := Binary64.readSign cs
  let (whole, fraction) := cs.span (· != '.')
  if fraction.drop 1 |>.all (· == '0') then
    match dropUnderscores whole with
    | some ds =>
      if ds ≠ [] ∧ ds.all Char.isDigit then
        let n : Int := Text.natOfDigits 0 ds
        some (if negative then -n else n)
      else none
    | none => none
  else none

/-- Reads a number with a fraction or exponent, blanks around it and single underscores allowed. -/
def floatOfText? (cs : List Char) : Option Binary64 :=
  let cs := trimNumber cs
  let ascii := cs.all fun c => c.toNat < 128
  if !ascii then none
  else
    match Binary64.ofText? cs with
    | some x => some x
    | none => (dropUnderscores cs).bind Binary64.ofText?

/-- The text that a value is, bytes of UTF-8 included. -/
def textOf? : Datum → Option (Checked String)
  | .str s => some (.ok s)
  | .bytes bs =>
    match Text.ofUtf8? bs with
    | some s => some (.ok s)
    | none => some (issue .stringUnicode)
  | _ => none

def text (d : Datum) : Checked String := (textOf? d).getD (issue .stringType)

/-- A check of a value that may also be null. -/
def optional (check : Datum → Checked α) : Datum → Checked (Option α)
  | .null => .ok none
  | d => (check d).map some

/-- The whole number that a number without fraction is. -/
def intOfFloat (x : Binary64) : Checked Int :=
  match x.toRat? with
  | none => issue .finiteNumber
  | some r =>
    if r.den ≠ 1 then issue .intFromFloat
    else if r.num.natAbs < Nat.pow 2 63 then .ok r.num
    else issue .intSize

def int : Datum → Checked Int
  | .int i => .ok i
  | .bool b => .ok (if b then 1 else 0)
  | .float x => intOfFloat x
  | d =>
    match textOf? d with
    | some (.ok s) =>
      match intOfText? s.toList with
      | some i => .ok i
      | none => issue .intParsing
    | some (.error _) => issue .intParsing
    | none => issue .intType

def float : Datum → Checked Binary64
  | .float x => .ok x
  | .int i => .ok (.ofInt i)
  | .bool b => .ok (.ofInt (if b then 1 else 0))
  | d =>
    match textOf? d with
    | some (.ok s) =>
      match floatOfText? s.toList with
      | some x => .ok x
      | none => issue .floatParsing
    | some (.error _) => issue .floatParsing
    | none => issue .floatType

/-- The words for truth values, in lower case. -/
def boolWords : List (String × Bool) :=
  [("0", false), ("off", false), ("f", false), ("false", false), ("n", false), ("no", false),
    ("1", true), ("on", true), ("t", true), ("true", true), ("y", true), ("yes", true)]

def boolOfInt (i : Int) : Checked Bool :=
  if i = 0 then .ok false else if i = 1 then .ok true else issue .boolParsing

def bool : Datum → Checked Bool
  | .bool b => .ok b
  | .int i => boolOfInt i
  | .float x =>
    match x.toInt? with
    | some i => boolOfInt i
    | none => issue .boolType
  | d =>
    match textOf? d with
    | some (.ok s) =>
      match Fields.get? boolWords (String.ofList (s.toList.map Char.toLower)) with
      | some b => .ok b
      | none => issue .boolParsing
    | some (.error _) => issue .boolParsing
    | none => issue .boolType

def path (d : Datum) : Checked Path :=
  match textOf? d with
  | some (.ok s) => .ok (Path.ofString s)
  | _ => issue .pathType

/-- The items of a list, a pair or a set. -/
def itemsOf? : Datum → Option (List Datum)
  | .list xs => some xs
  | .tuple xs => some xs
  | .set xs => some xs
  | _ => none

/-- Checks items one by one, from an index on. -/
def itemsFrom (check : Datum → Checked α) (k : Nat) : List Datum → Checked (List α)
  | [] => .ok []
  | d :: ds =>
    (Checked.both ((check d).under (.index k)) (itemsFrom check (k + 1) ds)).map fun p =>
      p.1 :: p.2

/-- Checks a list of items, with the issue of a value that is none. -/
def items (kind : IssueKind) (check : Datum → Checked α) (d : Datum) : Checked (List α) :=
  match itemsOf? d with
  | some xs => itemsFrom check 0 xs
  | none => issue kind

/-- A check with a bound on top; a value that is not above the bound is an issue. -/
def positive (check : Datum → Checked Binary64) (d : Datum) : Checked Binary64 := do
  let x ← check d
  if x.gt 0 then .ok x else issue .greaterThan

def atMost (limit : Rat) (check : Datum → Checked Binary64) (d : Datum) : Checked Binary64 := do
  let x ← check d
  if x.le limit then .ok x else issue .lessThanEqual

/-- A check of a whole number that is to lie between two bounds. -/
def between (low high : Int) (check : Datum → Checked Int) (d : Datum) : Checked Int := do
  let i ← check d
  if i < low then issue .greaterThanEqual
  else if high < i then issue .lessThanEqual
  else .ok i

/-- The entries of a mapping. -/
def record (d : Datum) : Checked (List (String × Datum)) :=
  match d with
  | .map es => .ok (Datum.textEntries es)
  | _ => issue .recordType

/-- The last entry with a name. -/
def valueOf? (entries : List (String × Datum)) (name : String) : Option Datum :=
  Fields.get? entries.reverse name

/-- A field that has to be there. -/
def required (entries : List (String × Datum)) (name : String) (check : Datum → Checked α) :
    Checked α :=
  match valueOf? entries name with
  | some d => (check d).under (.name name)
  | none => .error [⟨[.name name], .missing⟩]

/-- A field with a default, which is not checked. -/
def withDefault (entries : List (String × Datum)) (name : String) (check : Datum → Checked α)
    (default : α) : Checked α :=
  match valueOf? entries name with
  | some d => (check d).under (.name name)
  | none => .ok default

end Schema

end ServerRun
