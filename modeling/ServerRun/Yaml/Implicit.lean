import ServerRun.Yaml.Token
import ServerRun.Number.Decimal
import ServerRun.Text.Blank

/-! What the text of a plain scalar stands for: a truth value, a number in one of several notations,
nothing, a date, a merge mark, or itself. Whole numbers may be binary, octal, decimal, hexadecimal
or in base 60, with underscores anywhere after the first digit. -/

namespace ServerRun.Yaml

/-- The kinds of values that a plain scalar may stand for. -/
inductive Implicit where
  | bool
  | int
  | float
  | merge
  | null
  | date
  | value
  | text
deriving DecidableEq, Repr

def trueWords : List String := ["yes", "true", "on"]

def falseWords : List String := ["no", "false", "off"]

/-- The three spellings of a word: in lower case, with a capital, and in upper case. -/
def spellings (w : String) : List String :=
  let cs := w.toList
  [w, String.ofList ((cs.take 1).map Char.toUpper ++ cs.drop 1),
    String.ofList (cs.map Char.toUpper)]

def isBoolText (s : String) : Bool := ((trueWords ++ falseWords).flatMap spellings).contains s

def isNullText (s : String) : Bool := s == "~" || s == "" || (spellings "null").contains s

/-- A text without a sign at its front, and whether the sign is a minus. -/
def unsigned : List Char → Bool × List Char
  | '-' :: cs => (true, cs)
  | '+' :: cs => (false, cs)
  | cs => (false, cs)

def isDigitOrLine (c : Char) : Bool := c.isDigit || c == '_'

def isDecimal : List Char → Bool
  | ['0'] => true
  | c :: cs => '1' ≤ c && c ≤ '9' && cs.all isDigitOrLine
  | [] => false

/-- One or more parts of base 60, each after a colon, up to a dot or the end. -/
def isSexagesimalTail : Nat → List Char → Option (List Char)
  | 0, _ => none
  | fuel + 1, ':' :: a :: b :: rest =>
    if a.isDigit then
      if '0' ≤ a ∧ a ≤ '5' ∧ b.isDigit then
        (isSexagesimalTail fuel rest).or (some rest)
      else (isSexagesimalTail fuel (b :: rest)).or (some (b :: rest))
    else none
  | _ + 1, [':', a] => if a.isDigit then some [] else none
  | _ + 1, _ => none

def isIntText (s : String) : Bool :=
  let (_, cs) := unsigned s.toList
  match cs with
  | '0' :: 'b' :: ds => ds ≠ [] && ds.all fun c => c == '0' || c == '1' || c == '_'
  | '0' :: 'x' :: ds => ds ≠ [] && ds.all fun c => (Text.hexValue? c).isSome || c == '_'
  | _ =>
    isDecimal cs ||
    (match cs with
      | '0' :: ds => ds ≠ [] && ds.all fun c => ('0' ≤ c && c ≤ '7') || c == '_'
      | _ => false) ||
    (match cs with
      | c :: ds =>
        '1' ≤ c && c ≤ '9' &&
          isSexagesimalTail s.length (ds.dropWhile isDigitOrLine) == some []
      | [] => false)

/-- An exponent with a sign, or nothing. -/
def isSignedExponent : List Char → Bool
  | [] => true
  | e :: s :: ds =>
    (e == 'e' || e == 'E') && (s == '-' || s == '+') && ds ≠ [] && ds.all Char.isDigit
  | _ => false

def isFloatText (s : String) : Bool :=
  let all := s.toList
  let (_, cs) := unsigned all
  (match cs with
    | c :: ds =>
      c.isDigit &&
        (match ds.dropWhile isDigitOrLine with
          | '.' :: rest => isSignedExponent (rest.dropWhile isDigitOrLine)
          | ':' :: rest =>
            match isSexagesimalTail s.length (':' :: rest) with
            | some ('.' :: more) => more.all isDigitOrLine
            | _ => false
          | _ => false)
    | [] => false) ||
  (match all with
    | '.' :: c :: rest => c.isDigit && isSignedExponent (rest.dropWhile isDigitOrLine)
    | _ => false) ||
  (spellings "inf").any (fun w => String.ofList cs == "." ++ w) ||
  [".nan", ".NaN", ".NAN"].contains s

/-! ### dates -/

/-- A date, and a time of day with an offset where there is one. -/
structure Stamp where
  year : Nat
  month : Nat
  day : Nat
  time : Option (Nat × Nat × Nat) := none
  offset : Option (Nat × Nat) := none
  /-- Whether month and day have two digits. -/
  padded : Bool := true

/-- At least one and at most two digits at the front of a text. -/
def oneOrTwoDigits : List Char → Option (Nat × Bool × List Char)
  | a :: b :: rest =>
    if a.isDigit then
      if b.isDigit then some ((a.toNat - 48) * 10 + (b.toNat - 48), true, rest)
      else some (a.toNat - 48, false, b :: rest)
    else none
  | [a] => if a.isDigit then some (a.toNat - 48, false, []) else none
  | [] => none

def twoDigits (cs : List Char) : Option (Nat × List Char) :=
  match oneOrTwoDigits cs with
  | some (n, true, rest) => some (n, rest)
  | _ => none

def dropChar (c : Char) : List Char → Option (List Char)
  | d :: rest => if c == d then some rest else none
  | [] => none

/-- The offset at the end of a time of day: none, `Z`, or a sign with hours and perhaps minutes. -/
def stampOffset (cs : List Char) : Option (Option (Nat × Nat)) :=
  match cs with
  | [] => some none
  | _ =>
    match cs.dropWhile isBlank with
    | ['Z'] => some none
    | s :: rest =>
      if s == '-' || s == '+' then do
        let (hours, _, rest) ← oneOrTwoDigits rest
        match rest with
        | [] => some (some (hours, 0))
        | ':' :: rest => do
          let (minutes, rest) ← twoDigits rest
          if rest = [] then some (some (hours, minutes)) else none
        | _ => none
      else none
    | [] => none

/-- Reads a date, or a date with a time of day. -/
def Stamp.ofText? (cs : List Char) : Option Stamp := do
  let (century, rest) ← twoDigits cs
  let (year, rest) ← twoDigits rest
  let rest ← dropChar '-' rest
  let (month, monthPadded, rest) ← oneOrTwoDigits rest
  let rest ← dropChar '-' rest
  let (day, dayPadded, rest) ← oneOrTwoDigits rest
  let date : Stamp :=
    { year := century * 100 + year, month, day, padded := monthPadded && dayPadded }
  match rest with
  | [] => some date
  | c :: more =>
    let rest ←
      if c == 'T' || c == 't' then some more
      else if isBlank c then some (more.dropWhile isBlank)
      else none
    let (hour, _, rest) ← oneOrTwoDigits rest
    let rest ← dropChar ':' rest
    let (minute, rest) ← twoDigits rest
    let rest ← dropChar ':' rest
    let (second, rest) ← twoDigits rest
    let rest :=
      match rest with
      | '.' :: more => more.dropWhile Char.isDigit
      | _ => rest
    let offset ← stampOffset rest
    some { date with time := some (hour, minute, second), offset }

def isLeapYear (y : Nat) : Bool := y % 4 == 0 && (y % 100 != 0 || y % 400 == 0)

def daysIn (year month : Nat) : Nat :=
  if month == 2 then (if isLeapYear year then 29 else 28)
  else if [4, 6, 9, 11].contains month then 30
  else 31

/-- Whether there is such a date and time. -/
def Stamp.isValid (s : Stamp) : Bool :=
  1 ≤ s.year && 1 ≤ s.month && s.month ≤ 12 && 1 ≤ s.day && s.day ≤ daysIn s.year s.month &&
    (match s.time with
      | some (h, m, sec) => h < 24 && m < 60 && sec < 60
      | none => true) &&
    (match s.offset with
      | some (h, m) => h * 60 + m < 1440
      | none => true)

def isDateText (s : String) : Bool :=
  match Stamp.ofText? s.toList with
  | some d => d.time.isSome || d.padded
  | none => false

/-! ### kinds and values -/

/-- What a plain text stands for. -/
def implicitOf (s : String) : Implicit :=
  if isBoolText s then .bool
  else if isFloatText s then .float
  else if isIntText s then .int
  else if s == "<<" then .merge
  else if isNullText s then .null
  else if isDateText s then .date
  else if s == "=" then .value
  else .text

/-- The value of digits in a base; none if one of them is no digit of it. -/
def digitsIn (base : Nat) (cs : List Char) : Option Nat :=
  if cs = [] then none
  else
    cs.foldl (fun acc c => acc.bind fun n =>
      ((Text.hexValue? c).filter (· < base)).map (n * base + ·)) (some 0)

/-- The parts of a text between colons. -/
def splitColons : List Char → List (List Char)
  | [] => [[]]
  | c :: rest =>
    if c == ':' then [] :: splitColons rest
    else
      match splitColons rest with
      | s :: more => (c :: s) :: more
      | [] => [[c]]

def wholeOf (cs : List Char) : Except Fault Int :=
  let (negative, ds) := unsigned (Text.trim cs)
  if ds ≠ [] ∧ ds.all Text.isDigit ∧ ds.length ≤ Text.digitLimit then
    let n : Int := Text.natOfDigits 0 ds
    .ok (if negative then -n else n)
  else .error .badValue

/-- The whole number that a text writes. -/
def intValue (s : String) : Except Fault Int :=
  let cs := s.toList.filter (· != '_')
  match cs with
  | [] => .error .emptyText
  | _ =>
    let (negative, cs) := unsigned cs
    let signed (n : Except Fault Int) : Except Fault Int :=
      n.map fun n => if negative then -n else n
    let based (base : Nat) (ds : List Char) : Except Fault Int :=
      match digitsIn base ds with
      | some n => .ok n
      | none => .error .badValue
    signed <|
      match cs with
      | [] => .error .emptyText
      | ['0'] => .ok 0
      | '0' :: 'b' :: ds => based 2 ds
      | '0' :: 'x' :: ds => based 16 ds
      | '0' :: ds => based 8 ds
      | _ =>
        if cs.contains ':' then
          (splitColons cs).foldlM (fun acc part => (wholeOf part).map (acc * 60 + ·)) 0
        else wholeOf cs

def realOf (cs : List Char) : Except Fault Binary64 :=
  match Binary64.ofText? (Text.trim cs) with
  | some x => .ok x
  | none => .error .badValue

/-- The opposite of a floating-point number. -/
def negate : Binary64 → Binary64
  | .finite n m e => .finite (!n) m e
  | .infinite n => .infinite (!n)
  | .nan => .nan

/-- The floating-point number that a text writes. -/
def floatValue (s : String) : Except Fault Binary64 :=
  let cs := (s.toList.filter (· != '_')).map Char.toLower
  match cs with
  | [] => .error .emptyText
  | _ =>
    let (negative, cs) := unsigned cs
    let signed (x : Except Fault Binary64) : Except Fault Binary64 :=
      x.map fun x => if negative then negate x else x
    signed <|
      if cs = ".inf".toList then .ok (.infinite false)
      else if cs = ".nan".toList then .ok .nan
      else if cs.contains ':' then do
        let parts ← (splitColons cs).mapM realOf
        let sum := parts.reverse.foldl
          (fun (acc : Binary64 × Rat) p =>
            (Binary64.ofRat (acc.1.toRat + (Binary64.ofRat (p.toRat * acc.2)).toRat), acc.2 * 60))
          (Binary64.zero, 1)
        .ok sum.1
      else realOf cs

end ServerRun.Yaml
