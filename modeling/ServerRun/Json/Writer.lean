import ServerRun.Json.Basic
import ServerRun.Number.Decimal
import ServerRun.Text.Hidden

/-! Texts of JSON values: standard JSON in ASCII, and the display form that messages embed, in which
strings stand in single quotes and the constants are spelt `None`, `True` and `False`. -/

namespace ServerRun.Json

/-- A backslash, `u` and four hexadecimal digits. -/
def unicodeEscape (n : Nat) : List Char := '\\' :: 'u' :: Text.hexDigits 4 n

/-- One character of a JSON string in ASCII. -/
def escapeChar (c : Char) : List Char :=
  if c = '"' then ['\\', '"']
  else if c = '\\' then ['\\', '\\']
  else if 32 ≤ c.toNat ∧ c.toNat < 127 then [c]
  else if c.toNat < 0x10000 then unicodeEscape c.toNat
  else
    let n := c.toNat - 0x10000
    unicodeEscape (0xD800 + n / 0x400) ++ unicodeEscape (0xDC00 + n % 0x400)

/-- A JSON string with its quotes, in ASCII. -/
def quoteString (s : String) : String :=
  String.ofList ('"' :: s.toList.flatMap escapeChar ++ ['"'])

mutual

/-- The compact JSON text of a value, in ASCII. -/
def render : Json → String
  | .null => "null"
  | .bool b => if b then "true" else "false"
  | .int i => toString i
  | .float x => x.text
  | .str s => quoteString s
  | .arr xs => "[" ++ renderItems xs ++ "]"
  | .obj fs => "\x7b" ++ renderFields fs ++ "\x7d"

def renderItems : List Json → String
  | [] => ""
  | [x] => render x
  | x :: xs => render x ++ "," ++ renderItems xs

def renderFields : List (String × Json) → String
  | [] => ""
  | [(name, v)] => quoteString name ++ ":" ++ render v
  | (name, v) :: fs => quoteString name ++ ":" ++ render v ++ "," ++ renderFields fs

end

/-! ### display form -/

/-- One character of a displayed string that stands between the given quotes: quotes and
backslashes get a backslash, and characters without a visible form are escaped. -/
def displayChar (quote c : Char) : List Char :=
  if c = quote ∨ c = '\\' then ['\\', c]
  else if c = '\n' then ['\\', 'n']
  else if c = '\x0d' then ['\\', 'r']
  else if c = '\t' then ['\\', 't']
  else if Text.isHidden c then
    if c.toNat < 0x100 then '\\' :: 'x' :: Text.hexDigits 2 c.toNat
    else if c.toNat < 0x10000 then '\\' :: 'u' :: Text.hexDigits 4 c.toNat
    else '\\' :: 'U' :: Text.hexDigits 8 c.toNat
  else [c]

/-- The quote around a displayed string: a single one, unless the string holds single quotes and no
double ones. -/
def displayQuote (cs : List Char) : Char :=
  if cs.contains '\'' && !cs.contains '"' then '"' else '\''

/-- The display form of a string. -/
def displayString (s : String) : String :=
  let cs := s.toList
  let q := displayQuote cs
  String.ofList (q :: cs.flatMap (displayChar q) ++ [q])

mutual

/-- The display form of a value. -/
def display : Json → String
  | .null => "None"
  | .bool b => if b then "True" else "False"
  | .int i => toString i
  | .float x => x.text
  | .str s => displayString s
  | .arr xs => "[" ++ displayItems xs ++ "]"
  | .obj fs => "\x7b" ++ displayFields fs ++ "\x7d"

def displayItems : List Json → String
  | [] => ""
  | [x] => display x
  | x :: xs => display x ++ ", " ++ displayItems xs

def displayFields : List (String × Json) → String
  | [] => ""
  | [(name, v)] => displayString name ++ ": " ++ display v
  | (name, v) :: fs => displayString name ++ ": " ++ display v ++ ", " ++ displayFields fs

end

/-- The text of a value inside a message: a string is itself, any other value its display form. -/
def messageText : Json → String
  | .str s => s
  | v => display v

/-- Whether a value counts as holding something: neither null, false nor zero, nor empty. -/
def isTruthy : Json → Bool
  | .null => false
  | .bool b => b
  | .int i => i != 0
  | .float x => !x.isZero
  | .str s => s != ""
  | .arr xs => !xs.isEmpty
  | .obj fs => !fs.isEmpty

end ServerRun.Json
