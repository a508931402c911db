import ServerRun.Json.Basic
import ServerRun.Number.Decimal

/-! Reading JSON text. Besides the standard grammar the reader knows `NaN`, `Infinity` and
`-Infinity`; a number with neither fraction nor exponent is whole and has a bounded number of
digits. -/

namespace ServerRun.Json

/-- Drops the blanks that JSON allows between tokens. -/
def skipBlanks : List Char → List Char
  | c :: cs => if c = ' ' ∨ c = '\t' ∨ c = '\n' ∨ c = '\x0d' then skipBlanks cs else c :: cs
  | [] => []

/-- The value of four hexadecimal digits and the rest of the text. -/
def readHex4 : List Char → Option (Nat × List Char)
  | a :: b :: c :: d :: cs => do
    let a ← Text.hexValue? a
    let b ← Text.hexValue? b
    let c ← Text.hexValue? c
    let d ← Text.hexValue? d
    some (((a * 16 + b) * 16 + c) * 16 + d, cs)
  | _ => none

/-- The character of an escape that is a single letter. -/
def simpleEscape? : Char → Option Char
  | '"' => some '"'
  | '\\' => some '\\'
  | '/' => some '/'
  | 'b' => some '\x08'
  | 'f' => some '\x0c'
  | 'n' => some '\n'
  | 'r' => some '\x0d'
  | 't' => some '\t'
  | _ => none

/-- The character of a code point; a lone half of a surrogate pair counts as the replacement
character. -/
def charOfCode (n : Nat) : Char := if n.isValidChar then Char.ofNat n else '\ufffd'

/-- The rest of a string after its opening quote, as characters in reverse order, and the text
after the closing quote. -/
def readStringFrom : Nat → List Char → List Char → Option (List Char × List Char)
  | 0, _, _ => none
  | _ + 1, _, [] => none
  | _ + 1, acc, '"' :: cs => some (acc, cs)
  | fuel + 1, acc, '\\' :: 'u' :: cs =>
    match readHex4 cs with
    | none => none
    | some (n, cs) =>
      let paired : Option (Nat × List Char) :=
        if 0xD800 ≤ n ∧ n < 0xDC00 then
          match cs with
          | '\\' :: 'u' :: more =>
            match readHex4 more with
            | some (m, more) =>
              if 0xDC00 ≤ m ∧ m < 0xE000 then
                some (0x10000 + (n - 0xD800) * 0x400 + (m - 0xDC00), more)
              else none
            | none => none
          | _ => none
        else none
      match paired with
      | some (n, cs) => readStringFrom fuel (charOfCode n :: acc) cs
      | none => readStringFrom fuel (charOfCode n :: acc) cs
  | fuel + 1, acc, '\\' :: c :: cs =>
    match simpleEscape? c with
    | some c => readStringFrom fuel (c :: acc) cs
    | none => none
  | fuel + 1, acc, c :: cs =>
    if c.toNat < 32 then none else readStringFrom fuel (c :: acc) cs

/-- The rest of a string after its opening quote, and the text after the closing one. -/
def readString (cs : List Char) : Option (String × List Char) :=
  (readStringFrom (cs.length + 1) [] cs).map fun (acc, rest) => (String.ofList acc.reverse, rest)

/-- The ASCII digits at the front of a text, in order, and the rest. -/
def spanDigits (cs : List Char) : List Char × List Char := cs.span Char.isDigit

/-- The fraction part of a number at the front of a text: a point and at least one digit. -/
def spanFraction (cs : List Char) : List Char × List Char :=
  match cs with
  | '.' :: rest =>
    match spanDigits rest with
    | ([], _) => ([], cs)
    | (ds, rest) => ('.' :: ds, rest)
  | _ => ([], cs)

/-- The exponent part of a number at the front of a text. -/
def spanExponent (cs : List Char) : List Char × List Char :=
  match cs with
  | c :: rest =>
    if c = 'e' ∨ c = 'E' then
      let (sign, rest) :=
        match rest with
        | '+' :: r => (['+'], r)
        | '-' :: r => (['-'], r)
        | r => ([], r)
      match spanDigits rest with
      | ([], _) => ([], cs)
      | (ds, rest) => (c :: sign ++ ds, rest)
    else ([], cs)
  | [] => ([], [])

/-- A number at the front of a text: no needless leading zero, an optional fraction and exponent. -/
def readNumber (cs : List Char) : Option (Json × List Char) :=
  let (negative, cs) :=
    match cs with
    | '-' :: r => (true, r)
    | r => (false, r)
  let whole :=
    match cs with
    | '0' :: r => (['0'], r)
    | r => spanDigits r
  match whole with
  | ([], _) => none
  | (ds, rest) =>
    let (fraction, rest) := spanFraction rest
    let (exponent, rest) := spanExponent rest
    if fraction = [] ∧ exponent = [] then
      let n : Int := Text.natOfDigits 0 ds
      if ds.length ≤ Text.digitLimit then some (.int (if negative then -n else n), rest) else none
    else
      let text := (if negative then ['-'] else []) ++ ds ++ fraction ++ exponent
      (Binary64.ofDecimalText? text).map fun x => (.float x, rest)

/-- Removes a word from the front of a text. -/
def dropWord : List Char → List Char → Option (List Char)
  | [], cs => some cs
  | w :: ws, c :: cs => if w = c then dropWord ws cs else none
  | _ :: _, [] => none

/-- A named constant or a number at the front of a text. -/
def readScalar (cs : List Char) : Option (Json × List Char) :=
  match dropWord "null".toList cs with
  | some r => some (.null, r)
  | none =>
  match dropWord "true".toList cs with
  | some r => some (.bool true, r)
  | none =>
  match dropWord "false".toList cs with
  | some r => some (.bool false, r)
  | none =>
  match dropWord "NaN".toList cs with
  | some r => some (.float .nan, r)
  | none =>
  match dropWord "Infinity".toList cs with
  | some r => some (.float (.infinite false), r)
  | none =>
  match dropWord "-Infinity".toList cs with
  | some r => some (.float (.infinite true), r)
  | none => readNumber cs

mutual

/-- A value at the front of a text without leading blanks. -/
def readValue : Nat → List Char → Option (Json × List Char)
  | 0, _ => none
  | _ + 1, '"' :: cs => (readString cs).map fun (s, r) => (.str s, r)
  | fuel + 1, '[' :: cs =>
    match skipBlanks cs with
    | ']' :: r => some (.arr [], r)
    | r => readItems fuel [] r
  | fuel + 1, '\x7b' :: cs =>
    match skipBlanks cs with
    | '\x7d' :: r => some (.obj [], r)
    | r => readFields fuel [] r
  | _ + 1, cs => readScalar cs

/-- The rest of an array, at the start of an item, after items in reverse order. -/
def readItems : Nat → List Json → List Char → Option (Json × List Char)
  | 0, _, _ => none
  | fuel + 1, acc, cs =>
    match readValue fuel cs with
    | none => none
    | some (v, r) =>
      match skipBlanks r with
      | ',' :: r => readItems fuel (v :: acc) (skipBlanks r)
      | ']' :: r => some (.arr (v :: acc).reverse, r)
      | _ => none

/-- The rest of an object, at the start of a member, after the members read so far. -/
def readFields : Nat → List (String × Json) → List Char → Option (Json × List Char)
  | 0, _, _ => none
  | fuel + 1, acc, '"' :: cs =>
    match readString cs with
    | none => none
    | some (name, r) =>
      match skipBlanks r with
      | ':' :: r =>
        match readValue fuel (skipBlanks r) with
        | none => none
        | some (v, r) =>
          let acc := Fields.insert acc name v
          match skipBlanks r with
          | ',' :: r => readFields fuel acc (skipBlanks r)
          | '\x7d' :: r => some (.obj acc, r)
          | _ => none
      | _ => none
  | _ + 1, _, _ => none

end

/-- Reads a text that holds one value and nothing else but blanks. -/
def parse? (s : String) : Option Json :=
  let cs := skipBlanks s.toList
  match readValue (2 * cs.length + 2) cs with
  | some (v, r) => if skipBlanks r = [] then some v else none
  | none => none

end ServerRun.Json
