/-! Texts as bytes: UTF-8 with strict and lenient reading, UTF-16, UTF-32 and Latin-1, and bytes as
base-64 text. Lenient reading puts one replacement character for each longest run of bytes that
starts a character and cannot be continued. -/

namespace ServerRun.Text

/-- The bytes of a text in UTF-8. -/
def utf8 (s : String) : List UInt8 := s.toUTF8.toList

/-- The character of a code point, surrogates aside. -/
def scalar? (n : Nat) : Option Char := if n.isValidChar then some (Char.ofNat n) else none

/-- What a first byte announces: the bits it holds, how many bytes follow, and the range of the
first of those. -/
def utf8Lead (b : Nat) : Option (Nat × Nat × Nat × Nat) :=
  if b < 0x80 then some (b, 0, 0x80, 0xBF)
  else if 0xC2 ≤ b ∧ b ≤ 0xDF then some (b - 0xC0, 1, 0x80, 0xBF)
  else if b = 0xE0 then some (0, 2, 0xA0, 0xBF)
  else if b = 0xED then some (13, 2, 0x80, 0x9F)
  else if 0xE1 ≤ b ∧ b ≤ 0xEF then some (b - 0xE0, 2, 0x80, 0xBF)
  else if b = 0xF0 then some (0, 3, 0x90, 0xBF)
  else if 0xF1 ≤ b ∧ b ≤ 0xF3 then some (b - 0xF0, 3, 0x80, 0xBF)
  else if b = 0xF4 then some (4, 3, 0x80, 0x8F)
  else none

/-- Reads the bytes that follow a first byte: the code point if all are there, how many fit, and the
rest. -/
def utf8Tail (acc : Nat) : Nat → Nat → Nat → List UInt8 → Option Nat × List UInt8
  | 0, _, _, bs => (some acc, bs)
  | count + 1, low, high, b :: bs =>
    if low ≤ b.toNat ∧ b.toNat ≤ high then
      utf8Tail (acc * 64 + (b.toNat - 0x80)) count 0x80 0xBF bs
    else (none, b :: bs)
  | _ + 1, _, _, [] => (none, [])

/-- Reads bytes as UTF-8, one character or `none` for a run that is no character. -/
def utf8Characters : Nat → List UInt8 → List (Option Char)
  | 0, _ => []
  | _ + 1, [] => []
  | fuel + 1, b :: bs =>
    match utf8Lead b.toNat with
    | none => none :: utf8Characters fuel bs
    | some (bits, count, low, high) =>
      match utf8Tail bits count low high bs with
      | (some n, rest) => scalar? n :: utf8Characters fuel rest
      | (none, rest) => none :: utf8Characters fuel rest

/-- The text of bytes in UTF-8. -/
def ofUtf8? (bs : List UInt8) : Option String :=
  ((utf8Characters (bs.length + 1) bs).mapM id).map String.ofList

/-- The text of bytes in UTF-8, with replacement characters for what is no character. -/
def ofUtf8Lossy (bs : List UInt8) : String :=
  String.ofList ((utf8Characters (bs.length + 1) bs).map (·.getD '\ufffd'))

/-- The text of bytes each of which is one character. -/
def ofLatin1 (bs : List UInt8) : String := String.ofList (bs.map fun b => Char.ofNat b.toNat)

/-- Two bytes to a unit. -/
def units16 (bigEndian : Bool) : List UInt8 → Option (List Nat)
  | [] => some []
  | a :: b :: rest =>
    (units16 bigEndian rest).map
      ((if bigEndian then a.toNat * 256 + b.toNat else b.toNat * 256 + a.toNat) :: ·)
  | [_] => none

/-- The characters of UTF-16 units. -/
def ofUnits16 : List Nat → Option (List Char)
  | [] => some []
  | u :: v :: rest =>
    if 0xD800 ≤ u ∧ u < 0xDC00 then
      if 0xDC00 ≤ v ∧ v < 0xE000 then
        (ofUnits16 rest).map (Char.ofNat (0x10000 + (u - 0xD800) * 0x400 + (v - 0xDC00)) :: ·)
      else none
    else (scalar? u).bind fun c => (ofUnits16 (v :: rest)).map (c :: ·)
  | [u] => (scalar? u).map ([·])

def ofUtf16? (bigEndian : Bool) (bs : List UInt8) : Option String :=
  (units16 bigEndian bs).bind fun us => (ofUnits16 us).map String.ofList

/-- The text of bytes in UTF-32. -/
def ofUtf32? (bigEndian : Bool) (bs : List UInt8) : Option String :=
  let rec go : List UInt8 → Option (List Char)
    | [] => some []
    | a :: b :: c :: d :: rest =>
      let n :=
        if bigEndian then ((a.toNat * 256 + b.toNat) * 256 + c.toNat) * 256 + d.toNat
        else ((d.toNat * 256 + c.toNat) * 256 + b.toNat) * 256 + a.toNat
      (scalar? n).bind fun ch => (go rest).map (ch :: ·)
    | _ => none
  (go bs).map String.ofList

/-! ### base 64 -/

def base64Alphabet : List Char :=
  "ABCDEFGHIJKLMNOPQRSTUVWXYZabcdefghijklmnopqrstuvwxyz0123456789+/".toList

def base64Char (n : Nat) : Char := base64Alphabet.getD n '='

/-- Bytes as base-64 text with padding. -/
def toBase64Chars : List UInt8 → List Char
  | a :: b :: c :: rest =>
    let n := (a.toNat * 256 + b.toNat) * 256 + c.toNat
    base64Char (n / 262144) :: base64Char (n / 4096 % 64) :: base64Char (n / 64 % 64) ::
      base64Char (n % 64) :: toBase64Chars rest
  | [a, b] =>
    let n := (a.toNat * 256 + b.toNat) * 256
    [base64Char (n / 262144), base64Char (n / 4096 % 64), base64Char (n / 64 % 64), '=']
  | [a] =>
    let n := a.toNat * 65536
    [base64Char (n / 262144), base64Char (n / 4096 % 64), '=', '=']
  | [] => []

def toBase64 (bs : List UInt8) : String := String.ofList (toBase64Chars bs)

/-- The bytes of base-64 digits: each four hold three bytes, and two or three at the end hold one or
two. -/
def ofBase64Digits : List Nat → Option (List UInt8)
  | a :: b :: c :: d :: rest =>
    let n := ((a * 64 + b) * 64 + c) * 64 + d
    (ofBase64Digits rest).map
      ([UInt8.ofNat (n / 65536), UInt8.ofNat (n / 256 % 256), UInt8.ofNat (n % 256)] ++ ·)
  | [a, b, c] =>
    let n := ((a * 64 + b) * 64 + c) * 64
    some [UInt8.ofNat (n / 65536), UInt8.ofNat (n / 256 % 256)]
  | [a, b] => some [UInt8.ofNat ((a * 64 + b) / 16)]
  | [_] => none
  | [] => some []

/-- The bytes of a base-64 text; characters outside its alphabet are skipped, and the padding has to
complete the last four digits. -/
def ofBase64? (cs : List Char) : Option (List UInt8) :=
  let rec go (digits : List Nat) : List Char → Option (List UInt8)
    | [] => if digits.length % 4 = 0 then ofBase64Digits digits.reverse else none
    | '=' :: rest =>
      if digits.length % 4 = 3 ∨ (digits.length % 4 = 2 ∧ rest.contains '=') then
        ofBase64Digits digits.reverse
      else go digits rest
    | c :: rest =>
      match base64Alphabet.idxOf? c with
      | some d => go (d :: digits) rest
      | none => go digits rest
  go [] cs

end ServerRun.Text
