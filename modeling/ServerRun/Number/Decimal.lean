import ServerRun.Number.Binary64
import ServerRun.Text.Digit

/-! Decimal texts of binary floating-point numbers: the fewest digits that read back, a fixed number
of places, and six significant digits; and reading decimal texts. -/

namespace ServerRun.Binary64

/-- A positive decimal `digits * 10 ^ exponent`. -/
structure Decimal where
  digits : Nat
  exponent : Int
deriving DecidableEq, Repr

/-- The decimal digits of a number, most significant first. -/
def decimalDigits (n : Nat) : List Char := Nat.toDigits 10 n

/-- The exponent of the leading decimal digit of the positive fraction `num / den`. -/
def leadingPlace (num den : Nat) : Int :=
  let guess : Int := (decimalDigits num).length - (decimalDigits den).length
  let reaches :=
    if 0 ≤ guess then den * Nat.pow 10 guess.toNat ≤ num
    else den ≤ num * Nat.pow 10 (-guess).toNat
  if reaches then guess else guess - 1

/-- The fraction `num / den` in units of `10 ^ place`, as a fraction. -/
def inUnits (num den : Nat) (place : Int) : Nat × Nat :=
  if 0 ≤ place then (num, den * Nat.pow 10 place.toNat)
  else (num * Nat.pow 10 (-place).toNat, den)

/-- The decimal on the grid of `10 ^ place` that is next to `num / den` and reads back as `x`, the
nearer one where both neighbours do. -/
def readsBackOn (x : Binary64) (num den : Nat) (place : Int) : Option Decimal :=
  let (n, d) := inUnits num den place
  let low := n / d
  let isHit (k : Nat) : Bool := ofDecimal false k place == x
  let high := low + 1
  let nearLow := 2 * (n % d) ≤ d
  if isHit low && (nearLow || !isHit high) then some ⟨low, place⟩
  else if isHit high then some ⟨high, place⟩
  else none

/-- The first grid, from `count` digits on, that holds a decimal that reads back. -/
def shortestFrom (x : Binary64) (num den : Nat) : Nat → Int → Decimal
  | 0, place => ⟨(inUnits num den place).1 / (inUnits num den place).2, place⟩
  | fuel + 1, place =>
    match readsBackOn x num den place with
    | some d => d
    | none => shortestFrom x num den fuel (place - 1)

/-- The decimal with the fewest digits that reads back as the positive number
`mantissa * 2 ^ exponent`. -/
def shortest (mantissa : Nat) (exponent : Int) : Decimal :=
  let (num, den) := fraction mantissa exponent
  let top := leadingPlace num den
  shortestFrom (.finite false mantissa exponent) num den 18 top

/-- A whole number without the zeros at its end, and their count. -/
def dropZeros : Nat → Nat → Int → Decimal
  | 0, n, e => ⟨n, e⟩
  | fuel + 1, n, e => if n % 10 = 0 ∧ n ≠ 0 then dropZeros fuel (n / 10) (e + 1) else ⟨n, e⟩

/-- The text of an exponent: a sign and at least two digits. -/
def exponentText (e : Int) : String :=
  let ds := decimalDigits e.natAbs
  (if e < 0 then "e-" else "e+") ++ String.ofList (List.replicate (2 - ds.length) '0' ++ ds)

/-- Digits with a point after the first `point` of them, padded with zeros where they end early. -/
def placePoint (ds : List Char) (point : Int) : String :=
  if point ≤ 0 then "0." ++ String.ofList (List.replicate (-point).toNat '0' ++ ds)
  else
    let k := point.toNat
    let whole := ds.take k ++ List.replicate (k - ds.length) '0'
    match ds.drop k with
    | [] => String.ofList whole
    | rest => String.ofList (whole ++ '.' :: rest)

/-- Scientific notation of digits whose first one stands at `10 ^ e`. -/
def scientific (ds : List Char) (e : Int) : String :=
  match ds with
  | [d] => String.ofList [d] ++ exponentText e
  | d :: rest => String.ofList (d :: '.' :: rest) ++ exponentText e
  | [] => exponentText e

def signText (negative : Bool) : String := if negative then "-" else ""

/-- The text of a number that is not finite. -/
def specialText : Binary64 → String
  | .infinite negative => signText negative ++ "inf"
  | _ => "nan"

/-- The fewest digits that read back: positional from `0.0001` up to below `10 ^ 16`, with a point
always, and scientific elsewhere. -/
def text : Binary64 → String
  | .finite negative 0 _ => signText negative ++ "0.0"
  | .finite negative m e =>
    let s := shortest m e
    let s := dropZeros 20 s.digits s.exponent
    let ds := decimalDigits s.digits
    let point := s.exponent + ds.length
    signText negative ++
      if -4 < point ∧ point ≤ 16 then
        let t := placePoint ds point
        if t.toList.contains '.' then t else t ++ ".0"
      else scientific ds (point - 1)
  | x => specialText x

/-- A fixed number of decimal places, the last one rounded half to even. -/
def fixed (places : Nat) : Binary64 → String
  | .finite negative m e =>
    let (num, den) := fraction m e
    let ds := decimalDigits (roundHalfEven (num * Nat.pow 10 places) den)
    let ds := List.replicate (places + 1 - ds.length) '0' ++ ds
    signText negative ++ placePoint ds (ds.length - places)
  | x => specialText x

/-- Six significant digits without zeros at the end: positional from `0.0001` up to below `10 ^ 6`,
and scientific elsewhere. -/
def general : Binary64 → String
  | .finite negative 0 _ => signText negative ++ "0"
  | .finite negative m e =>
    let (num, den) := fraction m e
    let top := leadingPlace num den
    let (n, d) := inUnits num den (top - 5)
    let k := roundHalfEven n d
    let top := if k = 1000000 then top + 1 else top
    let k := if k = 1000000 then 100000 else k
    let ds := decimalDigits (dropZeros 6 k 0).digits
    signText negative ++
      if -4 ≤ top ∧ top < 6 then placePoint ds (top + 1) else scientific ds top
  | x => specialText x

/-- The number nearest to this one rounded half to even to one decimal place. -/
def roundTenth : Binary64 → Binary64
  | .finite negative m e =>
    let (num, den) := fraction m e
    round negative (roundHalfEven (num * 10) den) 10
  | x => x

/-! ### reading -/

/-- The digits at the front of a text, their count and value after a prefix, and the rest. -/
def readDigits (acc count : Nat) : List Char → Nat × Nat × List Char
  | c :: cs =>
    match Text.digitValue? c with
    | some d => readDigits (acc * 10 + d) (count + 1) cs
    | none => (acc, count, c :: cs)
  | [] => (acc, count, [])

/-- An optional sign at the front of a text. -/
def readSign : List Char → Bool × List Char
  | '-' :: cs => (true, cs)
  | '+' :: cs => (false, cs)
  | cs => (false, cs)

/-- An exponent: nothing, or `e`, an optional sign and digits, with nothing after them. -/
def readExponent : List Char → Option Int
  | [] => some 0
  | c :: cs =>
    if c = 'e' ∨ c = 'E' then
      let (negative, cs) := readSign cs
      match readDigits 0 0 cs with
      | (n, count, []) => if count = 0 then none else some (if negative then -(n : Int) else n)
      | _ => none
    else none

/-- Reads a decimal text: an optional sign, digits with an optional point among them or at either
end, and an optional exponent. -/
def ofDecimalText? (cs : List Char) : Option Binary64 :=
  let (negative, cs) := readSign cs
  let (whole, wholeCount, cs) := readDigits 0 0 cs
  let (digits, places, cs) :=
    match cs with
    | '.' :: cs => readDigits whole 0 cs
    | cs => (whole, 0, cs)
  if wholeCount + places = 0 then none
  else (readExponent cs).map fun e => ofDecimal negative digits (e - places)

/-- Reads a decimal text or the name of infinity or of no number, in any case. -/
def ofText? (cs : List Char) : Option Binary64 :=
  let (negative, rest) := readSign cs
  let name := String.ofList (rest.map Char.toLower)
  if name = "inf" ∨ name = "infinity" then some (.infinite negative)
  else if name = "nan" then some .nan
  else ofDecimalText? cs

end ServerRun.Binary64
