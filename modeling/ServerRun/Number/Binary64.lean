/-! Binary floating-point numbers of 64 bits, as exact values: a finite number is a mantissa below
`2 ^ 53` times a power of two, and rounding a fraction takes the nearest such number, of two equally
near ones the one with the even mantissa. -/

namespace ServerRun

/-- The whole number nearest to `num / den`, of two equally near ones the even one. -/
def roundHalfEven (num den : Nat) : Nat :=
  let q := num / den
  let r := num % den
  if 2 * r < den then q
  else if den < 2 * r then q + 1
  else if q % 2 = 0 then q else q + 1

/-- A binary floating-point number of 64 bits. A finite number is `mantissa * 2 ^ exponent`, with a
mantissa of 53 bits unless the exponent is the least one, `-1074`. -/
inductive Binary64 where
  | finite (negative : Bool) (mantissa : Nat) (exponent : Int)
  | infinite (negative : Bool)
  | nan
deriving DecidableEq, Repr, Inhabited

namespace Binary64

/-- Zero without a sign. -/
def zero : Binary64 := .finite false 0 (-1074)

/-- The exponent of the leading bit of the positive fraction `num / den`. -/
def leadingExponent (num den : Nat) : Int :=
  let e : Int := (Nat.log2 num : Int) - Nat.log2 den
  let reaches :=
    if 0 ≤ e then den * Nat.pow 2 e.toNat ≤ num else den ≤ num * Nat.pow 2 (-e).toNat
  if reaches then e else e - 1

/-- The number nearest to `num / den` with the given sign; a value beyond the largest finite number
by half a unit or more is infinite. -/
def round (negative : Bool) (num den : Nat) : Binary64 :=
  if num = 0 then .finite negative 0 (-1074)
  else
    let q := leadingExponent num den - 52
    let q := if q < -1074 then -1074 else q
    let m :=
      if 0 ≤ q then roundHalfEven num (den * Nat.pow 2 q.toNat)
      else roundHalfEven (num * Nat.pow 2 (-q).toNat) den
    let (m, q) := if m = Nat.pow 2 53 then (Nat.pow 2 52, q + 1) else (m, q)
    if 971 < q then .infinite negative else .finite negative m q

/-- The number nearest to a rational. -/
def ofRat (r : Rat) : Binary64 := round (decide (r < 0)) r.num.natAbs r.den

/-- The number nearest to an integer. -/
def ofInt (i : Int) : Binary64 := round (decide (i < 0)) i.natAbs 1

/-- The number nearest to `digits * 10 ^ exponent` with the given sign. -/
def ofDecimal (negative : Bool) (digits : Nat) (exponent : Int) : Binary64 :=
  if digits = 0 then .finite negative 0 (-1074)
  else
    let magnitude : Int := (Nat.log2 digits : Int) * 3 / 10 + exponent
    if 320 < magnitude then .infinite negative
    else if magnitude < -400 then .finite negative 0 (-1074)
    else if 0 ≤ exponent then round negative (digits * Nat.pow 10 exponent.toNat) 1
    else round negative digits (Nat.pow 10 (-exponent).toNat)

/-- The exact absolute value of a finite number as a fraction. -/
def fraction (mantissa : Nat) (exponent : Int) : Nat × Nat :=
  if 0 ≤ exponent then (mantissa * Nat.pow 2 exponent.toNat, 1)
  else (mantissa, Nat.pow 2 (-exponent).toNat)

/-- The exact value of a finite number. -/
def toRat? : Binary64 → Option Rat
  | .finite negative m e =>
    let (num, den) := fraction m e
    let r := mkRat num den
    some (if negative then -r else r)
  | _ => none

/-- The value of a number, an infinite one or no number counting as zero. -/
def toRat (x : Binary64) : Rat := x.toRat?.getD 0

/-- Whether the number is greater than a rational; no comparison with `nan` holds. -/
def gt (x : Binary64) (r : Rat) : Bool :=
  match x with
  | .nan => false
  | .infinite negative => !negative
  | .finite .. => decide (r < x.toRat)

/-- Whether the number is at most a rational. -/
def le (x : Binary64) (r : Rat) : Bool :=
  match x with
  | .nan => false
  | .infinite negative => negative
  | .finite .. => decide (x.toRat ≤ r)

/-- The integer that the number is, if it has no fraction. -/
def toInt? (x : Binary64) : Option Int :=
  match x.toRat? with
  | some r => if r.den = 1 then some r.num else none
  | none => none

/-- Whether the number is a zero of either sign. -/
def isZero : Binary64 → Bool
  | .finite _ m _ => m == 0
  | _ => false

end Binary64

/-- A number as data formats write it: a whole number of any size, or a binary floating-point
number. -/
inductive Number where
  | whole (value : Int)
  | real (value : Binary64)
deriving DecidableEq, Repr, Inhabited

/-- The floating-point number nearest to a number. -/
def Number.toBinary64 : Number → Binary64
  | .whole i => .ofInt i
  | .real x => x

end ServerRun
