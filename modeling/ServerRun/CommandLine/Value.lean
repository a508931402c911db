import ServerRun.Number.Decimal
import ServerRun.Schema.Basic

/-! Numbers as values of options: blanks around a number do not count, and single underscores may
stand between its digits. -/

namespace ServerRun.CommandLine

/-- A text without its underscores; none if one does not stand between two digits. -/
def withoutUnderscores : List Char → Option (List Char)
  | [] => some []
  | '_' :: _ => none
  | [c] => some [c]
  | c :: '_' :: cs =>
    match cs with
    | d :: _ =>
      if Text.isDigit c && Text.isDigit d then (withoutUnderscores cs).map (c :: ·) else none
    | [] => none
  | c :: cs => (withoutUnderscores cs).map (c :: ·)

/-- A whole number with an optional sign. -/
def whole? (s : String) : Option Int :=
  let (negative, cs) := Binary64.readSign (Schema.trimNumber s.toList)
  match withoutUnderscores cs with
  | some ds =>
    if ds ≠ [] ∧ ds.all Text.isDigit then
      let n : Int := Text.natOfDigits 0 ds
      some (if negative then -n else n)
    else none
  | none => none

/-- A number with an optional fraction or exponent, an infinity, or no number. -/
def real? (s : String) : Option Binary64 :=
  (withoutUnderscores (Schema.trimNumber s.toList)).bind Binary64.ofText?

end ServerRun.CommandLine
