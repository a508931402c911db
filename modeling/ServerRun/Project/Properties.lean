import ServerRun.Json.Basic

/-! Properties of a project and references to them: a dollar sign and a name in braces. -/

namespace ServerRun.Project

theorem length_dropWhile_le (p : α → Bool) (xs : List α) :
    (xs.dropWhile p).length ≤ xs.length := by
  induction xs with
  | nil => simp
  | cons x xs ih =>
    by_cases h : p x = true
    · simp only [List.dropWhile_cons, h, if_true, List.length_cons]; omega
    · simp [h]

theorem length_lt_of_dropWhile {p : α → Bool} {x : α} {xs rest : List α}
    (h : xs.dropWhile p = x :: rest) : rest.length < xs.length := by
  have hl := length_dropWhile_le p xs
  rw [h] at hl
  exact hl

/-- Replaces every reference to a property by the property's value, and leaves references to unknown
properties as they are. A name ends at the first closing brace, and values are not looked into. -/
def interpolateChars (value? : String → Option String) : List Char → List Char
  | [] => []
  | '$' :: '\x7b' :: cs =>
    match h : cs.dropWhile (· != '}') with
    | [] => '$' :: '\x7b' :: interpolateChars value? cs
    | _ :: rest =>
      let name := cs.takeWhile (· != '}')
      if name = [] then '$' :: '\x7b' :: interpolateChars value? cs
      else
        have : rest.length < cs.length := length_lt_of_dropWhile h
        match value? (String.ofList name) with
        | some v => v.toList ++ interpolateChars value? rest
        | none => '$' :: '\x7b' :: name ++ '}' :: interpolateChars value? rest
  | c :: cs => c :: interpolateChars value? cs
termination_by cs => cs.length
decreasing_by all_goals (simp only [List.length_cons]; omega)

/-- Replaces the references to properties in a text. -/
def interpolate (properties : List (String × String)) (text : String) : String :=
  String.ofList (interpolateChars (Fields.get? properties) text.toList)

end ServerRun.Project
