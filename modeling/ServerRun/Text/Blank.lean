/-! Blank characters and the trimming and splitting of text at them. A character is blank when it is
a space, a line or paragraph separator, or has a separating bidirectional class, anywhere in
Unicode; every blank of core's ASCII class is one of them. -/

namespace ServerRun.Text

/-- The blank characters: the separators of Unicode and the ASCII controls that separate text. -/
def isBlank (c : Char) : Bool :=
  let n := c.toNat
  (9 ≤ n && n ≤ 13) || (28 ≤ n && n ≤ 32) || n == 0x85 || n == 0xA0 || n == 0x1680 ||
    (0x2000 ≤ n && n ≤ 0x200A) || n == 0x2028 || n == 0x2029 || n == 0x202F || n == 0x205F ||
    n == 0x3000

/-- Drops the blanks at the front. -/
def trimStart (cs : List Char) : List Char := cs.dropWhile isBlank

/-- Drops the blanks at the end. -/
def trimEnd : List Char → List Char
  | [] => []
  | c :: cs =>
    match trimEnd cs with
    | [] => if isBlank c then [] else [c]
    | rest => c :: rest

/-- Drops the blanks at both ends. -/
def trim (cs : List Char) : List Char := trimEnd (trimStart cs)

/-- The words of a text, in order: the longest runs without a blank. -/
def wordsFrom : List Char → List Char → List (List Char)
  | [], [] => []
  | [], w => [w.reverse]
  | c :: cs, w =>
    if isBlank c then
      match w with
      | [] => wordsFrom cs []
      | _ => w.reverse :: wordsFrom cs []
    else wordsFrom cs (c :: w)

/-- The words of a text: its longest runs without a blank. -/
def words (s : String) : List String := (wordsFrom s.toList []).map String.ofList

/-- A text without the blanks at its ends. -/
def stripped (s : String) : String := String.ofList (trim s.toList)

/-- A text without the blanks at its end. -/
def strippedEnd (s : String) : String := String.ofList (trimEnd s.toList)

/-- Whether a text holds nothing but blanks. -/
def allBlank (s : String) : Bool := s.toList.all isBlank

@[simp] theorem trimEnd_nil : trimEnd [] = [] := rfl

@[simp] theorem trim_nil : trim [] = [] := rfl

end ServerRun.Text
