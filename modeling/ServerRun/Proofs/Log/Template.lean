import ServerRun.Log.Template

/-! Templates of log lines, read back. A template is read as what stands before the named values,
their text character by character, and what stands behind it: no text of a name or a value opens a
field, and none is changed except for a backslash in front of each angle bracket that could open a
tag. -/

namespace ServerRun.Log

variable {cs inner rest : List Char} {ps : List Piece} {c : Char}

/-- A text without braces. -/
def IsBraceless (cs : List Char) : Prop := ∀ c ∈ cs, c ≠ '\x7b' ∧ c ≠ '\x7d'

instance (cs : List Char) : Decidable (IsBraceless cs) :=
  decidable_of_iff (cs.all fun c => c != '\x7b' && c != '\x7d') (by simp [IsBraceless])

/-! ### reading -/

/-- A text is read as a sequence of pieces, with any fuel that suffices for its length. -/
def ReadsAs (cs : List Char) (ps : List Piece) : Prop :=
  ∀ fuel, cs.length < fuel → piecesFrom fuel cs = some ps

theorem ReadsAs.pieces? (h : ReadsAs cs ps) : pieces? cs = some ps := h _ (Nat.lt_succ_self _)

theorem readsAs_nil : ReadsAs [] [] := by
  intro fuel hfuel
  obtain ⟨n, rfl⟩ := Nat.exists_eq_succ_of_ne_zero (Nat.ne_of_gt hfuel)
  rfl

theorem ReadsAs.char (hc : c ≠ '\x7b' ∧ c ≠ '\x7d') (h : ReadsAs cs ps) :
    ReadsAs (c :: cs) (.char c :: ps) := by
  intro fuel hfuel
  obtain ⟨n, rfl⟩ := Nat.exists_eq_succ_of_ne_zero (Nat.ne_of_gt (Nat.zero_lt_of_lt hfuel))
  have hrest : piecesFrom n cs = some ps := h n (Nat.lt_of_succ_lt_succ hfuel)
  rw [piecesFrom.eq_def]
  simp only [if_neg hc.1, if_neg hc.2, hrest, Option.map_some]

theorem ReadsAs.doubled (hc : c = '\x7b' ∨ c = '\x7d') (h : ReadsAs cs ps) :
    ReadsAs (c :: c :: cs) (.char c :: ps) := by
  intro fuel hfuel
  obtain ⟨n, rfl⟩ := Nat.exists_eq_succ_of_ne_zero (Nat.ne_of_gt (Nat.zero_lt_of_lt hfuel))
  have hrest : piecesFrom n cs = some ps := h n (by simp at hfuel; omega)
  rcases hc with rfl | rfl
  · simp only [piecesFrom, if_pos, hrest, Option.map_some]
  · rw [piecesFrom.eq_def]
    simp only [hrest, Option.map_some]
    rfl

/-- A text whose braces are written twice is read as its characters. -/
theorem ReadsAs.doubleBraces (h : ReadsAs rest ps) (text : List Char) :
    ReadsAs (Log.doubleBraces text ++ rest) (text.map .char ++ ps) := by
  induction text with
  | nil => exact h
  | cons c cs ih =>
    rw [Log.doubleBraces]
    split
    · rename_i hc
      exact ih.doubled hc
    · rename_i hc
      exact ih.char (not_or.mp hc)

theorem doubleBraces_of_isBraceless {text : List Char} (h : IsBraceless text) :
    doubleBraces text = text := by
  induction text with
  | nil => rfl
  | cons c cs ih =>
    obtain ⟨hc, hcs⟩ := List.forall_mem_cons.mp h
    rw [doubleBraces, if_neg (not_or.mpr hc), ih hcs]

/-- A text without braces is read as its characters. -/
theorem ReadsAs.braceless {text : List Char} (h : ReadsAs rest ps) (htext : IsBraceless text) :
    ReadsAs (text ++ rest) (text.map .char ++ ps) := by
  have hread := h.doubleBraces text
  rwa [doubleBraces_of_isBraceless htext] at hread

theorem fieldBefore?_of_isBraceless (h : IsBraceless inner) (rest : List Char) :
    fieldBefore? (inner ++ '\x7d' :: rest) = some (inner, rest) := by
  induction inner with
  | nil => rfl
  | cons c cs ih =>
    obtain ⟨hc, hcs⟩ := List.forall_mem_cons.mp h
    rw [List.cons_append, fieldBefore?, ih hcs, Option.map_some]
    · exact fun hopen => hc.2 hopen
    · exact fun hopen => hc.1 hopen

/-- What stands between single braces is read as a field. -/
theorem ReadsAs.field (h : ReadsAs rest ps) (hinner : IsBraceless inner) :
    ReadsAs ('\x7b' :: (inner ++ '\x7d' :: rest)) (.ofField inner :: ps) := by
  intro fuel hfuel
  obtain ⟨n, rfl⟩ := Nat.exists_eq_succ_of_ne_zero (Nat.ne_of_gt (Nat.zero_lt_of_lt hfuel))
  have hrest : piecesFrom n rest = some ps := h n (by simp at hfuel; omega)
  have hbefore := fieldBefore?_of_isBraceless hinner rest
  rw [piecesFrom.eq_def]
  simp only [if_pos]
  split
  · rename_i more heq
    rw [heq] at hbefore
    cases hbefore
  · simp only [hbefore, hrest, Option.bind_eq_bind, Option.bind_some]

/-! ### templates -/

/-- A text in which each angle bracket that could open a tag stands behind an added backslash. -/
def shielded (cs : List Char) : List Char :=
  cs.flatMap fun c => if c = '<' then ['\\', '<'] else [c]

/-- Braces are written twice and brackets are shielded independently of each other. -/
theorem guardTags_doubleBraces (cs : List Char) :
    guardTags (doubleBraces cs) = doubleBraces (shielded cs) := by
  induction cs with
  | nil => rfl
  | cons c cs ih =>
    rw [shielded, List.flatMap_cons, ← shielded]
    by_cases hopen : c = '<'
    · subst hopen
      simp [doubleBraces, guardTags, ih]
    · by_cases hbrace : c = '\x7b' ∨ c = '\x7d' <;>
        simp [doubleBraces, guardTags, hopen, hbrace, ih]

/-- The fields of pieces: their names and how they are written. -/
def fieldsOf (ps : List Piece) : List (String × String) :=
  ps.filterMap fun
    | .char _ => none
    | .field name form => some (String.ofList name, String.ofList form)

/-- The text of pieces when their fields have values. -/
def expand (value : List Char → List Char → List Char) (ps : List Piece) : List Char :=
  ps.flatMap fun
    | .char c => [c]
    | .field name form => value name form

/-- The text that the named values of a record add to its line: each name with an equals sign and
the text of its value, a space between one and the next, and shielded as a whole. -/
def extraSegment (extra : List (String × String)) : List Char :=
  if extra = [] then []
  else
    (" <fg " ++ muted ++ ">│ ").toList ++
      shielded (String.intercalate " " (extra.map fun e => e.1 ++ "=" ++ e.2)).toList ++
      "</>".toList

@[simp] theorem fieldsOf_append (ps qs : List Piece) :
    fieldsOf (ps ++ qs) = fieldsOf ps ++ fieldsOf qs :=
  List.filterMap_append

@[simp] theorem fieldsOf_char (cs : List Char) : fieldsOf (cs.map .char) = [] := by
  induction cs with
  | nil => rfl
  | cons c cs ih => exact ih

@[simp] theorem fieldsOf_field (name form : List Char) (ps : List Piece) :
    fieldsOf (.field name form :: ps) =
      (String.ofList name, String.ofList form) :: fieldsOf ps :=
  rfl

theorem expand_char (value : List Char → List Char → List Char) (cs : List Char) :
    expand value (cs.map .char) = cs := by
  simp [expand, List.flatMap_map]

/-- Characters in a row. -/
def characters (s : String) : List Piece := s.toList.map .char

/-- What a template says before the named values. -/
def startPieces (level : String) : List Piece :=
  characters ("<fg " ++ muted ++ ">") ++ .field "time".toList "HH:mm:ss".toList ::
    (characters ("</> " ++ tagged dim "│" ++ " " ++ levelTag level) ++
      .field "level".toList " <8".toList ::
        (characters ("</>" ++ tagged dim "│" ++ " <fg " ++ pale ++ ">") ++
          .field "message".toList [] :: characters "</>"))

/-- What a template says behind the named values. -/
def endPieces (hasException : Bool) : List Piece :=
  .char '\n' :: if hasException then [.field "exception".toList [], .char '\n'] else []

theorem isBraceless_append {xs ys : List Char} (hxs : IsBraceless xs) (hys : IsBraceless ys) :
    IsBraceless (xs ++ ys) :=
  fun c hc => (List.mem_append.mp hc).elim (hxs c) (hys c)

theorem isBraceless_levelTag (level : String) : IsBraceless (levelTag level).toList := by
  unfold levelTag
  split <;> decide

theorem ReadsAs.characters (h : ReadsAs rest ps) (text : String) (htext : IsBraceless text.toList) :
    ReadsAs (text.toList ++ rest) (Log.characters text ++ ps) :=
  h.braceless htext

theorem ReadsAs.placeholder (h : ReadsAs rest ps) (inner : String)
    (hinner : IsBraceless inner.toList) :
    ReadsAs (("\x7b" ++ inner ++ "\x7d").toList ++ rest) (.ofField inner.toList :: ps) := by
  have htext : ("\x7b" ++ inner ++ "\x7d").toList ++ rest =
      '\x7b' :: (inner.toList ++ '\x7d' :: rest) := by
    simp [String.toList_append]
  rw [htext]
  exact h.field hinner

theorem ReadsAs.lineStart (h : ReadsAs rest ps) (level : String) :
    ReadsAs ((lineStart level).toList ++ rest) (startPieces level ++ ps) := by
  have hlevel : IsBraceless ("</> " ++ tagged dim "│" ++ " " ++ levelTag level).toList := by
    rw [String.toList_append]
    exact isBraceless_append (by decide) (isBraceless_levelTag level)
  have hmessage := (h.characters "</>" (by decide)).placeholder "message" (by decide)
  have hname := (hmessage.characters ("</>" ++ tagged dim "│" ++ " <fg " ++ pale ++ ">")
    (by decide)).placeholder "level: <8" (by decide)
  have htime := (hname.characters _ hlevel).placeholder "time:HH:mm:ss" (by decide)
  have hread := htime.characters ("<fg " ++ muted ++ ">") (by decide)
  have hclose : "\x7blevel: <8\x7d</>" = "\x7b" ++ "level: <8" ++ "\x7d" ++ "</>" := by decide
  rw [startPieces, Log.lineStart, hclose]
  simp only [tagged, String.toList_append, List.append_assoc, List.cons_append] at hread ⊢
  exact hread

theorem readsAs_lineEnd (hasException : Bool) :
    ReadsAs (lineEnd hasException).toList (endPieces hasException) := by
  cases hasException with
  | false => exact readsAs_nil.characters "\n" (by decide)
  | true =>
    have hexception := (readsAs_nil.characters "\n" (by decide)).placeholder "exception" (by decide)
    exact hexception.characters "\n" (by decide)

theorem ReadsAs.extraPart (h : ReadsAs rest ps) (extra : List (String × String)) :
    ReadsAs ((extraPart extra).toList ++ rest) ((extraSegment extra).map .char ++ ps) := by
  by_cases hextra : extra = []
  · subst hextra
    exact h
  · have hclose := h.characters "</>" (by decide)
    have htext := hclose.doubleBraces
      (shielded (String.intercalate " " (extra.map fun e => e.1 ++ "=" ++ e.2)).toList)
    have hread := htext.characters (" <fg " ++ muted ++ ">│ ") (by decide)
    simp only [Log.extraPart, extraText, List.isEmpty_iff, hextra, if_false, extraSegment,
      Log.characters, tagged, guardTags_doubleBraces, String.toList_append, String.toList_ofList,
      List.map_append, List.append_assoc] at hread ⊢
    exact hread

/-- The template of every record is read as pieces: those in front of the named values and those
behind them do not depend on them, and have the fields of a line, and what stands between are the
characters of the named values, shielded. -/
theorem template_readsAs (level : String) (hasException : Bool) : ∃ front back : List Piece,
    fieldsOf front = [("time", "HH:mm:ss"), ("level", " <8"), ("message", "")] ∧
    fieldsOf back = (if hasException then [("exception", "")] else []) ∧
    ∀ extra : List (String × String),
      pieces? (templateOfTexts level extra hasException).toList =
        some (front ++ (extraSegment extra).map .char ++ back) ∧
      ∀ value, expand value (front ++ (extraSegment extra).map .char ++ back) =
        expand value front ++ extraSegment extra ++ expand value back := by
  refine ⟨startPieces level, endPieces hasException, ?_, ?_, fun extra => ⟨?_, fun value => ?_⟩⟩
  · simp only [startPieces, characters, fieldsOf_append, fieldsOf_char, fieldsOf_field,
      String.ofList_toList, List.nil_append]
  · cases hasException <;> rfl
  · have hread := ((readsAs_lineEnd hasException).extraPart extra).lineStart level
    rw [templateOfTexts, String.toList_append, String.toList_append, List.append_assoc,
      hread.pieces?, List.append_assoc]
  · rw [expand, List.flatMap_append, List.flatMap_append, ← expand, ← expand, ← expand,
      expand_char]

end ServerRun.Log
