import ServerRun.Command.Source
import ServerRun.Proofs.Text.Blank

/-! Reading what is written. A reader that finds the tokens of a part next, with blanks around them,
returns what the part stands for and leaves a text of the tokens that follow. Fuel for each token is
enough. -/

namespace ServerRun.Command

variable {c close : Char} {cs rest token stops openings : List Char}
  {more tokens : List (List Char)}

/-! ### tokens -/

theorem spread_nil : Spread [] [] := .nil (by simp)

theorem Spread.prepend (token : List Char) (h : Spread more rest) :
    Spread (token :: more) (token ++ rest) :=
  have hgap : ∀ c ∈ ([] : List Char), Text.isBlank c = true := by simp
  .cons hgap h

theorem spread_flatten (tokens : List (List Char)) : Spread tokens tokens.flatten := by
  induction tokens with
  | nil => exact spread_nil
  | cons token tokens ih => exact ih.prepend token

/-- What stands before a token is skipped. -/
theorem Spread.skip (h : Spread ((c :: token) :: more) cs) (hc : Text.isBlank c = false) :
    ∃ rest, Text.trimStart cs = c :: (token ++ rest) ∧ Spread more rest := by
  cases h with
  | cons hgap hr => exact ⟨_, by rw [Text.trimStart_append hgap]; exact Text.trimStart_cons hc, hr⟩

theorem Spread.skip_all (h : Spread [] cs) : Text.trimStart cs = [] := by
  cases h with
  | nil hgap => exact Text.trimStart_blanks hgap

/-- Skipping what stands before a token leaves the same tokens. -/
theorem Spread.starts (h : Spread ((c :: token) :: more) cs) (hc : Text.isBlank c = false) :
    ∃ tail, Text.trimStart cs = c :: tail ∧ Spread ((c :: token) :: more) (c :: tail) := by
  obtain ⟨rest, hs, hr⟩ := h.skip hc
  exact ⟨token ++ rest, hs, hr.prepend (c :: token)⟩

/-- A token that ends with a character that is not blank. -/
def Solid (token : List Char) : Prop := ∃ init c, token = init ++ [c] ∧ Text.isBlank c = false

theorem solid_singleton (h : Text.isBlank c = false) : Solid [c] := ⟨[], c, rfl, h⟩

/-- A text has at least a character for each token. -/
theorem Spread.length_le (h : Spread tokens cs) (hs : ∀ t ∈ tokens, Solid t) :
    tokens.length ≤ cs.length := by
  induction h with
  | nil => exact Nat.zero_le _
  | cons hgap hr ih =>
    obtain ⟨init, c, rfl, -⟩ := hs _ List.mem_cons_self
    have := ih fun t ht => hs t (List.mem_cons_of_mem _ ht)
    simp only [List.length_cons, List.length_append, List.length_nil]
    omega

/-- Trimming the end of a text leaves the same tokens. -/
theorem Spread.trimEnd (h : Spread tokens cs) (hs : ∀ t ∈ tokens, Solid t) :
    Spread tokens (Text.trimEnd cs) := by
  induction h with
  | nil hgap => exact Text.trimEnd_blanks hgap ▸ spread_nil
  | @cons gap token rest tokens hgap hr ih =>
    obtain ⟨init, c, rfl, hc⟩ := hs _ List.mem_cons_self
    have hrest := ih fun t ht => hs t (List.mem_cons_of_mem _ ht)
    have htrim : Text.trimEnd (gap ++ (init ++ [c] ++ rest)) =
        gap ++ (init ++ [c] ++ Text.trimEnd rest) := by
      have h := Text.trimEnd_append_cons hc (gap ++ init) rest
      simpa using h
    exact htrim ▸ .cons hgap hrest

theorem Spread.expect (h : Spread ([c] :: more) cs) (hc : Text.isBlank c = false) :
    ∃ rest, expect c cs = .ok rest ∧ Spread more rest := by
  obtain ⟨rest, hs, hr⟩ := h.skip hc
  exact ⟨rest, by simp [Command.expect, hs], hr⟩

/-! ### words -/

theorem readQuoted_token {cs : List (Bool × Char)}
    (h : ∀ c ∈ cs, c.1 = false → c.2 ≠ '"' ∧ c.2 ≠ '\\') (rest : List Char) :
    readQuoted (cs.flatMap (fun c => if c.1 then ['\\', c.2] else [c.2]) ++ ['"'] ++ rest) =
      .ok (cs.map (·.2), rest) := by
  rw [List.append_assoc, List.singleton_append]
  induction cs with
  | nil => rfl
  | cons c cs ih =>
    have ih := ih fun d hd => h d (List.mem_cons_of_mem _ hd)
    obtain ⟨escaped, c⟩ := c
    cases escaped with
    | true =>
      simp only [List.flatMap_cons, ite_true, List.cons_append, List.nil_append, readQuoted, ih]
      rfl
    | false =>
      obtain ⟨hq, hb⟩ := h (false, c) List.mem_cons_self rfl
      simp only [List.flatMap_cons, Bool.false_eq_true, ite_false, List.cons_append,
        List.nil_append, List.map_cons]
      rw [readQuoted.eq_5 _ _ (fun hn _ => hb hn) (fun _ _ hn _ => hb hn) hq, ih]
      rfl

/-- The next token, if there is one, begins with one of some characters. -/
def EndsAt (stops : List Char) : List (List Char) → Prop
  | [] => True
  | token :: _ => ∃ c cs, token = c :: cs ∧ c ∈ stops

theorem endsAt_cons (hc : c ∈ stops) : EndsAt stops ((c :: token) :: more) := ⟨c, token, rfl, hc⟩

/-- A bare word ends before the token that follows, without the blanks between them. -/
theorem readBare_word (hw : Word.FitsBefore stops openings (.bare cs))
    (hs : ∀ c ∈ stops, Text.isBlank c = false) (he : EndsAt stops more) (h : Spread more rest) :
    ∃ rest', readBare stops (cs ++ rest) = (cs, rest') ∧ Spread more rest' ∧
      Text.trimStart rest' = rest' := by
  obtain ⟨hne, htrim, hfree, -⟩ := hw
  have hword : ∀ c ∈ cs, (!stops.contains c) = true := fun c hc => by simpa using hfree c hc
  have hblank {gap : List Char} (hgap : ∀ c ∈ gap, Text.isBlank c = true) :
      ∀ c ∈ gap, (!stops.contains c) = true := fun c hc => by
    have hcb := hgap c hc
    simp only [List.contains_eq_mem, Bool.not_eq_true', decide_eq_false_iff_not]
    intro hcs
    simp [hs c hcs] at hcb
  rw [readBare, List.takeWhile_append_of_pos hword, List.dropWhile_append_of_pos hword]
  cases h with
  | nil hgap =>
    refine ⟨[], ?_, spread_nil, rfl⟩
    have htake : (rest ++ []).takeWhile (!stops.contains ·) = rest ++ [] :=
      List.takeWhile_append_of_pos (hblank hgap)
    have hdrop : (rest ++ []).dropWhile (!stops.contains ·) = [] :=
      List.dropWhile_append_of_pos (hblank hgap)
    rw [List.append_nil] at htake hdrop
    rw [htake, hdrop, Text.trim_append hne htrim hgap]
  | @cons gap token rest more hgap hr =>
    obtain ⟨c, tail, rfl, hc⟩ := he
    refine ⟨c :: tail ++ rest, ?_, hr.prepend (c :: tail), Text.trimStart_cons (hs c hc)⟩
    rw [List.takeWhile_append_of_pos (hblank hgap), List.dropWhile_append_of_pos (hblank hgap)]
    simp only [List.cons_append, List.takeWhile_cons, List.dropWhile_cons, List.contains_eq_mem, hc,
      decide_true, Bool.not_true, Bool.false_eq_true, ite_false, List.append_nil]
    rw [Text.trim_append hne htrim hgap]

/-- A bare word begins with a character that neither is blank nor ends or begins anything else. -/
theorem Word.FitsBefore.head (hw : Word.FitsBefore stops openings (.bare cs)) :
    ∃ c tail, cs = c :: tail ∧ Text.isBlank c = false ∧ c ∉ stops ∧ c ∉ openings := by
  obtain ⟨hne, htrim, hfree, hopen⟩ := hw
  cases cs with
  | nil => exact absurd rfl hne
  | cons c tail =>
    exact ⟨c, tail, rfl, Text.isBlank_head_of_trim htrim, hfree c List.mem_cons_self, hopen c rfl⟩

theorem readName_quoted {chars : List (Bool × Char)} (part : Part)
    (hw : (Word.quoted chars).IsName stops)
    (h : Text.trimStart cs = (Word.quoted chars).token ++ rest) :
    readName stops part cs = .ok ((Word.quoted chars).text, rest) := by
  rw [readName, h]
  exact congrArg (Except.map fun x => (String.ofList x.1, x.2)) (readQuoted_token hw rest)

theorem readName_bare (part : Part) (hw : (Word.bare token).IsName stops)
    (hs : ∀ c ∈ stops, Text.isBlank c = false) (he : EndsAt stops more)
    (h : Spread (token :: more) cs) :
    ∃ rest, readName stops part cs = .ok ((Word.bare token).text, rest) ∧ Spread more rest ∧
      Text.trimStart rest = rest := by
  obtain ⟨c, tail, rfl, hblank, -, hquote⟩ := Word.FitsBefore.head hw
  obtain ⟨rest, hstart, hr⟩ := h.skip hblank
  obtain ⟨rest', hread, hr', htight⟩ := readBare_word hw hs he hr
  refine ⟨rest', ?_, hr', htight⟩
  rw [readName, hstart]
  split
  · rename_i heq
    cases heq
    exact absurd List.mem_cons_self hquote
  · rw [List.cons_append] at hread
    rw [hread]
    rfl

theorem readName_word {w : Word} (part : Part) (hw : w.IsName stops)
    (hs : ∀ c ∈ stops, Text.isBlank c = false) (he : EndsAt stops more)
    (h : Spread (w.token :: more) cs) :
    ∃ rest, readName stops part cs = .ok (w.text, rest) ∧ Spread more rest := by
  cases w with
  | quoted chars =>
    obtain ⟨rest, hstart, hr⟩ := h.skip (c := '"') rfl
    exact ⟨rest, readName_quoted part hw hstart, hr⟩
  | bare chars =>
    obtain ⟨rest, hread, hr, -⟩ := readName_bare part hw hs he h
    exact ⟨rest, hread, hr⟩

/-! ### values -/

/-- The characters that begin a value other than a bare word. -/
abbrev valueOpenings : List Char := ['"', '[', '\x7b']

/-- A closing bracket: what stands before it or before a comma may be any value. -/
structure Closes (close : Char) : Prop where
  blank : Text.isBlank close = false
  opening : close ∉ valueOpenings
  comma : close ≠ ','

theorem closes_bracket : Closes ']' := ⟨rfl, by decide, by decide⟩

theorem closes_brace : Closes '\x7d' := ⟨rfl, by decide, by decide⟩

theorem closes_parenthesis : Closes ')' := ⟨rfl, by decide, by decide⟩

theorem Closes.blanks (h : Closes close) : ∀ c ∈ [',', close], Text.isBlank c = false := by
  simp [h.blank, show Text.isBlank ',' = false from rfl]

theorem Closes.notMem (h : Closes close) (hc : c ∈ valueOpenings) : c ∉ [',', close] := by
  have hcomma : c ≠ ',' := by
    rintro rfl
    simp at hc
  have hclose : c ≠ close := fun he => h.opening (he ▸ hc)
  simp [hcomma, hclose]

/-- A name begins with a quote or with a character that does not end it. -/
theorem Word.IsName.head {w : Word} (hw : w.IsName stops) :
    ∃ c token, w.token = c :: token ∧ Text.isBlank c = false ∧ (c = '"' ∨ c ∉ stops) := by
  cases w with
  | quoted cs => exact ⟨'"', _, rfl, rfl, .inl rfl⟩
  | bare cs =>
    obtain ⟨c, tail, rfl, hblank, hstop, -⟩ := Word.FitsBefore.head hw
    exact ⟨c, tail, rfl, hblank, .inr hstop⟩

/-- An item begins with a character that does not end it. -/
theorem Item.FitsBefore.head {i : Item} (hi : i.FitsBefore [',', close]) (hs : Closes close) :
    ∃ c token more, i.tokens = (c :: token) :: more ∧ Text.isBlank c = false ∧
      c ∉ [',', close] := by
  cases i with
  | word w =>
    cases w with
    | quoted cs => exact ⟨'"', _, [], rfl, rfl, hs.notMem (by simp)⟩
    | bare cs =>
      obtain ⟨c, tail, rfl, hblank, hstop, -⟩ := Word.FitsBefore.head hi
      exact ⟨c, tail, [], rfl, hblank, hstop⟩
  | list items comma => exact ⟨'[', [], _, rfl, rfl, hs.notMem (by simp)⟩
  | object fields comma => exact ⟨'\x7b', [], _, rfl, rfl, hs.notMem (by simp)⟩

theorem readValue_word {w : Word} {fuel : Nat} (hw : w.FitsBefore stops valueOpenings)
    (hs : ∀ c ∈ stops, Text.isBlank c = false) (he : EndsAt stops more)
    (h : Spread (w.token :: more) cs) :
    ∃ rest, readValue (fuel + 1) stops cs = .ok ((Item.word w).value, rest) ∧
      Spread more rest := by
  cases w with
  | quoted chars =>
    obtain ⟨rest, hstart, hr⟩ := h.skip (c := '"') rfl
    refine ⟨rest, ?_, hr⟩
    rw [readValue, hstart]
    exact congrArg (Except.map fun x => (Json.str (String.ofList x.1), x.2))
      (readQuoted_token hw rest)
  | bare chars =>
    obtain ⟨c, tail, rfl, hblank, -, hopen⟩ := Word.FitsBefore.head hw
    obtain ⟨rest, hstart, hr⟩ := h.skip hblank
    obtain ⟨rest', hread, hr', -⟩ := readBare_word hw hs he hr
    refine ⟨rest', ?_, hr'⟩
    rw [readValue, hstart]
    split
    case h_4 =>
      rw [List.cons_append] at hread
      rw [hread]
      rfl
    all_goals
      rename_i heq
      cases heq
      simp at hopen

theorem readItems_close {fuel : Nat} {acc : List Json} (h : Text.trimStart cs = ']' :: rest) :
    readItems (fuel + 1) acc cs = .ok (acc, rest) := by
  rw [readItems, h]
  rfl

theorem readItems_comma {fuel : Nat} {acc : List Json} {v : Json} {tail : List Char}
    (h : Text.trimStart cs = c :: token) (hc : c ≠ ']')
    (hv : readValue fuel [',', ']'] (c :: token) = .ok (v, rest))
    (hd : Text.trimStart rest = ',' :: tail) :
    readItems (fuel + 1) acc cs = readItems fuel (acc ++ [v]) tail := by
  rw [readItems, h]
  split
  · rename_i heq
    cases heq
    exact absurd rfl hc
  · simp only [hv, hd]

theorem readItems_last {fuel : Nat} {acc : List Json} {v : Json} {tail : List Char}
    (h : Text.trimStart cs = c :: token) (hc : c ≠ ']')
    (hv : readValue fuel [',', ']'] (c :: token) = .ok (v, rest))
    (hd : Text.trimStart rest = ']' :: tail) :
    readItems (fuel + 1) acc cs = .ok (acc ++ [v], tail) := by
  rw [readItems, h]
  split
  · rename_i heq
    cases heq
    exact absurd rfl hc
  · simp only [hv, hd]

-- The generated equation of this function takes many seconds to derive; this one is immediate.
theorem readParameters_succ (fuel : Nat) (close : Char) (acc : Fields) (cs : List Char) :
    readParameters (fuel + 1) close acc cs =
      match Text.trimStart cs with
      | [] => .error ⟨.missing .parameterName, []⟩
      | c :: cs =>
        if c = close then .ok (acc, cs)
        else
          match readName ['=', close] .parameterName (c :: cs) with
          | .error e => .error e
          | .ok (name, rest) =>
            match expect '=' rest with
            | .error e => .error e
            | .ok rest =>
              match readValue fuel [',', close] rest with
              | .error e => .error e
              | .ok (v, rest) =>
                let acc := Fields.insert acc name v
                match Text.trimStart rest with
                | [] => .error ⟨.expectedNext close, []⟩
                | d :: rest =>
                  if d = ',' then readParameters fuel close acc rest
                  else if d = close then .ok (acc, rest)
                  else .error ⟨.expectedNext close, d :: rest⟩ := by
  rfl

theorem readParameters_close {fuel : Nat} {close : Char} {acc : Fields}
    (h : Text.trimStart cs = close :: rest) :
    readParameters (fuel + 1) close acc cs = .ok (acc, rest) := by
  rw [readParameters_succ, h]
  simp

/-- A parameter is read, and then what follows it decides. -/
theorem readParameters_parameter {fuel : Nat} {close d : Char} {acc : Fields} {name : String}
    {v : Json} {rest₁ rest₂ tail : List Char} (h : Text.trimStart cs = c :: token) (hc : c ≠ close)
    (hn : readName ['=', close] .parameterName (c :: token) = .ok (name, rest))
    (he : expect '=' rest = .ok rest₁) (hv : readValue fuel [',', close] rest₁ = .ok (v, rest₂))
    (hd : Text.trimStart rest₂ = d :: tail) :
    readParameters (fuel + 1) close acc cs =
      if d = ',' then readParameters fuel close (Fields.insert acc name v) tail
      else if d = close then .ok (Fields.insert acc name v, tail)
      else .error ⟨.expectedNext close, d :: tail⟩ := by
  rw [readParameters_succ, h]
  simp only [hc, ite_false, hn, he, hv, hd]

/-- A part is the last one, or a comma follows it and then the other parts, if there are any. -/
theorem withCommas_cons (comma : Bool) (part : List (List Char)) (parts : List (List (List Char))) :
    (parts = [] ∧ withCommas comma (part :: parts) = part) ∨
      ∃ comma', withCommas comma (part :: parts) = part ++ [','] :: withCommas comma' parts := by
  cases parts with
  | nil =>
    cases comma with
    | false => exact .inl ⟨rfl, by simp [withCommas]⟩
    | true => exact .inr ⟨false, by simp [withCommas]⟩
  | cons part' parts => exact .inr ⟨comma, by simp [withCommas]⟩

theorem tokensOfItems_eq_nil {items : List Item} (h : Item.tokensOfItems items = []) :
    items = [] := by
  cases items with
  | nil => rfl
  | cons i is => cases h

theorem tokensOfFields_eq_nil {fields : List (Word × Item)} (h : Item.tokensOfFields fields = []) :
    fields = [] := by
  cases fields with
  | nil => rfl
  | cons field fields => cases h

/-- A reader of values with so much fuel returns the value of an item that comes next. -/
def Item.IsRead (i : Item) (fuel : Nat) (close : Char) : Prop :=
  ∀ cs next, EndsAt [',', close] next → Spread (i.tokens ++ next) cs →
    ∃ rest, readValue fuel [',', close] cs = .ok (i.value, rest) ∧ Spread next rest

theorem Item.IsRead.inList {i : Item} {fuel : Nat} (hr : i.IsRead fuel ']')
    (hi : i.FitsBefore [',', ']']) (hn : EndsAt [',', ']'] more)
    (h : Spread (i.tokens ++ more) cs) :
    ∃ c tail rest, Text.trimStart cs = c :: tail ∧ c ≠ ']' ∧
      Spread (i.tokens ++ more) (c :: tail) ∧
      readValue fuel [',', ']'] (c :: tail) = .ok (i.value, rest) ∧ Spread more rest := by
  obtain ⟨c, token, tokens, hi, hblank, hstop⟩ := hi.head closes_bracket
  have hstart := h
  rw [hi, List.cons_append] at hstart
  obtain ⟨tail, hskip, hread⟩ := hstart.starts hblank
  rw [← List.cons_append, ← hi] at hread
  obtain ⟨rest, hv, hs⟩ := hr _ _ hn hread
  exact ⟨c, _, rest, hskip, fun hc => hstop (by simp [hc]), hread, hv, hs⟩

theorem Item.IsRead.named {i : Item} {name : Word} {fuel : Nat} (hr : i.IsRead fuel close)
    (hs : Closes close) (hname : name.IsName ['=', close]) (hn : EndsAt [',', close] more)
    (h : Spread (name.token :: ['='] :: i.tokens ++ more) cs) :
    ∃ c tail rest rest₁ rest₂, Text.trimStart cs = c :: tail ∧ c ≠ close ∧
      readName ['=', close] .parameterName (c :: tail) = .ok (name.text, rest) ∧
      expect '=' rest = .ok rest₁ ∧ Spread (i.tokens ++ more) rest₁ ∧
      readValue fuel [',', close] rest₁ = .ok (i.value, rest₂) ∧ Spread more rest₂ := by
  obtain ⟨c, token, ht, hblank, hstop⟩ := hname.head
  have hne : c ≠ close := by
    rintro rfl
    rcases hstop with rfl | hstop
    · exact hs.opening (by simp)
    · exact hstop (by simp)
  rw [ht] at h
  obtain ⟨tail, hskip, hread⟩ := h.starts hblank
  rw [← ht] at hread
  have stops : ∀ c ∈ ['=', close], Text.isBlank c = false := by
    simp [hs.blank, show Text.isBlank '=' = false from rfl]
  obtain ⟨rest, hnr, h⟩ := readName_word .parameterName hname stops (endsAt_cons (by simp)) hread
  obtain ⟨rest₁, her, h⟩ := h.expect rfl
  obtain ⟨rest₂, hvr, hr⟩ := hr _ _ hn h
  exact ⟨c, _, rest, rest₁, rest₂, hskip, hne, hnr, her, h, hvr, hr⟩

-- The recursion is on what is written. A reader calls itself at most once for each token, so their
-- number bounds the fuel that it needs.

mutual

theorem readValue_item (i : Item) (fuel : Nat) {close : Char}
    (hi : i.FitsBefore [',', close]) (hs : Closes close) (hf : i.tokens.length ≤ fuel) :
    i.IsRead fuel close := by
  intro cs next he h
  cases fuel with
  | zero =>
    obtain ⟨c, token, more, ht, -⟩ := hi.head hs
    simp [ht] at hf
  | succ fuel =>
    cases i with
    | word w => exact readValue_word hi hs.blanks he h
    | list items comma =>
      simp only [Item.tokens, List.cons_append, List.append_assoc] at h
      simp only [Item.tokens, List.length_cons, List.length_append] at hf
      obtain ⟨rest, hstart, hr⟩ := h.skip (c := '[') rfl
      obtain ⟨rest', hread, hr'⟩ := readItems_items items fuel [] hi.1 (by omega) hr
      refine ⟨rest', ?_, hr'⟩
      rw [readValue, hstart]
      exact congrArg (Except.map fun x => (Json.arr x.1, x.2)) hread
    | object fields comma =>
      simp only [Item.tokens, List.cons_append, List.append_assoc] at h
      simp only [Item.tokens, List.length_cons, List.length_append] at hf
      obtain ⟨rest, hstart, hr⟩ := h.skip (c := '\x7b') rfl
      obtain ⟨rest', hread, hr'⟩ :=
        readParameters_fields fields fuel [] closes_brace hi.1 (by omega) hr
      refine ⟨rest', ?_, hr'⟩
      rw [readValue, hstart]
      exact congrArg (Except.map fun x => (Json.obj x.1, x.2)) hread

theorem readItems_items (items : List Item) (fuel : Nat) (acc : List Json) {comma : Bool}
    {cs : List Char} {more : List (List Char)} (hi : Item.ItemsFit items)
    (hf : (withCommas comma (Item.tokensOfItems items)).length < fuel)
    (h : Spread (withCommas comma (Item.tokensOfItems items) ++ [']'] :: more) cs) :
    ∃ rest, readItems fuel acc cs = .ok (acc ++ Item.values items, rest) ∧ Spread more rest := by
  cases fuel with
  | zero => simp at hf
  | succ fuel =>
    cases items with
    | nil =>
      obtain ⟨rest, hstart, hr⟩ := h.skip rfl
      exact ⟨rest, by simp [readItems_close hstart, Item.values], hr⟩
    | cons i is =>
      rw [Item.tokensOfItems] at h hf
      rcases withCommas_cons comma i.tokens (Item.tokensOfItems is) with ⟨hl, ht⟩ | ⟨comma', ht⟩
      · rw [ht] at h hf
        have hread := readValue_item i fuel hi.1 closes_bracket (by omega)
        obtain ⟨c, tail, rest, hskip, hne, -, hv, hr⟩ :=
          hread.inList hi.1 (endsAt_cons (by simp)) h
        obtain ⟨rest', hclose, hr'⟩ := hr.skip rfl
        refine ⟨rest', ?_, hr'⟩
        rw [readItems_last hskip hne hv hclose, tokensOfItems_eq_nil hl]
        rfl
      · rw [ht, List.append_assoc, List.cons_append] at h
        rw [ht, List.length_append, List.length_cons] at hf
        have hread := readValue_item i fuel hi.1 closes_bracket (by omega)
        obtain ⟨c, tail, rest, hskip, hne, -, hv, hr⟩ :=
          hread.inList hi.1 (endsAt_cons (by simp)) h
        obtain ⟨rest', hcomma, hr'⟩ := hr.skip rfl
        obtain ⟨rest'', hrest, hr''⟩ :=
          readItems_items is fuel (acc ++ [i.value]) hi.2 (by omega) hr'
        refine ⟨rest'', ?_, hr''⟩
        rw [readItems_comma hskip hne hv hcomma]
        simpa [Item.values] using hrest

theorem readParameters_fields (fields : List (Word × Item)) (fuel : Nat) (acc : Fields)
    {close : Char} {comma : Bool} {cs : List Char} {more : List (List Char)}
    (hs : Closes close) (hi : Item.FieldsFit close fields)
    (hf : (withCommas comma (Item.tokensOfFields fields)).length < fuel)
    (h : Spread (withCommas comma (Item.tokensOfFields fields) ++ [close] :: more) cs) :
    ∃ rest, readParameters fuel close acc cs = .ok (Item.valueFields acc fields, rest) ∧
      Spread more rest := by
  cases fuel with
  | zero => simp at hf
  | succ fuel =>
    cases fields with
    | nil =>
      obtain ⟨rest, hstart, hr⟩ := h.skip hs.blank
      exact ⟨rest, readParameters_close hstart, hr⟩
    | cons field fields =>
      obtain ⟨name, i⟩ := field
      obtain ⟨hname, hitem, hfields⟩ := hi
      rw [Item.tokensOfFields] at h hf
      rcases withCommas_cons comma (name.token :: ['='] :: i.tokens) (Item.tokensOfFields fields)
        with ⟨hl, ht⟩ | ⟨comma', ht⟩
      · rw [ht] at h hf
        simp only [List.length_cons] at hf
        have hread := readValue_item i fuel hitem hs (by omega)
        obtain ⟨c, tail, rest, rest₁, rest₂, hskip, hne, hn, he, -, hv, hr⟩ :=
          hread.named hs hname (endsAt_cons (by simp)) h
        obtain ⟨rest', hclose, hr'⟩ := hr.skip hs.blank
        refine ⟨rest', ?_, hr'⟩
        rw [readParameters_parameter hskip hne hn he hv hclose, if_neg hs.comma, if_pos rfl,
          tokensOfFields_eq_nil hl]
        rfl
      · rw [ht, List.append_assoc, List.cons_append] at h
        rw [ht, List.length_append] at hf
        simp only [List.length_cons] at hf
        have hread := readValue_item i fuel hitem hs (by omega)
        obtain ⟨c, tail, rest, rest₁, rest₂, hskip, hne, hn, he, -, hv, hr⟩ :=
          hread.named hs hname (endsAt_cons (by simp)) h
        obtain ⟨rest', hcomma, hr'⟩ := hr.skip rfl
        obtain ⟨rest'', hrest, hr''⟩ := readParameters_fields fields fuel
          (Fields.insert acc name.text i.value) hs hfields (by omega) hr'
        refine ⟨rest'', ?_, hr''⟩
        rw [readParameters_parameter hskip hne hn he hv hcomma, if_pos rfl]
        exact hrest

end

/-! ### how tokens end -/

theorem Word.FitsBefore.solid {w : Word} (hw : w.FitsBefore stops openings) : Solid w.token := by
  cases w with
  | quoted cs => exact ⟨_, '"', rfl, rfl⟩
  | bare cs =>
    obtain ⟨hne, htrim, -⟩ := hw
    have hlast := List.dropLast_concat_getLast hne
    rw [← hlast] at htrim
    exact ⟨_, _, hlast.symm, Text.isBlank_last_of_trim htrim⟩

theorem mem_withCommas {comma : Bool} {parts : List (List (List Char))}
    (h : token ∈ withCommas comma parts) : token = [','] ∨ ∃ part ∈ parts, token ∈ part := by
  induction parts generalizing comma with
  | nil => simp [withCommas] at h
  | cons part parts ih =>
    rcases withCommas_cons comma part parts with ⟨-, ht⟩ | ⟨comma', ht⟩
    · rw [ht] at h
      exact .inr ⟨part, by simp, h⟩
    · rw [ht, List.mem_append, List.mem_cons] at h
      rcases h with h | h | h
      · exact .inr ⟨part, by simp, h⟩
      · exact .inl h
      · obtain h | ⟨part', hp, h⟩ := ih h
        · exact .inl h
        · exact .inr ⟨part', by simp [hp], h⟩

theorem solid_enclosed {comma : Bool} {parts : List (List (List Char))}
    (h : ∀ part ∈ parts, ∀ t ∈ part, Solid t) (hc : Text.isBlank close = false) :
    ∀ t ∈ withCommas comma parts ++ [[close]], Solid t := by
  intro t ht
  rcases List.mem_append.mp ht with ht | ht
  · rcases mem_withCommas ht with rfl | ⟨part, hp, ht⟩
    · exact solid_singleton rfl
    · exact h part hp t ht
  · rw [List.mem_singleton] at ht
    exact ht ▸ solid_singleton hc

mutual

theorem solid_tokens (i : Item) {stops : List Char} (hi : i.FitsBefore stops) :
    ∀ t ∈ i.tokens, Solid t := by
  cases i with
  | word w =>
    intro t ht
    rw [Item.tokens, List.mem_singleton] at ht
    exact ht ▸ Word.FitsBefore.solid hi
  | list items comma =>
    rw [Item.tokens, List.cons_append, List.forall_mem_cons]
    exact ⟨solid_singleton rfl, solid_enclosed (solid_tokensOfItems items hi.1) rfl⟩
  | object fields comma =>
    rw [Item.tokens, List.cons_append, List.forall_mem_cons]
    exact ⟨solid_singleton rfl, solid_enclosed (solid_tokensOfFields fields hi.1) rfl⟩

theorem solid_tokensOfItems (items : List Item) (hi : Item.ItemsFit items) :
    ∀ part ∈ Item.tokensOfItems items, ∀ t ∈ part, Solid t := by
  cases items with
  | nil => simp [Item.tokensOfItems]
  | cons i is =>
    rw [Item.tokensOfItems, List.forall_mem_cons]
    exact ⟨solid_tokens i hi.1, solid_tokensOfItems is hi.2⟩

theorem solid_tokensOfFields (fields : List (Word × Item)) {close : Char}
    (hi : Item.FieldsFit close fields) :
    ∀ part ∈ Item.tokensOfFields fields, ∀ t ∈ part, Solid t := by
  cases fields with
  | nil => simp [Item.tokensOfFields]
  | cons field fields =>
    obtain ⟨name, i⟩ := field
    obtain ⟨hname, hitem, hfields⟩ := hi
    rw [Item.tokensOfFields, List.forall_mem_cons, List.forall_mem_cons, List.forall_mem_cons]
    exact ⟨⟨Word.FitsBefore.solid hname, solid_singleton rfl, solid_tokens i hitem⟩,
      solid_tokensOfFields fields hfields⟩

end

end ServerRun.Command
