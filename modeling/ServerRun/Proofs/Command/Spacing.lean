import ServerRun.Proofs.Command.Derivation

/-! Blanks between tokens. A text of the tokens of a source is read as the command of that source
if no blanks stand between a quoted name of its address and a slash behind it; with blanks there the
address ends before the slash, and the text is refused where a colon had to come. -/

namespace ServerRun.Command

variable {cs rest stops : List Char} {w : Word} {part : Part} {more tail : List (List Char)}

theorem solid_segmentTokens {address : List (Word × Word)}
    (ha : ∀ p ∈ address, Solid p.1.token ∧ Solid p.2.token) :
    ∀ t ∈ segmentTokens address, Solid t := by
  simp only [segmentTokens, List.forall_mem_flatMap, List.forall_mem_cons]
  intro p hp
  exact ⟨solid_singleton rfl, (ha p hp).1, solid_singleton rfl, (ha p hp).2, by simp⟩

theorem Source.tokens_eq_ending (s : Source) :
    s.tokens = segmentTokens s.address ++ s.ending := by
  rw [Source.tokens_eq, Source.ending, addressEnd]
  simp

theorem solid_sourceTokens {s : Source} (hs : s.IsValid) : ∀ t ∈ s.tokens, Solid t := by
  rw [Source.tokens_eq_ending, List.forall_mem_append]
  refine ⟨solid_segmentTokens fun p hp => ?_, ?_⟩
  · exact ⟨Word.FitsBefore.solid (hs.types p hp), Word.FitsBefore.solid (hs.names p hp)⟩
  · exact solid_addressEnd s.slash (List.forall_mem_cons.mpr
      ⟨Word.FitsBefore.solid hs.operation, solid_parameterTokens hs⟩)

/-! ### pieces and tokens -/

theorem Spread.imp_tail {others : List (List Char)} {token : List Char}
    (h : Spread (token :: more) cs) (hm : ∀ {cs}, Spread more cs → Spread others cs) :
    Spread (token :: others) cs := by
  cases h with
  | cons hgap hr => exact .cons hgap (hm hr)

theorem Spread.of_before (h : Spread (w.before more) cs) : Spread (w.token :: more) cs := by
  rw [Word.before.eq_def] at h
  split at h
  · rename_i chars token more
    cases h with
    | cons hgap hr =>
      rw [List.append_assoc]
      exact .cons hgap (hr.prepend ('/' :: token))
  · exact h

theorem spread_segmentTokens {address : List (Word × Word)}
    (h : Spread (addressPieces more address) cs) : Spread (segmentTokens address ++ more) cs := by
  induction address generalizing cs with
  | nil => exact h
  | cons p address ih =>
    have hname {cs : List Char} (h : Spread (p.2.before (addressPieces more address)) cs) :
        Spread (p.2.token :: (segmentTokens address ++ more)) cs := h.of_before.imp_tail ih
    exact h.imp_tail fun h => h.imp_tail fun h => h.imp_tail hname

/-- A text of the pieces of a source is a text of its tokens. -/
theorem spread_tokens {s : Source} (h : Spread s.pieces cs) : Spread s.tokens cs :=
  s.tokens_eq_ending ▸ spread_segmentTokens h

/-! ### names -/

/-- A quoted name that is read ends where its token does. -/
theorem trimStart_of_readName_quoted {chars : List (Bool × Char)}
    (hw : (Word.quoted chars).IsName stops) (h : Spread ((Word.quoted chars).token :: more) cs)
    (hread : readName stops part cs = .ok ((Word.quoted chars).text, rest)) :
    Text.trimStart cs = (Word.quoted chars).token ++ rest := by
  obtain ⟨rest', hstart, -⟩ := h.skip (c := '"') rfl
  have hread' := readName_quoted part hw hstart
  obtain rfl : rest' = rest := by simpa [hread'] using hread
  exact hstart

/-- A name that is read takes its own token. -/
theorem readName_takes_token (hw : w.IsName stops) (h : Spread (w.token :: more) cs)
    (hread : readName stops part cs = .ok (w.text, rest)) : Takes [w.token] cs rest := by
  cases w with
  | quoted chars =>
    have hstart := trimStart_of_readName_quoted hw h hread
    exact .of_trimStart (hstart ▸ takes_token _ rest)
  | bare chars =>
    obtain ⟨w, -, htext, htakes⟩ := readName_takes hread
    cases w with
    | bare chars' =>
      obtain rfl : chars' = chars := String.ofList_injective htext
      exact htakes
    | quoted marked =>
      obtain ⟨c, tail, rfl, hblank, -, hopen⟩ := Word.FitsBefore.head hw
      obtain ⟨rest₁, hbare, -⟩ := Spread.skip h hblank
      have hall : Spread [rest] rest := by simpa using spread_nil.prepend rest
      obtain ⟨rest₂, hquote, -⟩ := Spread.skip (htakes _ hall) rfl
      obtain rfl : c = '"' := (List.cons.inj (hbare.symm.trans hquote)).1
      exact absurd List.mem_cons_self hopen

/-- Where no blanks stand before a slash that comes next, a quoted name and the slash are one
piece. -/
theorem spread_before (hw : w.IsName stops) (h : Spread (w.token :: more) cs)
    (hread : readName stops part cs = .ok (w.text, rest)) (ht : Tight rest)
    (hr : Spread tail rest) : Spread (w.before tail) cs := by
  rw [Word.before.eq_def]
  split
  · rename_i chars token tail
    obtain ⟨rest', hslash, hr'⟩ := hr.skip rfl
    have hstart := trimStart_of_readName_quoted hw h hread
    rw [ht _ hslash] at hstart
    refine .of_trimStart ?_
    rw [hstart, ← List.cons_append, ← List.append_assoc]
    exact hr'.prepend _
  · exact readName_takes_token hw h hread tail hr

/-! ### addresses -/

theorem readAddress_stop (fuel : Nat) (acc : List (String × String))
    (h : ∀ rest, cs ≠ '/' :: rest) : readAddress fuel acc cs = .ok (acc, cs) := by
  unfold readAddress
  split
  · rfl
  · rename_i rest
    exact absurd rfl (h rest)
  · rfl

theorem endsAt_segmentTokens (slash : Bool) (address : List (Word × Word)) :
    EndsAt ['/', ':'] (segmentTokens address ++ addressEnd slash tail) := by
  cases address with
  | nil => cases slash <;> exact endsAt_cons (by simp)
  | cons p address => exact endsAt_cons (by simp)

/-- The tokens of an address are its pieces too, or it ends before a slash. -/
theorem readAddress_tokens {slash : Bool} {address : List (Word × Word)} {fuel : Nat}
    (acc : List (String × String))
    (ha : ∀ p ∈ address, p.1.IsName ['=', ':', '/'] ∧ p.2.IsName ['/', ':'])
    (hf : address.length < fuel) (ht : Tight cs)
    (h : Spread (segmentTokens address ++ addressEnd slash tail) cs) :
    Spread (addressPieces (addressEnd slash tail) address) cs ∨
      ∃ acc' rest rest', readAddress fuel acc cs = .ok (acc', rest) ∧
        Text.trimStart rest = '/' :: rest' := by
  induction address generalizing fuel acc cs with
  | nil => exact .inl h
  | cons p address ih =>
    obtain ⟨fuel, rfl⟩ := Nat.exists_eq_add_one_of_ne_zero (Nat.ne_zero_of_lt hf)
    obtain ⟨⟨hkey, hname⟩, ha⟩ := List.forall_mem_cons.mp ha
    have h : Spread (['/'] :: p.1.token :: ['='] :: p.2.token ::
        (segmentTokens address ++ addressEnd slash tail)) cs := by
      simpa [segmentTokens] using h
    obtain ⟨text, rest₁, rest₂, hslash, hk, hkread, he, hr, hsegment⟩ := readAddress_key hkey ht h
    have hblanks : ∀ c ∈ ['/', ':'], Text.isBlank c = false := by simp [Text.isBlank]
    obtain ⟨rest₃, hn, hr'⟩ := readName_word .addressName hname hblanks
      (endsAt_segmentTokens slash address) hr
    rw [hsegment fuel acc hn]
    by_cases ht' : Tight rest₃
    · have hfirst : Takes [['/'], p.1.token, ['=']] cs rest₂ :=
        (takes_char hslash).skip.append
          ((readName_takes_token hkey hk hkread).append (expect_takes he))
      rcases ih (acc ++ [(p.1.text, p.2.text)]) ha (by simpa using hf) ht' hr' with hpieces | hstop
      · exact .inl (hfirst _ (spread_before hname hr hn ht' hpieces))
      · exact .inr hstop
    · simp only [Tight, Classical.not_forall] at ht'
      obtain ⟨rest', hblank, hne⟩ := ht'
      refine .inr ⟨_, rest₃, rest', readAddress_stop fuel _ fun r hr => ?_, hblank⟩
      subst hr
      exact hne (hblank ▸ (Text.trimStart_cons rfl).symm)

/-! ### commands -/

theorem exists_tokens_eq (s : Source) :
    ∃ c token more, s.tokens = (c :: token) :: more ∧ Text.isBlank c = false := by
  rw [Source.tokens_eq_ending]
  cases s.address with
  | nil =>
    rw [Source.ending]
    cases s.slash <;> exact ⟨_, _, _, rfl, rfl⟩
  | cons p address => exact ⟨_, _, _, rfl, rfl⟩

theorem length_le_segmentTokens (address : List (Word × Word)) :
    address.length ≤ (segmentTokens address).length := by
  induction address with
  | nil => exact Nat.zero_le _
  | cons p address ih =>
    simp only [segmentTokens, List.flatMap_cons, List.length_append, List.length_cons] at ih ⊢
    omega

/-- Tokens that are not the pieces are refused. -/
theorem read_tokens {s : Source} (hs : s.IsValid) (h : Spread s.tokens cs)
    (hp : ¬ Spread s.pieces cs) : ∃ rest, read cs = .error ⟨.expected ':', rest⟩ := by
  obtain ⟨hstart, htight⟩ := h.trimStart (exists_tokens_eq s)
  have hlen : s.address.length < cs.length + 1 := by
    have hsegments := length_le_segmentTokens s.address
    have htokens := h.length_le (solid_sourceTokens hs)
    rw [Source.tokens_eq_ending, List.length_append] at htokens
    omega
  rw [Source.tokens_eq_ending] at hstart
  rcases readAddress_tokens [] (fun p hp => ⟨hs.types p hp, hs.names p hp⟩) hlen htight hstart with
    hpieces | ⟨acc, rest, rest', hread, hslash⟩
  · exact absurd hpieces.of_trimStart hp
  · have hcolon : expect ':' rest = .error ⟨.expected ':', '/' :: rest'⟩ := by
      rw [expect, hslash]
      rfl
    exact ⟨'/' :: rest', by simp only [read, hread, hcolon, bind, Except.bind]⟩

theorem Spread.append_blanks {tokens : List (List Char)} {gap : List Char} (h : Spread tokens cs)
    (hgap : ∀ c ∈ gap, Text.isBlank c = true) : Spread tokens (cs ++ gap) := by
  induction h with
  | nil hcs => exact .nil (List.forall_mem_append.mpr ⟨hcs, hgap⟩)
  | cons hfront hr ih =>
    rw [List.append_assoc, List.append_assoc]
    exact .cons hfront ih

theorem Spread.of_trim {tokens : List (List Char)} (h : Spread tokens (Text.trim cs)) :
    Spread tokens cs := by
  obtain ⟨gap, hgap, hcs⟩ := Text.exists_trimEnd (Text.trimStart cs)
  refine .of_trimStart ?_
  rw [hcs]
  exact h.append_blanks hgap

theorem spread_trim {s : Source} (hs : s.IsValid) (h : Spread s.tokens cs) :
    Spread s.tokens (Text.trim cs) :=
  (h.trimStart (exists_tokens_eq s)).1.trimEnd (solid_sourceTokens hs)

/-- A text of the tokens of a source that is not one of its pieces is refused for want of a
colon. -/
theorem parse_tokens_refused {s : Source} {text : String} (hs : s.IsValid)
    (h : Spread s.tokens text.toList) (hp : ¬ Spread s.pieces text.toList) :
    ∃ position, parse text = .error ⟨text, .expected ':', position⟩ := by
  obtain ⟨rest, hread⟩ := read_tokens hs (spread_trim hs h) fun hpieces => hp hpieces.of_trim
  refine ⟨(Text.trim text.toList).length - rest.length, ?_⟩
  simp only [parse, hread]

theorem spread_pieces_of_parse {s : Source} {text : String} {c : Command} (hs : s.IsValid)
    (h : Spread s.tokens text.toList) (hok : parse text = .ok c) : Spread s.pieces text.toList := by
  refine Classical.not_not.mp fun hp => ?_
  obtain ⟨position, herror⟩ := parse_tokens_refused hs h hp
  cases hok.symm.trans herror

/-- A text that is read is read as the command of every source of the tokens of which it is made. -/
theorem command_of_parse_tokens {s : Source} {text : String} {c : Command} (hs : s.IsValid)
    (h : Spread s.tokens text.toList) (hok : parse text = .ok c) : s.command = c :=
  Except.ok.inj ((parse_pieces hs (spread_pieces_of_parse hs h hok)).symm.trans hok)

/-- Blanks between the tokens of a source are ignored exactly where they do not divide its pieces;
otherwise the text is refused for want of a colon. -/
theorem parse_spread_iff {s : Source} (hs : s.IsValid) :
    parse (String.ofList s.tokens.flatten) = .ok s.command ∧
      ∀ text : String, Spread s.tokens text.toList →
        (parse text = .ok s.command ↔ Spread s.pieces text.toList) ∧
        (¬ Spread s.pieces text.toList →
          ∃ position, parse text = .error ⟨text, .expected ':', position⟩) := by
  refine ⟨parse_tokens hs, fun text h => ⟨⟨fun hok => ?_, parse_pieces hs⟩, ?_⟩⟩
  · exact spread_pieces_of_parse hs h hok
  · exact parse_tokens_refused hs h

/-- A command of two segments, the first one with a quoted name. -/
def twoSegments : Source :=
  { address := [(.bare ['a'], .quote "b"), (.bare ['c'], .bare ['d'])]
    operation := .bare ['e'] }

theorem twoSegments_isValid : twoSegments.IsValid := by
  have ha : (Word.bare ['a']).IsName ['=', ':', '/'] := ⟨by decide, by decide, by simp, by simp⟩
  have hb : (Word.quote "b").IsName ['/', ':'] := by simp [Word.quote, Word.IsName, Word.FitsBefore]
  have hc : (Word.bare ['c']).IsName ['=', ':', '/'] := ⟨by decide, by decide, by simp, by simp⟩
  have hd : (Word.bare ['d']).IsName ['/', ':'] := ⟨by decide, by decide, by simp, by simp⟩
  have he : (Word.bare ['e']).IsName ['('] := ⟨by decide, by decide, by simp, by simp⟩
  exact ⟨by simp [twoSegments, ha, hc], by simp [twoSegments, hb, hd], he, by simp [twoSegments]⟩

theorem spread_pieces_twoSegments :
    Spread twoSegments.pieces "/ a = \"b\"/c= d :e ".toList := by
  have hgap : ∀ c ∈ [' '], Text.isBlank c = true := by simp [Text.isBlank]
  have hend := ((Spread.nil hgap).prepend ['e']).prepend [':']
  have hsecond := (((hend.blanks hgap).prepend ['d']).blanks hgap).prepend ['=']
  have hname := (hsecond.prepend ['c']).prepend "\"b\"/".toList
  have hfirst := (((hname.blanks hgap).prepend ['=']).blanks hgap).prepend ['a']
  exact (hfirst.blanks hgap).prepend ['/']

theorem spread_tokens_twoSegments :
    Spread twoSegments.tokens "/a=\"b\" /c=d:e".toList := by
  have hgap : ∀ c ∈ [' '], Text.isBlank c = true := by simp [Text.isBlank]
  have hsecond := spread_flatten [['/'], ['c'], ['='], ['d'], [':'], ['e']]
  exact (((hsecond.blanks hgap).prepend "\"b\"".toList).prepend ['=']).prepend ['a']
    |>.prepend ['/']

theorem parse_twoSegments :
    twoSegments.IsValid ∧
      parse "/a=\"b\"/c=d:e" = .ok twoSegments.command ∧
      Spread twoSegments.pieces "/ a = \"b\"/c= d :e ".toList ∧
      Spread twoSegments.tokens "/ a = \"b\"/c= d :e ".toList ∧
      parse "/ a = \"b\"/c= d :e " = .ok twoSegments.command := by
  obtain ⟨htext, hspread⟩ := parse_spread_iff twoSegments_isValid
  have htokens : Spread twoSegments.tokens "/ a = \"b\"/c= d :e ".toList :=
    spread_tokens spread_pieces_twoSegments
  exact ⟨twoSegments_isValid, htext, spread_pieces_twoSegments, htokens,
    (hspread _ htokens).1.mpr spread_pieces_twoSegments⟩

/-- A blank before a slash behind a quoted name is not ignored. -/
theorem not_ignored_before_slash :
    ¬ ∀ s : Source, s.IsValid → ∀ text : String, Spread s.tokens text.toList →
      parse text = .ok s.command := by
  intro h
  have hread := h twoSegments twoSegments_isValid _ spread_tokens_twoSegments
  have hrefused : parse "/a=\"b\" /c=d:e" = .error ⟨"/a=\"b\" /c=d:e", .expected ':', 7⟩ := rfl
  rw [hread] at hrefused
  cases hrefused

end ServerRun.Command
