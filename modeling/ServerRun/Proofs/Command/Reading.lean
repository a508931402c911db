import ServerRun.Proofs.Command.Value

/-! Reading a command. A text of the tokens of a source is read as the command that the source
stands for. Blanks may stand between any two of them but one pair: the slash of a segment is looked
for at once behind a quoted name, so there the two have to be one piece. -/

namespace ServerRun.Command

variable {cs rest token : List Char} {more tail : List (List Char)}

/-! ### pieces -/

/-- A name and what follows it, in pieces: a quoted name and a slash behind it are one. -/
def Word.before : Word → List (List Char) → List (List Char)
  | .quoted cs, ('/' :: token) :: more => ((Word.quoted cs).token ++ '/' :: token) :: more
  | w, more => w.token :: more

def addressPieces (more : List (List Char)) : List (Word × Word) → List (List Char)
  | [] => more
  | (key, name) :: address =>
    ['/'] :: key.token :: ['='] :: name.before (addressPieces more address)

/-- What stands behind the segments of an address: its slash, if it has one, and the colon. -/
def addressEnd (slash : Bool) (more : List (List Char)) : List (List Char) :=
  (if slash then [['/']] else []) ++ [':'] :: more

namespace Source

def parameterTokens (s : Source) : List (List Char) :=
  match s.parameters with
  | some (fs, comma) => ['('] :: withCommas comma (Item.tokensOfFields fs) ++ [[')']]
  | none => []

/-- The tokens behind the last segment. -/
def ending (s : Source) : List (List Char) :=
  addressEnd s.slash (s.operation.token :: s.parameterTokens)

/-- The pieces of a source, between which blanks may stand. -/
def pieces (s : Source) : List (List Char) := addressPieces s.ending s.address

end Source

theorem flatten_before (w : Word) (more : List (List Char)) :
    (w.before more).flatten = w.token ++ more.flatten := by
  rw [Word.before.eq_def]
  split <;> simp

theorem flatten_addressPieces (more : List (List Char)) (address : List (Word × Word)) :
    (addressPieces more address).flatten =
      (address.flatMap fun p => [['/'], p.1.token, ['='], p.2.token]).flatten ++ more.flatten := by
  induction address with
  | nil => rfl
  | cons p address ih => simp [addressPieces, flatten_before, ih]

/-- The pieces of a source are a division of the text of its tokens. -/
theorem flatten_pieces (s : Source) : s.pieces.flatten = s.tokens.flatten := by
  rw [Source.pieces, flatten_addressPieces, Source.tokens, Source.ending, addressEnd,
    Source.parameterTokens]
  cases s.parameters <;> simp

theorem solid_before {w : Word} (hw : Solid w.token) (hm : ∀ t ∈ more, Solid t) :
    ∀ t ∈ w.before more, Solid t := by
  rw [Word.before.eq_def]
  split
  · rw [List.forall_mem_cons] at hm ⊢
    obtain ⟨⟨init, c, ht, hc⟩, hm⟩ := hm
    exact ⟨⟨_ ++ init, c, by rw [ht, List.append_assoc], hc⟩, hm⟩
  · exact List.forall_mem_cons.mpr ⟨hw, hm⟩

theorem solid_addressPieces {address : List (Word × Word)}
    (ha : ∀ p ∈ address, Solid p.1.token ∧ Solid p.2.token) (hm : ∀ t ∈ more, Solid t) :
    ∀ t ∈ addressPieces more address, Solid t := by
  induction address with
  | nil => exact hm
  | cons p address ih =>
    obtain ⟨⟨hkey, hname⟩, ha⟩ := List.forall_mem_cons.mp ha
    rw [addressPieces, List.forall_mem_cons, List.forall_mem_cons, List.forall_mem_cons]
    exact ⟨solid_singleton rfl, hkey, solid_singleton rfl, solid_before hname (ih ha)⟩

theorem solid_addressEnd (slash : Bool) (hm : ∀ t ∈ more, Solid t) :
    ∀ t ∈ addressEnd slash more, Solid t := by
  have hcolon : ∀ t ∈ [':'] :: more, Solid t := List.forall_mem_cons.mpr ⟨solid_singleton rfl, hm⟩
  cases slash with
  | false => exact hcolon
  | true => exact List.forall_mem_cons.mpr ⟨solid_singleton rfl, hcolon⟩

theorem solid_parameterTokens {s : Source} (hs : s.IsValid) : ∀ t ∈ s.parameterTokens, Solid t := by
  rw [Source.parameterTokens]
  split
  · rename_i fs comma hp
    rw [List.cons_append, List.forall_mem_cons]
    have hf := (hs.parameters _ hp).1
    exact ⟨solid_singleton rfl, solid_enclosed (solid_tokensOfFields fs hf) rfl⟩
  · simp

theorem solid_pieces {s : Source} (hs : s.IsValid) : ∀ t ∈ s.pieces, Solid t := by
  have ha : ∀ p ∈ s.address, Solid p.1.token ∧ Solid p.2.token := fun p hp =>
    ⟨Word.FitsBefore.solid (hs.types p hp), Word.FitsBefore.solid (hs.names p hp)⟩
  have hoperation := Word.FitsBefore.solid hs.operation
  exact solid_addressPieces ha (solid_addressEnd s.slash
    (List.forall_mem_cons.mpr ⟨hoperation, solid_parameterTokens hs⟩))

theorem length_le_before (w : Word) (more : List (List Char)) :
    more.length ≤ (w.before more).length := by
  rw [Word.before.eq_def]
  split <;> simp

theorem length_le_addressPieces (more : List (List Char)) (address : List (Word × Word)) :
    address.length ≤ (addressPieces more address).length := by
  induction address with
  | nil => exact Nat.zero_le _
  | cons p address ih =>
    have := length_le_before p.2 (addressPieces more address)
    simp only [addressPieces, List.length_cons]
    omega

/-! ### addresses -/

/-- If a slash comes next, no blanks stand before it. -/
def Tight (cs : List Char) : Prop := ∀ rest, Text.trimStart cs = '/' :: rest → cs = '/' :: rest

theorem endsAt_addressPieces (slash : Bool) (address : List (Word × Word)) :
    EndsAt ['/', ':'] (addressPieces (addressEnd slash tail) address) := by
  cases address with
  | nil => cases slash <;> exact endsAt_cons (by simp)
  | cons p address => exact endsAt_cons (by simp)

/-- The name of a segment comes next, and a slash right behind it if it is quoted. -/
theorem readName_before {w : Word} (hw : w.IsName ['/', ':']) (he : EndsAt ['/', ':'] more)
    (h : Spread (w.before more) cs) :
    ∃ rest, readName ['/', ':'] .addressName cs = .ok (w.text, rest) ∧ Spread more rest ∧
      Tight rest := by
  cases w with
  | bare chars =>
    have hs : ∀ c ∈ ['/', ':'], Text.isBlank c = false := by simp [Text.isBlank]
    obtain ⟨rest, hread, hr, htight⟩ := readName_bare .addressName hw hs he h
    exact ⟨rest, hread, hr, fun r hslash => htight ▸ hslash⟩
  | quoted chars =>
    cases more with
    | nil =>
      obtain ⟨rest, hstart, hr⟩ := Spread.skip h rfl
      refine ⟨rest, readName_quoted _ hw hstart, hr, fun r hslash => ?_⟩
      simp [hr.skip_all] at hslash
    | cons token more =>
      obtain ⟨c, token, rfl, hc⟩ := he
      obtain rfl | rfl : c = '/' ∨ c = ':' := by simpa using hc
      · obtain ⟨rest, hstart, hr⟩ := Spread.skip h rfl
        refine ⟨'/' :: token ++ rest, readName_quoted _ hw ?_, hr.prepend ('/' :: token), ?_⟩
        · rw [hstart]
          simp [Word.token]
        · intro r hslash
          rwa [List.cons_append, Text.trimStart_cons rfl] at hslash
      · obtain ⟨rest, hstart, hr⟩ := Spread.skip h rfl
        refine ⟨rest, readName_quoted _ hw hstart, hr, fun r hslash => ?_⟩
        obtain ⟨_, hcolon, -⟩ := hr.skip rfl
        rw [hcolon] at hslash
        cases hslash

theorem readAddress_segment {fuel : Nat} {acc : List (String × String)} {c : Char}
    {key name : String} {rest₁ rest₂ : List Char} (h : Text.trimStart cs = c :: token)
    (hc : c ≠ ':') (hk : readName ['=', ':', '/'] .addressType (c :: token) = .ok (key, rest))
    (he : expect '=' rest = .ok rest₁)
    (hn : readName ['/', ':'] .addressName rest₁ = .ok (name, rest₂)) :
    readAddress (fuel + 1) acc ('/' :: cs) = readAddress fuel (acc ++ [(key, name)]) rest₂ := by
  rw [readAddress.eq_def]
  simp only [h]
  split
  · rename_i heq
    cases heq
  · rename_i heq
    cases heq
    exact absurd rfl hc
  · simp only [hk, he, hn]

/-- The type of a segment comes next, and what is read as its name decides. -/
theorem readAddress_key {key : Word} (hkey : key.IsName ['=', ':', '/']) (ht : Tight cs)
    (h : Spread (['/'] :: key.token :: ['='] :: more) cs) :
    ∃ text rest₁ rest₂, Text.trimStart cs = '/' :: text ∧
      Spread (key.token :: ['='] :: more) (Text.trimStart text) ∧
      readName ['=', ':', '/'] .addressType (Text.trimStart text) = .ok (key.text, rest₁) ∧
      expect '=' rest₁ = .ok rest₂ ∧ Spread more rest₂ ∧
      ∀ fuel acc {name rest}, readName ['/', ':'] .addressName rest₂ = .ok (name, rest) →
        readAddress (fuel + 1) acc cs = readAddress fuel (acc ++ [(key.text, name)]) rest := by
  obtain ⟨c, token, hp, hblank, hstop⟩ := hkey.head
  have hne : c ≠ ':' := by
    rintro rfl
    rcases hstop with hquote | hstop
    · exact absurd hquote (by decide)
    · exact hstop (by simp)
  obtain ⟨text, hslash, hr⟩ := h.skip rfl
  rw [List.nil_append] at hslash
  rw [hp] at hr
  obtain ⟨tail, hskip, hr⟩ := hr.starts hblank
  rw [← hp] at hr
  have hs : ∀ c ∈ ['=', ':', '/'], Text.isBlank c = false := by simp [Text.isBlank]
  obtain ⟨rest₁, hk, hr₁⟩ := readName_word .addressType hkey hs (endsAt_cons (by simp)) hr
  obtain ⟨rest₂, he, hr₂⟩ := hr₁.expect rfl
  refine ⟨text, rest₁, rest₂, hslash, hskip ▸ hr, hskip ▸ hk, he, hr₂, ?_⟩
  intro fuel acc name rest hn
  rw [ht _ hslash]
  exact readAddress_segment hskip hne hk he hn

theorem readAddress_slash {fuel : Nat} {acc : List (String × String)}
    (h : Text.trimStart cs = ':' :: rest) :
    readAddress (fuel + 1) acc ('/' :: cs) = .ok (acc, ':' :: rest) := by
  rw [readAddress.eq_def]
  simp only [h]

theorem readAddress_colon {fuel : Nat} {acc : List (String × String)}
    (h : Text.trimStart cs = ':' :: rest) : readAddress (fuel + 1) acc cs = .ok (acc, cs) := by
  unfold readAddress
  split
  · rename_i heq
    cases heq
  · rw [Text.trimStart_cons rfl] at h
    cases h
  · rfl

/-- The segments of an address are read. The loop does not skip blanks before a slash, so that none
stand there is kept along with what is left. -/
theorem readAddress_pieces {slash : Bool} {address : List (Word × Word)} {fuel : Nat}
    (acc : List (String × String))
    (ha : ∀ p ∈ address, p.1.IsName ['=', ':', '/'] ∧ p.2.IsName ['/', ':'])
    (hf : address.length < fuel) (ht : Tight cs)
    (h : Spread (addressPieces (addressEnd slash tail) address) cs) :
    ∃ rest, readAddress fuel acc cs =
        .ok (acc ++ address.map (fun p => (p.1.text, p.2.text)), rest) ∧
      Spread ([':'] :: tail) rest := by
  induction address generalizing fuel acc cs with
  | nil =>
    obtain ⟨fuel, rfl⟩ := Nat.exists_eq_add_one_of_ne_zero (Nat.ne_zero_of_lt hf)
    rw [List.map_nil, List.append_nil]
    cases slash with
    | false =>
      obtain ⟨rest, hcolon, hr⟩ := h.skip rfl
      exact ⟨cs, readAddress_colon hcolon, h⟩
    | true =>
      obtain ⟨rest, hslash, hr⟩ := h.skip rfl
      obtain ⟨rest', hcolon, hr'⟩ := hr.skip rfl
      rw [ht _ hslash]
      exact ⟨_, readAddress_slash hcolon, hr'.prepend [':']⟩
  | cons p address ih =>
    obtain ⟨fuel, rfl⟩ := Nat.exists_eq_add_one_of_ne_zero (Nat.ne_zero_of_lt hf)
    obtain ⟨⟨hkey, hname⟩, ha⟩ := List.forall_mem_cons.mp ha
    obtain ⟨_, _, rest, -, -, -, -, hr, hsegment⟩ := readAddress_key hkey ht h
    obtain ⟨rest₁, hn, hr, ht'⟩ := readName_before hname (endsAt_addressPieces slash address) hr
    obtain ⟨rest₂, hread, hr⟩ := ih (acc ++ [(p.1.text, p.2.text)]) ha (by simpa using hf) ht' hr
    refine ⟨rest₂, ?_, hr⟩
    rw [hsegment fuel acc hn, hread]
    simp

/-! ### commands -/

theorem readOptionalParameters_tokens {s : Source} (hs : s.IsValid)
    (h : Spread s.parameterTokens cs) :
    ∃ rest, readOptionalParameters cs = .ok (s.command.parameters, rest) ∧
      Text.trimStart rest = [] := by
  cases hp : s.parameters with
  | none =>
    simp only [Source.parameterTokens, hp] at h
    simp only [Source.command, hp]
    refine ⟨[], ?_, rfl⟩
    rw [readOptionalParameters, h.skip_all]
  | some p =>
    obtain ⟨fs, comma⟩ := p
    simp only [Source.parameterTokens, hp, List.cons_append] at h
    simp only [Source.command, hp]
    have hf := (hs.parameters _ hp).1
    obtain ⟨rest, hopen, hr⟩ := h.skip rfl
    have hlen := hr.length_le (solid_enclosed (solid_tokensOfFields fs hf) rfl)
    rw [List.length_append, List.length_singleton] at hlen
    obtain ⟨rest', hread, hr'⟩ := readParameters_fields fs (2 * rest.length + 2) []
      closes_parenthesis hf (by omega) hr
    refine ⟨rest', ?_, hr'.skip_all⟩
    rw [readOptionalParameters, hopen]
    exact hread

theorem exists_pieces_eq (s : Source) :
    ∃ c token more, s.pieces = (c :: token) :: more ∧ Text.isBlank c = false := by
  rw [Source.pieces]
  cases s.address with
  | nil =>
    rw [Source.ending]
    cases s.slash <;> exact ⟨_, _, _, rfl, rfl⟩
  | cons p address => exact ⟨_, _, _, rfl, rfl⟩

/-- Skipping what stands before the first token leaves the same tokens, and no blanks. -/
theorem Spread.trimStart {tokens : List (List Char)} (h : Spread tokens cs)
    (ht : ∃ c token more, tokens = (c :: token) :: more ∧ Text.isBlank c = false) :
    Spread tokens (Text.trimStart cs) ∧ Tight (Text.trimStart cs) := by
  obtain ⟨c, token, more, rfl, hblank⟩ := ht
  obtain ⟨tail, hskip, hstart⟩ := h.starts hblank
  rw [hskip]
  exact ⟨hstart, fun rest hslash => by rwa [Text.trimStart_cons hblank] at hslash⟩

/-- The address and the operation of a source come first, and then its parameters. -/
theorem head_of_pieces {s : Source} (hs : s.IsValid) (h : Spread s.pieces cs) :
    ∃ rest₁ rest₂ rest₃,
      readAddress (cs.length + 1) [] (Text.trimStart cs) = .ok (s.command.address, rest₁) ∧
      expect ':' rest₁ = .ok rest₂ ∧
      readName ['('] .operationName rest₂ = .ok (s.operation.text, rest₃) ∧
      Spread s.parameterTokens rest₃ := by
  obtain ⟨hstart, htight⟩ := h.trimStart (exists_pieces_eq s)
  have hlen : s.address.length < cs.length + 1 := by
    have := length_le_addressPieces s.ending s.address
    have := h.length_le (solid_pieces hs)
    rw [Source.pieces] at this
    omega
  obtain ⟨rest₁, haddress, h⟩ := readAddress_pieces []
    (fun p hp => ⟨hs.types p hp, hs.names p hp⟩) hlen htight hstart
  obtain ⟨rest₂, hcolon, h⟩ := h.expect rfl
  have he : EndsAt ['('] s.parameterTokens := by
    rw [Source.parameterTokens]
    split
    · exact endsAt_cons (by simp)
    · trivial
  obtain ⟨rest₃, hoperation, h⟩ :=
    readName_word .operationName hs.operation (by simp [Text.isBlank]) he h
  exact ⟨rest₁, rest₂, rest₃, haddress, hcolon, hoperation, h⟩

/-- A text of the pieces of a source is read as the command that it stands for. -/
theorem read_pieces {s : Source} (hs : s.IsValid) (h : Spread s.pieces cs) :
    read cs = .ok s.command := by
  obtain ⟨rest₁, rest₂, rest₃, haddress, hcolon, hoperation, h⟩ := head_of_pieces hs h
  obtain ⟨rest₄, hparameters, hend⟩ := readOptionalParameters_tokens hs h
  simp only [read, haddress, hcolon, hoperation, hparameters, hend, bind, Except.bind]
  rfl

/-- Trimming a text of the pieces of a source leaves a text of them. -/
theorem spread_pieces_trim {s : Source} (hs : s.IsValid) (h : Spread s.pieces cs) :
    Spread s.pieces (Text.trim cs) :=
  (h.trimStart (exists_pieces_eq s)).1.trimEnd (solid_pieces hs)

/-- Blanks at the ends of a text and between the pieces of a source do not matter. -/
theorem parse_pieces {s : Source} {command : String} (hs : s.IsValid)
    (h : Spread s.pieces command.toList) : parse command = .ok s.command := by
  simp only [parse, read_pieces hs (spread_pieces_trim hs h)]

theorem spread_pieces_tokens (s : Source) :
    Spread s.pieces (String.ofList s.tokens.flatten).toList := by
  rw [String.toList_ofList, ← flatten_pieces]
  exact spread_flatten s.pieces

/-- The text of the tokens of a source without blanks is read as the command that it stands for. -/
theorem parse_tokens {s : Source} (hs : s.IsValid) :
    parse (String.ofList s.tokens.flatten) = .ok s.command :=
  parse_pieces hs (spread_pieces_tokens s)

end ServerRun.Command
