import ServerRun.Proofs.Command.Reading

/-! What is accepted. Every reader that returns something has read tokens that stand for what it
returns, with blanks around them, up to where it stopped; so a text that is read as a command is
made of the tokens of a source of that command, and of nothing else. -/

namespace ServerRun.Command

variable {c close : Char} {cs mid rest tail stops openings : List Char} {x : String} {part : Part}
  {tokens others more : List (List Char)}

/-! ### tokens that are taken -/

theorem Spread.blanks {gap : List Char} (hgap : ∀ c ∈ gap, Text.isBlank c = true)
    (h : Spread tokens cs) : Spread tokens (gap ++ cs) := by
  cases h with
  | nil hcs => exact .nil (List.forall_mem_append.mpr ⟨hgap, hcs⟩)
  | cons hfront hr =>
    rw [← List.append_assoc]
    exact .cons (List.forall_mem_append.mpr ⟨hgap, hfront⟩) hr

theorem Spread.of_trimStart (h : Spread tokens (Text.trimStart cs)) : Spread tokens cs := by
  obtain ⟨gap, hgap, hcs⟩ := Text.exists_trimStart cs
  exact hcs ▸ h.blanks hgap

/-- From one text to the rest of it there are tokens: whatever tokens the rest is made of, the text
is made of these and then of those. -/
def Takes (tokens : List (List Char)) (cs rest : List Char) : Prop :=
  ∀ more, Spread more rest → Spread (tokens ++ more) cs

theorem Takes.nil (cs : List Char) : Takes [] cs cs := fun _ h => h

theorem Takes.append (h : Takes tokens cs mid) (hr : Takes others mid rest) :
    Takes (tokens ++ others) cs rest := by
  intro more hm
  rw [List.append_assoc]
  exact h _ (hr more hm)

theorem Takes.of_trimStart (h : Takes tokens (Text.trimStart cs) rest) : Takes tokens cs rest :=
  fun more hm => (h more hm).of_trimStart

/-- Blanks at the front of the rest may be taken along. -/
theorem Takes.skip (h : Takes tokens cs rest) : Takes tokens cs (Text.trimStart rest) :=
  fun more hm => h more hm.of_trimStart

theorem takes_token (token rest : List Char) : Takes [token] (token ++ rest) rest :=
  fun _ h => h.prepend token

theorem takes_char (h : Text.trimStart cs = c :: rest) : Takes [[c]] cs rest :=
  .of_trimStart (h ▸ takes_token [c] rest)

theorem expect_takes (h : expect c cs = .ok rest) : Takes [[c]] cs rest := by
  unfold expect at h
  split at h
  · rename_i d tail hstart
    split at h <;> cases h
    rename_i hd
    exact takes_char (hd ▸ hstart)
  · cases h

/-! ### words -/

theorem exists_of_map {α β : Type} (f : α → β) {r : Reading α} {y : β}
    (h : r.map (fun x => (f x.1, x.2)) = .ok (y, rest)) : ∃ x, r = .ok (x, rest) ∧ f x = y := by
  cases r with
  | error e => cases h
  | ok r =>
    cases h
    exact ⟨r.1, rfl, rfl⟩

/-- A string that is read has stood in quotes, with a backslash before some of its characters. -/
theorem exists_of_readQuoted {chars : List Char} (h : readQuoted cs = .ok (chars, rest)) :
    ∃ marked : List (Bool × Char), (∀ c ∈ marked, c.1 = false → c.2 ≠ '"' ∧ c.2 ≠ '\\') ∧
      marked.map (·.2) = chars ∧
      cs = marked.flatMap (fun c => if c.1 then ['\\', c.2] else [c.2]) ++ '"' :: rest := by
  induction cs using readQuoted.induct generalizing chars with
  | case1 => cases h
  | case2 => cases h
  | case3 c cs ih =>
    rw [readQuoted] at h
    obtain ⟨chars, hr, rfl⟩ := exists_of_map (c :: ·) h
    obtain ⟨marked, hm, rfl, hcs⟩ := ih hr
    refine ⟨(true, c) :: marked, ?_, by simp, by simp [hcs]⟩
    exact List.forall_mem_cons.mpr ⟨by simp, hm⟩
  | case4 cs =>
    obtain ⟨rfl, rfl⟩ : [] = chars ∧ cs = rest := by simpa [readQuoted] using h
    exact ⟨[], by simp, rfl, rfl⟩
  | case5 c cs hlast hmark hquote ih =>
    rw [readQuoted.eq_5 _ _ hlast hmark hquote] at h
    obtain ⟨chars, hr, rfl⟩ := exists_of_map (c :: ·) h
    obtain ⟨marked, hm, rfl, hcs⟩ := ih hr
    have hplain : c ≠ '"' ∧ c ≠ '\\' := by
      refine ⟨hquote, fun hc => ?_⟩
      cases cs with
      | nil => exact hlast hc rfl
      | cons d cs => exact hmark d cs hc rfl
    refine ⟨(false, c) :: marked, ?_, by simp, by simp [hcs]⟩
    exact List.forall_mem_cons.mpr ⟨fun _ => hplain, hm⟩

theorem quoted_takes {chars : List Char} (hs : Text.trimStart cs = '"' :: tail)
    (h : readQuoted tail = .ok (chars, rest)) :
    ∃ marked, (∀ stops openings, (Word.quoted marked).FitsBefore stops openings) ∧
      (Word.quoted marked).text = String.ofList chars ∧
      Takes [(Word.quoted marked).token] cs rest := by
  obtain ⟨marked, hm, rfl, htail⟩ := exists_of_readQuoted h
  refine ⟨marked, fun _ _ => hm, rfl, .of_trimStart ?_⟩
  have htoken : Text.trimStart cs = (Word.quoted marked).token ++ rest := by
    simp [hs, htail, Word.token]
  exact htoken ▸ takes_token _ rest

/-- A bare word that is read may stand so, and only blanks are lost behind it. -/
theorem bare_takes {word : List Char}
    (hopen : ∀ c tail, Text.trimStart cs = c :: tail → c ∉ openings)
    (h : readBare stops (Text.trimStart cs) = (word, rest)) (hne : word ≠ []) :
    (Word.bare word).FitsBefore stops openings ∧ Takes [word] cs rest := by
  obtain ⟨c, tail, hs⟩ : ∃ c tail, Text.trimStart cs = c :: tail := by
    refine List.exists_cons_of_ne_nil fun hnil => hne ?_
    rw [hnil] at h
    exact (Prod.ext_iff.mp h).1.symm
  have hblank := Text.isBlank_of_trimStart hs
  have hopen := hopen c tail hs
  rw [hs] at h
  obtain ⟨rfl, rfl⟩ : Text.trim ((c :: tail).takeWhile (!stops.contains ·)) = word ∧
      (c :: tail).dropWhile (!stops.contains ·) = rest := by
    simpa [readBare] using h
  have hstop : (!stops.contains c) = true := by
    cases hc : stops.contains c with
    | false => rfl
    | true => simp [-List.contains_eq_mem, hc] at hne
  have htake : (c :: tail).takeWhile (!stops.contains ·) =
      c :: tail.takeWhile (!stops.contains ·) := List.takeWhile_cons_of_pos hstop
  obtain ⟨gap, hgap, htail⟩ := Text.exists_trimEnd (tail.takeWhile (!stops.contains ·))
  rw [htake, Text.trim_cons hblank] at hne ⊢
  refine ⟨⟨hne, ?_, ?_, ?_⟩, ?_⟩
  · rw [Text.trim_cons hblank, Text.trimEnd_trimEnd]
  · have hfree : ∀ d ∈ tail.takeWhile (!stops.contains ·), (!stops.contains d) = true :=
      List.all_eq_true.mp List.all_takeWhile
    rw [htail] at hfree
    refine List.forall_mem_cons.mpr ⟨by simpa using hstop, fun d hd => ?_⟩
    simpa using hfree d (List.mem_append_left _ hd)
  · intro d hd
    obtain rfl : c = d := by simpa using hd
    exact hopen
  · have hcs : Text.trimStart cs = (c :: Text.trimEnd (tail.takeWhile (!stops.contains ·))) ++
        (gap ++ (c :: tail).dropWhile (!stops.contains ·)) := by
      rw [hs, List.cons_append, ← List.append_assoc, ← htail, ← List.cons_append, ← htake,
        List.takeWhile_append_dropWhile]
    intro more hm
    exact .of_trimStart (hcs ▸ (hm.blanks hgap).prepend _)

theorem readName_takes (h : readName stops part cs = .ok (x, rest)) :
    ∃ w : Word, w.IsName stops ∧ w.text = x ∧ Takes [w.token] cs rest := by
  unfold readName at h
  split at h
  · rename_i tail hs
    obtain ⟨chars, hr, rfl⟩ := exists_of_map String.ofList h
    obtain ⟨marked, hfits, htext, htakes⟩ := quoted_takes hs hr
    exact ⟨.quoted marked, hfits stops ['"'], htext, htakes⟩
  · rename_i hquote
    split at h
    · cases h
    · rename_i word rest' hne hbare
      obtain ⟨rfl, rfl⟩ : String.ofList word = x ∧ rest' = rest := by simpa using h
      have hopen : ∀ c tail, Text.trimStart cs = c :: tail → c ∉ ['"'] := by
        intro c tail hs hc
        exact hquote tail (List.mem_singleton.mp hc ▸ hs)
      obtain ⟨hfits, htakes⟩ := bare_takes hopen hbare fun hn => hne (by simpa using hn)
      exact ⟨.bare word, hfits, rfl, htakes⟩

/-! ### values -/

/-- What is read behind a comma goes on the parts before it; where nothing is, the comma closes
them. -/
theorem exists_withCommas {comma : Bool} (parts : List (List (List Char)))
    (h : comma = true → parts ≠ []) (part : List (List Char)) :
    ∃ comma', withCommas comma' (part :: parts) = part ++ [','] :: withCommas comma parts := by
  cases parts with
  | nil =>
    cases comma with
    | false => exact ⟨true, rfl⟩
    | true => exact absurd rfl (h rfl)
  | cons part' parts => exact ⟨comma, rfl⟩

-- The recursion is on the fuel, which the readers hand down to each other.

mutual

theorem readValue_takes (fuel : Nat) {stops cs rest : List Char} {v : Json}
    (h : readValue fuel stops cs = .ok (v, rest)) :
    ∃ i : Item, i.FitsBefore stops ∧ i.value = v ∧ Takes i.tokens cs rest := by
  cases fuel with
  | zero => cases h
  | succ fuel =>
    rw [readValue] at h
    split at h
    · rename_i tail hs
      obtain ⟨chars, hr, rfl⟩ := exists_of_map (fun cs => Json.str (String.ofList cs)) h
      obtain ⟨marked, hfits, htext, htakes⟩ := quoted_takes hs hr
      exact ⟨.word (.quoted marked), hfits stops valueOpenings, congrArg Json.str htext, htakes⟩
    · rename_i tail hs
      obtain ⟨xs, hr, rfl⟩ := exists_of_map Json.arr h
      obtain ⟨items, comma, hfit, hcomma, rfl, htakes⟩ := readItems_takes fuel hr
      exact ⟨.list items comma, ⟨hfit, hcomma⟩, rfl, (takes_char hs).append htakes⟩
    · rename_i tail hs
      obtain ⟨fs, hr, rfl⟩ := exists_of_map Json.obj h
      obtain ⟨fields, comma, hfit, hcomma, rfl, htakes⟩ := readParameters_takes fuel hr
      exact ⟨.object fields comma, ⟨hfit, hcomma⟩, rfl, (takes_char hs).append htakes⟩
    · rename_i hquote hbracket hbrace
      split at h
      · cases h
      · rename_i word rest' hne hbare
        obtain ⟨rfl, rfl⟩ : bareValue word = v ∧ rest' = rest := by simpa using h
        have hopen : ∀ c tail, Text.trimStart cs = c :: tail → c ∉ valueOpenings := by
          intro c tail hs hc
          simp only [List.mem_cons, List.not_mem_nil, or_false] at hc
          rcases hc with rfl | rfl | rfl
          · exact hquote tail hs
          · exact hbracket tail hs
          · exact hbrace tail hs
        obtain ⟨hfits, htakes⟩ := bare_takes hopen hbare fun hn => hne (by simpa using hn)
        exact ⟨.word (.bare word), hfits, rfl, htakes⟩

theorem readItems_takes (fuel : Nat) {acc xs : List Json} {cs rest : List Char}
    (h : readItems fuel acc cs = .ok (xs, rest)) :
    ∃ items comma, Item.ItemsFit items ∧ (comma = true → items ≠ []) ∧
      acc ++ Item.values items = xs ∧
      Takes (withCommas comma (Item.tokensOfItems items) ++ [[']']]) cs rest := by
  cases fuel with
  | zero => cases h
  | succ fuel =>
    rw [readItems] at h
    split at h
    · rename_i tail hs
      obtain ⟨rfl, rfl⟩ : acc = xs ∧ tail = rest := by simpa using h
      exact ⟨[], false, trivial, by simp, by simp [Item.values], takes_char hs⟩
    · split at h
      · cases h
      · rename_i v mid hv
        obtain ⟨i, hi, rfl, htakes⟩ := readValue_takes fuel hv
        have htakes := htakes.of_trimStart
        split at h
        · rename_i tail hs
          obtain ⟨items, comma, hfit, hcomma, rfl, hitems⟩ := readItems_takes fuel h
          obtain ⟨comma', ht⟩ := exists_withCommas (Item.tokensOfItems items)
            (fun hc hn => hcomma hc (tokensOfItems_eq_nil hn)) i.tokens
          refine ⟨i :: items, comma', ⟨hi, hfit⟩, by simp, by simp [Item.values], ?_⟩
          rw [Item.tokensOfItems, ht]
          simpa using htakes.append ((takes_char hs).append hitems)
        · rename_i tail hs
          obtain ⟨rfl, rfl⟩ : acc ++ [i.value] = xs ∧ tail = rest := by simpa using h
          refine ⟨[i], false, ⟨hi, trivial⟩, by simp, by simp [Item.values], ?_⟩
          simpa [Item.tokensOfItems, withCommas] using htakes.append (takes_char hs)
        · cases h

theorem readParameters_takes (fuel : Nat) {close : Char} {acc fs : Fields} {cs rest : List Char}
    (h : readParameters fuel close acc cs = .ok (fs, rest)) :
    ∃ fields comma, Item.FieldsFit close fields ∧ (comma = true → fields ≠ []) ∧
      Item.valueFields acc fields = fs ∧
      Takes (withCommas comma (Item.tokensOfFields fields) ++ [[close]]) cs rest := by
  cases fuel with
  | zero => cases h
  | succ fuel =>
    rw [readParameters_succ] at h
    split at h
    · cases h
    · rename_i c tail hs
      split at h
      · rename_i hc
        obtain ⟨rfl, rfl⟩ : acc = fs ∧ tail = rest := by simpa using h
        exact ⟨[], false, trivial, by simp, rfl, takes_char (hc ▸ hs)⟩
      · split at h
        · cases h
        · rename_i name afterName hn
          obtain ⟨w, hw, rfl, hname⟩ := readName_takes hn
          have hname := Takes.of_trimStart (hs ▸ hname)
          split at h
          · cases h
          · rename_i afterSign he
            split at h
            · cases h
            · rename_i v mid hv
              obtain ⟨i, hi, rfl, hvalue⟩ := readValue_takes fuel hv
              have htakes := hname.append ((expect_takes he).append hvalue)
              dsimp only at h
              split at h
              · cases h
              · rename_i d tail' hd
                split at h
                · rename_i hcomma
                  obtain ⟨fields, comma, hfit, hfields, rfl, hrest⟩ := readParameters_takes fuel h
                  obtain ⟨comma', ht⟩ := exists_withCommas (Item.tokensOfFields fields)
                    (fun hc hn => hfields hc (tokensOfFields_eq_nil hn))
                    (w.token :: ['='] :: i.tokens)
                  refine ⟨(w, i) :: fields, comma', ⟨hw, hi, hfit⟩, by simp, rfl, ?_⟩
                  rw [Item.tokensOfFields, ht]
                  simpa using htakes.append ((takes_char (hcomma ▸ hd)).append hrest)
                · split at h
                  · rename_i hclose
                    obtain ⟨rfl, rfl⟩ : Fields.insert acc w.text i.value = fs ∧ tail' = rest := by
                      simpa using h
                    refine ⟨[(w, i)], false, ⟨hw, hi, trivial⟩, by simp, rfl, ?_⟩
                    simpa [Item.tokensOfFields, withCommas] using
                      htakes.append (takes_char (hclose ▸ hd))
                  · cases h

end

/-! ### addresses -/

/-- The tokens of the segments of an address. -/
def segmentTokens (address : List (Word × Word)) : List (List Char) :=
  address.flatMap fun p => [['/'], p.1.token, ['='], p.2.token]

/-- From one text to the rest of it there are the segments of an address, and a slash behind them
or none. -/
def TakesAddress (segments : List (String × String)) (cs rest : List Char) : Prop :=
  ∃ (address : List (Word × Word)) (slash : Bool),
    (∀ p ∈ address, p.1.IsName ['=', ':', '/'] ∧ p.2.IsName ['/', ':']) ∧
    address.map (fun p => (p.1.text, p.2.text)) = segments ∧
    Takes (segmentTokens address ++ if slash then [['/']] else []) cs rest

theorem TakesAddress.nil (cs : List Char) : TakesAddress [] cs cs :=
  ⟨[], false, by simp, rfl, .nil cs⟩

theorem TakesAddress.slash (h : Takes [['/']] cs rest) : TakesAddress [] cs rest :=
  ⟨[], true, by simp, rfl, h⟩

theorem TakesAddress.segment {key name : Word} {segments : List (String × String)}
    (hkey : key.IsName ['=', ':', '/']) (hname : name.IsName ['/', ':'])
    (h : Takes [['/'], key.token, ['='], name.token] cs mid)
    (hr : TakesAddress segments mid rest) :
    TakesAddress ((key.text, name.text) :: segments) cs rest := by
  obtain ⟨address, slash, hnames, rfl, htakes⟩ := hr
  refine ⟨(key, name) :: address, slash, ?_, rfl, ?_⟩
  · exact List.forall_mem_cons.mpr ⟨⟨hkey, hname⟩, hnames⟩
  · simpa [segmentTokens] using h.append htakes

theorem readAddress_takes {fuel : Nat} {acc result : List (String × String)}
    (h : readAddress fuel acc cs = .ok (result, rest)) :
    ∃ segments, acc ++ segments = result ∧ TakesAddress segments cs rest := by
  induction fuel generalizing acc cs with
  | zero =>
    cases h
    exact ⟨[], by simp, .nil rest⟩
  | succ fuel ih =>
    rw [readAddress.eq_def] at h
    split at h
    · rename_i heq
      cases heq
    · rename_i tail heq
      cases heq
      have hslash : Takes [['/']] ('/' :: tail) (Text.trimStart tail) :=
        (takes_token ['/'] tail).skip
      split at h
      · rename_i hend
        cases h
        exact ⟨[], by simp, .slash (by rwa [hend] at hslash)⟩
      · rename_i hcolon
        cases h
        exact ⟨[], by simp, .slash (by rwa [hcolon] at hslash)⟩
      · split at h
        · cases h
        · rename_i key afterKey hk
          split at h
          · cases h
          · rename_i afterSign he
            split at h
            · cases h
            · rename_i name mid hn
              obtain ⟨wkey, hkey, rfl, htype⟩ := readName_takes hk
              obtain ⟨wname, hname, rfl, hvalue⟩ := readName_takes hn
              obtain ⟨segments, rfl, hrest⟩ := ih h
              refine ⟨(wkey.text, wname.text) :: segments, by simp, ?_⟩
              have htokens := (takes_token ['/'] tail).append
                (htype.of_trimStart.append ((expect_takes he).append hvalue))
              exact .segment hkey hname htokens hrest
    · cases h
      exact ⟨[], by simp, .nil rest⟩

/-! ### commands -/

theorem Source.tokens_eq (s : Source) :
    s.tokens = (segmentTokens s.address ++ if s.slash then [['/']] else []) ++
      [[':'], s.operation.token] ++ s.parameterTokens := by
  obtain ⟨address, slash, operation, parameters⟩ := s
  cases parameters <;> rfl

theorem readOptionalParameters_takes {fs : Fields}
    (h : readOptionalParameters cs = .ok (fs, rest)) :
    ∃ parameters : Option (List (Word × Item) × Bool),
      (∀ p, parameters = some p → Item.FieldsFit ')' p.1 ∧ (p.2 = true → p.1 ≠ [])) ∧
      ∀ s : Source, s.parameters = parameters →
        s.command.parameters = fs ∧ Takes s.parameterTokens cs rest := by
  unfold readOptionalParameters at h
  split at h
  · rename_i tail hs
    obtain ⟨fields, comma, hfit, hcomma, hfs, htakes⟩ := readParameters_takes _ h
    refine ⟨some (fields, comma), ?_, fun s hp => ?_⟩
    · rintro p ⟨⟩
      exact ⟨hfit, hcomma⟩
    · simp only [Source.command, Source.parameterTokens, hp]
      exact ⟨hfs, (takes_char hs).append htakes⟩
  · cases h
    refine ⟨none, by simp, fun s hp => ⟨by simp only [Source.command, hp], ?_⟩⟩
    simp only [Source.parameterTokens, hp]
    exact (Takes.nil cs).skip

/-- A text that is read is made of the tokens of a source of the command. -/
theorem exists_of_read {command : Command} (h : read cs = .ok command) :
    ∃ s : Source, s.IsValid ∧ Spread s.tokens cs ∧ s.command = command := by
  simp only [read, bind, Except.bind] at h
  split at h
  · cases h
  rename_i segments haddress
  split at h
  · cases h
  rename_i afterColon hcolon
  split at h
  · cases h
  rename_i operation hoperation
  split at h
  · cases h
  rename_i fs hparameters
  split at h
  · rename_i hend
    cases h
    obtain ⟨_, rfl, address, slash, hnames, haddress, htakes⟩ := readAddress_takes haddress
    obtain ⟨w, hw, hword, hname⟩ := readName_takes hoperation
    obtain ⟨parameters, hfit, hsource⟩ := readOptionalParameters_takes hparameters
    let s : Source := ⟨address, slash, w, parameters⟩
    obtain ⟨hfs, hfields⟩ := hsource s rfl
    have hvalid : s.IsValid :=
      ⟨fun p hp => (hnames p hp).1, fun p hp => (hnames p hp).2, hw, hfit⟩
    have hlast : Spread [] fs.2 := .of_trimStart (hend ▸ spread_nil)
    have htokens := (htakes.of_trimStart.append ((expect_takes hcolon).append hname)).append hfields
      [] hlast
    refine ⟨s, hvalid, by simpa [s, Source.tokens_eq] using htokens, ?_⟩
    have hsegments : s.command.address = segments.1 := haddress
    have hoperation : s.command.operation = operation.1 := hword
    calc s.command = ⟨s.command.address, s.command.operation, s.command.parameters⟩ := rfl
      _ = ⟨segments.1, operation.1, fs.1⟩ := by rw [hsegments, hoperation, hfs]
  · cases h

theorem exists_of_parse {text : String} {command : Command} (h : parse text = .ok command) :
    ∃ s : Source, s.IsValid ∧ Spread s.tokens (Text.trim text.toList) ∧ s.command = command := by
  simp only [parse] at h
  split at h
  · rename_i hread
    cases h
    exact exists_of_read hread
  · cases h

end ServerRun.Command
