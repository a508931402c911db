import ServerRun.Command.Limits
import ServerRun.Proofs.Command.Writing

/-! Reading a written command within limits. It is read exactly if no whole number in it has too
many digits and its values do not stand too deep in one another. -/

namespace ServerRun

namespace Json

mutual

/-- How many calls of the readers of values and parameters are inside the one that reads a value. -/
def calls : Json → Nat
  | .arr xs => callsOfItems xs
  | .obj fs => callsOfMembers fs + 1
  | _ => 0

/-- How many calls are inside the one that reads a list with such items. -/
def callsOfItems : List Json → Nat
  | [] => 0
  | x :: xs => max (x.calls + 1) (callsOfItems xs)

/-- How many calls are inside the one that reads such parameters. -/
def callsOfMembers : List (String × Json) → Nat
  | [] => 0
  | (_, v) :: fs => max (v.calls + 1) (callsOfMembers fs)

end

mutual

/-- The most digits of a whole number in a value. -/
def digits : Json → Nat
  | .int n => (Nat.toDigits 10 n.natAbs).length
  | .arr xs => digitsOfItems xs
  | .obj fs => digitsOfMembers fs
  | _ => 0

def digitsOfItems : List Json → Nat
  | [] => 0
  | x :: xs => max x.digits (digitsOfItems xs)

def digitsOfMembers : List (String × Json) → Nat
  | [] => 0
  | (_, v) :: fs => max v.digits (digitsOfMembers fs)

end

end Json

open Command Json

/-- The digits of a whole number are all of its text but the sign. -/
theorem Text.length_filter_isDigit_toString (n : Int) :
    ((toString n).toList.filter Text.isDigit).length = (Nat.toDigits 10 n.natAbs).length := by
  have hall (k : Nat) : k.repr.toList.filter Text.isDigit = Nat.toDigits 10 k := by
    rw [List.filter_eq_self.mpr (List.all_eq_true.mp (Text.all_isDigit_repr k)), Nat.toList_repr]
  cases n with
  | ofNat k => exact congrArg List.length (hall k)
  | negSucc k =>
    rw [Text.toList_toString_neg, List.filter_cons_of_neg (by decide), hall]
    rfl

namespace Command

variable {c close : Char} {digits fuel calls : Nat} {cs rest token stops : List Char}
  {more : List (List Char)}

/-! ### words -/

theorem isTooLong_toString (digits : Nat) (n : Int) :
    isTooLong digits (toString n).toList = decide (digits < (Json.int n).digits) := by
  rw [isTooLong, Text.int?_toString, Text.length_filter_isDigit_toString, Json.digits]
  rfl

theorem isTooLong_of_isPlain {x : String} (h : IsPlain x) : isTooLong digits x.toList = false := by
  rw [isTooLong, h.2.2]
  rfl

theorem isTooLong_bool (digits : Nat) (b : Bool) :
    isTooLong digits (toString b).toList = false := by
  cases b <;> rfl

theorem excessOfValue_quoted (h : Text.trimStart cs = '"' :: rest) :
    excessOfValue digits (fuel + 1) calls stops cs = none := by
  rw [excessOfValue, h]
  rfl

/-- A bare word asks for too much only as a whole number. -/
theorem excessOfValue_bare {word : List Char}
    (hw : (Word.bare word).FitsBefore stops valueOpenings)
    (hs : ∀ c ∈ stops, Text.isBlank c = false) (he : EndsAt stops more)
    (h : Spread (word :: more) cs) :
    excessOfValue digits (fuel + 1) calls stops cs = none ↔ isTooLong digits word = false := by
  obtain ⟨c, tail, rfl, hblank, -, hopen⟩ := Word.FitsBefore.head hw
  obtain ⟨rest, hstart, hr⟩ := h.skip hblank
  obtain ⟨rest', hread, -, -⟩ := readBare_word hw hs he hr
  rw [excessOfValue, hstart]
  split
  case h_4 =>
    rw [List.cons_append] at hread
    rw [hread]
    simp
  all_goals
    rename_i heq
    cases heq
    simp at hopen

/-! ### lists and objects -/

theorem excessOfValue_list (h : Text.trimStart cs = '[' :: rest) :
    excessOfValue digits (fuel + 1) calls stops cs = excessOfItems digits fuel calls rest := by
  rw [excessOfValue, h]
  rfl

theorem excessOfValue_object (h : Text.trimStart cs = '\x7b' :: rest) :
    excessOfValue digits (fuel + 1) calls stops cs = none ↔
      calls ≠ 0 ∧ excessOfParameters digits fuel (calls - 1) '\x7d' rest = none := by
  have hopen : excessOfValue digits (fuel + 1) calls stops cs =
      if calls = 0 then some .calls
      else excessOfParameters digits fuel (calls - 1) '\x7d' rest := by
    rw [excessOfValue, h]
    rfl
  rw [hopen]
  split <;> simp [*]

-- The generated equations of the following two take many seconds to derive; these are immediate.
theorem excessOfItems_succ (digits fuel calls : Nat) (cs : List Char) :
    excessOfItems digits (fuel + 1) calls cs =
      match Text.trimStart cs with
      | ']' :: _ => none
      | cs =>
        if calls = 0 then some .calls
        else
          (excessOfValue digits fuel (calls - 1) [',', ']'] cs).or <|
            match readValue fuel [',', ']'] cs with
            | .error _ => none
            | .ok (_, rest) =>
              match Text.trimStart rest with
              | ',' :: rest => excessOfItems digits fuel calls rest
              | _ => none := by
  rfl

theorem excessOfParameters_succ (digits fuel calls : Nat) (close : Char) (cs : List Char) :
    excessOfParameters digits (fuel + 1) calls close cs =
      match Text.trimStart cs with
      | [] => if calls = 0 then some .calls else none
      | c :: cs =>
        if c = close then none
        else if calls = 0 then some .calls
        else
          match readName ['=', close] .parameterName (c :: cs) with
          | .error _ => none
          | .ok (_, rest) =>
            match expect '=' rest with
            | .error _ => none
            | .ok rest =>
              (excessOfValue digits fuel (calls - 1) [',', close] rest).or <|
                match readValue fuel [',', close] rest with
                | .error _ => none
                | .ok (_, rest) =>
                  match Text.trimStart rest with
                  | ',' :: rest => excessOfParameters digits fuel calls close rest
                  | _ => none := by
  rfl

theorem excessOfItems_close (h : Text.trimStart cs = ']' :: rest) :
    excessOfItems digits (fuel + 1) calls cs = none := by
  rw [excessOfItems_succ, h]
  rfl

/-- An item asks for a call of its own, and what follows it decides about the others. -/
theorem excessOfItems_item {v : Json} (h : Text.trimStart cs = c :: token) (hc : c ≠ ']')
    (hv : readValue fuel [',', ']'] (c :: token) = .ok (v, rest)) :
    excessOfItems digits (fuel + 1) calls cs = none ↔
      calls ≠ 0 ∧ excessOfValue digits fuel (calls - 1) [',', ']'] (c :: token) = none ∧
        ∀ tail, Text.trimStart rest = ',' :: tail →
          excessOfItems digits fuel calls tail = none := by
  rw [excessOfItems_succ, h]
  split
  · rename_i heq
    cases heq
    exact absurd rfl hc
  · by_cases h0 : calls = 0
    · simp [h0]
    · simp only [h0, ite_false, hv, Option.or_eq_none_iff, ne_eq, not_false_eq_true, true_and]
      refine and_congr_right fun _ => ?_
      split
      · rename_i heq
        simp [heq]
      · rename_i heq
        exact iff_of_true rfl fun tail ht => absurd ht (heq tail)

theorem excessOfParameters_close (h : Text.trimStart cs = close :: rest) :
    excessOfParameters digits (fuel + 1) calls close cs = none := by
  rw [excessOfParameters_succ, h]
  simp

/-- A parameter asks for a call for its name and one for its value. -/
theorem excessOfParameters_parameter {v : Json} {name : String} {rest₁ rest₂ : List Char}
    (h : Text.trimStart cs = c :: token) (hc : c ≠ close)
    (hn : readName ['=', close] .parameterName (c :: token) = .ok (name, rest))
    (he : expect '=' rest = .ok rest₁) (hv : readValue fuel [',', close] rest₁ = .ok (v, rest₂)) :
    excessOfParameters digits (fuel + 1) calls close cs = none ↔
      calls ≠ 0 ∧ excessOfValue digits fuel (calls - 1) [',', close] rest₁ = none ∧
        ∀ tail, Text.trimStart rest₂ = ',' :: tail →
          excessOfParameters digits fuel calls close tail = none := by
  rw [excessOfParameters_succ, h]
  by_cases h0 : calls = 0
  · simp [h0, hc]
  · simp only [h0, hc, ite_false, hn, he, hv, Option.or_eq_none_iff, ne_eq, not_false_eq_true,
      true_and]
    refine and_congr_right fun _ => ?_
    split
    · rename_i heq
      simp [heq]
    · rename_i heq
      exact iff_of_true rfl fun tail ht => absurd ht (heq tail)

theorem closes_of_mem (h : close ∈ closings) : Closes close := by
  simp only [List.mem_cons, List.not_mem_nil, or_false] at h
  rcases h with rfl | rfl | rfl
  · exact closes_bracket
  · exact closes_brace
  · exact closes_parenthesis

end Command

namespace Json

theorem AreWrittenAs.eq_nil {xs : List Json} (h : AreWrittenAs xs []) : xs = [] := by
  cases xs with
  | nil => rfl
  | cons x xs =>
    obtain ⟨i, is, hn, -⟩ := h
    cases hn

theorem MembersAreWrittenAs.eq_nil {close : Char} {fs : List (String × Json)}
    (h : MembersAreWrittenAs close fs []) : fs = [] := by
  cases fs with
  | nil => rfl
  | cons f fs =>
    obtain ⟨name, i, rest, hn, -⟩ := h
    cases hn

mutual

/-- A written value asks for too much exactly if it is nested too deep or a whole number in it is
too long. -/
theorem IsWrittenAs.excess (v : Json) (digits fuel calls : Nat) {close : Char} {i : Item}
    (hc : close ∈ closings) (hv : v.IsWritable) (h : v.IsWrittenAs close i)
    (hf : i.tokens.length ≤ fuel) {cs : List Char} {next : List (List Char)}
    (he : EndsAt [',', close] next) (hs : Spread (i.tokens ++ next) cs) :
    excessOfValue digits fuel calls [',', close] cs = none ↔
      v.calls ≤ calls ∧ v.digits ≤ digits := by
  have hclose := closes_of_mem hc
  have hfits := (IsWrittenAs.item v hc hv h).1
  cases fuel with
  | zero =>
    obtain ⟨c, token, more, ht, -⟩ := hfits.head hclose
    simp [ht] at hf
  | succ fuel =>
    cases v with
    | str x =>
      rcases h with rfl | ⟨rfl, hbare, hplain⟩
      · obtain ⟨rest, hstart, -⟩ := hs.skip (c := '"') rfl
        simp [excessOfValue_quoted hstart, Json.calls, Json.digits]
      · rw [excessOfValue_bare hbare hclose.blanks he hs, isTooLong_of_isPlain hplain]
        simp [Json.calls, Json.digits]
    | bool b =>
      obtain rfl := h
      rw [excessOfValue_bare hfits hclose.blanks he hs, isTooLong_bool]
      simp [Json.calls, Json.digits]
    | int n =>
      obtain rfl := h
      rw [excessOfValue_bare hfits hclose.blanks he hs, isTooLong_toString]
      simp [Json.calls]
    | arr xs =>
      obtain ⟨items, rfl, h⟩ := h
      simp only [Item.tokens, List.cons_append, List.append_assoc] at hs
      simp only [Item.tokens, List.length_cons, List.length_append] at hf
      obtain ⟨rest, hstart, hr⟩ := hs.skip (c := '[') rfl
      rw [excessOfValue_list hstart]
      exact AreWrittenAs.excess xs digits fuel calls hv h (by omega) hr
    | obj fs =>
      obtain ⟨fields, rfl, h⟩ := h
      simp only [Item.tokens, List.cons_append, List.append_assoc] at hs
      simp only [Item.tokens, List.length_cons, List.length_append] at hf
      obtain ⟨rest, hstart, hr⟩ := hs.skip (c := '\x7b') rfl
      have hfields := MembersAreWrittenAs.excess fs digits fuel (calls - 1) (by simp) hv.2 h
        (by omega) hr
      rw [excessOfValue_object hstart, List.nil_append, hfields]
      simp only [Json.calls, Json.digits]
      omega
    | null => exact h.elim
    | float _ => exact h.elim

theorem AreWrittenAs.excess (xs : List Json) (digits fuel calls : Nat) {items : List Item}
    {comma : Bool} (hv : AreWritable xs) (h : AreWrittenAs xs items)
    (hf : (withCommas comma (Item.tokensOfItems items)).length < fuel) {cs : List Char}
    {more : List (List Char)}
    (hs : Spread (withCommas comma (Item.tokensOfItems items) ++ [']'] :: more) cs) :
    excessOfItems digits fuel calls cs = none ↔
      callsOfItems xs ≤ calls ∧ digitsOfItems xs ≤ digits := by
  cases fuel with
  | zero => simp at hf
  | succ fuel =>
    cases xs with
    | nil =>
      obtain rfl := h
      obtain ⟨rest, hstart, -⟩ := hs.skip rfl
      simp [excessOfItems_close hstart, callsOfItems, digitsOfItems]
    | cons x xs =>
      obtain ⟨i, is, rfl, hi, his⟩ := h
      have hfits := (IsWrittenAs.item x (by simp) hv.1 hi).1
      rw [Item.tokensOfItems] at hs hf
      simp only [callsOfItems, digitsOfItems]
      rcases withCommas_cons comma i.tokens (Item.tokensOfItems is) with ⟨hl, ht⟩ | ⟨comma', ht⟩
      · rw [ht] at hs hf
        have hread := readValue_item i fuel hfits closes_bracket (by omega)
        obtain ⟨c, tail, rest, hskip, hne, hitem, hr, hmore⟩ :=
          hread.inList hfits (endsAt_cons (by simp)) hs
        obtain ⟨rest', hclose, -⟩ := hmore.skip rfl
        have hx := IsWrittenAs.excess x digits fuel (calls - 1) (by simp) hv.1 hi (by omega)
          (endsAt_cons (by simp)) hitem
        obtain rfl := tokensOfItems_eq_nil hl
        obtain rfl := his.eq_nil
        rw [excessOfItems_item hskip hne hr, hx]
        simp only [callsOfItems, digitsOfItems, hclose]
        simp
        omega
      · rw [ht, List.append_assoc, List.cons_append] at hs
        rw [ht, List.length_append, List.length_cons] at hf
        have hread := readValue_item i fuel hfits closes_bracket (by omega)
        obtain ⟨c, tail, rest, hskip, hne, hitem, hr, hmore⟩ :=
          hread.inList hfits (endsAt_cons (by simp)) hs
        obtain ⟨rest', hcomma, hrest⟩ := hmore.skip rfl
        have hx := IsWrittenAs.excess x digits fuel (calls - 1) (by simp) hv.1 hi (by omega)
          (endsAt_cons (by simp)) hitem
        have hxs := AreWrittenAs.excess xs digits fuel calls hv.2 his (by omega) hrest
        rw [excessOfItems_item hskip hne hr, hx]
        simp only [hcomma, List.cons.injEq, true_and, List.nil_append, forall_eq', hxs]
        omega

theorem MembersAreWrittenAs.excess (fs : List (String × Json)) (digits fuel calls : Nat)
    {close : Char} {fields : List (Word × Item)} {comma : Bool} (hc : close ∈ closings)
    (hv : MembersAreWritable fs) (h : MembersAreWrittenAs close fs fields)
    (hf : (withCommas comma (Item.tokensOfFields fields)).length < fuel) {cs : List Char}
    {more : List (List Char)}
    (hs : Spread (withCommas comma (Item.tokensOfFields fields) ++ [close] :: more) cs) :
    excessOfParameters digits fuel calls close cs = none ↔
      callsOfMembers fs ≤ calls ∧ digitsOfMembers fs ≤ digits := by
  have hclose := closes_of_mem hc
  cases fuel with
  | zero => simp at hf
  | succ fuel =>
    cases fs with
    | nil =>
      obtain rfl := h
      obtain ⟨rest, hstart, -⟩ := hs.skip hclose.blank
      simp [excessOfParameters_close hstart, callsOfMembers, digitsOfMembers]
    | cons f fs =>
      obtain ⟨name, v⟩ := f
      obtain ⟨w, i, is, rfl, hw, hi, his⟩ := h
      have hfits := (IsWrittenAs.item v hc hv.1 hi).1
      rw [Item.tokensOfFields] at hs hf
      simp only [callsOfMembers, digitsOfMembers]
      rcases withCommas_cons comma (w.token :: ['='] :: i.tokens) (Item.tokensOfFields is)
        with ⟨hl, ht⟩ | ⟨comma', ht⟩
      · rw [ht] at hs hf
        simp only [List.length_cons] at hf
        have hread := readValue_item i fuel hfits hclose (by omega)
        obtain ⟨c, tail, rest, rest₁, rest₂, hskip, hne, hn, hsign, hitem, hr, hmore⟩ :=
          hread.named hclose hw.fits (endsAt_cons (by simp)) hs
        obtain ⟨rest', hend, -⟩ := hmore.skip hclose.blank
        have hx := IsWrittenAs.excess v digits fuel (calls - 1) hc hv.1 hi (by omega)
          (endsAt_cons (by simp)) hitem
        obtain rfl := tokensOfFields_eq_nil hl
        obtain rfl := his.eq_nil
        rw [excessOfParameters_parameter hskip hne hn hsign hr, hx]
        simp only [callsOfMembers, digitsOfMembers, hend]
        simp [hclose.comma]
        omega
      · rw [ht, List.append_assoc, List.cons_append] at hs
        rw [ht, List.length_append] at hf
        simp only [List.length_cons] at hf
        have hread := readValue_item i fuel hfits hclose (by omega)
        obtain ⟨c, tail, rest, rest₁, rest₂, hskip, hne, hn, hsign, hitem, hr, hmore⟩ :=
          hread.named hclose hw.fits (endsAt_cons (by simp)) hs
        obtain ⟨rest', hcomma, hrest⟩ := hmore.skip rfl
        have hx := IsWrittenAs.excess v digits fuel (calls - 1) hc hv.1 hi (by omega)
          (endsAt_cons (by simp)) hitem
        have hxs := MembersAreWrittenAs.excess fs digits fuel calls hc hv.2 his (by omega) hrest
        rw [excessOfParameters_parameter hskip hne hn hsign hr, hx]
        simp only [hcomma, List.cons.injEq, true_and, List.nil_append, forall_eq', hxs]
        omega

end

end Json

namespace Command

/-! ### commands -/

/-- Whether a command can be read within limits. -/
structure FitsIn (limits : Limits) (c : Command) : Prop where
  calls : (Json.obj c.parameters).calls ≤ limits.calls
  digits : (Json.obj c.parameters).digits ≤ limits.digits

variable {c : Command} {s : Source} {text : String}

/-- A written command asks for too much exactly if it does not fit. -/
theorem IsWrittenAs.excess (limits : Limits) (h : c.IsWrittenAs s) (hc : c.IsWritable)
    (ht : Spread s.pieces text.toList) : limits.excess? text = none ↔ c.FitsIn limits := by
  obtain ⟨hs, -⟩ := h.source hc
  obtain ⟨rest₁, rest₂, rest, haddress, hcolon, hoperation, hr⟩ :=
    head_of_pieces hs (spread_pieces_trim hs ht)
  have hhead : readHead (Text.trim text.toList) = .ok rest := by
    simp only [readHead, haddress, hcolon, hoperation, bind, Except.bind]
    rfl
  have hfits : c.FitsIn limits ↔ limits.calls ≠ 0 ∧
      callsOfMembers c.parameters ≤ limits.calls - 1 ∧
        digitsOfMembers c.parameters ≤ limits.digits := by
    refine ⟨fun ⟨h₁, h₂⟩ => ?_, fun ⟨h₀, h₁, h₂⟩ => ⟨?_, ?_⟩⟩ <;>
      simp only [Json.calls, Json.digits] at * <;> omega
  rw [Limits.excess?, hfits]
  by_cases h0 : limits.calls = 0
  · simp [h0]
  · simp only [h0, ite_false, hhead, ne_eq, not_false_eq_true, true_and]
    rcases h.parameters with ⟨hnil, hp⟩ | ⟨fields, hp, hfields⟩
    · simp only [Source.parameterTokens, hp] at hr
      simp [hr.skip_all, hnil, callsOfMembers, digitsOfMembers]
    · simp only [Source.parameterTokens, hp, List.cons_append] at hr
      obtain ⟨rest', hopen, hr⟩ := hr.skip rfl
      have hlen := hr.length_le (solid_enclosed (solid_tokensOfFields fields
        (hs.parameters _ hp).1) rfl)
      rw [List.length_append, List.length_singleton] at hlen
      rw [hopen]
      exact Json.MembersAreWrittenAs.excess c.parameters _ _ _ (by simp) hc.values hfields
        (by simp only [List.nil_append]; omega) hr

/-- A text of a command is read as the command if that fits, and asks for too much otherwise. -/
theorem parseWithin_of_isText (limits : Limits) (h : c.IsWritable) (ht : c.IsText text) :
    (c.FitsIn limits → parseWithin limits text = .ok c) ∧
      (¬ c.FitsIn limits → ∃ x : Excess, parseWithin limits text = .error x.failure) := by
  obtain ⟨s, hs, rfl⟩ := ht
  have hx := hs.excess limits h (spread_pieces_tokens s)
  obtain ⟨hvalid, hcommand⟩ := hs.source h
  constructor
  · intro hf
    rw [parseWithin, parseUnless, hx.mpr hf, parse_tokens hvalid, hcommand]
  · intro hf
    obtain ⟨x, hx⟩ := Option.ne_none_iff_exists'.mp (mt hx.mp hf)
    exact ⟨x, by rw [parseWithin, parseUnless, hx]⟩

/-- A command can be written, and each of its texts is read as the command exactly if it fits into
the limits of its reader, whichever strings stand in quotes and whichever bare. -/
theorem parseWithin_text (limits : Limits) {c : Command} (h : c.IsWritable) :
    (∃ text, c.IsText text) ∧ ∀ text, c.IsText text →
      (parseWithin limits text = .ok c ↔ c.FitsIn limits) ∧
        (¬ c.FitsIn limits → ∃ x : Excess, parseWithin limits text = .error x.failure) ∧
        c.request = ("operation", .str c.operation) ::
          ("address", .arr (c.address.map segment)) :: c.parameters := by
  constructor
  · obtain ⟨s, hs⟩ := exists_isWrittenAs h
    exact ⟨_, s, hs, rfl⟩
  · intro text ht
    obtain ⟨hfits, hexcess⟩ := parseWithin_of_isText limits h ht
    refine ⟨⟨fun hp => ?_, hfits⟩, hexcess, request_of_isWritable h⟩
    by_contra hf
    obtain ⟨x, hx⟩ := hexcess hf
    cases hp.symm.trans hx

theorem parse_levelChange :
    levelChange.IsWritable ∧ levelChange.IsText levelChangeText ∧
      parseWithin .standard levelChangeText = .ok levelChange ∧
      levelChange.request = ("operation", .str "write-attribute") ::
        ("address", .arr [.obj [("subsystem", .str "log ging")], .obj [("a=b", .str "c\"d")]]) ::
          levelChange.parameters := by
  have hfits : levelChange.FitsIn .standard := ⟨by decide, by decide⟩
  obtain ⟨-, htext⟩ := parseWithin_text .standard levelChange_isWritable
  obtain ⟨hread, -, hrequest⟩ := htext levelChangeText levelChange_isText
  exact ⟨levelChange_isWritable, levelChange_isText, hread.mpr hfits, hrequest⟩

/-! ### an object that is nested too deep -/

/-- A number in so many objects. -/
def nested : Nat → Json
  | 0 => .int 1
  | n + 1 => .obj [("a", nested n)]

def nestedItem : Nat → Item
  | 0 => .word (.bare "1".toList)
  | n + 1 => .object [(.bare "a".toList, nestedItem n)] false

def nestedText : Nat → List Char
  | 0 => "1".toList
  | n + 1 => "\x7ba=".toList ++ nestedText n ++ "\x7d".toList

theorem nested_isWritable (n : Nat) : (nested n).IsWritable := by
  induction n with
  | zero => exact trivial
  | succ n ih => exact ⟨by simp, ih, trivial⟩

theorem nested_isWrittenAs (n : Nat) (close : Char) :
    (nested n).IsWrittenAs close (nestedItem n) := by
  induction n generalizing close with
  | zero => rfl
  | succ n ih =>
    refine ⟨_, rfl, .bare "a".toList, nestedItem n, [], rfl, .inr ⟨rfl, ?_⟩, ih _, rfl⟩
    exact ⟨by decide, by decide, by simp, by simp⟩

theorem flatten_nestedItem (n : Nat) : (nestedItem n).tokens.flatten = nestedText n := by
  induction n with
  | zero => rfl
  | succ n ih => simp [nestedItem, Item.tokens, Item.tokensOfFields, withCommas, Word.token,
      nestedText, ih]

theorem calls_nested (n : Nat) : (nested n).calls = 2 * n := by
  induction n with
  | zero => rfl
  | succ n ih =>
    simp only [nested, Json.calls, callsOfMembers, ih]
    omega

/-- A command with a parameter of so many objects in one another. -/
def nestedCommand (n : Nat) : Command := ⟨[], "op", [("a", nested n)]⟩

def nestedCommandText (n : Nat) : String :=
  String.ofList (":op(a=".toList ++ nestedText n ++ ")".toList)

theorem nestedCommand_isWritable (n : Nat) : (nestedCommand n).IsWritable where
  names := by simp [nestedCommand]
  operation := by simp [nestedCommand]
  address := by simp [nestedCommand]
  values := ⟨nested_isWritable n, trivial⟩

def nestedSource (n : Nat) : Source :=
  { operation := .bare "op".toList
    parameters := some ([(.bare "a".toList, nestedItem n)], false) }

theorem flatten_nestedSource (n : Nat) :
    ":op(a=".toList ++ nestedText n ++ ")".toList = (nestedSource n).tokens.flatten := by
  simp only [nestedSource, Source.tokens, Item.tokensOfFields, withCommas, Word.token,
    List.flatten_append, List.flatten_cons, List.flatten_nil, flatten_nestedItem,
    List.flatMap_nil, List.append_nil, List.nil_append, Bool.false_eq_true, ite_false,
    List.append_assoc]
  rfl

theorem nestedCommand_isText (n : Nat) : (nestedCommand n).IsText (nestedCommandText n) := by
  have hname : (Word.bare "a".toList).Writes ['=', ')'] ['"'] "a" :=
    .inr ⟨rfl, by decide, by decide, by simp, by simp⟩
  have hparameters : Json.MembersAreWrittenAs ')' [("a", nested n)]
      [(.bare "a".toList, nestedItem n)] :=
    ⟨_, _, _, rfl, hname, nested_isWrittenAs n ')', rfl⟩
  have hoperation : (nestedSource n).operation.Writes ['('] ['"'] "op" :=
    .inr ⟨rfl, by decide, by decide, by simp, by simp⟩
  exact ⟨nestedSource n, ⟨.nil, rfl, hoperation, .inr ⟨_, rfl, hparameters⟩⟩,
    congrArg String.ofList (flatten_nestedSource n)⟩

/-- A command with six hundred objects in one another is not read. -/
theorem not_parse_nested :
    ¬ ∀ (c : Command) (text : String), c.IsWritable → c.IsText text →
      parseWithin .standard text = .ok c := by
  intro h
  have hread := h _ _ (nestedCommand_isWritable 600) (nestedCommand_isText 600)
  have hdeep : ¬ (nestedCommand 600).FitsIn .standard := by
    intro hf
    have hcalls := hf.calls
    simp [nestedCommand, Json.calls, callsOfMembers, calls_nested, Limits.standard] at hcalls
  obtain ⟨x, hx⟩ := (parseWithin_of_isText .standard (nestedCommand_isWritable 600)
    (nestedCommand_isText 600)).2 hdeep
  cases hread.symm.trans hx

end Command

end ServerRun
