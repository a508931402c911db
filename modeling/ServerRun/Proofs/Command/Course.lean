import ServerRun.Proofs.Command.Advance
import ServerRun.Proofs.Command.Value

/-! Reading a value comes to an end. There is exactly one course of reading a value, or the parts of
one, from a cursor; it takes up a character at least. Fuel for the characters that are left is
enough for the readers to take it. -/

namespace ServerRun.Command

variable {c : Char} {cs mid tail rest stops : List Char} {ss ts : List Stretch}

/-! ### courses -/

theorem Proceeds.value {r : Reading Json} (h : Proceeds cs ss (left r)) (hr : Advances cs r) :
    Proceeds cs (ss ++ completed .value cs r) (left r) := by
  cases r with
  | error e => simpa [completed] using h
  | ok x => exact h.part .value nofun List.suffix_rfl ⟨hr.suffix, hr.shorter x.1 x.2 rfl⟩

/-- A value, and what is read of one, goes on through the text, and takes up a character unless it
fails. -/
theorem Reads.proceeds {t : Task} {r : Reading Json} (h : Reads t cs ss r) :
    Proceeds cs ss (left r) ∧ Advances cs r := by
  induction h with
  | @word stops cs ss r _ _ hr =>
    obtain ⟨rfl, rfl⟩ := hr
    have hadvances := advances_readWord stops cs
    exact ⟨hadvances.completed.value hadvances, hadvances⟩
  | list h _ ih | object h _ ih =>
    have hadvances := ih.2.of_suffix (tail_suffix h).1
    exact ⟨(ih.1.token (tail_suffix h)).value hadvances, hadvances⟩
  | closed h | closing _ h =>
    refine ⟨proceeds_token (tail_suffix h), (tail_suffix h).1, ?_⟩
    rintro _ _ ⟨⟩
    exact (tail_suffix h).2
  | badItem _ _ ih =>
    exact ⟨ih.1.of_suffix (trimStart_suffix _), ih.2.of_suffix (trimStart_suffix _)⟩
  | @item items cs mid ss ts v r _ _ _ ihv ihr =>
    have hitem := ihv.1.part .item nofun List.suffix_rfl
      ⟨ihv.2.suffix, ihv.2.shorter v mid rfl⟩
    refine ⟨?_, (ihr.2.of_suffix ihv.2.suffix).of_suffix (trimStart_suffix cs)⟩
    simpa using (hitem.append ihr.1).of_suffix (trimStart_suffix cs)
  | badKey _ hk =>
    have hkey := ((follows_key _ _).proceeds hk).of_suffix (trimStart_suffix _)
    exact ⟨hkey, hkey.suffix, nofun⟩
  | badValue _ hk _ ih =>
    have hkey := ((follows_key _ _).proceeds hk).of_suffix (trimStart_suffix _)
    exact ⟨hkey.append ih.1, (hkey.append ih.1).suffix, nofun⟩
  | @parameter close fields cs rest mid name ks ss ts v r _ hk _ _ ihv ihr =>
    have hkey := (follows_key _ _).proceeds hk
    have hvalue := hkey.append ihv.1
    have hlength := Nat.lt_of_lt_of_le (ihv.2.shorter v mid rfl) hkey.suffix.length_le
    have hparameter := hvalue.part .parameter nofun List.suffix_rfl
      ⟨hvalue.suffix, hlength⟩
    refine ⟨?_, (ihr.2.of_suffix hvalue.suffix).of_suffix (trimStart_suffix cs)⟩
    simpa using (hparameter.append ihr.1).of_suffix (trimStart_suffix cs)
  | comma h _ ih => exact ⟨ih.1.token (tail_suffix h), ih.2.of_suffix (tail_suffix h).1⟩
  | neither h => exact ⟨.nil (trimStart_suffix _), trimStart_suffix _, nofun⟩

/-- What is read next decides which rule applies. -/
theorem Reads.unique {t : Task} {r q : Reading Json} (h : Reads t cs ss r) (h' : Reads t cs ts q) :
    ss = ts ∧ r = q := by
  induction h generalizing ts q with
  | word hlist hobject hr =>
    cases h' with
    | word _ _ hr' =>
      obtain ⟨rfl, rfl⟩ := hr
      obtain ⟨rfl, rfl⟩ := hr'
      exact ⟨rfl, rfl⟩
    | list h' => exact absurd h' (hlist _)
    | object h' => exact absurd h' (hobject _)
  | list h _ ih =>
    cases h' with
    | word hlist => exact absurd h (hlist _)
    | list h' hr' =>
      obtain ⟨-, rfl⟩ := List.cons.inj (h.symm.trans h')
      obtain ⟨rfl, rfl⟩ := ih hr'
      exact ⟨rfl, rfl⟩
    | object h' => cases h.symm.trans h'
  | object h _ ih =>
    cases h' with
    | word _ hobject => exact absurd h (hobject _)
    | list h' => cases h.symm.trans h'
    | object h' hr' =>
      obtain ⟨-, rfl⟩ := List.cons.inj (h.symm.trans h')
      obtain ⟨rfl, rfl⟩ := ih hr'
      exact ⟨rfl, rfl⟩
  | closed h =>
    cases h' with
    | closed h' =>
      obtain ⟨-, rfl⟩ := List.cons.inj (h.symm.trans h')
      exact ⟨rfl, rfl⟩
    | badItem h' | item h' | badKey h' | badValue h' | parameter h' => exact absurd h (h' _)
  | badItem h _ ih =>
    cases h' with
    | closed h' => exact absurd h' (h _)
    | badItem _ hv' =>
      obtain ⟨rfl, he⟩ := ih hv'
      cases he
      exact ⟨rfl, rfl⟩
    | item _ hv' => cases (ih hv').2
  | item h _ _ ihv ihr =>
    cases h' with
    | closed h' => exact absurd h' (h _)
    | badItem _ hv' => cases (ihv hv').2
    | item _ hv' hr' =>
      obtain ⟨rfl, he⟩ := ihv hv'
      cases he
      obtain ⟨rfl, rfl⟩ := ihr hr'
      exact ⟨rfl, rfl⟩
  | badKey h hk =>
    cases h' with
    | closed h' => exact absurd h' (h _)
    | badKey _ hk' =>
      obtain ⟨rfl, he⟩ := (follows_key _ _).unique hk hk'
      cases he
      exact ⟨rfl, rfl⟩
    | badValue _ hk' | parameter _ hk' => cases ((follows_key _ _).unique hk hk').2
  | badValue h hk _ ih =>
    cases h' with
    | closed h' => exact absurd h' (h _)
    | badKey _ hk' => cases ((follows_key _ _).unique hk hk').2
    | badValue _ hk' hv' =>
      obtain ⟨rfl, he⟩ := (follows_key _ _).unique hk hk'
      cases he
      obtain ⟨rfl, he⟩ := ih hv'
      cases he
      exact ⟨rfl, rfl⟩
    | parameter _ hk' hv' =>
      obtain ⟨rfl, he⟩ := (follows_key _ _).unique hk hk'
      cases he
      cases (ih hv').2
  | parameter h hk _ _ ihv ihr =>
    cases h' with
    | closed h' => exact absurd h' (h _)
    | badKey _ hk' => cases ((follows_key _ _).unique hk hk').2
    | badValue _ hk' hv' =>
      obtain ⟨rfl, he⟩ := (follows_key _ _).unique hk hk'
      cases he
      cases (ihv hv').2
    | parameter _ hk' hv' hr' =>
      obtain ⟨rfl, he⟩ := (follows_key _ _).unique hk hk'
      cases he
      obtain ⟨rfl, he⟩ := ihv hv'
      cases he
      obtain ⟨rfl, rfl⟩ := ihr hr'
      exact ⟨rfl, rfl⟩
  | comma h _ ih =>
    cases h' with
    | comma h' hr' =>
      obtain ⟨-, rfl⟩ := List.cons.inj (h.symm.trans h')
      obtain ⟨rfl, rfl⟩ := ih hr'
      exact ⟨rfl, rfl⟩
    | closing hc h' => exact absurd (List.cons.inj (h'.symm.trans h)).1 hc
    | neither h' => exact absurd rfl (h' _ _ h).1
  | closing hc h =>
    cases h' with
    | comma h' => exact absurd (List.cons.inj (h.symm.trans h')).1 hc
    | closing _ h' =>
      obtain ⟨-, rfl⟩ := List.cons.inj (h.symm.trans h')
      exact ⟨rfl, rfl⟩
    | neither h' => exact absurd rfl (h' _ _ h).2
  | neither h =>
    cases h' with
    | comma h' => exact absurd rfl (h _ _ h').1
    | closing _ h' => exact absurd rfl (h _ _ h').2
    | neither => exact ⟨rfl, rfl⟩

/-! ### readers -/

/-- Reading the parts of something opened. -/
def readOpened (fuel : Nat) : Opened → List Char → Reading Json
  | .list items, cs => (readItems fuel items cs).map fun x => (.arr x.1, x.2)
  | .object close fields, cs => (readParameters fuel close fields cs).map fun x => (.obj x.1, x.2)

/-- Reading what stands behind a part of something opened. -/
def readBehind (fuel : Nat) (o : Opened) (cs : List Char) : Reading Json :=
  match Text.trimStart cs with
  | [] => .error ⟨.expectedNext o.close, []⟩
  | c :: tail =>
    if c = ',' then readOpened fuel o tail
    else if c = o.close then .ok (o.value, tail)
    else .error ⟨.expectedNext o.close, c :: tail⟩

section

variable {fuel : Nat} {o : Opened}

theorem readValue_list (h : Text.trimStart cs = '[' :: tail) :
    readValue (fuel + 1) stops cs = readOpened fuel (.list []) tail := by
  rw [readValue, h]
  rfl

theorem readValue_object (h : Text.trimStart cs = '\x7b' :: tail) :
    readValue (fuel + 1) stops cs = readOpened fuel (.object '\x7d' []) tail := by
  rw [readValue, h]
  rfl

theorem readValue_otherwise (hlist : ∀ tail, Text.trimStart cs ≠ '[' :: tail)
    (hobject : ∀ tail, Text.trimStart cs ≠ '\x7b' :: tail) :
    readValue (fuel + 1) stops cs = readWord stops cs := by
  rw [readValue, readWord]
  generalize Text.trimStart cs = ds at hlist hobject
  split
  · rfl
  · exact absurd rfl (hlist _)
  · exact absurd rfl (hobject _)
  · rename_i hquote _ _
    symm
    split
    · exact absurd rfl (hquote _)
    · rfl

theorem readOpened_closed (h : Text.trimStart cs = o.close :: tail) :
    readOpened (fuel + 1) o cs = .ok (o.value, tail) := by
  cases o with
  | list items => exact congrArg (Except.map _) (readItems_close h)
  | object close fields => exact congrArg (Except.map _) (readParameters_close h)

theorem readOpened_item {items : List Json} (h : ∀ tail, Text.trimStart cs ≠ ']' :: tail) :
    readOpened (fuel + 1) (.list items) cs =
      (readValue fuel [',', ']'] (Text.trimStart cs)).bind fun x =>
        readBehind fuel (.list (items ++ [x.1])) x.2 := by
  rw [readOpened, readItems]
  split
  · rename_i tail hs
    exact absurd hs (h tail)
  · cases readValue fuel [',', ']'] (Text.trimStart cs) with
    | error e => rfl
    | ok x =>
      simp only [Except.bind, readBehind, Opened.close, Opened.value]
      cases Text.trimStart x.2 with
      | nil => rfl
      | cons d tail =>
        by_cases hcomma : d = ','
        · subst hcomma
          rfl
        · by_cases hclose : d = ']'
          · subst hclose
            rfl
          · simp [hcomma, hclose, Except.map]

theorem readOpened_parameter {close : Char} {fields : Fields}
    (h : ∀ tail, Text.trimStart cs ≠ close :: tail) :
    readOpened (fuel + 1) (.object close fields) cs =
      (readKey ['=', close] .parameterName (Text.trimStart cs)).bind fun k =>
        (readValue fuel [',', close] k.2).bind fun x =>
          readBehind fuel (.object close (Fields.insert fields k.1 x.1)) x.2 := by
  rw [readOpened, readParameters_succ]
  cases hs : Text.trimStart cs with
  | nil => rfl
  | cons c tail =>
    have hc : c ≠ close := fun hc => h tail (hc ▸ hs)
    simp only [hc, ite_false, readKey, readSign]
    cases readName ['=', close] .parameterName (c :: tail) with
    | error e => rfl
    | ok name =>
      simp only [Except.bind]
      cases expect '=' name.2 with
      | error e => rfl
      | ok rest =>
        simp only [Except.map]
        cases readValue fuel [',', close] rest with
        | error e => rfl
        | ok x =>
          simp only [readBehind, Opened.close, Opened.value]
          cases Text.trimStart x.2 with
          | nil => rfl
          | cons d more =>
            by_cases hcomma : d = ','
            · subst hcomma
              rfl
            · by_cases hclose : d = close
              · subst hclose
                simp [hcomma]
              · simp [hcomma, hclose]

/-- With so much fuel the readers of values take a course wherever there are two units of it for
each character that is left. -/
structure Suffices (fuel : Nat) : Prop where
  value : ∀ stops cs, 2 * cs.length + 1 ≤ fuel →
    ∃ ss, Reads (.value stops) cs ss (readValue fuel stops cs)
  parts : ∀ o cs, 2 * cs.length + 2 ≤ fuel →
    ∃ ss, Reads (.parts o) cs ss (readOpened fuel o cs)

theorem Suffices.behind (h : Suffices fuel) (o : Opened) (cs : List Char)
    (hf : 2 * cs.length ≤ fuel) : ∃ ss, Reads (.behind o) cs ss (readBehind fuel o cs) := by
  rw [readBehind]
  split
  · rename_i hs
    exact ⟨[], hs ▸ .neither (by simp [hs])⟩
  · rename_i c tail hs
    split
    · rename_i hc
      have hlength := (tail_suffix hs).2
      obtain ⟨ss, hr⟩ := h.parts o tail (by omega)
      exact ⟨_, .comma (hc ▸ hs) hr⟩
    · rename_i hcomma
      split
      · rename_i hclose
        exact ⟨_, .closing (hclose ▸ hcomma) (hclose ▸ hs)⟩
      · rename_i hclose
        refine ⟨[], hs ▸ .neither fun d more hd => ?_⟩
        obtain ⟨rfl, -⟩ := List.cons.inj (hs.symm.trans hd)
        exact ⟨hcomma, hclose⟩

theorem Suffices.value_succ (h : Suffices fuel) (stops cs : List Char)
    (hf : 2 * cs.length + 1 ≤ fuel + 1) :
    ∃ ss, Reads (.value stops) cs ss (readValue (fuel + 1) stops cs) := by
  by_cases hlist : ∃ tail, Text.trimStart cs = '[' :: tail
  · obtain ⟨tail, hs⟩ := hlist
    have hlength := (tail_suffix hs).2
    obtain ⟨ss, hr⟩ := h.parts (.list []) tail (by omega)
    rw [readValue_list hs]
    exact ⟨_, .list hs hr⟩
  by_cases hobject : ∃ tail, Text.trimStart cs = '\x7b' :: tail
  · obtain ⟨tail, hs⟩ := hobject
    have hlength := (tail_suffix hs).2
    obtain ⟨ss, hr⟩ := h.parts (.object '\x7d' []) tail (by omega)
    rw [readValue_object hs]
    exact ⟨_, .object hs hr⟩
  have hlist := not_exists.mp hlist
  have hobject := not_exists.mp hobject
  exact ⟨_, .word hlist hobject ⟨rfl, readValue_otherwise hlist hobject⟩⟩

theorem Suffices.item_succ (h : Suffices fuel) {items : List Json}
    (hf : 2 * cs.length + 2 ≤ fuel + 1) (hclose : ∀ tail, Text.trimStart cs ≠ ']' :: tail) :
    ∃ ss, Reads (.parts (.list items)) cs ss (readOpened (fuel + 1) (.list items) cs) := by
  have hlength := (trimStart_suffix cs).length_le
  obtain ⟨ss, hv⟩ := h.value [',', ']'] (Text.trimStart cs) (by omega)
  rw [readOpened_item hclose]
  cases hr : readValue fuel [',', ']'] (Text.trimStart cs) with
  | error e => exact ⟨ss, .badItem hclose (hr ▸ hv)⟩
  | ok x =>
    rw [hr] at hv
    have hmid := hv.proceeds.2.shorter x.1 x.2 rfl
    obtain ⟨ts, hb⟩ := h.behind (.list (items ++ [x.1])) x.2 (by omega)
    exact ⟨_, .item hclose hv hb⟩

theorem Suffices.parameter_succ (h : Suffices fuel) {close : Char} {fields : Fields}
    (hf : 2 * cs.length + 2 ≤ fuel + 1) (hclose : ∀ tail, Text.trimStart cs ≠ close :: tail) :
    ∃ ss, Reads (.parts (.object close fields)) cs ss
      (readOpened (fuel + 1) (.object close fields) cs) := by
  have hlength := (trimStart_suffix cs).length_le
  obtain ⟨ks, hk⟩ := (follows_key ['=', close] .parameterName).takes (Text.trimStart cs)
  rw [readOpened_parameter hclose]
  cases hkey : readKey ['=', close] .parameterName (Text.trimStart cs) with
  | error e => exact ⟨ks, .badKey hclose (hkey ▸ hk)⟩
  | ok key =>
    rw [hkey] at hk
    have hrest := ((follows_key _ _).proceeds hk).suffix.length_le
    rw [left_ok] at hrest
    obtain ⟨ss, hv⟩ := h.value [',', close] key.2 (by omega)
    simp only [Except.bind]
    cases hr : readValue fuel [',', close] key.2 with
    | error e => exact ⟨_, .badValue hclose hk (hr ▸ hv)⟩
    | ok x =>
      rw [hr] at hv
      have hmid := hv.proceeds.2.shorter x.1 x.2 rfl
      obtain ⟨ts, hb⟩ := h.behind (.object close (Fields.insert fields key.1 x.1)) x.2 (by omega)
      exact ⟨_, .parameter hclose hk hv hb⟩

/-- A unit of fuel is used up where a value is opened, and one for each of its parts. Both take up a
character, the bracket or the first one of the part. -/
theorem suffices_succ (h : Suffices fuel) : Suffices (fuel + 1) where
  value := h.value_succ
  parts o cs hf := by
    by_cases hclose : ∃ tail, Text.trimStart cs = o.close :: tail
    · obtain ⟨tail, hs⟩ := hclose
      rw [readOpened_closed hs]
      exact ⟨_, .closed hs⟩
    · have hclose := not_exists.mp hclose
      cases o with
      | list items => exact h.item_succ hf hclose
      | object close fields => exact h.parameter_succ hf hclose

theorem suffices_all (fuel : Nat) : Suffices fuel := by
  induction fuel with
  | zero => exact ⟨fun _ _ hf => absurd hf (by omega), fun _ _ hf => absurd hf (by omega)⟩
  | succ fuel ih => exact suffices_succ ih

end

end ServerRun.Command
