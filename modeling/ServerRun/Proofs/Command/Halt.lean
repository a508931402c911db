import ServerRun.Proofs.Command.Course
import ServerRun.Proofs.Command.Reading

/-! Reading a command comes to an end. There is exactly one course of reading a text as a command,
and the parser answers what it comes to: the command at the end of the text, or a refusal with the
place where the cursor stands. -/

namespace ServerRun.Command

variable {c : Char} {cs mid tail rest stops : List Char} {ss ts : List Stretch}

/-! ### addresses -/

/-- Reading a segment behind its slash. -/
def readSegment (cs : List Char) : Reading (String × String) :=
  (readKey ['=', ':', '/'] .addressType cs).bind fun x =>
    (readName ['/', ':'] .addressName x.2).bind fun y => .ok ((x.1, y.1), y.2)

theorem follows_segment : Follows ReadsSegment readSegment :=
  (follows_key ['=', ':', '/'] .addressType).then fun key =>
    (follows_token (advances_readName ['/', ':'] .addressName)).then fun name =>
      follows_give (key, name)

section

variable {acc : List (String × String)}

theorem ReadsAddress.proceeds {r : Reading (List (String × String))}
    (h : ReadsAddress acc cs ss r) : Proceeds cs ss (left r) := by
  induction h with
  | done => exact .nil List.suffix_rfl
  | @slash _ tail =>
    have hs := trimStart_suffix tail
    exact proceeds_token ⟨hs.trans (List.suffix_cons '/' tail), Nat.lt_succ_of_le hs.length_le⟩
  | @badSegment _ c tail more ss e h hc hs =>
    have hsegment := (follows_segment.proceeds hs).of_suffix (trimStart_suffix tail)
    exact hsegment.token ⟨List.suffix_cons '/' tail, Nat.lt_succ_self _⟩
  | @segment _ c tail more mid s ss ts r h hc hs _ ih =>
    have hsegment := (follows_segment.proceeds hs).of_suffix (trimStart_suffix tail)
    have hslash := hsegment.token ⟨List.suffix_cons '/' tail, Nat.lt_succ_self _⟩
    have hwhole := hslash.part .segment nofun List.suffix_rfl
      ⟨hslash.suffix, Nat.lt_succ_of_le hsegment.suffix.length_le⟩
    simpa using hwhole.append ih

theorem ReadsAddress.unique {r q : Reading (List (String × String))}
    (h : ReadsAddress acc cs ss r) (h' : ReadsAddress acc cs ts q) : ss = ts ∧ r = q := by
  induction h generalizing ts q with
  | done h =>
    cases h' with
    | done => exact ⟨rfl, rfl⟩
    | slash | badSegment | segment => exact absurd rfl (h _)
  | slash h =>
    cases h' with
    | done h' => exact absurd rfl (h' _)
    | slash => exact ⟨rfl, rfl⟩
    | badSegment h' hc' | segment h' hc' => exact absurd (h _ _ h') hc'
  | badSegment h hc hs =>
    cases h' with
    | done h' => exact absurd rfl (h' _)
    | slash h' => exact absurd (h' _ _ h) hc
    | badSegment _ _ hs' =>
      obtain ⟨rfl, he⟩ := follows_segment.unique hs hs'
      cases he
      exact ⟨rfl, rfl⟩
    | segment _ _ hs' => cases (follows_segment.unique hs hs').2
  | segment h hc hs _ ih =>
    cases h' with
    | done h' => exact absurd rfl (h' _)
    | slash h' => exact absurd (h' _ _ h) hc
    | badSegment _ _ hs' => cases (follows_segment.unique hs hs').2
    | segment _ _ hs' hr' =>
      obtain ⟨rfl, he⟩ := follows_segment.unique hs hs'
      cases he
      obtain ⟨rfl, rfl⟩ := ih hr'
      exact ⟨rfl, rfl⟩

theorem readAddress_done {fuel : Nat} (h : ∀ tail, cs ≠ '/' :: tail) :
    readAddress fuel acc cs = .ok (acc, cs) := by
  unfold readAddress
  split
  · rfl
  · exact absurd rfl (h _)
  · rfl

theorem readAddress_end {fuel : Nat} (h : ∀ c more, Text.trimStart tail = c :: more → c = ':') :
    readAddress (fuel + 1) acc ('/' :: tail) = .ok (acc, Text.trimStart tail) := by
  cases hs : Text.trimStart tail with
  | nil =>
    rw [readAddress.eq_def]
    simp only [hs]
  | cons c more =>
    obtain rfl := h c more hs
    exact readAddress_slash hs

theorem readAddress_next {fuel : Nat} {more : List Char} (h : Text.trimStart tail = c :: more)
    (hc : c ≠ ':') :
    readAddress (fuel + 1) acc ('/' :: tail) =
      (readSegment (Text.trimStart tail)).bind fun x => readAddress fuel (acc ++ [x.1]) x.2 := by
  rw [readAddress.eq_def]
  simp only [h]
  split
  · rename_i heq
    cases heq
  · rename_i heq
    cases heq
    exact absurd rfl hc
  · simp only [readSegment, readKey, readSign]
    cases readName ['=', ':', '/'] .addressType (c :: more) with
    | error e => rfl
    | ok key =>
      simp only [Except.bind]
      cases expect '=' key.2 with
      | error e => rfl
      | ok rest =>
        simp only [Except.map]
        cases readName ['/', ':'] .addressName rest <;> rfl

/-- With fuel for the characters that are left, an address takes a course. -/
theorem exists_readsAddress (fuel : Nat) (acc : List (String × String)) (cs : List Char)
    (hf : cs.length < fuel) : ∃ ss, ReadsAddress acc cs ss (readAddress fuel acc cs) := by
  induction fuel generalizing acc cs with
  | zero => exact absurd hf (Nat.not_lt_zero _)
  | succ fuel ih =>
    by_cases hslash : ∀ tail, cs ≠ '/' :: tail
    · rw [readAddress_done hslash]
      exact ⟨[], .done hslash⟩
    obtain ⟨tail, rfl⟩ := not_forall_not.mp hslash
    by_cases hend : ∀ c more, Text.trimStart tail = c :: more → c = ':'
    · rw [readAddress_end hend]
      exact ⟨_, .slash hend⟩
    obtain ⟨c, more, hs, hc⟩ : ∃ c more, Text.trimStart tail = c :: more ∧ c ≠ ':' := by
      simpa using hend
    rw [readAddress_next hs hc]
    obtain ⟨ss, hsegment⟩ := follows_segment.takes (Text.trimStart tail)
    cases hr : readSegment (Text.trimStart tail) with
    | error e => exact ⟨_, .badSegment hs hc (hr ▸ hsegment)⟩
    | ok x =>
      rw [hr] at hsegment
      have hmid := (follows_segment.proceeds hsegment).suffix.length_le
      have htail := (trimStart_suffix tail).length_le
      rw [left_ok] at hmid
      rw [List.length_cons] at hf
      obtain ⟨ts, hrest⟩ := ih (acc ++ [x.1]) x.2 (by omega)
      exact ⟨_, .segment hs hc hsegment hrest⟩

end

theorem follows_address (acc : List (String × String)) :
    Follows (ReadsAddress acc) fun cs => readAddress (cs.length + 1) acc cs where
  takes _ := exists_readsAddress _ _ _ (Nat.lt_succ_self _)
  unique := ReadsAddress.unique
  proceeds := ReadsAddress.proceeds

/-! ### commands -/

theorem fields_inj {r q : Reading Fields}
    (h : (r.map fun x => (Json.obj x.1, x.2)) = q.map fun x => (Json.obj x.1, x.2)) : r = q := by
  rcases r with e | ⟨x, rest⟩ <;> rcases q with e' | ⟨y, rest'⟩ <;> cases h <;> rfl

theorem follows_parameters : Follows ReadsParameters readOptionalParameters where
  takes cs := by
    rw [readOptionalParameters]
    split
    · rename_i tail hs
      obtain ⟨ss, hr⟩ := (suffices_all _).parts (.object ')' []) tail le_rfl
      exact ⟨_, .brackets hs hr⟩
    · rename_i hnone
      exact ⟨[], .none hnone⟩
  unique := by
    intro cs ss ts r q h h'
    cases h with
    | none h =>
      cases h' with
      | none => exact ⟨rfl, rfl⟩
      | brackets h' => exact absurd h' (h _)
    | brackets h hr =>
      cases h' with
      | none h' => exact absurd h (h' _)
      | brackets h' hr' =>
        obtain ⟨-, rfl⟩ := List.cons.inj (h.symm.trans h')
        obtain ⟨rfl, he⟩ := hr.unique hr'
        exact ⟨rfl, fields_inj he⟩
  proceeds := by
    intro cs ss r h
    cases h with
    | none => exact .nil (trimStart_suffix cs)
    | brackets h hr =>
      have hparts := hr.proceeds.1
      rw [left_map] at hparts
      exact hparts.token (tail_suffix h)

theorem follows_end (c : Command) : Follows (Ends c) (endWith c) where
  takes cs := ⟨[], rfl, rfl⟩
  unique := by
    rintro cs ss ts r q ⟨rfl, rfl⟩ ⟨rfl, rfl⟩
    exact ⟨rfl, rfl⟩
  proceeds := by
    rintro cs ss r ⟨rfl, rfl⟩
    refine .nil ?_
    rw [endWith]
    split
    · exact List.nil_suffix
    · exact trimStart_suffix cs

/-- Reading a command before which there are no blanks. -/
def readCommand (cs : List Char) : Reading Command :=
  (readAddress (cs.length + 1) [] cs).bind fun address =>
    (readSign ':' address.2).bind fun sign =>
      (readName ['('] .operationName sign.2).bind fun operation =>
        (readOptionalParameters operation.2).bind fun parameters =>
          endWith ⟨address.1, operation.1, parameters.1⟩ parameters.2

theorem follows_command : Follows ReadsCommand fun cs => readCommand (Text.trimStart cs) :=
  have h : Follows _ readCommand :=
    (follows_address []).then fun address => (follows_token (advances_readSign ':')).then fun _ =>
      (follows_token (advances_readName ['('] .operationName)).then fun operation =>
        follows_parameters.then fun parameters => follows_end ⟨address, operation, parameters⟩
  { takes := fun cs => h.takes (Text.trimStart cs)
    unique := h.unique
    proceeds := fun hr => (h.proceeds hr).of_suffix (trimStart_suffix _) }

/-- More fuel than a text has characters does not change the course of its address. -/
theorem read_eq (cs : List Char) :
    read cs = (readCommand (Text.trimStart cs)).map (·.1) := by
  obtain ⟨ss, hs⟩ := exists_readsAddress (cs.length + 1) [] _
    (Nat.lt_succ_of_le (trimStart_suffix cs).length_le)
  obtain ⟨ts, ht⟩ := (follows_address []).takes (Text.trimStart cs)
  rw [read, readCommand, (hs.unique ht).2]
  simp only [bind, Except.bind]
  cases readAddress ((Text.trimStart cs).length + 1) [] (Text.trimStart cs) with
  | error e => rfl
  | ok address =>
    simp only [readSign]
    cases expect ':' address.2 with
    | error e => rfl
    | ok rest =>
      simp only [Except.map]
      cases readName ['('] .operationName rest with
      | error e => rfl
      | ok operation =>
        dsimp only
        cases readOptionalParameters operation.2 with
        | error e => rfl
        | ok parameters =>
          simp only [endWith]
          cases Text.trimStart parameters.2 <;> rfl

theorem rest_of_readCommand {command : Command} (h : readCommand cs = .ok (command, rest)) :
    rest = [] := by
  obtain ⟨address, -, h⟩ := ok_of_bind h
  obtain ⟨sign, -, h⟩ := ok_of_bind h
  obtain ⟨operation, -, h⟩ := ok_of_bind h
  obtain ⟨parameters, -, h⟩ := ok_of_bind h
  rw [endWith] at h
  split at h
  · cases h
    rfl
  · cases h

/-- For every text there is exactly one course of reading it. Its stretches follow each other from
the first character to where reading stops, with no more tokens than there are characters, and the
parser answers what it comes to. -/
theorem parse_halts (text : String) :
    ∃ stretches outcome, ReadsCommand (Text.trim text.toList) stretches outcome ∧
      (∀ ss r, ReadsCommand (Text.trim text.toList) ss r → ss = stretches ∧ r = outcome) ∧
      Proceeds (Text.trim text.toList) stretches (left outcome) ∧
      stretches.countP (·.kind = .token) ≤ (Text.trim text.toList).length ∧
      Answers text outcome (parse text) := by
  obtain ⟨ss, hs⟩ := follows_command.takes (Text.trim text.toList)
  have hproceeds := follows_command.proceeds hs
  have htokens := Nat.le_of_add_right_le hproceeds.tokens_le
  refine ⟨ss, _, hs, fun ts r hr => follows_command.unique hr hs, hproceeds, htokens, ?_⟩
  have hsuffix := hproceeds.suffix
  rw [parse, read_eq]
  cases hr : readCommand (Text.trimStart (Text.trim text.toList)) with
  | ok x =>
    obtain ⟨command, rest⟩ := x
    obtain rfl := rest_of_readCommand hr
    exact .command command
  | error e =>
    rw [hr] at hsuffix
    exact .refusal (Nat.sub_le _ _) (List.suffix_iff_eq_drop.mp hsuffix).symm

end ServerRun.Command
