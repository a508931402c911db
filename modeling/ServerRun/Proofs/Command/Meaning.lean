import ServerRun.Command.Meaning
import ServerRun.Proofs.Command.Spacing
import ServerRun.Proofs.Command.Writing
import ServerRun.Proofs.Fields

/-! What a request says. The request of a command that is read says what is written in the text: its
values are what they look like, and a parameter that is written last under its name is there. So is
a parameter named like the operation or the address, in the place of what is written there. -/

namespace ServerRun

variable {fs more : Fields} {name : String}

namespace Command

variable {i : Item} {fields : List (Word × Item)} {acc : Fields} {text : String} {c : Command}
  {s : Source}

theorem lastNamed?_cons (f : Word × Item) (fields : List (Word × Item)) (name : String) :
    lastNamed? (f :: fields) name =
      (lastNamed? fields name).or (if f.1.text = name then some f.2 else none) := by
  rw [lastNamed?, lastNamed?, List.reverse_cons, List.find?_append, Option.map_or]
  by_cases h : f.1.text = name <;> simp [h]

/-- Of the parts with one name the last one counts. -/
theorem get?_valueFields (fields : List (Word × Item)) (acc : Fields) (name : String) :
    Fields.get? (Item.valueFields acc fields) name =
      ((lastNamed? fields name).map Item.value).or (Fields.get? acc name) := by
  induction fields generalizing acc with
  | nil => simp [Item.valueFields, lastNamed?]
  | cons f fields ih =>
    obtain ⟨w, i⟩ := f
    rw [Item.valueFields, ih, Fields.get?_insert, lastNamed?_cons, Option.map_or]
    cases lastNamed? fields name with
    | none => split <;> simp [*]
    | some j => rfl

theorem nodup_valueFields (h : (acc.map (·.1)).Nodup) (fields : List (Word × Item)) :
    ((Item.valueFields acc fields).map (·.1)).Nodup := by
  induction fields generalizing acc with
  | nil => simpa [Item.valueFields] using h
  | cons f fields ih =>
    obtain ⟨w, i⟩ := f
    rw [Item.valueFields]
    exact ih (Fields.nodup_insert h i.value)

/-! ### values -/

theorem bareMeans_of_int? {word : List Char} {n : Int} (h : Text.int? word = some n) :
    BareMeans word (.int n) := by
  unfold Text.int? at h
  split at h
  · split at h <;> cases h
    rename_i hd
    exact .minus hd.1 (List.all_eq_true.mp hd.2)
  · split at h <;> cases h
    rename_i hd
    exact .digits hd.1 (List.all_eq_true.mp hd.2)

theorem ne_digits_of_int? {word ds : List Char} (h : Text.int? word = none) (hne : ds ≠ [])
    (hd : ∀ c ∈ ds, Text.isDigit c = true) : word ≠ ds ∧ word ≠ '-' :: ds := by
  have hdigits : ds ≠ [] ∧ ds.all Text.isDigit := ⟨hne, List.all_eq_true.mpr hd⟩
  constructor
  · rintro rfl
    unfold Text.int? at h
    split at h
    · exact absurd (hd '-' List.mem_cons_self) (by decide)
    · simp [hdigits] at h
  · rintro rfl
    simp [Text.int?, hdigits] at h

theorem bareMeans_bareValue (word : List Char) : BareMeans word (bareValue word) := by
  rw [bareValue]
  split
  · rename_i h
    exact h ▸ .true
  · rename_i htrue
    split
    · rename_i h
      exact h ▸ .false
    · rename_i hfalse
      cases hint : Text.int? word with
      | some n => exact bareMeans_of_int? hint
      | none => exact .text htrue hfalse fun ds => ne_digits_of_int? hint

mutual

theorem means_value (i : Item) : i.Means i.value := by
  cases i with
  | word w =>
    cases w with
    | quoted chars =>
      rw [Item.value]
      exact .quoted chars
    | bare word =>
      rw [Item.value]
      exact .bare (bareMeans_bareValue word)
  | list items comma =>
    rw [Item.value]
    exact .list comma (means_values items)
  | object fields comma =>
    rw [Item.value]
    refine .object comma (nodup_valueFields (by simp) fields) fun name => ?_
    rw [get?_valueFields, Fields.get?_nil, Option.or_none]
    cases hlast : lastNamed? fields name with
    | none => exact .none
    | some i => exact .some (means_lastNamed fields hlast)

theorem means_values (items : List Item) : List.Forall₂ Item.Means items (Item.values items) := by
  cases items with
  | nil =>
    rw [Item.values]
    exact .nil
  | cons i is =>
    rw [Item.values]
    exact .cons (means_value i) (means_values is)

theorem means_lastNamed (fields : List (Word × Item)) {name : String} {i : Item}
    (h : lastNamed? fields name = some i) : i.Means i.value := by
  cases fields with
  | nil => cases h
  | cons f fields =>
    obtain ⟨w, j⟩ := f
    rw [lastNamed?_cons, Option.or_eq_some_iff] at h
    rcases h with h | ⟨-, h⟩
    · exact means_lastNamed fields h
    · split at h <;> cases h
      exact means_value j

end

/-! ### requests -/

theorem Source.parameters_eq (s : Source) :
    s.command.parameters = Item.valueFields [] s.fields := by
  rw [Source.command, Source.fields]
  cases s.parameters <;> rfl

theorem Source.request_eq (s : Source) :
    s.command.request = Fields.merge s.entries (Item.valueFields [] s.fields) := by
  rw [request, Source.parameters_eq]
  simp [Source.command, Source.entries, segment, Function.comp_def]

theorem Source.get?_request (s : Source) (name : String) :
    Fields.get? s.command.request name =
      ((lastNamed? s.fields name).map Item.value).or (Fields.get? s.entries name) := by
  have hnodup : ((Item.valueFields [] s.fields).map (·.1)).Nodup :=
    nodup_valueFields (by simp) s.fields
  rw [Source.request_eq, Fields.get?_merge hnodup, get?_valueFields, Fields.get?_nil,
    Option.or_none]

theorem Source.means_request (s : Source) : s.Means s.command.request where
  nodup := s.request_eq ▸ Fields.nodup_merge (by simp [Source.entries]) _
  parameter {name i} h := ⟨i.value, by rw [s.get?_request, h]; rfl, means_value i⟩
  entry {name} h := by rw [s.get?_request, h]; rfl

/-- A text that is read is made of the tokens of a source, and the request says what is written
there. -/
theorem exists_source_of_parse (h : parse text = .ok c) :
    ∃ s : Source, s.IsValid ∧ Spread s.tokens (Text.trim text.toList) ∧ s.command = c ∧
      s.Means c.request := by
  obtain ⟨s, hs, hspread, rfl⟩ := exists_of_parse h
  exact ⟨s, hs, hspread, rfl, s.means_request⟩

theorem exists_source_levelChange :
    parse levelChangeText = .ok levelChange ∧
      ∃ s : Source, s.IsValid ∧ Spread s.tokens (Text.trim levelChangeText.toList) ∧
        s.command = levelChange ∧ s.Means levelChange.request := by
  have hparse : parse levelChangeText = .ok levelChange := by
    obtain ⟨s, hs, htext⟩ := levelChange_isText
    obtain ⟨hvalid, hcommand⟩ := hs.source levelChange_isWritable
    rw [htext, parse_tokens hvalid, hcommand]
  exact ⟨hparse, exists_source_of_parse hparse⟩

/-- An entry stays as it is written if no parameter replaces it, or one does that is the same. -/
theorem Source.get?_request_iff (s : Source) (name : String) {v : Json}
    (he : Fields.get? s.entries name = some v) :
    Fields.get? s.command.request name = some v ↔
      ∀ i, lastNamed? s.fields name = some i → i.value = v := by
  rw [s.get?_request, he]
  cases lastNamed? s.fields name with
  | none => simp
  | some i => simp

theorem Source.isAskedBy_request_iff (s : Source) :
    s.IsAskedBy s.command.request ↔
      ∀ entry ∈ s.entries, ∀ i, lastNamed? s.fields entry.1 = some i → i.value = entry.2 := by
  have hoperation := s.get?_request_iff "operation" rfl
  have haddress := s.get?_request_iff "address" rfl
  rw [Source.entries, List.forall_mem_cons, List.forall_mem_singleton]
  exact ⟨fun h => ⟨hoperation.mp h.operation, haddress.mp h.address⟩,
    fun h => ⟨hoperation.mpr h.1, haddress.mpr h.2⟩⟩

/-- The request of a text that is read asks for the operation and the address that are written there
exactly if no parameter that is the last one with the name of one of the two is anything else. -/
theorem isAskedBy_iff (h : parse text = .ok c) :
    (∃ s : Source, s.IsValid ∧ Spread s.tokens (Text.trim text.toList)) ∧
      ∀ s : Source, s.IsValid → Spread s.tokens (Text.trim text.toList) →
        (s.IsAskedBy c.request ↔
          ∀ entry ∈ s.entries, ∀ i, lastNamed? s.fields entry.1 = some i → i.value = entry.2) := by
  constructor
  · obtain ⟨s, hs, hspread, -⟩ := exists_of_parse h
    exact ⟨s, hs, hspread⟩
  · intro s hs hspread
    obtain rfl := command_of_parse_tokens hs hspread.of_trim h
    exact s.isAskedBy_request_iff

/-- A command with a parameter of the name of the operation. -/
def readWith (value : List Char) : Source :=
  { operation := .bare "read-resource".toList
    parameters := some ([(.bare "operation".toList, .word (.bare value))], false) }

theorem readWith_isValid {value : List Char}
    (hvalue : (Word.bare value).FitsBefore [',', ')'] valueOpenings) :
    (readWith value).IsValid where
  types := by simp [readWith]
  names := by simp [readWith]
  operation := ⟨by decide, by decide, by simp, by simp⟩
  parameters := by
    have hname : (Word.bare "operation".toList).IsName ['=', ')'] :=
      ⟨by decide, by decide, by simp, by simp⟩
    rintro _ ⟨⟩
    exact ⟨⟨hname, hvalue, trivial⟩, by simp⟩

theorem parse_readWith {text : String} {value : List Char} (hs : (readWith value).IsValid)
    (htext : text = String.ofList (readWith value).tokens.flatten) :
    parse text = .ok (readWith value).command ∧
      Spread (readWith value).tokens (Text.trim text.toList) := by
  subst htext
  refine ⟨parse_tokens hs, spread_trim hs ?_⟩
  rw [String.toList_ofList]
  exact spread_flatten _

theorem readWith_same_isValid : (readWith "read-resource".toList).IsValid :=
  readWith_isValid ⟨by decide, by decide, by simp, by simp⟩

theorem readWith_remove_isValid : (readWith "remove".toList).IsValid :=
  readWith_isValid ⟨by decide, by decide, by simp, by simp⟩

theorem isAskedBy_readWith_same :
    parse ":read-resource(operation=read-resource)" =
        .ok (readWith "read-resource".toList).command ∧
      (readWith "read-resource".toList).IsAskedBy
        (readWith "read-resource".toList).command.request := by
  have hs := readWith_same_isValid
  obtain ⟨hparse, hspread⟩ := parse_readWith hs
    (show ":read-resource(operation=read-resource)" = _ by decide +kernel)
  have hsame : ∀ i, lastNamed? (readWith "read-resource".toList).fields "operation" = some i →
      i.value = .str (readWith "read-resource".toList).operation.text := by
    rintro _ ⟨⟩
    rfl
  have hnone : ∀ i, lastNamed? (readWith "read-resource".toList).fields "address" = some i →
      i.value = .arr [] := by
    rintro _ ⟨⟩
  refine ⟨hparse, ((isAskedBy_iff hparse).2 _ hs hspread).mpr ?_⟩
  exact List.forall_mem_cons.mpr ⟨hsame, List.forall_mem_singleton.mpr hnone⟩

/-- A parameter of the name of the operation replaces the operation that is written. -/
theorem not_isAskedBy_readWith_remove :
    ¬ ∀ (text : String) (c : Command) (s : Source), parse text = .ok c → s.IsValid →
      Spread s.tokens (Text.trim text.toList) → s.IsAskedBy c.request := by
  intro h
  have hs := readWith_remove_isValid
  obtain ⟨hparse, hspread⟩ := parse_readWith hs
    (show ":read-resource(operation=remove)" = _ by decide +kernel)
  have hasked := (h _ _ _ hparse hs hspread).operation
  have hreplaced : Fields.get? (readWith "remove".toList).command.request "operation" =
      some (.str "remove") := rfl
  have hsame := Json.str.inj (Option.some.inj (hasked.symm.trans hreplaced))
  exact absurd hsame (by decide)

end Command

end ServerRun
