import Mathlib.Data.List.Forall2
import ServerRun.Proofs.Command.Reading
import ServerRun.Proofs.Text.Digit

/-! Writing a command. Every command of strings, truth values, whole numbers, lists and objects has
texts, in which each string stands in quotes or, where it can be told apart, bare. All of them are
texts of sources that stand for the command. -/

namespace ServerRun

variable {close : Char} {fs more : Fields} {name x : String}

/-! ### members -/

theorem Fields.insert_new {v : Json} (h : name ∉ fs.map (·.1)) :
    Fields.insert fs name v = fs ++ [(name, v)] := by
  induction fs with
  | nil => rfl
  | cons f fs ih =>
    rw [List.map_cons, List.mem_cons, not_or] at h
    rw [Fields.insert, if_neg (Ne.symm h.1), ih h.2, List.cons_append]

theorem Fields.notMem_of_nodup {f : String × Json} (h : ((fs ++ f :: more).map (·.1)).Nodup) :
    f.1 ∉ fs.map (·.1) := by
  intro hf
  rw [List.map_append, List.map_cons, List.nodup_append] at h
  exact h.2.2 _ hf _ List.mem_cons_self rfl

/-- Members with new names are added at the end. -/
theorem Fields.merge_new (h : ((fs ++ more).map (·.1)).Nodup) :
    Fields.merge fs more = fs ++ more := by
  induction more generalizing fs with
  | nil => simp [Fields.merge]
  | cons f more ih =>
    have hmore : ((fs ++ [f] ++ more).map (·.1)).Nodup := by simpa using h
    rw [Fields.merge, List.foldl_cons, Fields.insert_new (Fields.notMem_of_nodup h),
      ← Fields.merge, ih hmore, List.append_assoc, List.singleton_append]

namespace Command

/-! ### words -/

/-- The ways to write a text: in quotes, or bare where it may stand so. -/
def Word.Writes (stops openings : List Char) (x : String) (w : Word) : Prop :=
  w = .quote x ∨ w = .bare x.toList ∧ w.FitsBefore stops openings

theorem Word.quote_fits (stops openings : List Char) (x : String) :
    (Word.quote x).FitsBefore stops openings := by
  simp [Word.quote, Word.FitsBefore]

theorem Word.text_quote (x : String) : (Word.quote x).text = x := by
  simp [Word.quote, Word.text, Word.chars, Function.comp_def]

section

variable {stops openings : List Char} {w : Word}

theorem Word.Writes.fits (h : w.Writes stops openings x) : w.FitsBefore stops openings := by
  rcases h with rfl | ⟨-, h⟩
  · exact Word.quote_fits _ _ _
  · exact h

theorem Word.Writes.text (h : w.Writes stops openings x) : w.text = x := by
  rcases h with rfl | ⟨rfl, -⟩
  · exact Word.text_quote x
  · simp [Word.text, Word.chars]

end

/-- Whether a bare text is a string: it is neither a truth value nor a whole number. -/
def IsPlain (x : String) : Prop := x ≠ "true" ∧ x ≠ "false" ∧ Text.int? x.toList = none

theorem bareValue_of_isPlain (h : IsPlain x) : bareValue x.toList = .str x := by
  obtain ⟨htrue, hfalse, hint⟩ := h
  rw [bareValue, if_neg (mt String.toList_inj.mp htrue), if_neg (mt String.toList_inj.mp hfalse),
    hint, String.ofList_toList]

theorem bareValue_bool (b : Bool) : bareValue (toString b).toList = .bool b := by
  cases b <;> rfl

theorem bareValue_int (n : Int) : bareValue (toString n).toList = .int n := by
  have letter {c : Char} (hc : ¬ (c = '-' ∨ c.isDigit = true)) : c ∉ (toString n).toList :=
    fun h => hc (Text.mem_toString_int h)
  have htrue : (toString n).toList ≠ "true".toList := fun h =>
    letter (c := 't') (by decide) (by rw [h]; decide)
  have hfalse : (toString n).toList ≠ "false".toList := fun h =>
    letter (c := 'f') (by decide) (by rw [h]; decide)
  rw [bareValue, if_neg htrue, if_neg hfalse, Text.int?_toString]

/-- The closing brackets before which values are written. -/
abbrev closings : List Char := [']', '\x7d', ')']

/-- Letters, digits and signs may stand bare before any closing bracket. -/
theorem bare_fits {cs : List Char} (hc : close ∈ closings) (hne : cs ≠ [])
    (h : ∀ c ∈ cs, c = '-' ∨ c.isAlphanum = true) :
    (Word.bare cs).FitsBefore [',', close] valueOpenings := by
  have hblank : ∀ c ∈ cs, Text.isBlank c = false := by
    intro c hm
    rcases h c hm with rfl | hc
    · rfl
    · exact Text.isBlank_of_isAlphanum hc
  have hfree : ∀ c ∈ cs, c ∉ [',', close] ++ valueOpenings := by
    intro c hm hstop
    simp only [List.cons_append, List.nil_append, List.mem_cons, List.not_mem_nil, or_false]
      at hc hstop
    rcases h c hm with rfl | hd
    · rcases hc with rfl | rfl | rfl <;> simp at hstop
    · rcases hc with rfl | rfl | rfl <;>
        rcases hstop with rfl | rfl | rfl | rfl | rfl <;> exact absurd hd (by decide)
  refine ⟨hne, Text.trim_of_blankless hblank, fun c hm hstop => ?_, fun c hd hopen => ?_⟩
  · exact hfree c hm (List.mem_append_left _ hstop)
  · exact hfree c (List.mem_of_head? hd) (List.mem_append_right _ hopen)

end Command

open Command

/-! ### values -/

namespace Json

mutual

/-- The ways to write a value before a comma or a closing bracket. -/
def IsWrittenAs (close : Char) : Json → Item → Prop
  | .str x, i =>
    i = .word (.quote x) ∨ i = .word (.bare x.toList) ∧
      (Word.bare x.toList).FitsBefore [',', close] valueOpenings ∧ IsPlain x
  | .bool b, i => i = .word (.bare (toString b).toList)
  | .int n, i => i = .word (.bare (toString n).toList)
  | .arr xs, i => ∃ items, i = .list items false ∧ AreWrittenAs xs items
  | .obj fs, i => ∃ fields, i = .object fields false ∧ MembersAreWrittenAs '\x7d' fs fields
  | .null, _ => False
  | .float _, _ => False

def AreWrittenAs : List Json → List Item → Prop
  | [], items => items = []
  | x :: xs, items => ∃ i is, items = i :: is ∧ x.IsWrittenAs ']' i ∧ AreWrittenAs xs is

def MembersAreWrittenAs (close : Char) : List (String × Json) → List (Word × Item) → Prop
  | [], fields => fields = []
  | (name, v) :: fs, fields => ∃ w i rest, fields = (w, i) :: rest ∧
      w.Writes ['=', close] ['"'] name ∧ v.IsWrittenAs close i ∧ MembersAreWrittenAs close fs rest

end

mutual

/-- A value of strings, truth values, whole numbers, lists and objects, the members of each object
having different names. -/
def IsWritable : Json → Prop
  | .str _ => True
  | .bool _ => True
  | .int _ => True
  | .arr xs => AreWritable xs
  | .obj fs => (fs.map (·.1)).Nodup ∧ MembersAreWritable fs
  | .null => False
  | .float _ => False

def AreWritable : List Json → Prop
  | [] => True
  | x :: xs => x.IsWritable ∧ AreWritable xs

def MembersAreWritable : List (String × Json) → Prop
  | [] => True
  | (_, v) :: fs => v.IsWritable ∧ MembersAreWritable fs

end

mutual

theorem exists_isWrittenAs (v : Json) (close : Char) (hv : v.IsWritable) :
    ∃ i, v.IsWrittenAs close i := by
  cases v with
  | str x => exact ⟨_, .inl rfl⟩
  | bool b => exact ⟨_, rfl⟩
  | int n => exact ⟨_, rfl⟩
  | arr xs =>
    obtain ⟨items, h⟩ := exists_areWrittenAs xs hv
    exact ⟨_, items, rfl, h⟩
  | obj fs =>
    obtain ⟨fields, h⟩ := exists_membersAreWrittenAs fs '\x7d' hv.2
    exact ⟨_, fields, rfl, h⟩
  | null => exact hv.elim
  | float _ => exact hv.elim

theorem exists_areWrittenAs (xs : List Json) (hv : AreWritable xs) :
    ∃ items, AreWrittenAs xs items := by
  cases xs with
  | nil => exact ⟨[], rfl⟩
  | cons x xs =>
    obtain ⟨i, hi⟩ := exists_isWrittenAs x ']' hv.1
    obtain ⟨is, his⟩ := exists_areWrittenAs xs hv.2
    exact ⟨_, i, is, rfl, hi, his⟩

theorem exists_membersAreWrittenAs (fs : List (String × Json)) (close : Char)
    (hv : MembersAreWritable fs) : ∃ fields, MembersAreWrittenAs close fs fields := by
  cases fs with
  | nil => exact ⟨[], rfl⟩
  | cons f fs =>
    obtain ⟨name, v⟩ := f
    obtain ⟨i, hi⟩ := exists_isWrittenAs v close hv.1
    obtain ⟨fields, hfields⟩ := exists_membersAreWrittenAs fs close hv.2
    exact ⟨_, .quote name, i, fields, rfl, .inl rfl, hi, hfields⟩

end

mutual

/-- A written value may stand where it is written and stands for the value. -/
theorem IsWrittenAs.item (v : Json) {close : Char} {i : Item} (hc : close ∈ closings)
    (hv : v.IsWritable) (h : v.IsWrittenAs close i) :
    i.FitsBefore [',', close] ∧ i.value = v := by
  cases v with
  | str x =>
    rcases h with rfl | ⟨rfl, hfits, hplain⟩
    · exact ⟨Word.quote_fits [',', close] valueOpenings x, congrArg Json.str (Word.text_quote x)⟩
    · exact ⟨hfits, bareValue_of_isPlain hplain⟩
  | bool b =>
    obtain rfl := h
    have hletters : (toString b).toList.all Char.isAlphanum = true := by cases b <;> rfl
    refine ⟨bare_fits hc ?_ fun c hm => .inr (List.all_eq_true.mp hletters c hm), bareValue_bool b⟩
    cases b <;> decide
  | int n =>
    obtain rfl := h
    refine ⟨bare_fits hc (Text.toString_int_ne_nil n) fun c hm => ?_, bareValue_int n⟩
    exact (Text.mem_toString_int hm).imp_right fun hd => by simp [Char.isAlphanum, hd]
  | arr xs =>
    obtain ⟨items, rfl, h⟩ := h
    obtain ⟨hfit, hvalues⟩ := AreWrittenAs.items xs hv h
    exact ⟨⟨hfit, by simp⟩, congrArg Json.arr hvalues⟩
  | obj fs =>
    obtain ⟨fields, rfl, h⟩ := h
    obtain ⟨hfit, hvalues⟩ := MembersAreWrittenAs.fields fs (by simp) hv.2 h
    exact ⟨⟨hfit, by simp⟩, congrArg Json.obj (by simpa using hvalues [] (by simpa using hv.1))⟩
  | null => exact h.elim
  | float _ => exact h.elim

theorem AreWrittenAs.items (xs : List Json) {items : List Item} (hv : AreWritable xs)
    (h : AreWrittenAs xs items) : Item.ItemsFit items ∧ Item.values items = xs := by
  cases xs with
  | nil =>
    obtain rfl := h
    exact ⟨trivial, rfl⟩
  | cons x xs =>
    obtain ⟨i, is, rfl, hi, his⟩ := h
    obtain ⟨hfit, hvalue⟩ := IsWrittenAs.item x (by simp) hv.1 hi
    obtain ⟨hfits, hvalues⟩ := AreWrittenAs.items xs hv.2 his
    exact ⟨⟨hfit, hfits⟩, by rw [Item.values, hvalue, hvalues]⟩

theorem MembersAreWrittenAs.fields (fs : List (String × Json)) {close : Char}
    {fields : List (Word × Item)} (hc : close ∈ closings) (hv : MembersAreWritable fs)
    (h : MembersAreWrittenAs close fs fields) :
    Item.FieldsFit close fields ∧
      ∀ acc, ((acc ++ fs).map (·.1)).Nodup → Item.valueFields acc fields = acc ++ fs := by
  cases fs with
  | nil =>
    obtain rfl := h
    exact ⟨trivial, fun acc _ => by simp [Item.valueFields]⟩
  | cons f fs =>
    obtain ⟨name, v⟩ := f
    obtain ⟨w, i, rest, rfl, hw, hi, hrest⟩ := h
    obtain ⟨hfit, hvalue⟩ := IsWrittenAs.item v hc hv.1 hi
    obtain ⟨hfits, hvalues⟩ := MembersAreWrittenAs.fields fs hc hv.2 hrest
    refine ⟨⟨hw.fits, hfit, hfits⟩, fun acc hn => ?_⟩
    have hrest : ((acc ++ [(name, v)] ++ fs).map (·.1)).Nodup := by simpa using hn
    rw [Item.valueFields, hw.text, hvalue, Fields.insert_new (Fields.notMem_of_nodup hn),
      hvalues _ hrest, List.append_assoc, List.singleton_append]

end

end Json

namespace Command

/-! ### commands -/

/-- A command that texts can be written for: no two parameters have one name, none has the name of
another entry of the request, and the values can be written. -/
structure IsWritable (c : Command) : Prop where
  names : (c.parameters.map (·.1)).Nodup
  operation : "operation" ∉ c.parameters.map (·.1)
  address : "address" ∉ c.parameters.map (·.1)
  values : Json.MembersAreWritable c.parameters

/-- The ways to write a segment of an address. -/
def SegmentIsWrittenAs (p : String × String) (w : Word × Word) : Prop :=
  w.1.Writes ['=', ':', '/'] ['"'] p.1 ∧ w.2.Writes ['/', ':'] ['"'] p.2

/-- The ways to write a command. Brackets may be left out if there are no parameters. -/
structure IsWrittenAs (c : Command) (s : Source) : Prop where
  address : List.Forall₂ SegmentIsWrittenAs c.address s.address
  slash : s.slash = false
  operation : s.operation.Writes ['('] ['"'] c.operation
  parameters : (c.parameters = [] ∧ s.parameters = none) ∨
    ∃ fields, s.parameters = some (fields, false) ∧
      Json.MembersAreWrittenAs ')' c.parameters fields

/-- A text of a command: the tokens of one of its sources, without blanks between them. -/
def IsText (c : Command) (text : String) : Prop :=
  ∃ s, c.IsWrittenAs s ∧ text = String.ofList s.tokens.flatten

variable {c : Command} {s : Source}

theorem exists_isWrittenAs (h : c.IsWritable) : ∃ s, c.IsWrittenAs s := by
  obtain ⟨fields, hfields⟩ := Json.exists_membersAreWrittenAs c.parameters ')' h.values
  let source : Source :=
    { address := c.address.map fun p => (.quote p.1, .quote p.2)
      operation := .quote c.operation
      parameters := some (fields, false) }
  have haddress : List.Forall₂ SegmentIsWrittenAs c.address source.address := by
    rw [List.forall₂_map_right_iff, List.forall₂_same]
    exact fun p _ => ⟨.inl rfl, .inl rfl⟩
  exact ⟨source, haddress, rfl, .inl rfl, .inr ⟨fields, rfl, hfields⟩⟩

theorem segments_of_written {segments : List (String × String)} {address : List (Word × Word)}
    (h : List.Forall₂ SegmentIsWrittenAs segments address) :
    (∀ p ∈ address, p.1.IsName ['=', ':', '/'] ∧ p.2.IsName ['/', ':']) ∧
      address.map (fun p => (p.1.text, p.2.text)) = segments := by
  induction h with
  | nil => exact ⟨by simp, rfl⟩
  | cons hp _ ih =>
    obtain ⟨hkey, hname⟩ := hp
    refine ⟨List.forall_mem_cons.mpr ⟨⟨hkey.fits, hname.fits⟩, ih.1⟩, ?_⟩
    rw [List.map_cons, hkey.text, hname.text, ih.2]

/-- A written command may stand so and stands for the command. -/
theorem IsWrittenAs.source (h : c.IsWrittenAs s) (hc : c.IsWritable) :
    s.IsValid ∧ s.command = c := by
  obtain ⟨hnames, hsegments⟩ := segments_of_written h.address
  have hparameters : (∀ p, s.parameters = some p →
      Item.FieldsFit ')' p.1 ∧ (p.2 = true → p.1 ≠ [])) ∧ s.command.parameters = c.parameters := by
    rcases h.parameters with ⟨hnil, hp⟩ | ⟨fields, hp, hfields⟩
    · simp [Source.command, hp, hnil]
    · obtain ⟨hfit, hvalues⟩ :=
        Json.MembersAreWrittenAs.fields c.parameters (by simp) hc.values hfields
      refine ⟨fun p hs => ?_, ?_⟩
      · obtain rfl : (fields, false) = p := Option.some.inj (hp.symm.trans hs)
        exact ⟨hfit, by simp⟩
      · simpa [Source.command, hp] using hvalues [] hc.names
  refine ⟨⟨fun p hp => (hnames p hp).1, fun p hp => (hnames p hp).2, h.operation.fits,
    hparameters.1⟩, ?_⟩
  have haddress : s.command.address = c.address := hsegments
  have hoperation : s.command.operation = c.operation := h.operation.text
  calc s.command = ⟨s.command.address, s.command.operation, s.command.parameters⟩ := rfl
    _ = c := by rw [haddress, hoperation, hparameters.2]

theorem request_of_isWritable (h : c.IsWritable) :
    c.request = ("operation", .str c.operation) :: ("address", .arr (c.address.map segment)) ::
      c.parameters := by
  refine Fields.merge_new ?_
  rw [List.map_append, List.map_cons, List.map_cons, List.map_nil, List.cons_append,
    List.cons_append, List.nil_append, List.nodup_cons, List.nodup_cons, List.mem_cons, not_or]
  exact ⟨⟨by simp, h.operation⟩, h.address, h.names⟩

/-- A command with nested parameters, the texts of which need quotes in some places only. -/
def levelChange : Command :=
  { address := [("subsystem", "log ging"), ("a=b", "c\"d")]
    operation := "write-attribute"
    parameters := [("name", .str "1"),
      ("steps", .arr [.int (-20), .bool true, .obj [("operation", .str "[x]"), ("k", .arr [])]])] }

def levelChangeText : String :=
  "/subsystem=log ging/\"a=b\"=c\"d:write-attribute(\"name\"=\"1\"," ++
    "steps=[-20,true,\x7boperation=\"[x]\",k=[]\x7d])"

theorem levelChange_isWritable : levelChange.IsWritable where
  names := by decide
  operation := by decide
  address := by decide
  values := by simp [levelChange, Json.MembersAreWritable, Json.IsWritable, Json.AreWritable]

theorem levelChange_isText : levelChange.IsText levelChangeText := by
  let source : Source :=
    { address := [(.bare "subsystem".toList, .bare "log ging".toList),
        (.quote "a=b", .bare "c\"d".toList)]
      operation := .bare "write-attribute".toList
      parameters := some ([(.quote "name", .word (.quote "1")),
        (.bare "steps".toList, .list [.word (.bare "-20".toList), .word (.bare "true".toList),
          .object [(.bare "operation".toList, .word (.quote "[x]")),
            (.bare "k".toList, .list [] false)] false] false)], false) }
  have haddress : List.Forall₂ SegmentIsWrittenAs levelChange.address source.address := by
    refine .cons ⟨.inr ⟨rfl, ?_⟩, .inr ⟨rfl, ?_⟩⟩ (.cons ⟨.inl rfl, .inr ⟨rfl, ?_⟩⟩ .nil)
    all_goals exact ⟨by decide, by decide, by simp, by simp⟩
  have hoperation : source.operation.Writes ['('] ['"'] levelChange.operation :=
    .inr ⟨rfl, by decide, by decide, by simp, by simp⟩
  have hparameters : ∃ fields, source.parameters = some (fields, false) ∧
      Json.MembersAreWrittenAs ')' levelChange.parameters fields := by
    refine ⟨_, rfl, _, _, _, rfl, .inl rfl, .inl rfl, _, _, _, rfl, .inr ⟨rfl, ?_⟩, ⟨_, rfl, ?_⟩,
      rfl⟩
    · exact ⟨by decide, by decide, by simp, by simp⟩
    · refine ⟨_, _, rfl, rfl, _, _, rfl, rfl, _, _, rfl, ⟨_, rfl, ?_⟩, rfl⟩
      refine ⟨_, _, _, rfl, .inr ⟨rfl, ?_⟩, .inl rfl, _, _, _, rfl, .inr ⟨rfl, ?_⟩, ⟨_, rfl, rfl⟩,
        rfl⟩
      all_goals exact ⟨by decide, by decide, by simp, by simp⟩
  exact ⟨source, ⟨haddress, rfl, hoperation, .inr hparameters⟩, by decide⟩

end Command

end ServerRun
