import ServerRun.Proofs.Failure
import ServerRun.Settings.Variables

/-! What single variables say: the variable of a field, the variable of a key of a record, and the
value that the two give to the field. -/

namespace ServerRun.Settings

namespace Variables

variable {vars : Variables} {field part text : String} {form : Form}

/-- The text of the variable of a field. -/
def text? (vars : Variables) (field : String) : Option String :=
  (Fields.get? vars (variableStart ++ field)).join

/-- The members of the object that the variable of a record holds; without the variable there are
none of them, and a value of another kind has no members at all. -/
def members? (vars : Variables) (field : String) : Option (List (Datum × Datum)) :=
  match vars.text? field with
  | none => some []
  | some text =>
    match Json.parse? text with
    | some (.obj fs) => some (Datum.ofJsonFields fs)
    | _ => none

/-- The name of the variable of a key of a record. -/
def nestedName (field part : String) : String := variableStart ++ field ++ "__" ++ part

/-! ### names -/

theorem splitNested_ne_nil (cs : List Char) : splitNested cs ≠ [] := by
  unfold splitNested
  repeat' split
  all_goals simp

theorem eq_of_splitNested {cs p : List Char} (h : splitNested cs = [p]) : p = cs := by
  fun_induction splitNested cs generalizing p with
  | case1 => simpa using h.symm
  | case2 cs ih => exact absurd (List.cons.inj h).2 (splitNested_ne_nil cs)
  | case3 c cs hsep q qs hqs ih =>
    obtain ⟨rfl, rfl⟩ := List.cons.inj h
    rw [ih hqs]
  | case4 c cs hsep hnil ih => exact absurd hnil (splitNested_ne_nil cs)

/-- The parts of the name of a nested variable, if there is one part. -/
theorem parts_eq_singleton {name : List Char}
    (h : (splitNested name).map String.ofList = [part]) : name = part.toList := by
  obtain ⟨p, hp, rfl⟩ := List.map_eq_singleton_iff.mp h
  rw [← eq_of_splitNested hp, String.toList_ofList]

theorem toList_nestedName (field part : String) :
    (nestedName field part).toList = (variableStart ++ field ++ "__").toList ++ part.toList := by
  rw [nestedName, String.toList_append]

theorem eq_nestedName {name : String}
    (h : (variableStart ++ field ++ "__").toList <+: name.toList)
    (hrest : name.toList.drop (variableStart ++ field ++ "__").toList.length = part.toList) :
    name = nestedName field part := by
  obtain ⟨rest, hrest'⟩ := h
  rw [← hrest', List.drop_left] at hrest
  rw [← String.toList_inj, toList_nestedName, ← hrest', hrest]

theorem putVariable_nestedName (field part : String) (form : Form) (es : List (Datum × Datum))
    (value : Option String) :
    putVariable field form es (nestedName field part, value) =
      (nestedValue form ((splitNested part.toList).map String.ofList) value).map fun d =>
        putNested d ((splitNested part.toList).map String.ofList) es := by
  have hprefix : (variableStart ++ field ++ "__").toList.isPrefixOf
      (nestedName field part).toList = true := by
    rw [List.isPrefixOf_iff_prefix, toList_nestedName]
    exact List.prefix_append _ _
  unfold putVariable
  dsimp only
  rw [if_pos hprefix, toList_nestedName, List.drop_left]

/-! ### the value of a field -/

theorem fieldValue_plain (vars : Variables) (field : String) :
    fieldValue vars field .plain = .ok ((vars.text? field).map .str) :=
  rfl

theorem fieldValue_of_none (hform : form ≠ .plain) (h : vars.text? field = none) :
    fieldValue vars field form = (nested vars field form).map fun
      | [] => none
      | e :: es => some (.map (respell form (e :: es))) := by
  unfold text? at h
  cases form with
  | plain => exact absurd rfl hform
  | list =>
    simp only [fieldValue, h]
    rcases nested vars field .list with f | (_ | ⟨e, es⟩) <;> rfl
  | batch =>
    simp only [fieldValue, h]
    rcases nested vars field .batch with f | (_ | ⟨e, es⟩) <;> rfl

theorem fieldValue_of_some {text : String} (hform : form ≠ .plain)
    (h : vars.text? field = some text) :
    fieldValue vars field form =
      match Json.parse? text with
      | none => .error .malformedSetting
      | some .null => .ok none
      | some (.obj fs) => (nested vars field form).map fun more =>
          some (.map (respell form (Datum.layEntries (Datum.ofJsonFields fs) more)))
      | some j => .ok (some (Datum.ofJson j)) := by
  unfold text? at h
  cases form with
  | plain => exact absurd rfl hform
  | list =>
    simp only [fieldValue, h, ofJsonText]
    rcases Json.parse? text with _ | (_ | _ | _ | _ | _ | _ | fs) <;> rfl
  | batch =>
    simp only [fieldValue, h, ofJsonText]
    rcases Json.parse? text with _ | (_ | _ | _ | _ | _ | _ | fs) <;> rfl

end Variables

end ServerRun.Settings
