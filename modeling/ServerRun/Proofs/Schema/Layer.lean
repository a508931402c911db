import ServerRun.Schema.Basic

/-! Entries laid over one another. The value of a key is the one above, or a mapping where that one
is a mapping; a key that is not above keeps its value. -/

namespace ServerRun.Datum

variable {bs es : List (Datum × Datum)} {e : Datum × Datum} {key name : String} {k v d : Datum}
  {shown? value? above? below? top? : Option Datum}

/-- The value of the last entry with a key. -/
def valueAt? (es : List (Datum × Datum)) (key : String) : Option Datum :=
  Schema.valueOf? (textEntries es) key

/-- The keys of entries that are texts. -/
def textKeys (es : List (Datum × Datum)) : List String := es.filterMap fun e => e.1.text?

/-- No text is the key of two entries. -/
def Distinct (es : List (Datum × Datum)) : Prop := (textKeys es).Nodup

/-- A value shows another one where it is not a mapping. -/
def Shows (shown? value? : Option Datum) : Prop :=
  shown? = value? ∨ ∃ es, shown? = some (.map es)

theorem Shows.refl (value? : Option Datum) : Shows value? value? := .inl rfl

theorem Shows.or_none (value? : Option Datum) : Shows value? (value?.or none) :=
  .inl Option.or_none.symm

theorem Shows.of_map (es : List (Datum × Datum)) (value? : Option Datum) :
    Shows (some (.map es)) value? :=
  .inr ⟨es, rfl⟩

/-- What shows the first of two values shows the first of the values that they show. -/
theorem Shows.or {above?' below?' : Option Datum} (h : Shows shown? (above?.or below?))
    (habove : Shows above? above?') (hbelow : Shows below? below?') :
    Shows shown? (above?'.or below?') := by
  rcases h with rfl | h
  · rcases habove with rfl | ⟨es, rfl⟩
    · cases above? with
      | none => simpa using hbelow
      | some d => exact .refl _
    · exact .of_map es _
  · exact .inr h

/-- The value of a field in two layers. -/
def lay? : Option Datum → Option Datum → Option Datum
  | some v, some o => some (layOn o v)
  | some v, none => some v
  | none, below? => below?

theorem exists_layOn_map (o : Datum) (es : List (Datum × Datum)) :
    ∃ ms, layOn o (.map es) = .map ms := by
  cases o <;> exact ⟨_, rfl⟩

theorem shows_lay? (top? below? : Option Datum) : Shows (lay? top? below?) (top?.or below?) := by
  cases top? with
  | none => exact .refl _
  | some v =>
    cases below? with
    | none => exact .refl _
    | some o =>
      cases v with
      | map es =>
        obtain ⟨ms, hms⟩ := exists_layOn_map o es
        rw [lay?, hms]
        exact .of_map ms _
      | _ => exact .refl _

/-! ### one entry -/

/-- Whether an entry has a key. -/
def hasKey (key : String) (e : Datum × Datum) : Bool := e.1.text? == some key

@[simp] theorem hasKey_iff : hasKey key e = true ↔ e.1.text? = some key := beq_iff_eq

theorem hasKey_eq_false : hasKey key e = false ↔ e.1.text? ≠ some key := beq_eq_false_iff_ne

theorem get?_textEntries (es : List (Datum × Datum)) (key : String) :
    Fields.get? (textEntries es) key = (es.find? (hasKey key)).map (·.2) := by
  induction es with
  | nil => rfl
  | cons e es ih =>
    rw [textEntries, List.filterMap_cons]
    cases hkey : e.1.text? with
    | none =>
      rw [List.find?_cons_of_neg (by simp [hkey])]
      exact ih
    | some name =>
      dsimp only [Option.map_some]
      rw [Fields.get?_cons, List.find?_cons]
      by_cases hname : name = key
      · rw [if_pos hname, hasKey_iff.mpr (hname ▸ hkey)]
        rfl
      · rw [if_neg hname, hasKey_eq_false.mpr (by simpa [hkey] using hname)]
        exact ih

theorem valueAt?_eq (es : List (Datum × Datum)) (key : String) :
    valueAt? es key = (es.reverse.find? (hasKey key)).map (·.2) := by
  rw [valueAt?, Schema.valueOf?, textEntries, ← List.filterMap_reverse]
  exact get?_textEntries es.reverse key

theorem valueAt?_append_singleton (es : List (Datum × Datum)) (e : Datum × Datum) (key : String) :
    valueAt? (es ++ [e]) key = if e.1.text? = some key then some e.2 else valueAt? es key := by
  rw [valueAt?_eq, valueAt?_eq, List.reverse_append, List.reverse_singleton, List.singleton_append,
    List.find?_cons]
  by_cases h : e.1.text? = some key
  · simp [h, hasKey_iff.mpr h]
  · simp [h, hasKey_eq_false.mpr h]

/-- Gives the entries with a key a value. -/
def update (bs : List (Datum × Datum)) (key : String) (v : Datum) : List (Datum × Datum) :=
  bs.map fun b => if hasKey key b then (b.1, v) else b

/-- Lays one entry over entries. -/
def layEntry (bs : List (Datum × Datum)) (e : Datum × Datum) : List (Datum × Datum) :=
  match e.1.text? with
  | none => bs ++ [e]
  | some name =>
    match (bs.find? (hasKey name)).map (·.2) with
    | some o => update bs name (layOn o e.2)
    | none => bs ++ [e]

theorem layEntries_cons (bs es : List (Datum × Datum)) (e : Datum × Datum) :
    layEntries bs (e :: es) = layEntries (layEntry bs e) es := by
  obtain ⟨k, v⟩ := e
  cases k with
  | str name =>
    rw [layEntries, layEntry]
    change layEntries (if bs.any (hasKey name) then
        bs.map fun b => if hasKey name b then (b.1, _) else b else _) es =
      layEntries (match (bs.find? (hasKey name)).map (·.2) with
        | some o => update bs name (layOn o v)
        | none => bs ++ [(.str name, v)]) es
    cases hold : bs.find? (hasKey name) with
    | none =>
      have hany : ¬ bs.any (hasKey name) = true := by
        simpa [List.find?_eq_none] using hold
      rw [if_neg hany]
      simp only [← hasKey.eq_def, hold, Option.map_none]
    | some b =>
      have hany : bs.any (hasKey name) = true :=
        List.any_eq_true.mpr ⟨b, List.mem_of_find?_eq_some hold, List.find?_some hold⟩
      rw [if_pos hany]
      simp only [← hasKey.eq_def, hold, Option.map_some]
      rfl
  | _ => simp only [layEntry, layEntries, text?]

theorem find?_update (bs : List (Datum × Datum)) (name key : String) (v : Datum) :
    ((update bs name v).find? (hasKey key)).map (·.2) =
      if name = key then (bs.find? (hasKey key)).map fun _ => v
      else (bs.find? (hasKey key)).map (·.2) := by
  have hkeys : hasKey key ∘ (fun b => if hasKey name b then (b.1, v) else b) = hasKey key := by
    funext b
    dsimp only [Function.comp_apply]
    split <;> rfl
  rw [update, List.find?_map, hkeys, Option.map_map]
  cases hb : bs.find? (hasKey key) with
  | none => simp
  | some b =>
    have hbkey : b.1.text? = some key := hasKey_iff.mp (List.find?_some hb)
    by_cases hname : name = key
    · subst hname
      simp [hbkey]
    · simp [hbkey, hname, Ne.symm hname]

theorem valueAt?_update (bs : List (Datum × Datum)) (name key : String) (v : Datum) :
    valueAt? (update bs name v) key =
      if name = key then (valueAt? bs key).map fun _ => v else valueAt? bs key := by
  have hreverse : (update bs name v).reverse = update bs.reverse name v := List.map_reverse.symm
  rw [valueAt?_eq, hreverse, find?_update, valueAt?_eq, Option.map_map]
  rfl

/-- After an entry is laid over entries, its key has its value, laid over the one there was. -/
theorem valueAt?_layEntry (bs : List (Datum × Datum)) (e : Datum × Datum) (key : String) :
    valueAt? (layEntry bs e) key =
      if e.1.text? = some key then lay? (some e.2) ((bs.find? (hasKey key)).map (·.2))
      else valueAt? bs key := by
  unfold layEntry
  cases hkey : e.1.text? with
  | none => simp [valueAt?_append_singleton, hkey]
  | some name =>
    dsimp only
    cases hold : bs.find? (hasKey name) with
    | none =>
      dsimp only [Option.map_none]
      rw [valueAt?_append_singleton, hkey]
      by_cases hname : name = key
      · subst hname
        simp [hold, lay?]
      · simp [hname]
    | some b =>
      have hsome : (valueAt? bs name).isSome := by
        rw [valueAt?_eq, Option.isSome_map, List.find?_isSome]
        exact ⟨b, List.mem_reverse.mpr (List.mem_of_find?_eq_some hold), List.find?_some hold⟩
      dsimp only [Option.map_some]
      rw [valueAt?_update]
      by_cases hname : name = key
      · subst hname
        obtain ⟨o, ho⟩ := Option.isSome_iff_exists.mp hsome
        simp [ho, hold, lay?]
      · simp [hname]

/-! ### all entries -/

theorem valueAt?_cons (e : Datum × Datum) (es : List (Datum × Datum)) (key : String) :
    valueAt? (e :: es) key =
      (valueAt? es key).or (if e.1.text? = some key then some e.2 else none) := by
  rw [valueAt?_eq, valueAt?_eq, List.reverse_cons, List.find?_append, Option.map_or]
  by_cases h : e.1.text? = some key <;> simp [h]

/-- Of entries that are laid over others, a key shows its value, or the one below if it has none. -/
theorem shows_layEntries (bs es : List (Datum × Datum)) (key : String) :
    Shows (valueAt? (layEntries bs es) key) ((valueAt? es key).or (valueAt? bs key)) := by
  induction es generalizing bs with
  | nil => exact .refl _
  | cons e es ih =>
    have hentry : Shows (valueAt? (layEntry bs e) key)
        ((if e.1.text? = some key then some e.2 else none).or (valueAt? bs key)) := by
      rw [valueAt?_layEntry]
      split
      · exact shows_lay? (some e.2) _
      · exact .refl _
    rw [layEntries_cons, valueAt?_cons, Option.or_assoc]
    exact (ih (layEntry bs e)).or (.refl _) hentry

/-! ### entries with one place for each key -/

theorem textKeys_cons (hkey : e.1.text? = some name) (es : List (Datum × Datum)) :
    textKeys (e :: es) = name :: textKeys es :=
  List.filterMap_cons_some (f := fun e : Datum × Datum => e.1.text?) hkey

theorem textKeys_append (bs es : List (Datum × Datum)) :
    textKeys (bs ++ es) = textKeys bs ++ textKeys es :=
  List.filterMap_append

theorem textKeys_update (bs : List (Datum × Datum)) (name : String) (v : Datum) :
    textKeys (update bs name v) = textKeys bs := by
  rw [textKeys, update, List.filterMap_map]
  congr 1
  funext b
  dsimp only [Function.comp_apply]
  split <;> rfl

theorem valueAt?_eq_none (h : key ∉ textKeys es) : valueAt? es key = none := by
  rw [valueAt?_eq, Option.map_eq_none_iff, List.find?_eq_none]
  intro e he hkey
  exact h (List.mem_filterMap.mpr ⟨e, List.mem_reverse.mp he, hasKey_iff.mp hkey⟩)

theorem textKeys_filterMap {α : Type} (name : α → String) (value? : α → Option Datum)
    (as : List α) :
    textKeys (as.filterMap fun a => (value? a).map (Datum.str (name a), ·)) =
      (as.filter fun a => (value? a).isSome).map name := by
  induction as with
  | nil => rfl
  | cons a as ih =>
    rw [List.filterMap_cons, List.filter_cons]
    cases value? a with
    | none => exact ih
    | some d =>
      rw [Option.map_some, Option.isSome_some, if_pos rfl, List.map_cons, ← ih]
      exact textKeys_cons rfl _

/-- Entries that are made under names of their own are found under these. -/
theorem valueAt?_filterMap {α : Type} (name : α → String) {as : List α} (h : (as.map name).Nodup)
    (value? : α → Option Datum) {a : α} (ha : a ∈ as) :
    valueAt? (as.filterMap fun a => (value? a).map (Datum.str (name a), ·)) (name a) =
      value? a := by
  induction as with
  | nil => cases ha
  | cons b as ih =>
    obtain ⟨hnew, has⟩ := List.nodup_cons.mp h
    rw [List.filterMap_cons]
    rcases List.mem_cons.mp ha with rfl | ha
    · have hnone :
          valueAt? (as.filterMap fun a => (value? a).map (Datum.str (name a), ·)) (name a) =
            none := by
        refine valueAt?_eq_none fun hmem => hnew ?_
        rw [textKeys_filterMap] at hmem
        exact (List.filter_sublist.map _).subset hmem
      cases value? a with
      | none => exact hnone
      | some d =>
        rw [Option.map_some]
        dsimp only
        rw [valueAt?_cons, hnone]
        simp [text?]
    · have hne : name b ≠ name a := fun hname => hnew (List.mem_map.mpr ⟨a, ha, hname.symm⟩)
      cases value? b with
      | none => exact ih has ha
      | some d =>
        rw [Option.map_some]
        dsimp only
        rw [valueAt?_cons, ih has ha]
        simp [text?, hne]

theorem Distinct.of_cons (h : Distinct (e :: es)) : Distinct es :=
  h.sublist ((List.sublist_cons_self e es).filterMap _)

theorem Distinct.valueAt?_eq_none (h : Distinct (e :: es)) (hkey : e.1.text? = some key) :
    valueAt? es key = none := by
  rw [Distinct, textKeys_cons hkey] at h
  exact Datum.valueAt?_eq_none (List.nodup_cons.mp h).1

theorem Distinct.find?_eq (h : Distinct es) (key : String) :
    (es.find? (hasKey key)).map (·.2) = valueAt? es key := by
  induction es with
  | nil => rfl
  | cons e es ih =>
    rw [valueAt?_cons, List.find?_cons]
    by_cases hkey : e.1.text? = some key
    · rw [hasKey_iff.mpr hkey, if_pos hkey, h.valueAt?_eq_none hkey]
      rfl
    · rw [hasKey_eq_false.mpr hkey, if_neg hkey, Option.or_none]
      exact ih h.of_cons

theorem Distinct.layEntry (h : Distinct bs) (e : Datum × Datum) : Distinct (layEntry bs e) := by
  unfold Distinct Datum.layEntry at *
  cases hkey : e.1.text? with
  | none => simpa [textKeys, hkey] using h
  | some name =>
    dsimp only
    cases hold : bs.find? (hasKey name) with
    | none =>
      have hnew : name ∉ textKeys bs := by
        intro hmem
        obtain ⟨b, hb, hbkey⟩ := List.mem_filterMap.mp hmem
        exact List.find?_eq_none.mp hold b hb (hasKey_iff.mpr hbkey)
      rw [Option.map_none, textKeys_append, textKeys_cons hkey]
      refine List.nodup_append.mpr ⟨h, by simp [textKeys], ?_⟩
      rintro a ha b hb rfl
      exact hnew (List.mem_singleton.mp hb ▸ ha)
    | some b =>
      rw [Option.map_some]
      exact (textKeys_update bs name _).symm ▸ h

theorem Distinct.layEntries (h : Distinct bs) (es : List (Datum × Datum)) :
    Distinct (layEntries bs es) := by
  induction es generalizing bs with
  | nil => exact h
  | cons e es ih =>
    rw [layEntries_cons]
    exact ih (h.layEntry e)

/-- The value of a key in entries that are laid over others is its own, laid over the one below. -/
theorem valueAt?_layEntries (hbs : Distinct bs) (hes : Distinct es) (key : String) :
    valueAt? (layEntries bs es) key = lay? (valueAt? es key) (valueAt? bs key) := by
  induction es generalizing bs with
  | nil => rfl
  | cons e es ih =>
    rw [layEntries_cons, ih (hbs.layEntry e) hes.of_cons, valueAt?_layEntry, valueAt?_cons]
    by_cases hkey : e.1.text? = some key
    · rw [if_pos hkey, if_pos hkey, hbs.find?_eq, hes.valueAt?_eq_none hkey]
      rfl
    · rw [if_neg hkey, if_neg hkey, Option.or_none]

/-! ### records in layers -/

/-- The value of a key of a record. -/
def member? (d? : Option Datum) (key : String) : Option Datum :=
  match d? with
  | some (.map es) => valueAt? es key
  | _ => none

/-- A value that is a mapping, if it is there. -/
def IsRecord (d? : Option Datum) : Prop := ∀ d, d? = some d → ∃ es, d = .map es

theorem IsRecord.of_lay? (h : IsRecord (lay? above? below?)) : IsRecord above? := by
  rintro v rfl
  cases v with
  | map es => exact ⟨es, rfl⟩
  | _ =>
    cases below? with
    | none => exact h _ rfl
    | some o => exact h _ rfl

/-- A key of a record in two layers shows its value in the layer above, and the one in the layer
below if it has none there. -/
theorem IsRecord.shows_member? (h : IsRecord (lay? above? below?)) (key : String) :
    Shows (member? (lay? above? below?) key) ((member? above? key).or (member? below? key)) := by
  cases above? with
  | none => exact .refl _
  | some v =>
    obtain ⟨es, rfl⟩ := h.of_lay? v rfl
    cases below? with
    | none => exact .or_none (valueAt? es key)
    | some o =>
      cases o with
      | map bs => exact shows_layEntries bs es key
      | _ => exact .or_none (valueAt? es key)

end ServerRun.Datum
