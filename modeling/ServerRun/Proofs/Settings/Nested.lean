import ServerRun.Proofs.Settings.Members

/-! What variables give to a record. The variable of a key gives its value to the key, whatever the
variables of longer names do, and the object of the record's own variable has its say besides. -/

namespace ServerRun.Settings

open Datum

variable {es : List (Datum × Datum)} {key field name : String} {v d : Datum}

/-! ### names in lower case -/

theorem toLower_toLower (c : Char) : c.toLower.toLower = c.toLower := by
  by_cases h : c.val ≥ 'A'.val ∧ c.val ≤ 'Z'.val
  · have hlow : ¬ (c.toLower.val ≥ 'A'.val ∧ c.toLower.val ≤ 'Z'.val) := by
      have hc : c.toLower.val = c.val + ('a'.val - 'A'.val) := congrArg Char.val (dif_pos h)
      rw [hc]
      simp only [ge_iff_le, UInt32.le_iff_toNat_le, UInt32.toNat_add] at h ⊢
      have hA : 'A'.val.toNat = 65 := rfl
      have hZ : 'Z'.val.toNat = 90 := rfl
      have hd : ('a'.val - 'A'.val).toNat = 32 := rfl
      omega
    exact dif_neg hlow
  · have hc : c.toLower = c := dif_neg h
    rw [hc, hc]

theorem lower_lower (s : String) : lower (lower s) = lower s := by
  have hchars : Char.toLower ∘ Char.toLower = Char.toLower := funext toLower_toLower
  simp [lower, hchars]

theorem lower_ofList_iff (cs : List Char) :
    lower (String.ofList cs) = String.ofList cs ↔ ∀ c ∈ cs, c.toLower = c := by
  rw [lower, String.toList_ofList, String.ofList_inj]
  induction cs with
  | nil => simp
  | cons c cs ih => simp [ih]

theorem mem_of_mem_splitNested {cs p : List Char} {c : Char} (hp : p ∈ splitNested cs)
    (hc : c ∈ p) : c ∈ cs := by
  fun_induction splitNested cs generalizing p with
  | case1 =>
    rw [List.mem_singleton.mp hp] at hc
    exact hc
  | case2 cs ih =>
    rcases List.mem_cons.mp hp with rfl | hp
    · cases hc
    · exact List.mem_cons_of_mem _ (List.mem_cons_of_mem _ (ih hp hc))
  | case3 a cs hsep q qs hqs ih =>
    rcases List.mem_cons.mp hp with rfl | hp
    · rcases List.mem_cons.mp hc with rfl | hc
      · exact List.mem_cons_self
      · exact List.mem_cons_of_mem a (ih (hqs ▸ List.mem_cons_self) hc)
    · exact List.mem_cons_of_mem a (ih (hqs ▸ List.mem_cons_of_mem q hp) hc)
  | case4 a cs hsep hnil ih => exact absurd hnil (Variables.splitNested_ne_nil cs)

/-- Variables with names in lower case, each name once. -/
structure Variables.IsTable (vars : Variables) : Prop where
  nodup : (vars.map (·.1)).Nodup
  lower : ∀ v ∈ vars, lower v.1 = v.1

theorem Variables.isTable_of (vars : List (String × Option String)) :
    (Variables.of vars).IsTable := by
  refine ⟨Fields.nodup_merge (by simp) _, fun v hv => ?_⟩
  rcases Fields.mem_map_merge (List.mem_map_of_mem hv) with h | h
  · cases h
  · obtain ⟨w, hw, hname⟩ := List.mem_map.mp h
    obtain ⟨u, -, rfl⟩ := List.mem_map.mp hw
    rw [← hname, lower_lower]

/-! ### the keys that nested variables lead to -/

theorem valueAt?_putNested_singleton (v : Datum) (name : String) (es : List (Datum × Datum)) :
    valueAt? (putNested v [name] es) key = if name = key then some v else valueAt? es key := by
  rw [putNested]
  exact (valueAt?_replace (.str name) v es key).trans (by simp [text?])

/-- A longer name leaves the value of a key as it is or makes it a mapping. -/
theorem shows_putNested {rest : List String} (hrest : rest ≠ []) (v : Datum) (name : String)
    (es : List (Datum × Datum)) :
    Shows (valueAt? (putNested v (name :: rest) es) key) (valueAt? es key) := by
  rw [putNested]
  · split
    · change Shows (valueAt? (update es name _) key) _
      rw [valueAt?_update]
      split
      · cases valueAt? es key with
        | none => exact .refl _
        | some d => exact .of_map _ _
      · exact .refl _
    · exact .refl _
    · rw [valueAt?_append_singleton]
      split
      · exact .of_map _ _
      · exact .refl _
  · exact hrest

theorem isLower_update (h : IsLower es) (name : String) (v : Datum) :
    IsLower (update es name v) := by
  intro e he k hk
  obtain ⟨b, hb, rfl⟩ := List.mem_map.mp he
  refine h b hb k ?_
  split at hk <;> exact hk

theorem isLower_append {e : Datum × Datum} (h : IsLower es)
    (he : ∀ k, e.1.text? = some k → lower k = k) : IsLower (es ++ [e]) := by
  intro e' he'
  rcases List.mem_append.mp he' with he' | he'
  · exact h e' he'
  · exact List.mem_singleton.mp he' ▸ he

theorem isLower_layEntry {e : Datum × Datum} (h : IsLower es)
    (he : ∀ k, e.1.text? = some k → lower k = k) : IsLower (layEntry es e) := by
  unfold layEntry
  split
  · exact isLower_append h he
  · split
    · exact isLower_update h _ _
    · exact isLower_append h he

theorem isLower_putNested {parts : List String} (hparts : ∀ p ∈ parts, lower p = p)
    (h : IsLower es) (v : Datum) : IsLower (putNested v parts es) := by
  match parts with
  | [] => exact h
  | [name] =>
    have hname : ∀ k, (Datum.str name).text? = some k → lower k = k := by
      rintro k ⟨⟩
      exact hparts name List.mem_cons_self
    rw [putNested, layEntries_cons]
    exact isLower_layEntry (fun e he => h e (List.mem_filter.mp he).1) hname
  | name :: name' :: rest =>
    have hname : ∀ k, (Datum.str name).text? = some k → lower k = k := by
      rintro k ⟨⟩
      exact hparts name List.mem_cons_self
    rw [putNested]
    · split
      · exact isLower_update h name _
      · exact h
      · exact isLower_append h hname
    · exact List.cons_ne_nil _ _

/-! ### the variable of a key -/

/-- The value that the text of its variable is to a key, or the lack of a text. -/
def keyValue (key : String) : Option String → Datum
  | none => .null
  | some text =>
    if key = "commands" ∧ text ≠ "" then ((Json.parse? text).map Datum.ofJson).getD .null
    else .str text

namespace Variables

variable {vars : Variables} {more : List (Datum × Datum)} {value : Option String}

/-- What the variable of a key says, if there is one. -/
def named? (vars : Variables) (field key : String) : Option Datum :=
  (Fields.get? vars (nestedName field key)).map (keyValue key)

theorem parts_of_mem_batchKeys (hkey : key ∈ batchKeys) :
    (splitNested key.toList).map String.ofList = [key] := by
  have hall : ∀ key ∈ batchKeys, (splitNested key.toList).map String.ofList = [key] := by
    decide +kernel
  exact hall key hkey

theorem takesList_iff (hkey : key ∈ batchKeys) :
    takesList .batch [key] = decide (key = "commands") := by
  have hall : ∀ key ∈ batchKeys, takesList .batch [key] = decide (key = "commands") := by
    decide +kernel
  exact hall key hkey

theorem nestedValue_ok (hkey : key ∈ batchKeys) (h : nestedValue .batch [key] value = .ok d) :
    d = keyValue key value := by
  unfold nestedValue at h
  split at h
  · cases h
    rfl
  · rename_i text
    rw [takesList_iff hkey] at h
    split at h
    · rename_i hlist
      have hcommands : key = "commands" ∧ text ≠ "" := by simpa using hlist
      unfold ofJsonText at h
      split at h
      · rename_i j hparse
        cases h
        simp [keyValue, hcommands, hparse]
      · cases h
    · rename_i hlist
      cases h
      have hnot : ¬ (key = "commands" ∧ text ≠ "") := by simpa using hlist
      rw [keyValue, if_neg hnot]

/-- The variable of a key gives it its value. -/
theorem valueAt?_of_putVariable (hkey : key ∈ batchKeys)
    (h : putVariable field .batch es (nestedName field key, value) = .ok more) :
    valueAt? more key = some (keyValue key value) := by
  rw [putVariable_nestedName, parts_of_mem_batchKeys hkey] at h
  obtain ⟨d, hd, rfl⟩ := ok_of_map h
  rw [valueAt?_putNested_singleton, if_pos rfl, nestedValue_ok hkey hd]

/-- The variable of another name leaves the value of a key as it is or makes it a mapping. -/
theorem shows_putVariable {w : String × Option String} (hname : w.1 ≠ nestedName field key)
    (h : putVariable field .batch es w = .ok more) :
    Shows (valueAt? more key) (valueAt? es key) := by
  unfold putVariable at h
  dsimp only at h
  split at h
  · rename_i hprefix
    obtain ⟨d, -, rfl⟩ := ok_of_map h
    match hparts :
        (splitNested (w.1.toList.drop (variableStart ++ field ++ "__").toList.length)).map
          String.ofList with
    | [] => exact .refl _
    | [part] =>
      have hpart : part ≠ key := by
        rintro rfl
        exact hname (eq_nestedName (List.isPrefixOf_iff_prefix.mp hprefix)
          (parts_eq_singleton hparts))
      rw [valueAt?_putNested_singleton, if_neg hpart]
      exact .refl _
    | part :: part' :: rest => exact shows_putNested (List.cons_ne_nil _ _) d part es
  · cases h
    exact .refl _

theorem isLower_putVariable {w : String × Option String} (hw : lower w.1 = w.1) (hes : IsLower es)
    (h : putVariable field .batch es w = .ok more) : IsLower more := by
  unfold putVariable at h
  dsimp only at h
  split at h
  · obtain ⟨d, -, rfl⟩ := ok_of_map h
    refine isLower_putNested (fun p hp => ?_) hes d
    obtain ⟨cs, hcs, rfl⟩ := List.mem_map.mp hp
    rw [lower_ofList_iff]
    intro c hc
    have hchars : ∀ c ∈ w.1.toList, c.toLower = c := by
      rw [← lower_ofList_iff, String.ofList_toList, hw]
    exact hchars c (List.mem_of_mem_drop (mem_of_mem_splitNested hcs hc))
  · cases h
    exact hes

/-- A key shows what its variable says: once that was read, no other variable has its name. -/
theorem shows_foldlM_putVariable (hkey : key ∈ batchKeys) (hvars : (vars.map (·.1)).Nodup)
    (h : vars.foldlM (putVariable field .batch) es = .ok more) :
    Shows (valueAt? more key) ((vars.named? field key).or (valueAt? es key)) := by
  induction vars generalizing es with
  | nil =>
    cases h
    exact .refl _
  | cons w vars ih =>
    obtain ⟨hnew, hvars⟩ := List.nodup_cons.mp hvars
    rw [List.foldlM_cons] at h
    obtain ⟨es', hstep, h⟩ := ok_of_bind h
    have hrest := ih hvars h
    rw [named?, Fields.get?_cons]
    by_cases hname : w.1 = nestedName field key
    · obtain ⟨name, value⟩ := w
      obtain rfl : name = nestedName field key := hname
      rw [named?, Fields.get?_eq_none hnew, valueAt?_of_putVariable hkey hstep] at hrest
      rw [if_pos rfl]
      exact hrest
    · rw [if_neg hname]
      exact hrest.or (.refl _) (shows_putVariable hname hstep)

theorem shows_nested (hkey : key ∈ batchKeys) (hvars : vars.IsTable)
    (h : nested vars field .batch = .ok more) :
    Shows (valueAt? more key) (vars.named? field key) := by
  have hshows := shows_foldlM_putVariable hkey hvars.nodup h
  rwa [show valueAt? [] key = none from rfl, Option.or_none] at hshows

theorem isLower_nested (hvars : vars.IsTable) (h : nested vars field .batch = .ok more) :
    IsLower more :=
  holds_of_foldlM h (by simp [IsLower]) fun w hw es more hes hstep =>
    isLower_putVariable (hvars.lower w hw) hes hstep

/-! ### a record -/

/-- The members of the object that the variable of a record holds, if it holds one that writes no
key in two spellings; without the variable there are none of them. -/
def object? (vars : Variables) (field : String) : Option (List (Datum × Datum)) :=
  (vars.members? field).filter fun es => decide (PlainlySpelt es)

/-- A key of a record shows what its variable says, and otherwise the member of the object. -/
theorem shows_member? {d? : Option Datum} {members : List (Datum × Datum)} (hkey : key ∈ batchKeys)
    (hvars : vars.IsTable) (h : fieldValue vars field .batch = .ok d?)
    (hobject : vars.object? field = some members) :
    Shows (member? d? key)
      ((vars.named? field key).or ((spelt? members key).map (·.2))) := by
  have hform : Form.batch ≠ .plain := Form.noConfusion
  obtain ⟨hmembers, hplain⟩ := Option.filter_eq_some_iff.mp hobject
  rw [members?] at hmembers
  cases htext : vars.text? field with
  | none =>
    rw [htext] at hmembers
    cases hmembers
    rw [fieldValue_of_none hform htext] at h
    obtain ⟨more, hmore, hd⟩ := ok_of_map h
    have hmember : member? d? key = valueAt? more key := by
      subst hd
      cases more with
      | nil => rfl
      | cons e more =>
        exact (valueAt?_respell hkey _).trans
          (spelt?_eq_of_isLower (isLower_nested hvars hmore) key)
    rw [hmember, show spelt? [] key = none from rfl, Option.map_none, Option.or_none]
    exact shows_nested hkey hvars hmore
  | some text =>
    rw [fieldValue_of_some hform htext] at h
    rw [htext] at hmembers
    dsimp only at hmembers
    split at hmembers <;> cases hmembers
    rename_i fs hparse
    rw [hparse] at h
    obtain ⟨more, hmore, rfl⟩ := ok_of_map h
    have hspelt := spelt?_layEntries hkey (isLower_nested hvars hmore) (ofJsonFields fs)
    rw [(of_decide_eq_true hplain).respelt?_eq_none hkey, Option.none_or] at hspelt
    rw [member?, valueAt?_respell hkey]
    exact hspelt.or (shows_nested hkey hvars hmore) (.refl _)

end Variables

end ServerRun.Settings
