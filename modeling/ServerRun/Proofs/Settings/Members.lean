import ServerRun.Proofs.Fields
import ServerRun.Proofs.Schema.Layer
import ServerRun.Proofs.Settings.Variables

/-! What variables say about the keys of a record. Of a key that is written twice in the object of
the record's own variable the last spelling counts. Apart from that the variable of the key comes
first, and the object after it. -/

namespace ServerRun.Settings

open Datum

variable {bs es more : List (Datum × Datum)} {e : Datum × Datum} {key field name : String}
  {v : Datum}

/-- The last entry with a key in any spelling. -/
def spelt? (es : List (Datum × Datum)) (key : String) : Option (Datum × Datum) :=
  es.reverse.find? fun e => e.1.text?.map lower == some key

/-- The value of a key that is written again in another spelling. -/
def respelt? (es : List (Datum × Datum)) (key : String) : Option Datum :=
  (spelt? es key).bind fun e => if hasKey key e || !es.any (hasKey key) then none else some e.2

/-- No key is written in two spellings. -/
def PlainlySpelt (es : List (Datum × Datum)) : Prop :=
  ∀ e ∈ es, ∀ e' ∈ es, e.1.text?.map lower = e'.1.text?.map lower → e.1.text? = e'.1.text?

instance (es : List (Datum × Datum)) : Decidable (PlainlySpelt es) :=
  inferInstanceAs (Decidable (∀ e ∈ es, ∀ e' ∈ es, _ → _))

/-- No key has a capital. -/
def IsLower (es : List (Datum × Datum)) : Prop := ∀ e ∈ es, ∀ k, e.1.text? = some k → lower k = k

theorem IsLower.of_cons (h : IsLower (e :: es)) : IsLower es :=
  fun e' he' => h e' (List.mem_cons_of_mem e he')

/-! ### spellings -/

theorem lower_of_mem_batchKeys (h : key ∈ batchKeys) : lower key = key := by
  have hall : ∀ key ∈ batchKeys, lower key = key := by decide +kernel
  exact hall key h

theorem PlainlySpelt.respelt?_eq_none (h : PlainlySpelt es) (hkey : key ∈ batchKeys) :
    respelt? es key = none := by
  rw [respelt?, Option.bind_eq_none_iff]
  intro e he
  refine if_pos ?_
  cases hany : es.any (hasKey key) with
  | false => simp
  | true =>
    obtain ⟨e', he', hexact⟩ := List.any_eq_true.mp hany
    rw [hasKey_iff] at hexact
    have hspelt : e.1.text?.map lower = e'.1.text?.map lower := by
      rw [hexact, Option.map_some, lower_of_mem_batchKeys hkey]
      simpa using List.find?_some he
    have hsame := h e (by simpa using List.mem_of_find?_eq_some he) e' he' hspelt
    simp [hsame, hexact]

theorem spelt?_cons (e : Datum × Datum) (es : List (Datum × Datum)) (key : String) :
    (spelt? (e :: es) key).map (·.2) =
      ((spelt? es key).map (·.2)).or
        (if e.1.text?.map lower = some key then some e.2 else none) := by
  rw [spelt?, spelt?, List.reverse_cons, List.find?_append, Option.map_or]
  by_cases h : e.1.text?.map lower = some key <;> simp [h]

theorem spelt?_eq_of_isLower (h : IsLower es) (key : String) :
    (spelt? es key).map (·.2) = valueAt? es key := by
  induction es with
  | nil => rfl
  | cons e es ih =>
    rw [spelt?_cons, valueAt?_cons, ih h.of_cons]
    cases hk : e.1.text? with
    | none => simp
    | some k => simp [h e List.mem_cons_self k hk]

theorem text?_fieldKey (hkey : key ∈ batchKeys) (k : Datum) :
    (fieldKey k).text? = some key ↔ k.text?.map lower = some key := by
  rw [fieldKey]
  cases hk : k.text? with
  | none => simp [hk]
  | some name =>
    dsimp only
    rw [Option.map_some]
    split
    · rfl
    · rename_i hother
      rw [hk]
      constructor
      · rintro ⟨⟩
        exact absurd (by simpa [lower_of_mem_batchKeys hkey] using hkey) hother
      · rintro ⟨⟩
        exact absurd (by simpa using hkey) hother

theorem valueAt?_filter_ne {k : Option String} (h : k ≠ some key) (es : List (Datum × Datum)) :
    valueAt? (es.filter fun d => d.1.text? != k) key = valueAt? es key := by
  induction es with
  | nil => rfl
  | cons e es ih =>
    rw [List.filter_cons]
    split
    · rw [valueAt?_cons, valueAt?_cons, ih]
    · rename_i hk
      have hek : e.1.text? = k := by simpa using hk
      rw [ih, valueAt?_cons, if_neg (hek ▸ h), Option.or_none]

/-- An entry in the place of those with its key. -/
theorem valueAt?_replace (k v : Datum) (es : List (Datum × Datum)) (key : String) :
    valueAt? (layEntries (es.filter fun d => d.1.text? != k.text?) [(k, v)]) key =
      if k.text? = some key then some v else valueAt? es key := by
  rw [layEntries_cons, layEntries, valueAt?_layEntry]
  by_cases h : k.text? = some key
  · have hnone : (es.filter fun d => d.1.text? != k.text?).find? (hasKey key) = none := by
      rw [List.find?_eq_none]
      intro d hd
      simpa [h] using (List.mem_filter.mp hd).2
    rw [if_pos h, if_pos h, hnone]
    rfl
  · rw [if_neg h, if_neg h, valueAt?_filter_ne h]

theorem valueAt?_foldl_respell (hkey : key ∈ batchKeys) (es done : List (Datum × Datum)) :
    valueAt? (es.foldl (fun done e =>
      layEntries (done.filter fun d => d.1.text? != (fieldKey e.1).text?) [(fieldKey e.1, e.2)])
      done) key = ((spelt? es key).map (·.2)).or (valueAt? done key) := by
  induction es generalizing done with
  | nil => rfl
  | cons e es ih =>
    rw [List.foldl_cons, ih, spelt?_cons, Option.or_assoc, valueAt?_replace]
    congr 1
    by_cases h : (fieldKey e.1).text? = some key
    · rw [if_pos h, if_pos ((text?_fieldKey hkey e.1).mp h)]
      rfl
    · rw [if_neg h, if_neg (mt (text?_fieldKey hkey e.1).mpr h)]
      rfl

/-- The keys of a record in the spelling of its fields. -/
theorem valueAt?_respell (hkey : key ∈ batchKeys) (es : List (Datum × Datum)) :
    valueAt? (respell .batch es) key = (spelt? es key).map (·.2) :=
  (valueAt?_foldl_respell hkey es []).trans Option.or_none

/-! ### the variables of keys laid over an object -/

theorem spelt?_update (bs : List (Datum × Datum)) (name key : String) (v : Datum) :
    spelt? (update bs name v) key =
      (spelt? bs key).map fun b => if hasKey name b then (b.1, v) else b := by
  rw [spelt?, update, ← List.map_reverse, List.find?_map]
  congr 2
  funext b
  dsimp only [Function.comp_apply]
  split <;> rfl

theorem any_update (bs : List (Datum × Datum)) (name key : String) (v : Datum) :
    (update bs name v).any (hasKey key) = bs.any (hasKey key) := by
  rw [update, List.any_map]
  congr 1
  funext b
  dsimp only [Function.comp_apply]
  split <;> rfl

theorem any_hasKey (es : List (Datum × Datum)) (key : String) :
    es.any (hasKey key) = (es.find? (hasKey key)).isSome := by
  rw [Bool.eq_iff_iff, List.any_eq_true, List.find?_isSome]

/-- An entry of another key does not touch a key. -/
theorem spelt?_layEntry_of_ne (h : e.1.text?.map lower ≠ some key)
    (hlower : ∀ k, e.1.text? = some k → lower k = k) (bs : List (Datum × Datum)) :
    spelt? (layEntry bs e) key = spelt? bs key ∧
      (layEntry bs e).any (hasKey key) = bs.any (hasKey key) := by
  have happend : spelt? (bs ++ [e]) key = spelt? bs key ∧
      (bs ++ [e]).any (hasKey key) = bs.any (hasKey key) := by
    constructor
    · rw [spelt?, List.reverse_append, List.reverse_singleton, List.singleton_append,
        List.find?_cons_of_neg (by simpa using h), spelt?]
    · have hkey : hasKey key e = false := by
        refine hasKey_eq_false.mpr fun hkey => h ?_
        rw [hkey, Option.map_some, hlower key hkey]
      simp [hkey]
  unfold layEntry
  cases hname : e.1.text? with
  | none => exact happend
  | some name =>
    dsimp only
    cases bs.find? (hasKey name) with
    | none => exact happend
    | some b =>
      rw [Option.map_some]
      refine ⟨?_, any_update bs name key _⟩
      rw [spelt?_update]
      cases hspelt : spelt? bs key with
      | none => rfl
      | some b' =>
        have hb' : b'.1.text?.map lower = some key := by
          simpa using List.find?_some hspelt
        have hne : hasKey name b' = false := by
          refine hasKey_eq_false.mpr fun hb => h ?_
          rw [hname, ← hb', hb]
        rw [Option.map_some, hne]
        rfl

/-- An entry that is laid over others gives its key a value, unless the key is written again in
another spelling. -/
theorem spelt?_layEntry (hkey : key ∈ batchKeys) (h : e.1.text? = some key)
    (bs : List (Datum × Datum)) :
    Shows ((spelt? (layEntry bs e) key).map (·.2)) ((respelt? bs key).or (some e.2)) ∧
      respelt? (layEntry bs e) key = respelt? bs key := by
  have hlower := lower_of_mem_batchKeys hkey
  cases hold : bs.find? (hasKey key) with
  | none =>
    have hlay : layEntry bs e = bs ++ [e] := by
      simp [layEntry, h, hold]
    have hspelt : spelt? (bs ++ [e]) key = some e := by
      rw [spelt?, List.reverse_append, List.reverse_singleton, List.singleton_append,
        List.find?_cons_of_pos (by simp [h, hlower])]
    have hrespelt : respelt? bs key = none := by
      simp [respelt?, any_hasKey, hold]
    rw [hlay, hspelt, hrespelt, respelt?, hspelt]
    exact ⟨.refl _, by simp [h]⟩
  | some b =>
    have hlay : layEntry bs e = update bs key (layOn b.2 e.2) := by
      simp [layEntry, h, hold]
    have hany : bs.any (hasKey key) = true := by rw [any_hasKey, hold]; rfl
    have hb : hasKey key b = true := List.find?_some hold
    have hsome : (spelt? bs key).isSome := by
      rw [spelt?, List.find?_isSome]
      exact ⟨b, List.mem_reverse.mpr (List.mem_of_find?_eq_some hold),
        by simp [hasKey_iff.mp hb, hlower]⟩
    obtain ⟨b', hb'⟩ := Option.isSome_iff_exists.mp hsome
    rw [hlay, respelt?, respelt?, any_update, spelt?_update, hb', hany]
    by_cases hexact : b'.1.text? = some key
    · refine ⟨?_, by simp [hexact]⟩
      simpa [hexact, lay?] using shows_lay? (some e.2) (some b.2)
    · simp [hexact, Shows]

theorem spelt?_of_respelt? (h : respelt? es key = some v) :
    (spelt? es key).map (·.2) = some v := by
  obtain ⟨e, he, hv⟩ := Option.bind_eq_some_iff.mp h
  rw [he]
  split at hv
  · cases hv
  · exact hv

/-- Of entries that are laid over an object, a key shows its value, unless the object writes the key
again in another spelling, and the value in the object if it has none. Another spelling stays where
it is, and only the entry of the key itself is found under the key. -/
theorem spelt?_layEntries (hkey : key ∈ batchKeys) (hes : IsLower es)
    (bs : List (Datum × Datum)) :
    Shows ((spelt? (layEntries bs es) key).map (·.2))
      ((respelt? bs key).or ((valueAt? es key).or ((spelt? bs key).map (·.2)))) := by
  induction es generalizing bs with
  | nil =>
    cases hrespelt : respelt? bs key with
    | none => exact .refl _
    | some d => exact .inl (spelt?_of_respelt? hrespelt)
  | cons e es ih =>
    have hlower := hes e List.mem_cons_self
    have hrest := ih hes.of_cons (layEntry bs e)
    rw [layEntries_cons, valueAt?_cons]
    by_cases h : e.1.text? = some key
    · obtain ⟨hshows, hrespelt⟩ := spelt?_layEntry hkey h bs
      rw [hrespelt] at hrest
      rw [if_pos h]
      cases hr : respelt? bs key with
      | none =>
        rw [hr, Option.none_or] at hrest hshows
        rw [Option.none_or, Option.or_assoc, Option.some_or]
        exact hrest.or (.refl _) hshows
      | some d =>
        rw [hr] at hrest
        exact hrest
    · have hne : e.1.text?.map lower ≠ some key := by
        intro hspelt
        obtain ⟨k, hk, hname⟩ := Option.map_eq_some_iff.mp hspelt
        exact h (by rw [hk, ← hname, hlower k hk])
      obtain ⟨hspelt, hany⟩ := spelt?_layEntry_of_ne hne hlower bs
      rw [if_neg h, Option.or_none]
      rw [respelt?, hspelt, hany, ← respelt?] at hrest
      exact hrest

end ServerRun.Settings
