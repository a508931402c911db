import ServerRun.Json.Basic

/-! Members that are given values: each name keeps one place, and its last value counts. -/

namespace ServerRun

variable {α : Type} {fs more : List (String × α)} {name : String}

theorem Fields.mem_map_insert {x : String} {v : α}
    (h : x ∈ (Fields.insert fs name v).map (·.1)) : x = name ∨ x ∈ fs.map (·.1) := by
  induction fs with
  | nil => exact .inl (by simpa [Fields.insert] using h)
  | cons f fs ih =>
    rw [Fields.insert] at h
    split at h
    · exact (List.mem_cons.mp h).imp_right (List.mem_cons_of_mem f.1)
    · rcases List.mem_cons.mp h with rfl | h
      · exact .inr List.mem_cons_self
      · exact (ih h).imp_right (List.mem_cons_of_mem f.1)

theorem Fields.nodup_insert (h : (fs.map (·.1)).Nodup) (v : α) :
    ((Fields.insert fs name v).map (·.1)).Nodup := by
  induction fs with
  | nil => simp [Fields.insert]
  | cons f fs ih =>
    obtain ⟨hnew, hfs⟩ := List.nodup_cons.mp h
    rw [Fields.insert]
    split
    · rename_i hname
      exact List.nodup_cons.mpr ⟨hname ▸ hnew, hfs⟩
    · rename_i hname
      refine List.nodup_cons.mpr ⟨fun hmem => ?_, ih hfs⟩
      exact (Fields.mem_map_insert hmem).elim hname hnew

theorem Fields.get?_eq_none (h : name ∉ fs.map (·.1)) : Fields.get? fs name = none := by
  rw [Fields.get?, Option.map_eq_none_iff, List.find?_eq_none]
  intro f hf hname
  exact h (beq_iff_eq.mp hname ▸ List.mem_map_of_mem hf)

theorem Fields.get?_merge (h : (more.map (·.1)).Nodup) :
    Fields.get? (Fields.merge fs more) name =
      (Fields.get? more name).or (Fields.get? fs name) := by
  induction more generalizing fs with
  | nil => rfl
  | cons f more ih =>
    obtain ⟨hnew, hmore⟩ := List.nodup_cons.mp h
    rw [Fields.merge, List.foldl_cons, ← Fields.merge, ih hmore, Fields.get?_insert,
      Fields.get?_cons]
    split
    · rename_i hname
      rw [Fields.get?_eq_none (hname ▸ hnew)]
      rfl
    · rfl

theorem Fields.nodup_merge (h : (fs.map (·.1)).Nodup) (more : List (String × α)) :
    ((Fields.merge fs more).map (·.1)).Nodup := by
  induction more generalizing fs with
  | nil => exact h
  | cons f more ih =>
    rw [Fields.merge, List.foldl_cons]
    exact ih (Fields.nodup_insert h f.2)

theorem Fields.mem_map_merge (h : name ∈ (Fields.merge fs more).map (·.1)) :
    name ∈ fs.map (·.1) ∨ name ∈ more.map (·.1) := by
  induction more generalizing fs with
  | nil => exact .inl h
  | cons f more ih =>
    rw [Fields.merge, List.foldl_cons] at h
    rcases ih h with h | h
    · rcases Fields.mem_map_insert h with rfl | h
      · exact .inr List.mem_cons_self
      · exact .inl h
    · exact .inr (List.mem_cons_of_mem f.1 h)

/-- Of several values with one name the last one counts. -/
theorem Fields.get?_merge_reverse (fs more : List (String × α)) (name : String) :
    Fields.get? (Fields.merge fs more) name =
      (Fields.get? more.reverse name).or (Fields.get? fs name) := by
  induction more generalizing fs with
  | nil => rfl
  | cons f more ih =>
    have hcons : Fields.get? (f :: more).reverse name =
        (Fields.get? more.reverse name).or (if f.1 = name then some f.2 else none) := by
      rw [List.reverse_cons, Fields.get?, List.find?_append, Option.map_or, ← Fields.get?]
      by_cases h : f.1 = name <;> simp [h]
    rw [Fields.merge, List.foldl_cons, ← Fields.merge, ih, hcons, Fields.get?_insert,
      Option.or_assoc]
    split <;> rfl

end ServerRun
