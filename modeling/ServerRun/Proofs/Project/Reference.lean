import ServerRun.Project.Properties

/-! How a text refers to properties. A text is read from its front: a reference is a dollar sign
and a name in braces, which ends at the first closing brace, and every other character is plain.
References are replaced in one pass over the text: what stands between them stays, and so do
references to unknown properties; the values are not looked into. -/

namespace ServerRun.Project

/-- A piece of a text. -/
inductive Piece where
  | plain (c : Char)
  | reference (name : List Char)

/-- A reference as it is written. -/
def written (name : List Char) : List Char := '$' :: '\x7b' :: (name ++ ['}'])

/-- What may be the name of a reference. -/
def IsName (name : List Char) : Prop := name ≠ [] ∧ '}' ∉ name

/-- A text begins with a reference. -/
def BeginsReference (cs : List Char) : Prop :=
  ∃ name rest, IsName name ∧ cs = written name ++ rest

/-- A text is read as a sequence of pieces. -/
inductive Reads : List Char → List Piece → Prop
  | nil : Reads [] []
  | reference {name rest : List Char} {ps : List Piece} (hname : IsName name) (h : Reads rest ps) :
      Reads (written name ++ rest) (.reference name :: ps)
  | plain {c : Char} {cs : List Char} {ps : List Piece} (hno : ¬ BeginsReference (c :: cs))
      (h : Reads cs ps) : Reads (c :: cs) (.plain c :: ps)

/-- What takes the place of a piece: the value of a property that is known, and otherwise the piece
as it is written. -/
def Piece.replaced (value? : String → Option String) : Piece → List Char
  | .plain c => [c]
  | .reference name =>
    match value? (String.ofList name) with
    | some v => v.toList
    | none => written name

/-- A text contains a reference to a name. -/
def Contains (text name : List Char) : Prop := IsName name ∧ written name <:+: text

/-- A piece is tidy: a dollar sign only begins a reference. -/
def Piece.IsTidy : Piece → Prop
  | .plain c => c ≠ '$'
  | .reference name => '$' ∉ name

instance (name : List Char) : Decidable (IsName name) := inferInstanceAs (Decidable (_ ∧ _))

instance (text name : List Char) : Decidable (Contains text name) :=
  inferInstanceAs (Decidable (_ ∧ _))

variable {value? : String → Option String} {name name' rest cs xs ys : List Char} {c : Char}
  {ps qs : List Piece} {p : Piece}

/-! ### reading -/

theorem exists_reads (cs : List Char) : ∃ ps, Reads cs ps := by
  induction hn : cs.length using Nat.strongRecOn generalizing cs with
  | ind n ih =>
    subst hn
    by_cases hbegins : BeginsReference cs
    · obtain ⟨name, rest, hname, rfl⟩ := hbegins
      obtain ⟨ps, h⟩ := ih rest.length (by simp [written]; omega) rest rfl
      exact ⟨_, .reference hname h⟩
    · cases cs with
      | nil => exact ⟨[], .nil⟩
      | cons c cs =>
        obtain ⟨ps, h⟩ := ih cs.length (Nat.lt_succ_self _) cs rfl
        exact ⟨_, .plain hbegins h⟩

/-- A name ends at the first closing brace. -/
theorem takeWhile_name (hname : '}' ∉ name) (rest : List Char) :
    (name ++ '}' :: rest).takeWhile (· != '}') = name ∧
      (name ++ '}' :: rest).dropWhile (· != '}') = '}' :: rest := by
  have hall : ∀ c ∈ name, (c != '}') = true := by
    intro c hc
    simp only [bne_iff_ne, ne_eq]
    rintro rfl
    exact hname hc
  rw [List.takeWhile_append_of_pos hall, List.dropWhile_append_of_pos hall]
  exact ⟨by simp, by simp⟩

theorem written_append (name rest : List Char) :
    written name ++ rest = '$' :: '\x7b' :: (name ++ '}' :: rest) := by
  simp [written]

theorem eq_of_written_append (hname : IsName name) (hname' : IsName name')
    (h : written name ++ xs = written name' ++ ys) : name = name' ∧ xs = ys := by
  rw [written_append, written_append] at h
  have hnames : name ++ '}' :: xs = name' ++ '}' :: ys := (List.cons.inj (List.cons.inj h).2).2
  obtain ⟨htake, hdrop⟩ := takeWhile_name hname.2 xs
  obtain ⟨htake', hdrop'⟩ := takeWhile_name hname'.2 ys
  rw [hnames] at htake hdrop
  exact ⟨htake.symm.trans htake', (List.cons.inj (hdrop.symm.trans hdrop')).2⟩

theorem Reads.unique (h : Reads cs ps) (h' : Reads cs qs) : ps = qs := by
  induction h generalizing qs with
  | nil =>
    cases h'
    rfl
  | @reference name rest ps hname h ih =>
    generalize hcs : written name ++ rest = cs at h'
    cases h' with
    | nil => cases hcs
    | reference hname' h' =>
      obtain ⟨rfl, rfl⟩ := eq_of_written_append hname hname' hcs
      rw [ih h']
    | plain hno => exact absurd ⟨name, rest, hname, hcs.symm⟩ hno
  | @plain c cs ps hno h ih =>
    generalize hcs : c :: cs = ds at h'
    cases h' with
    | nil => cases hcs
    | reference hname' h' => exact absurd ⟨_, _, hname', hcs⟩ hno
    | plain _ h' =>
      cases hcs
      rw [ih h']

/-! ### replacing -/

theorem interpolateChars_reference (hname : IsName name) (rest : List Char) :
    interpolateChars value? (written name ++ rest) =
      (Piece.reference name).replaced value? ++ interpolateChars value? rest := by
  obtain ⟨htake, hdrop⟩ := takeWhile_name hname.2 rest
  rw [written_append, interpolateChars]
  split
  · rename_i h
    rw [hdrop] at h
    cases h
  · rename_i d ds h
    rw [hdrop] at h
    cases h
    rw [htake, if_neg hname.1, Piece.replaced]
    cases value? (String.ofList name) with
    | some v => rfl
    | none => simp [written]

theorem interpolateChars_of_ne (hc : c ≠ '$' ∨ cs.head? ≠ some '\x7b') :
    interpolateChars value? (c :: cs) = c :: interpolateChars value? cs := by
  rw [interpolateChars]
  rintro ds rfl rfl
  rcases hc with h | h <;> exact h rfl

theorem interpolateChars_plain (hno : ¬ BeginsReference (c :: cs)) :
    interpolateChars value? (c :: cs) = c :: interpolateChars value? cs := by
  by_cases hc : c ≠ '$' ∨ cs.head? ≠ some '\x7b'
  · exact interpolateChars_of_ne hc
  simp only [ne_eq, not_or, Decidable.not_not] at hc
  obtain ⟨rfl, hhead⟩ := hc
  cases cs with
  | nil => cases hhead
  | cons c cs =>
    cases hhead
    have hbrace : interpolateChars value? ('\x7b' :: cs) = '\x7b' :: interpolateChars value? cs :=
      interpolateChars_of_ne (.inl (by decide))
    rw [hbrace, interpolateChars]
    split
    · rfl
    · rename_i d ds h
      dsimp only
      split
      · rfl
      · rename_i hempty
        have hd : d = '}' := by
          have := List.head?_dropWhile_not (· != '}') cs
          simpa [h] using this
        refine absurd ⟨cs.takeWhile (· != '}'), ds, ⟨hempty, ?_⟩, ?_⟩ hno
        · intro hmem
          simpa using List.all_eq_true.mp List.all_takeWhile _ hmem
        · subst hd
          rw [written_append, ← h, List.takeWhile_append_dropWhile]

theorem Reads.interpolateChars_eq (h : Reads cs ps) :
    interpolateChars value? cs = ps.flatMap (·.replaced value?) := by
  induction h with
  | nil => rw [interpolateChars, List.flatMap_nil]
  | reference hname h ih => rw [interpolateChars_reference hname, ih, List.flatMap_cons]
  | plain hno h ih =>
    rw [interpolateChars_plain hno, ih, List.flatMap_cons]
    rfl

/-! ### references in a text -/

/-- A text is tidy: each of its dollar signs begins a reference. -/
def IsTidy (cs : List Char) : Prop := ∀ ps, Reads cs ps → ∀ p ∈ ps, p.IsTidy

theorem Contains.of_cons (h : Contains (c :: cs) name) (hc : c ≠ '$') : Contains cs name := by
  refine ⟨h.1, (List.infix_cons_iff.mp h.2).resolve_left ?_⟩
  rintro ⟨rest, heq⟩
  exact hc (List.cons.inj heq).1.symm

theorem Contains.of_append (h : Contains (xs ++ ys) name) (hxs : '$' ∉ xs) : Contains ys name := by
  induction xs with
  | nil => exact h
  | cons c cs ih =>
    have hc : c ≠ '$' := fun hc => hxs (hc ▸ List.mem_cons_self)
    exact ih (h.of_cons hc) (mt (List.mem_cons_of_mem c) hxs)

/-- A reference in front of a text: it is the one that is found, or another one is found behind it.
-/
theorem Contains.of_written (h : Contains (written name' ++ ys) name) (hname' : IsName name')
    (htidy : '$' ∉ name') : name = name' ∨ Contains ys name := by
  rw [written_append] at h
  rcases List.infix_cons_iff.mp h.2 with ⟨rest, heq⟩ | htail
  · rw [← written_append] at heq
    exact .inl (eq_of_written_append h.1 hname' heq).1
  · have hbraces : '$' ∉ '\x7b' :: (name' ++ ['}']) := by simpa using htidy
    exact .inr (Contains.of_append ⟨h.1, by simpa using htail⟩ hbraces)

theorem Contains.mono (h : Contains xs name) (hxs : xs <:+: ys) : Contains ys name :=
  ⟨h.1, h.2.trans hxs⟩

theorem Reads.contains_of_mem (h : Reads cs ps) (hmem : .reference name ∈ ps) :
    Contains cs name := by
  induction h with
  | nil => cases hmem
  | @reference name' rest ps hname h ih =>
    rcases List.mem_cons.mp hmem with heq | hmem
    · cases heq
      exact ⟨hname, [], rest, rfl⟩
    · exact (ih hmem).mono (List.suffix_append _ _).isInfix
  | plain hno h ih =>
    rcases List.mem_cons.mp hmem with heq | hmem
    · cases heq
    · exact (ih hmem).mono (List.suffix_cons _ _).isInfix

/-- What is found in a tidy text with another one behind it is a reference of the one or is found in
the other: only a dollar sign begins it, and no plain piece has one. -/
theorem Reads.mem_or_contains (h : Reads xs qs) (htidy : ∀ p ∈ qs, p.IsTidy)
    (hcontains : Contains (xs ++ ys) name) : .reference name ∈ qs ∨ Contains ys name := by
  induction h with
  | nil => exact .inr hcontains
  | @reference name' rest ps hname h ih =>
    rw [List.append_assoc] at hcontains
    rcases hcontains.of_written hname (htidy _ List.mem_cons_self) with rfl | hcontains
    · exact .inl List.mem_cons_self
    · exact (ih (fun p hp => htidy p (List.mem_cons_of_mem _ hp)) hcontains).imp_left
        (List.mem_cons_of_mem _)
  | plain hno h ih =>
    have hcontains := Contains.of_cons hcontains (htidy _ List.mem_cons_self)
    exact (ih (fun p hp => htidy p (List.mem_cons_of_mem _ hp)) hcontains).imp_left
      (List.mem_cons_of_mem _)

theorem not_contains_nil : ¬ Contains [] name := fun h => by
  cases List.eq_nil_of_infix_nil h.2

/-- In a tidy text the references that are found are those that it is read with. -/
theorem Reads.mem_iff_contains (h : Reads cs ps) (htidy : IsTidy cs) :
    .reference name ∈ ps ↔ Contains cs name := by
  refine ⟨h.contains_of_mem, fun hcontains => ?_⟩
  rw [← List.append_nil cs] at hcontains
  exact (h.mem_or_contains (htidy ps h) hcontains).resolve_right not_contains_nil

/-- What is found after references have been replaced was brought by the value of one of them, or is
the name of a property that is not known. -/
theorem exists_of_contains_replaced (hnames : ∀ name, .reference name ∈ ps → IsName name)
    (htidy : ∀ p ∈ ps, p.IsTidy)
    (hvalues : ∀ name v, .reference name ∈ ps → value? (String.ofList name) = some v →
      IsTidy v.toList)
    (hknown : (value? (String.ofList name)).isSome)
    (h : Contains (ps.flatMap (·.replaced value?)) name) :
    ∃ name' v, .reference name' ∈ ps ∧ value? (String.ofList name') = some v ∧
      Contains v.toList name := by
  induction ps with
  | nil => exact absurd h not_contains_nil
  | cons p ps ih =>
    have hrest (h : Contains (ps.flatMap (·.replaced value?)) name) :=
      ih (fun name' hmem => hnames name' (List.mem_cons_of_mem _ hmem))
        (fun p hp => htidy p (List.mem_cons_of_mem _ hp))
        (fun name' v hmem => hvalues name' v (List.mem_cons_of_mem _ hmem)) h
    have hfurther (h : Contains (ps.flatMap (·.replaced value?)) name) :
        ∃ name' v, .reference name' ∈ p :: ps ∧ value? (String.ofList name') = some v ∧
          Contains v.toList name := by
      obtain ⟨name', v, hmem, hv⟩ := hrest h
      exact ⟨name', v, List.mem_cons_of_mem _ hmem, hv⟩
    rw [List.flatMap_cons] at h
    cases p with
    | plain c => exact hfurther (h.of_cons (htidy _ List.mem_cons_self))
    | reference name' =>
      rw [Piece.replaced] at h
      split at h
      · rename_i v hv
        obtain ⟨qs, hqs⟩ := exists_reads v.toList
        have hv' := hvalues name' v List.mem_cons_self hv
        rcases hqs.mem_or_contains (hv' qs hqs) h with hmem | h
        · exact ⟨name', v, List.mem_cons_self, hv, hqs.contains_of_mem hmem⟩
        · exact hfurther h
      · rename_i hnone
        have hname' := hnames name' List.mem_cons_self
        rcases h.of_written hname' (htidy _ List.mem_cons_self) with rfl | h
        · rw [hnone] at hknown
          cases hknown
        · exact hfurther h

end ServerRun.Project
