import ServerRun.Text.Blank

/-! Trimming. A text loses the blanks at its ends and nothing else, so a text between blanks that
does not begin or end with one is what is left of it. -/

namespace ServerRun.Text

variable {c : Char} {cs gap : List Char}

theorem trimStart_append (h : ∀ c ∈ gap, isBlank c = true) (cs : List Char) :
    trimStart (gap ++ cs) = trimStart cs := by
  rw [trimStart, List.dropWhile_append_of_pos h]
  rfl

theorem trimStart_cons (h : isBlank c = false) : trimStart (c :: cs) = c :: cs :=
  List.dropWhile_cons_of_neg (by simp [h])

theorem trimStart_blanks (h : ∀ c ∈ gap, isBlank c = true) : trimStart gap = [] := by
  rw [← List.append_nil gap, trimStart_append h]
  rfl

theorem trimEnd_cons_of_ne_nil (h : trimEnd cs ≠ []) : trimEnd (c :: cs) = c :: trimEnd cs := by
  rw [trimEnd]
  split
  · rename_i he
    exact absurd he h
  · rfl

theorem trimEnd_blanks (h : ∀ c ∈ gap, isBlank c = true) : trimEnd gap = [] := by
  induction gap with
  | nil => rfl
  | cons c gap ih =>
    rw [trimEnd, ih fun d hd => h d (List.mem_cons_of_mem _ hd)]
    simp [h c List.mem_cons_self]

theorem trimEnd_append (h : ∀ c ∈ gap, isBlank c = true) (cs : List Char) :
    trimEnd (cs ++ gap) = trimEnd cs := by
  induction cs with
  | nil => exact trimEnd_blanks h
  | cons c cs ih => rw [List.cons_append, trimEnd, ih, trimEnd]

/-- Nothing is trimmed away before a character that is not blank. -/
theorem trimEnd_append_cons (h : isBlank c = false) (cs rest : List Char) :
    trimEnd (cs ++ c :: rest) = cs ++ c :: trimEnd rest := by
  induction cs with
  | nil =>
    rw [List.nil_append, trimEnd]
    split
    · rename_i hrest
      simp [h, hrest]
    · rfl
  | cons d cs ih =>
    rw [List.cons_append, trimEnd_cons_of_ne_nil (by simp [ih]), ih, List.cons_append]

theorem length_trimEnd_le (cs : List Char) : (trimEnd cs).length ≤ cs.length := by
  induction cs with
  | nil => exact Nat.le_refl 0
  | cons c cs ih =>
    rw [trimEnd]
    split
    · split <;> simp
    · simpa using ih

/-- A text that trimming leaves as it is does not begin with a blank. -/
theorem isBlank_head_of_trim (h : trim (c :: cs) = c :: cs) : isBlank c = false := by
  refine Bool.eq_false_iff.mpr fun hc => ?_
  have hstart : trimStart (c :: cs) = trimStart cs := List.dropWhile_cons_of_pos hc
  have hlen : (trimStart cs).length ≤ cs.length := (List.dropWhile_suffix _).length_le
  have hend := length_trimEnd_le (trimStart cs)
  rw [trim, hstart] at h
  rw [h, List.length_cons] at hend
  omega

theorem isBlank_last_of_trimEnd (h : trimEnd (cs ++ [c]) = cs ++ [c]) : isBlank c = false := by
  refine Bool.eq_false_iff.mpr fun hc => ?_
  have hend : trimEnd (cs ++ [c]) = trimEnd cs := trimEnd_append (by simpa using hc) cs
  have hlen := length_trimEnd_le cs
  rw [← hend, h, List.length_append, List.length_singleton] at hlen
  omega

/-- A text that trimming leaves as it is does not end with a blank. -/
theorem isBlank_last_of_trim (h : trim (cs ++ [c]) = cs ++ [c]) : isBlank c = false := by
  obtain ⟨d, ds, hd⟩ := List.exists_cons_of_ne_nil (l := cs ++ [c]) (by simp)
  have hstart : trimStart (cs ++ [c]) = cs ++ [c] := by
    rw [hd] at h ⊢
    exact trimStart_cons (isBlank_head_of_trim h)
  rw [trim, hstart] at h
  exact isBlank_last_of_trimEnd h

/-- What is trimmed away at the front are blanks. -/
theorem exists_trimStart (cs : List Char) :
    ∃ gap, (∀ c ∈ gap, isBlank c = true) ∧ cs = gap ++ trimStart cs :=
  ⟨cs.takeWhile isBlank, List.all_eq_true.mp (List.all_takeWhile (p := isBlank)),
    List.takeWhile_append_dropWhile.symm⟩

theorem isBlank_of_trimStart {tail : List Char} (h : trimStart cs = c :: tail) :
    isBlank c = false := by
  have hhead := List.head?_dropWhile_not isBlank cs
  rwa [← trimStart, h] at hhead

/-- What is trimmed away at the end are blanks. -/
theorem exists_trimEnd (cs : List Char) :
    ∃ gap, (∀ c ∈ gap, isBlank c = true) ∧ cs = trimEnd cs ++ gap := by
  induction cs with
  | nil => exact ⟨[], by simp, rfl⟩
  | cons c cs ih =>
    obtain ⟨gap, hgap, hcs⟩ := ih
    rw [trimEnd]
    split
    · rename_i hnil
      rw [hnil, List.nil_append] at hcs
      split
      · rename_i hc
        exact ⟨c :: gap, List.forall_mem_cons.mpr ⟨hc, hgap⟩, by rw [hcs, List.nil_append]⟩
      · exact ⟨gap, hgap, by rw [hcs, List.singleton_append]⟩
    · exact ⟨gap, hgap, by rw [List.cons_append, ← hcs]⟩

theorem trimEnd_trimEnd (cs : List Char) : trimEnd (trimEnd cs) = trimEnd cs := by
  obtain ⟨gap, hgap, hcs⟩ := exists_trimEnd cs
  exact ((congrArg trimEnd hcs).trans (trimEnd_append hgap (trimEnd cs))).symm

theorem trim_cons (h : isBlank c = false) (cs : List Char) : trim (c :: cs) = c :: trimEnd cs := by
  rw [trim, trimStart_cons h]
  exact trimEnd_append_cons h [] cs

/-- Nothing is trimmed away from a text without blanks. -/
theorem trim_of_blankless (h : ∀ c ∈ cs, isBlank c = false) : trim cs = cs := by
  have hend : trimEnd cs = cs := by
    induction cs with
    | nil => rfl
    | cons c cs ih =>
      have hc := trimEnd_append_cons (h c List.mem_cons_self) [] cs
      rwa [ih fun d hd => h d (List.mem_cons_of_mem _ hd)] at hc
  cases cs with
  | nil => rfl
  | cons c cs => rw [trim, trimStart_cons (h c List.mem_cons_self), hend]

theorem isBlank_of_isAlphanum (h : c.isAlphanum = true) : isBlank c = false := by
  have hrange : 48 ≤ c.toNat ∧ c.toNat ≤ 122 := by
    delta Char.isAlphanum Char.isAlpha Char.isUpper Char.isLower Char.isDigit at h
    simp [UInt32.le_iff_toNat_le] at h
    omega
  simp [isBlank]
  omega

/-- Blanks behind a text that does not begin with one are trimmed away. -/
theorem trim_append (hw : cs ≠ []) (ht : trim cs = cs) (h : ∀ c ∈ gap, isBlank c = true) :
    trim (cs ++ gap) = cs := by
  cases cs with
  | nil => exact absurd rfl hw
  | cons c cs =>
    have hc := isBlank_head_of_trim ht
    rw [trim, trimStart_cons hc] at ht
    rw [trim, List.cons_append, trimStart_cons hc, ← List.cons_append, trimEnd_append h, ht]

end ServerRun.Text
