import ServerRun.Text.Digit

/-! Whole numbers as they are written: reading the decimal digits of a number gives the number. -/

namespace ServerRun.Text

theorem digitValue?_of_isDigit {c : Char} (h : c.isDigit = true) :
    digitValue? c = some (c.toNat - 48) := by
  simp only [Char.isDigit, Bool.and_eq_true, decide_eq_true_eq] at h
  obtain ⟨h0, h9⟩ := h
  have hlow : 48 ≤ c.toNat := h0
  have hhigh : c.toNat < 48 + 10 := Nat.lt_succ_of_le h9
  simp [digitValue?, digitZeros, hlow, hhigh]

/-- Digits of the first script are read as the standard library reads them. -/
theorem natOfDigits_eq_ofDigitChars {ds : List Char} (h : ∀ c ∈ ds, c.isDigit = true) (acc : Nat) :
    natOfDigits acc ds = Nat.ofDigitChars 10 ds acc := by
  induction ds generalizing acc with
  | nil => rfl
  | cons c ds ih =>
    have hc := digitValue?_of_isDigit (h c List.mem_cons_self)
    have hds := ih fun d hd => h d (List.mem_cons_of_mem _ hd)
    simp only [natOfDigits, hc, Option.getD_some, hds, Nat.ofDigitChars_cons]
    congr 1
    rw [Nat.mul_comm]
    rfl

theorem isDigit_of_mem_repr {n : Nat} {c : Char} (h : c ∈ n.repr.toList) : c.isDigit = true := by
  rw [Nat.toList_repr] at h
  exact Nat.isDigit_of_mem_toDigits (by decide) (by decide) h

theorem natOfDigits_repr (n : Nat) : natOfDigits 0 n.repr.toList = n := by
  rw [natOfDigits_eq_ofDigitChars fun c => isDigit_of_mem_repr, Nat.toList_repr]
  exact Nat.ofDigitChars_toDigits (by decide) (by decide)

theorem repr_ne_nil (n : Nat) : n.repr.toList ≠ [] := by
  rw [Nat.toList_repr]
  exact Nat.toDigits_ne_nil

theorem all_isDigit_repr (n : Nat) : n.repr.toList.all isDigit = true := by
  refine List.all_eq_true.mpr fun c hc => ?_
  simp [isDigit, digitValue?_of_isDigit (isDigit_of_mem_repr hc)]

theorem head_repr_ne (n : Nat) (ds : List Char) : n.repr.toList ≠ '-' :: ds := by
  intro h
  have hd : Char.isDigit '-' = true := isDigit_of_mem_repr (n := n) (by simp [h])
  cases hd

theorem int?_repr (n : Nat) : int? n.repr.toList = some (n : Int) := by
  unfold int?
  split
  · rename_i ds h
    exact absurd h (head_repr_ne n ds)
  · rw [if_pos ⟨repr_ne_nil n, all_isDigit_repr n⟩, natOfDigits_repr]

theorem toList_toString_neg (n : Nat) :
    (toString (Int.negSucc n)).toList = '-' :: (n + 1).repr.toList := by
  have h : toString (Int.negSucc n) = "-" ++ (n + 1).repr := rfl
  rw [h, String.toList_append]
  rfl

/-- A whole number is read back from its text. -/
theorem int?_toString (i : Int) : int? (toString i).toList = some i := by
  cases i with
  | ofNat n => exact int?_repr n
  | negSucc n =>
    rw [toList_toString_neg, int?, if_pos ⟨repr_ne_nil _, all_isDigit_repr _⟩, natOfDigits_repr]
    rfl

theorem toString_int_ne_nil (i : Int) : (toString i).toList ≠ [] := by
  cases i with
  | ofNat n => exact repr_ne_nil n
  | negSucc n =>
    rw [toList_toString_neg]
    exact List.cons_ne_nil _ _

/-- The text of a whole number consists of digits and a sign. -/
theorem mem_toString_int {i : Int} {c : Char} (h : c ∈ (toString i).toList) :
    c = '-' ∨ c.isDigit = true := by
  cases i with
  | ofNat n => exact .inr (isDigit_of_mem_repr h)
  | negSucc n =>
    rw [toList_toString_neg, List.mem_cons] at h
    exact h.imp_right isDigit_of_mem_repr

end ServerRun.Text
