import ServerRun.Server.Lines

/-! The printed output of a child against its lines. Whatever the chunks are in which a stream
comes, what is printed for its lines is printed in their order, and reading goes on until the stream
ends. Nothing else is printed exactly when no part of an overlong line prints anything that was
still to come when the reader, at the end of a chunk, dropped the part before it. -/

namespace ServerRun.Server

variable {limit : Nat} {bs xs ys line rest begun : List UInt8} {chunks : List (List UInt8)}

/-! ### lines -/

/-- What is printed for the lines of a stream. -/
def printedLines (limit : Nat) (bs : List UInt8) : List OutputLine :=
  (linesOf bs).flatMap (printedFor limit)

/-- The bytes after the last newline. -/
def openLine : List UInt8 → List UInt8
  | [] => []
  | b :: bs => if 10 ∈ b :: bs then openLine bs else b :: bs

/-- The bytes before the first newline. -/
def firstLine (bs : List UInt8) : List UInt8 := bs.takeWhile (· != 10)

/-- A stream is a line that is not at its end, or a line at its end in front of a stream. -/
theorem lines_induction {motive : List UInt8 → Prop} (bs : List UInt8)
    (unended : ∀ line, 10 ∉ line → motive line)
    (ended : ∀ line rest, 10 ∉ line → motive rest → motive (line ++ 10 :: rest)) : motive bs := by
  induction hn : bs.length using Nat.strongRecOn generalizing bs with
  | ind n ih =>
    subst hn
    by_cases hmem : 10 ∈ bs
    · obtain ⟨line, rest, rfl, hline⟩ := List.eq_append_cons_of_mem hmem
      exact ended line rest hline (ih rest.length (by simp; omega) rest rfl)
    · exact unended bs hmem

theorem linesOf_unended (hline : 10 ∉ line) : linesOf line = if line = [] then [] else [line] := by
  induction line with
  | nil => rfl
  | cons b bs ih =>
    obtain ⟨hb, hbs⟩ := not_or.mp (mt List.mem_cons.mpr hline)
    rw [linesOf, if_neg (Ne.symm hb), ih hbs]
    by_cases hnil : bs = [] <;> simp [hnil]

theorem linesOf_ended (hline : 10 ∉ line) :
    linesOf (line ++ 10 :: rest) = line :: linesOf rest := by
  induction line with
  | nil => rfl
  | cons b bs ih =>
    obtain ⟨hb, hbs⟩ := not_or.mp (mt List.mem_cons.mpr hline)
    rw [List.cons_append, linesOf, if_neg (Ne.symm hb), ih hbs]

theorem printedFor_nil : printedFor limit [] = [] := by
  rw [printedFor, List.length_nil, if_neg (Nat.not_lt_zero limit)]
  rfl

theorem printedFor_overlong (h : limit < line.length) : printedFor limit line = [.marker] :=
  if_pos h

theorem length_le_of_printedFor (h : printedFor limit line = []) : line.length ≤ limit := by
  refine Nat.not_lt.mp fun hlong => ?_
  rw [printedFor_overlong hlong] at h
  cases h

theorem printedLines_unended (hline : 10 ∉ line) :
    printedLines limit line = printedFor limit line := by
  rw [printedLines, linesOf_unended hline]
  split
  · rename_i hnil
    subst hnil
    exact printedFor_nil.symm
  · rw [List.flatMap_singleton]

theorem printedLines_ended (hline : 10 ∉ line) :
    printedLines limit (line ++ 10 :: rest) = printedFor limit line ++ printedLines limit rest := by
  rw [printedLines, linesOf_ended hline, List.flatMap_cons, ← printedLines]

theorem firstLine_append (hline : 10 ∉ line) (bs : List UInt8) :
    firstLine (line ++ bs) = line ++ firstLine bs := by
  refine List.takeWhile_append_of_pos fun b hb => ?_
  simp only [bne_iff_ne, ne_eq]
  rintro rfl
  exact hline hb

/-- What comes of the first line is printed for it with whatever stands in front of it. -/
theorem exists_printedLines_append (limit : Nat) (bs : List UInt8) : ∃ more, ∀ line, 10 ∉ line →
    printedLines limit (line ++ bs) = printedFor limit (line ++ firstLine bs) ++ more := by
  by_cases hmem : 10 ∈ bs
  · obtain ⟨first, rest, rfl, hfirst⟩ := List.eq_append_cons_of_mem hmem
    refine ⟨printedLines limit rest, fun line hline => ?_⟩
    have hnone : firstLine (10 :: rest) = [] := rfl
    rw [firstLine_append hfirst, hnone, List.append_nil, ← List.append_assoc,
      printedLines_ended (by simp [hline, hfirst])]
  · have hall := firstLine_append hmem []
    have hnone : firstLine [] = [] := rfl
    rw [hnone, List.append_nil] at hall
    refine ⟨[], fun line hline => ?_⟩
    rw [hall, List.append_nil, printedLines_unended (by simp [hline, hmem])]

/-! ### the open line -/

theorem openLine_unended (hline : 10 ∉ line) : openLine line = line := by
  cases line with
  | nil => rfl
  | cons b bs => rw [openLine, if_neg hline]

theorem openLine_newline (xs rest : List UInt8) : openLine (xs ++ 10 :: rest) = openLine rest := by
  induction xs with
  | nil => rw [List.nil_append, openLine, if_pos List.mem_cons_self]
  | cons b bs ih => rw [List.cons_append, openLine, if_pos (by simp), ih]

theorem notMem_openLine (bs : List UInt8) : 10 ∉ openLine bs := by
  induction bs using lines_induction with
  | unended line hline => rwa [openLine_unended hline]
  | ended line rest hline ih => rwa [openLine_newline]

/-- Where a newline has come, only what came after it belongs to the open line. -/
theorem openLine_append_of_mem (xs : List UInt8) (h : 10 ∈ ys) :
    openLine (xs ++ ys) = openLine ys := by
  obtain ⟨line, rest, rfl⟩ := List.append_of_mem h
  rw [← List.append_assoc, openLine_newline, openLine_newline]

theorem openLine_append (xs ys : List UInt8) :
    openLine (xs ++ ys) = openLine (openLine xs ++ ys) := by
  induction xs using lines_induction with
  | unended line hline => rw [openLine_unended hline]
  | ended line rest hline ih =>
    rw [List.append_assoc, List.cons_append, openLine_newline, ih, openLine_newline]

/-! ### reading -/

namespace LineReader

theorem splitLine_unended (hline : 10 ∉ line) : splitLine line = none := by
  induction line with
  | nil => rfl
  | cons b bs ih =>
    obtain ⟨hb, hbs⟩ := not_or.mp (mt List.mem_cons.mpr hline)
    rw [splitLine, if_neg (Ne.symm hb), ih hbs, Option.map_none]

theorem splitLine_ended (hline : 10 ∉ line) :
    splitLine (line ++ 10 :: rest) = some (line, rest) := by
  induction line with
  | nil => rfl
  | cons b bs ih =>
    obtain ⟨hb, hbs⟩ := not_or.mp (mt List.mem_cons.mpr hline)
    rw [List.cons_append, splitLine, if_neg (Ne.symm hb), ih hbs, Option.map_some]

/-- A line at its end is printed, and then what can be read behind it. -/
theorem print_ended (hline : 10 ∉ line) (limit : Nat) (rest : List UInt8) (ended : Bool)
    (fuel : Nat) :
    (LineReader.mk limit (line ++ 10 :: rest) ended).print (fuel + 1) =
      (printedFor limit line ++ ((LineReader.mk limit rest ended).print fuel).1,
        ((LineReader.mk limit rest ended).print fuel).2) := by
  rw [print, read, splitLine_ended hline]
  dsimp only
  by_cases hlong : limit < line.length
  · simp [printedFor, hlong]
  · simp [printedFor, hlong]

/-- A line that is not at its end waits for more, unless it is overlong. -/
theorem print_open (hline : 10 ∉ line) (limit fuel : Nat) (hfuel : line.length < fuel) :
    (LineReader.mk limit line false).print fuel =
      if limit < line.length then ([.marker], false, ⟨limit, [], false⟩)
      else ([], false, ⟨limit, line, false⟩) := by
  obtain ⟨n, rfl⟩ := Nat.exists_eq_succ_of_ne_zero (Nat.ne_of_gt (Nat.zero_lt_of_lt hfuel))
  rw [print, read, splitLine_unended hline]
  dsimp only
  by_cases hlong : limit < line.length
  · obtain ⟨k, rfl⟩ : ∃ k, n = k + 1 := Nat.exists_eq_succ_of_ne_zero (by omega)
    simp [hlong, print, read, splitLine]
  · simp [hlong]

/-- At the end of a stream its last line is printed. -/
theorem print_last (hline : 10 ∉ line) (limit fuel : Nat) (hfuel : line.length < fuel) :
    (LineReader.mk limit line true).print fuel =
      (printedFor limit line, true, ⟨limit, [], true⟩) := by
  obtain ⟨n, rfl⟩ := Nat.exists_eq_succ_of_ne_zero (Nat.ne_of_gt (Nat.zero_lt_of_lt hfuel))
  rw [print, read, splitLine_unended hline]
  dsimp only
  by_cases hnil : line = []
  · subst hnil
    simp [printedFor_nil]
  · have hpos : 0 < line.length := List.length_pos_iff.mpr hnil
    obtain ⟨k, rfl⟩ : ∃ k, n = k + 1 := Nat.exists_eq_succ_of_ne_zero (by omega)
    by_cases hlong : limit < line.length <;> simp [hlong, hnil, print, read, splitLine, printedFor]

/-- While a stream is not at its end, the lines at their end are printed, the open line is kept, and
reading goes on; an overlong open line is dropped. -/
theorem printAll_open (limit : Nat) (bs : List UInt8) : ∃ printed : List OutputLine,
    (∀ more,
        printedLines limit (bs ++ more) = printed ++ printedLines limit (openLine bs ++ more)) ∧
    (LineReader.mk limit bs false).printAll =
      if limit < (openLine bs).length then (printed ++ [.marker], false, ⟨limit, [], false⟩)
      else (printed, false, ⟨limit, openLine bs, false⟩) := by
  suffices h : ∀ fuel, bs.length < fuel → ∃ printed : List OutputLine,
      (∀ more, printedLines limit (bs ++ more) =
        printed ++ printedLines limit (openLine bs ++ more)) ∧
      (LineReader.mk limit bs false).print fuel =
        if limit < (openLine bs).length then (printed ++ [.marker], false, ⟨limit, [], false⟩)
        else (printed, false, ⟨limit, openLine bs, false⟩) from h _ (Nat.lt_succ_self _)
  induction bs using lines_induction with
  | unended line hline =>
    intro fuel hfuel
    refine ⟨[], fun more => ?_, ?_⟩
    · rw [openLine_unended hline, List.nil_append]
    · rw [openLine_unended hline, print_open hline limit fuel hfuel, List.nil_append]
  | ended line rest hline ih =>
    intro fuel hfuel
    rw [List.length_append, List.length_cons] at hfuel
    obtain ⟨n, rfl⟩ : ∃ n, fuel = n + 1 := Nat.exists_eq_succ_of_ne_zero (by omega)
    obtain ⟨printed, hprinted, hprint⟩ := ih n (by omega)
    refine ⟨printedFor limit line ++ printed, fun more => ?_, ?_⟩
    · rw [List.append_assoc, List.cons_append, printedLines_ended hline, hprinted,
        openLine_newline, List.append_assoc]
    · rw [print_ended hline, openLine_newline, hprint]
      split <;> simp

/-- At the end of a stream everything that is left is printed. -/
theorem printAll_last (limit : Nat) (bs : List UInt8) :
    (LineReader.mk limit bs true).printAll =
      (printedLines limit bs, true, ⟨limit, [], true⟩) := by
  suffices h : ∀ fuel, bs.length < fuel → (LineReader.mk limit bs true).print fuel =
      (printedLines limit bs, true, ⟨limit, [], true⟩) from h _ (Nat.lt_succ_self _)
  induction bs using lines_induction with
  | unended line hline =>
    intro fuel hfuel
    rw [print_last hline limit fuel hfuel, printedLines_unended hline]
  | ended line rest hline ih =>
    intro fuel hfuel
    rw [List.length_append, List.length_cons] at hfuel
    obtain ⟨n, rfl⟩ : ∃ n, fuel = n + 1 := Nat.exists_eq_succ_of_ne_zero (by omega)
    rw [print_ended hline, ih n (by omega), printedLines_ended hline]

/-- Reading comes to its end with the stream. -/
theorem printAll_ended (r : LineReader) : r.printAll.2.1 = r.ended := by
  obtain ⟨limit, bs, ended⟩ := r
  cases ended with
  | true => rw [printAll_last]
  | false =>
    obtain ⟨printed, -, hprint⟩ := printAll_open limit bs
    rw [hprint]
    split <;> rfl

/-- What a reader prints that has kept a line and reads chunk by chunk. -/
theorem echo_nil (limit : Nat) (begun : List UInt8) :
    (LineReader.mk limit begun false).echo [] = printedLines limit begun := by
  rw [echo, close, printAll_last]

theorem exists_echo_cons (limit : Nat) (begun chunk : List UInt8) : ∃ printed : List OutputLine,
    (∀ more, printedLines limit (begun ++ chunk ++ more) =
      printed ++ printedLines limit (openLine (begun ++ chunk) ++ more)) ∧
    ∀ chunks, (LineReader.mk limit begun false).echo (chunk :: chunks) =
      if limit < (openLine (begun ++ chunk)).length then
        printed ++ .marker :: (LineReader.mk limit [] false).echo chunks
      else printed ++ (LineReader.mk limit (openLine (begun ++ chunk)) false).echo chunks := by
  obtain ⟨printed, hprinted, hprint⟩ := printAll_open limit (begun ++ chunk)
  refine ⟨printed, hprinted, fun chunks => ?_⟩
  rw [echo, feed, hprint]
  dsimp only
  split
  · rw [List.append_assoc, List.singleton_append]
  · rfl

end LineReader

/-! ### chunks -/

/-- Of a line of which `begun` has come and which goes on with a sequence of chunks, or of a later
line, the reader drops an overlong part at the end of a chunk, and that is the first part of the
line that it drops; `rest` is what is still to come of it. -/
def IsCutOff (limit : Nat) (begun : List UInt8) (chunks : List (List UInt8)) (rest : List UInt8) :
    Prop :=
  ∃ before after, chunks = before ++ after ∧ rest = firstLine after.flatten ∧
    limit < (openLine (begun ++ before.flatten)).length ∧
    ∀ earlier later, before = earlier ++ later → later ≠ [] → 10 ∉ later.flatten →
      (openLine (begun ++ earlier.flatten)).length ≤ limit

/-- What a reader prints contains what is printed for the lines, in order. -/
theorem sublist_echo (limit : Nat) (begun : List UInt8) (chunks : List (List UInt8)) :
    (printedLines limit (begun ++ chunks.flatten)).Sublist
      ((LineReader.mk limit begun false).echo chunks) := by
  induction chunks generalizing begun with
  | nil =>
    have hecho : (LineReader.mk limit begun false).echo [] =
        printedLines limit (begun ++ [].flatten) := by
      rw [LineReader.echo_nil, List.flatten_nil, List.append_nil]
    exact hecho ▸ List.Sublist.refl _
  | cons chunk chunks ih =>
    obtain ⟨printed, hprinted, hecho⟩ := LineReader.exists_echo_cons limit begun chunk
    rw [hecho, List.flatten_cons, ← List.append_assoc, hprinted]
    split
    · rename_i hlong
      obtain ⟨more, hmore⟩ := exists_printedLines_append limit chunks.flatten
      have hrest := ih []
      rw [List.nil_append] at hrest
      have hfirst := hmore [] (by simp)
      rw [List.nil_append, List.nil_append] at hfirst
      rw [hmore _ (notMem_openLine _),
        printedFor_overlong (by rw [List.length_append]; omega), List.singleton_append]
      rw [hfirst] at hrest
      exact (((List.sublist_append_right _ _).trans hrest).cons_cons _).append_left _
    · exact (ih _).append_left _


/-- A further chunk adds to the line that has begun. -/
theorem isCutOff_cons {chunk : List UInt8} (hbegun : 10 ∉ begun) (hlimit : begun.length ≤ limit) :
    IsCutOff limit begun (chunk :: chunks) rest ↔
      IsCutOff limit (openLine (begun ++ chunk)) chunks rest := by
  have hopen (before : List (List UInt8)) : openLine (begun ++ (chunk :: before).flatten) =
      openLine (openLine (begun ++ chunk) ++ before.flatten) := by
    rw [List.flatten_cons, ← List.append_assoc, openLine_append]
  constructor
  · rintro ⟨_ | ⟨c, before⟩, after, heq, hrest, hlong, hfirst⟩
    · rw [List.flatten_nil, List.append_nil, openLine_unended hbegun] at hlong
      omega
    · obtain ⟨rfl, rfl⟩ := List.cons.inj heq
      refine ⟨before, after, rfl, hrest, hopen before ▸ hlong, fun earlier later h hne hlater => ?_⟩
      rw [← hopen]
      exact hfirst (chunk :: earlier) later (by rw [h, List.cons_append]) hne hlater
  · rintro ⟨before, after, rfl, hrest, hlong, hfirst⟩
    refine ⟨chunk :: before, after, rfl, hrest, by rwa [hopen], ?_⟩
    rintro (_ | ⟨c, earlier⟩) later h hne hlater
    · rwa [List.flatten_nil, List.append_nil, openLine_unended hbegun]
    · obtain ⟨rfl, rfl⟩ := List.cons.inj h
      rw [hopen]
      exact hfirst earlier later rfl hne hlater

/-- The part that a reader drops at the end of a chunk is cut off from the rest of the line. -/
theorem isCutOff_firstLine {chunk : List UInt8} (hbegun : 10 ∉ begun)
    (hlimit : begun.length ≤ limit) (hdropped : limit < (openLine (begun ++ chunk)).length) :
    IsCutOff limit begun (chunk :: chunks) (firstLine chunks.flatten) := by
  refine ⟨[chunk], chunks, rfl, rfl, by simpa using hdropped, ?_⟩
  rintro (_ | ⟨c, earlier⟩) later h hne -
  · rwa [List.flatten_nil, List.append_nil, openLine_unended hbegun]
  · obtain ⟨-, h⟩ := List.cons.inj h
    exact absurd (List.append_eq_nil_iff.mp h.symm).2 hne

/-- After a part was dropped, further cuts in the same line do not count, and those in later lines
are what they are for a reader that begins with the next chunk. -/
theorem isCutOff_cons_of_dropped {chunk : List UInt8} (hbegun : 10 ∉ begun)
    (hlimit : begun.length ≤ limit) (hdropped : limit < (openLine (begun ++ chunk)).length)
    (hshort : (firstLine chunks.flatten).length ≤ limit) :
    IsCutOff limit begun (chunk :: chunks) rest ↔
      rest = firstLine chunks.flatten ∨ IsCutOff limit [] chunks rest := by
  have hopen {before : List (List UInt8)} (h : 10 ∈ before.flatten) :
      openLine (begun ++ (chunk :: before).flatten) = openLine ([] ++ before.flatten) := by
    rw [List.flatten_cons, ← List.append_assoc, openLine_append_of_mem _ h, List.nil_append]
  have hmem {earlier later : List (List UInt8)} (h : 10 ∈ (earlier ++ later).flatten)
      (hlater : 10 ∉ later.flatten) : 10 ∈ earlier.flatten := by
    rw [List.flatten_append, List.mem_append] at h
    exact h.resolve_right hlater
  constructor
  · rintro ⟨_ | ⟨c, before⟩, after, heq, hrest, hlong, hfirst⟩
    · rw [List.flatten_nil, List.append_nil, openLine_unended hbegun] at hlong
      omega
    · obtain ⟨rfl, rfl⟩ := List.cons.inj heq
      by_cases hnil : before = []
      · subst hnil
        exact .inl hrest
      have hnewline : 10 ∈ before.flatten := by
        refine Decidable.byContradiction fun h => ?_
        have hle := hfirst [chunk] before rfl hnil h
        rw [List.flatten_singleton] at hle
        omega
      refine .inr ⟨before, after, rfl, hrest, hopen hnewline ▸ hlong, ?_⟩
      intro earlier later h hne hlater
      rw [← hopen (hmem (h ▸ hnewline) hlater)]
      exact hfirst (chunk :: earlier) later (by rw [h, List.cons_append]) hne hlater
  · rintro (rfl | ⟨before, after, rfl, hrest, hlong, hfirst⟩)
    · exact isCutOff_firstLine hbegun hlimit hdropped
    · have hnewline : 10 ∈ before.flatten := by
        refine Decidable.byContradiction fun h => ?_
        rw [List.nil_append, openLine_unended h] at hlong
        rw [List.flatten_append] at hshort
        rw [firstLine_append h, List.length_append] at hshort
        omega
      refine ⟨chunk :: before, after, rfl, hrest, (hopen hnewline).symm ▸ hlong, ?_⟩
      rintro (_ | ⟨c, earlier⟩) later h hne hlater
      · rwa [List.flatten_nil, List.append_nil, openLine_unended hbegun]
      · obtain ⟨rfl, rfl⟩ := List.cons.inj h
        rw [hopen (hmem hnewline hlater)]
        exact hfirst earlier later rfl hne hlater

/-- A reader prints what is printed for the lines exactly when nothing is printed for the rest of a
line that is cut off. -/
theorem echo_eq_printedLines_iff (hbegun : 10 ∉ begun) (hlimit : begun.length ≤ limit) :
    (LineReader.mk limit begun false).echo chunks = printedLines limit (begun ++ chunks.flatten) ↔
      ∀ rest, IsCutOff limit begun chunks rest → printedFor limit rest = [] := by
  induction chunks generalizing begun with
  | nil =>
    refine ⟨fun _ => ?_, fun _ => ?_⟩
    · rintro rest ⟨before, after, heq, -, hlong, -⟩
      obtain ⟨rfl, -⟩ := List.append_eq_nil_iff.mp heq.symm
      rw [List.flatten_nil, List.append_nil, openLine_unended hbegun] at hlong
      omega
    · rw [LineReader.echo_nil, List.flatten_nil, List.append_nil]
  | cons chunk chunks ih =>
    obtain ⟨printed, hprinted, hecho⟩ := LineReader.exists_echo_cons limit begun chunk
    rw [hecho, List.flatten_cons, ← List.append_assoc, hprinted]
    by_cases hlong : limit < (openLine (begun ++ chunk)).length
    · rw [if_pos hlong, List.append_cancel_left_eq]
      obtain ⟨more, hmore⟩ := exists_printedLines_append limit chunks.flatten
      have hfirst := hmore [] List.not_mem_nil
      rw [List.nil_append, List.nil_append] at hfirst
      have hsublist := sublist_echo limit [] chunks
      have ih := ih List.not_mem_nil (Nat.zero_le limit)
      rw [List.nil_append] at hsublist ih
      rw [hmore _ (notMem_openLine _),
        printedFor_overlong (by rw [List.length_append]; omega), List.singleton_append,
        List.cons.injEq, eq_self, true_and]
      constructor
      · intro heq
        rw [heq, hfirst] at hsublist
        have hlength := hsublist.length_le
        rw [List.length_append] at hlength
        have hempty : printedFor limit (firstLine chunks.flatten) = [] :=
          List.length_eq_zero_iff.mp (by omega)
        intro rest hrest
        rcases (isCutOff_cons_of_dropped hbegun hlimit hlong
          (length_le_of_printedFor hempty)).mp hrest with rfl | hrest
        · exact hempty
        · refine ih.mp ?_ rest hrest
          rw [heq, hfirst, hempty, List.nil_append]
      · intro hall
        have hempty := hall _ (isCutOff_firstLine hbegun hlimit hlong)
        rw [hempty, List.nil_append] at hfirst
        rw [← hfirst]
        refine ih.mpr fun rest hrest => hall rest ?_
        exact (isCutOff_cons_of_dropped hbegun hlimit hlong
          (length_le_of_printedFor hempty)).mpr (.inr hrest)
    · have hkept := Nat.not_lt.mp hlong
      rw [if_neg hlong, List.append_cancel_left_eq, ih (notMem_openLine _) hkept]
      exact forall_congr' fun rest => by
        rw [isCutOff_cons hbegun hlimit]

/-- The chunks in which a stream comes make no difference exactly when nothing is printed for the
rest of a line that is cut off; what is printed for the lines is printed in any case, and reading
comes to its end with the stream. -/
theorem echo_eq_iff (limit : Nat) (chunks : List (List UInt8)) :
    ((LineReader.mk limit [] false).echo chunks =
        (linesOf chunks.flatten).flatMap (printedFor limit) ↔
      ∀ rest, IsCutOff limit [] chunks rest → printedFor limit rest = []) ∧
    ((linesOf chunks.flatten).flatMap (printedFor limit)).Sublist
      ((LineReader.mk limit [] false).echo chunks) ∧
    ∀ r : LineReader, r.printAll.2.1 = r.ended :=
  ⟨echo_eq_printedLines_iff List.not_mem_nil (Nat.zero_le limit), sublist_echo limit [] chunks,
    LineReader.printAll_ended⟩

/-- The rest of an overlong line that comes in a further chunk is printed as a line. -/
theorem echo_ne_of_tornLine :
    (LineReader.mk 4 [] false).echo [[97, 98, 99, 100, 101], [102, 10]] ≠
      (linesOf [97, 98, 99, 100, 101, 102, 10]).flatMap (printedFor 4) := by
  decide +kernel

end ServerRun.Server
