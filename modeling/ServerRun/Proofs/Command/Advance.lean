import Mathlib.Data.List.Infix
import ServerRun.Command.Course
import ServerRun.Proofs.Failure

/-! Reading goes on through the text. A reader leaves an end of what it was given, and a shorter one
unless it fails; the stretches of a course follow each other and have at least one character each.
From every cursor there is exactly one course of reading a token, and of reading several things one
after the other if that is so for each of them. -/

namespace ServerRun.Command

variable {α β : Type} {c : Char} {cs ds mid tail rest stops : List Char} {ss ts : List Stretch}

/-! ### what is left -/

/-- The text that is left where a reader stops. -/
def left : Reading α → List Char
  | .ok (_, rest) => rest
  | .error e => e.rest

@[simp] theorem left_ok (x : α) (rest : List Char) : left (.ok (x, rest)) = rest := rfl

@[simp] theorem left_map (r : Reading α) (f : α → β) :
    left (r.map fun x => (f x.1, x.2)) = left r := by
  cases r <;> rfl

/-- A reader leaves an end of the text, and a shorter one unless it fails. -/
structure Advances (cs : List Char) (r : Reading α) : Prop where
  suffix : left r <:+ cs
  shorter : ∀ x rest, r = .ok (x, rest) → rest.length < cs.length

theorem Advances.of_suffix {r : Reading α} (h : Advances cs r) (hs : cs <:+ ds) : Advances ds r :=
  ⟨h.suffix.trans hs, fun x rest hr => Nat.lt_of_lt_of_le (h.shorter x rest hr) hs.length_le⟩

theorem Advances.map {r : Reading α} (h : Advances cs r) (f : α → β) :
    Advances cs (r.map fun x => (f x.1, x.2)) := by
  refine ⟨(left_map r f).symm ▸ h.suffix, fun y rest hr => ?_⟩
  obtain ⟨x, rfl, hx⟩ := ok_of_map hr
  cases hx
  exact h.shorter x.1 x.2 rfl

theorem trimStart_suffix (cs : List Char) : Text.trimStart cs <:+ cs := List.dropWhile_suffix _

theorem tail_suffix (h : Text.trimStart cs = c :: tail) :
    tail <:+ cs ∧ tail.length < cs.length := by
  have hs := trimStart_suffix cs
  rw [h] at hs
  exact ⟨(List.suffix_cons c tail).trans hs, hs.length_le⟩

theorem advances_readQuoted (cs : List Char) : Advances cs (readQuoted cs) := by
  induction cs using readQuoted.induct with
  | case1 => exact ⟨List.suffix_rfl, nofun⟩
  | case2 => exact ⟨List.nil_suffix, nofun⟩
  | case3 c cs ih => exact (ih.map (c :: ·)).of_suffix (List.suffix_append ['\\', c] cs)
  | case4 cs =>
    refine ⟨List.suffix_cons '"' cs, ?_⟩
    rintro _ _ ⟨⟩
    exact Nat.lt_succ_self _
  | case5 c cs hlast hmark hquote ih =>
    rw [readQuoted.eq_5 _ _ hlast hmark hquote]
    exact (ih.map (c :: ·)).of_suffix (List.suffix_cons c cs)

/-- A bare word takes up a character, unless it is empty. -/
theorem advances_readBare {word : List Char} (h : readBare stops cs = (word, rest)) :
    rest <:+ cs ∧ (word ≠ [] → rest.length < cs.length) := by
  obtain ⟨rfl, rfl⟩ : Text.trim (cs.takeWhile (!stops.contains ·)) = word ∧
      cs.dropWhile (!stops.contains ·) = rest := Prod.mk.inj h
  refine ⟨List.dropWhile_suffix _, fun hword => ?_⟩
  have htake : cs.takeWhile (!stops.contains ·) ≠ [] := fun hn => hword (by rw [hn]; rfl)
  have hpos := List.length_pos_iff.mpr htake
  have hsplit := congrArg List.length
    (List.takeWhile_append_dropWhile (p := (!stops.contains ·)) (l := cs))
  rw [List.length_append] at hsplit
  omega

/-- A quoted string, or a bare word that is not empty, takes up a character. -/
theorem advances_text (quoted bare : List Char → α) (missing : Reason) (stops cs : List Char) :
    Advances cs
      (match Text.trimStart cs with
      | '"' :: rest => (readQuoted rest).map fun (s, rest) => (quoted s, rest)
      | cs =>
        match readBare stops cs with
        | ([], rest) => .error ⟨missing, rest⟩
        | (word, rest) => .ok (bare word, rest)) := by
  refine .of_suffix ?_ (trimStart_suffix cs)
  split
  · rename_i tail hs
    rw [hs]
    exact ((advances_readQuoted tail).map quoted).of_suffix (List.suffix_cons '"' tail)
  · split
    · rename_i rest hbare
      exact ⟨(advances_readBare hbare).1, nofun⟩
    · rename_i word rest hne hbare
      refine ⟨(advances_readBare hbare).1, ?_⟩
      rintro _ _ ⟨⟩
      exact (advances_readBare hbare).2 hne

theorem advances_readName (stops : List Char) (part : Part) (cs : List Char) :
    Advances cs (readName stops part cs) :=
  advances_text String.ofList String.ofList (.missing part) stops cs

theorem advances_readWord (stops cs : List Char) : Advances cs (readWord stops cs) :=
  advances_text (fun s => Json.str (String.ofList s)) bareValue .missingValue stops cs

theorem advances_readSign (c : Char) (cs : List Char) : Advances cs (readSign c cs) := by
  refine .of_suffix ?_ (trimStart_suffix cs)
  rw [readSign, expect]
  split
  · rename_i d tail hs
    rw [hs]
    split
    · refine ⟨List.suffix_cons d tail, ?_⟩
      rintro _ _ ⟨⟩
      exact Nat.lt_succ_self _
    · exact ⟨List.suffix_rfl, nofun⟩
  · exact ⟨List.nil_suffix, nofun⟩

/-! ### stretches in order -/

/-- The stretches from one cursor to another follow each other through the text. -/
structure Proceeds (cs : List Char) (ss : List Stretch) (rest : List Char) : Prop where
  /-- The cursor never moves back: what is left at one moment ends with what is left later. -/
  forward : (cs :: ss.flatMap Stretch.cursors ++ [rest]).Pairwise fun before after =>
    after <:+ before
  within : ∀ s ∈ ss, s.before <:+ cs
  /-- Every stretch has at least one character. -/
  consumes : ∀ s ∈ ss, s.after <:+ s.before ∧ s.after.length < s.before.length

theorem Proceeds.nil (h : rest <:+ cs) : Proceeds cs [] rest :=
  ⟨by simpa using h, by simp, by simp⟩

theorem Proceeds.suffix (h : Proceeds cs ss rest) : rest <:+ cs :=
  (List.pairwise_cons.mp h.forward).1 rest (by simp)

theorem Proceeds.append (h : Proceeds cs ss mid) (ht : Proceeds mid ts rest) :
    Proceeds cs (ss ++ ts) rest := by
  refine ⟨?_, fun s hs => ?_, fun s hs => ?_⟩
  · obtain ⟨hfirst, -, hmid⟩ := List.pairwise_append.mp h.forward
    obtain ⟨hlater, hsecond⟩ := List.pairwise_cons.mp ht.forward
    rw [List.flatMap_append, ← List.cons_append, List.append_assoc]
    exact List.pairwise_append.mpr ⟨hfirst, hsecond, fun c hc d hd =>
      (hlater d hd).trans (hmid c hc mid (by simp))⟩
  · rcases List.mem_append.mp hs with hs | hs
    · exact h.within s hs
    · exact (ht.within s hs).trans h.suffix
  · exact (List.mem_append.mp hs).elim (h.consumes s) (ht.consumes s)

/-- Blanks before the first stretch may be skipped. -/
theorem Proceeds.of_suffix (h : Proceeds cs ss rest) (hs : cs <:+ ds) : Proceeds ds ss rest :=
  (Proceeds.nil hs).append h

theorem proceeds_token (h : rest <:+ cs ∧ rest.length < cs.length) :
    Proceeds cs [⟨.token, cs, rest⟩] rest :=
  ⟨by simp [Stretch.cursors, h.1], by simp, by simpa using h⟩

theorem Proceeds.token (h : mid <:+ cs ∧ mid.length < cs.length) (hr : Proceeds mid ss rest) :
    Proceeds cs (⟨.token, cs, mid⟩ :: ss) rest := (proceeds_token h).append hr

theorem cursors_of_ne {s : Stretch} (h : s.kind ≠ .token) : s.cursors = [s.after] := by
  obtain ⟨kind, before, after⟩ := s
  cases kind <;> first | rfl | exact absurd rfl h

/-- A part that ends where its last token does takes nothing more from the text. -/
theorem Proceeds.part (h : Proceeds cs ss rest) (kind : Stretch.Kind) (hk : kind ≠ .token)
    (hs : ds <:+ cs) (hr : rest <:+ ds ∧ rest.length < ds.length) :
    Proceeds cs (ss ++ [⟨kind, ds, rest⟩]) rest := by
  have hcursors : Stretch.cursors ⟨kind, ds, rest⟩ = [rest] := cursors_of_ne hk
  refine ⟨?_, fun s hs' => ?_, fun s hs' => ?_⟩
  · rw [List.flatMap_append, List.flatMap_singleton, hcursors, ← List.cons_append]
    refine List.pairwise_append.mpr ⟨h.forward, by simp, fun c hc d hd => ?_⟩
    obtain rfl := List.mem_singleton.mp hd
    rcases List.mem_append.mp hc with hc | hc
    · exact (List.pairwise_append.mp h.forward).2.2 c hc d (by simp)
    · rw [List.mem_singleton.mp hc]
  · rcases List.mem_append.mp hs' with hs' | hs'
    · exact h.within s hs'
    · exact List.mem_singleton.mp hs' ▸ hs
  · rcases List.mem_append.mp hs' with hs' | hs'
    · exact h.consumes s hs'
    · exact List.mem_singleton.mp hs' ▸ hr

/-- Every token has characters of its own. -/
theorem Proceeds.tokens_le (h : Proceeds cs ss rest) :
    ss.countP (·.kind = .token) + rest.length ≤ cs.length := by
  obtain ⟨hforward, -, hconsumes⟩ := h
  induction ss generalizing cs with
  | nil =>
    have hrest := (List.pairwise_cons.mp hforward).1 rest (by simp)
    simpa using hrest.length_le
  | cons s ss ih =>
    have hs := (hconsumes s List.mem_cons_self).2
    have hmore := fun t ht => hconsumes t (List.mem_cons_of_mem s ht)
    rw [List.flatMap_cons] at hforward
    by_cases htoken : s.kind = .token
    · have hcursors : s.cursors = [s.before, s.after] := by rw [Stretch.cursors, htoken]
      rw [hcursors] at hforward
      obtain ⟨hbefore, hforward⟩ := List.pairwise_cons.mp hforward
      have hle := (hbefore s.before (by simp)).length_le
      have hlater := ih hforward.tail hmore
      rw [List.countP_cons_of_pos (by simpa using htoken)]
      omega
    · rw [cursors_of_ne htoken] at hforward
      obtain ⟨hafter, hforward⟩ := List.pairwise_cons.mp hforward
      have hle := (hafter s.after (by simp)).length_le
      have hlater := ih hforward hmore
      rw [List.countP_cons_of_neg (by simpa using htoken)]
      omega

/-! ### courses one after the other -/

/-- From each cursor a reader takes exactly one course, which goes on through the text to what the
reader returns. -/
structure Follows (course : Course α) (read : List Char → Reading α) : Prop where
  takes : ∀ cs, ∃ ss, course cs ss (read cs)
  unique : ∀ {cs ss ts r q}, course cs ss r → course cs ts q → ss = ts ∧ r = q
  proceeds : ∀ {cs ss r}, course cs ss r → Proceeds cs ss (left r)

theorem Advances.completed {r : Reading α} (h : Advances cs r) :
    Proceeds cs (completed .token cs r) (left r) := by
  cases r with
  | error e => exact .nil h.suffix
  | ok x => exact proceeds_token ⟨h.suffix, h.shorter x.1 x.2 rfl⟩

theorem follows_token {read : List Char → Reading α} (h : ∀ cs, Advances cs (read cs)) :
    Follows (Token read) read where
  takes cs := ⟨_, rfl, rfl⟩
  unique := by
    rintro cs ss ts r q ⟨rfl, rfl⟩ ⟨rfl, rfl⟩
    exact ⟨rfl, rfl⟩
  proceeds := by
    rintro cs ss r ⟨rfl, rfl⟩
    exact (h cs).completed

theorem follows_give (x : α) : Follows (Give x) fun cs => .ok (x, cs) where
  takes cs := ⟨[], rfl, rfl⟩
  unique := by
    rintro cs ss ts r q ⟨rfl, rfl⟩ ⟨rfl, rfl⟩
    exact ⟨rfl, rfl⟩
  proceeds := by
    rintro cs ss r ⟨rfl, rfl⟩
    exact .nil List.suffix_rfl

theorem Follows.then {first : Course α} {next : α → Course β} {read : List Char → Reading α}
    {readNext : α → List Char → Reading β} (h : Follows first read)
    (hn : ∀ x, Follows (next x) (readNext x)) :
    Follows (Then first next) fun cs => (read cs).bind fun x => readNext x.1 x.2 where
  takes cs := by
    obtain ⟨ss, hss⟩ := h.takes cs
    cases hr : read cs with
    | error e => exact ⟨ss, .failed (hr ▸ hss)⟩
    | ok x =>
      obtain ⟨ts, hts⟩ := (hn x.1).takes x.2
      exact ⟨ss ++ ts, .next (hr ▸ hss) hts⟩
  unique := by
    intro cs ss ts r q hr hq
    cases hr with
    | failed hr =>
      cases hq with
      | failed hq =>
        obtain ⟨rfl, he⟩ := h.unique hr hq
        cases he
        exact ⟨rfl, rfl⟩
      | next hq _ => cases (h.unique hr hq).2
    | next hr hnr =>
      cases hq with
      | failed hq => cases (h.unique hr hq).2
      | next hq hnq =>
        obtain ⟨rfl, he⟩ := h.unique hr hq
        cases he
        obtain ⟨rfl, rfl⟩ := (hn _).unique hnr hnq
        exact ⟨rfl, rfl⟩
  proceeds := by
    intro cs ss r hr
    cases hr with
    | failed hr => exact h.proceeds hr
    | next hr hnr => exact (h.proceeds hr).append ((hn _).proceeds hnr)

/-- A name and the equals sign behind it. -/
def readKey (stops : List Char) (part : Part) (cs : List Char) : Reading String :=
  (readName stops part cs).bind fun x => (readSign '=' x.2).bind fun y => .ok (x.1, y.2)

theorem follows_key (stops : List Char) (part : Part) :
    Follows (ReadsKey stops part) (readKey stops part) :=
  (follows_token (advances_readName stops part)).then fun name =>
    (follows_token (advances_readSign '=')).then fun _ => follows_give name

end ServerRun.Command
