import ServerRun.Proofs.Server.Trace

/-! The loop in which a start asks for the state: a number of rounds, each a read and a sleep after
it, and then at most one read more. A round that does not end at the limit takes a whole interval at
least, so that the limit bounds the rounds and the time. -/

namespace ServerRun.Server

/-- Whether the state begins to be read. -/
def Event.isRead : Event → Bool
  | .waits _ (.readState _) => true
  | _ => false

/-- The loop of a start that asks for the state from a moment on. -/
structure Loop where
  call : Nat
  limit : Seconds
  poll : Seconds
  began : Seconds
  limit_pos : 0 < limit
  poll_pos : 0 < poll

namespace Loop

/-- The moment at which the limit is reached. -/
def deadline (l : Loop) : Seconds := l.began + l.limit

/-- How long a read may last. -/
def readLimit (l : Loop) (r : Seconds) : Seconds := max (l.limit - (r - l.began)) l.poll

/-- How long the loop sleeps after an answer. -/
def nap (l : Loop) (told : Seconds) : Seconds := min (l.limit - (told - l.began)) l.poll

def read (l : Loop) (r : Seconds) : Seconds × Event :=
  (r, .waits l.call (.readState (.finite (l.readLimit r))))

/-- A read whose answer leads to a sleep. -/
def dozing (l : Loop) (r : Seconds) (a : Answer) (told : Seconds) : List (Seconds × Event) :=
  [l.read r, (told, .answered l.call a), (told, .waits l.call (.sleep (l.nap told)))]

/-- Whole rounds of the loop, and the moment at which they are over. -/
inductive Rounds (l : Loop) : Nat → Seconds → List (Seconds × Event) → Prop
  | none : Rounds l 0 l.began []
  | next {n r es} (h : Rounds l n r es) (a : Answer) (told : Seconds) (hr : r ≤ told)
      (ht : told < l.deadline) :
      Rounds l (n + 1) (told + l.nap told)
        (es ++ (l.dozing r a told ++ [(told + l.nap told, .answered l.call .elapsed)]))

variable {l : Loop} {n : Nat} {r told : Seconds} {es tail new before after : List (Seconds × Event)}

theorem nap_pos (ht : told < l.deadline) : 0 < l.nap told := by
  have hd : told < l.began + l.limit := ht
  exact lt_min (by linarith) l.poll_pos

theorem nap_le : l.nap told ≤ l.poll := min_le_right _ _

theorem add_nap_le : told + l.nap told ≤ l.deadline := by
  have hn : l.nap told ≤ l.limit - (told - l.began) := min_le_left _ _
  show told + l.nap told ≤ l.began + l.limit
  linarith

/-- Only a sleep up to the deadline is shorter than an interval. -/
theorem add_nap_eq (h : l.nap told < l.poll) : told + l.nap told = l.deadline := by
  have hn : l.nap told = l.limit - (told - l.began) :=
    min_eq_left (le_of_not_ge fun hp => h.ne (min_eq_right hp))
  show told + l.nap told = l.began + l.limit
  linarith

theorem Rounds.le_deadline (h : l.Rounds n r es) : r ≤ l.deadline := by
  cases h with
  | none => exact le_add_of_nonneg_right l.limit_pos.le
  | next => exact add_nap_le

/-- Rounds that do not end at the deadline take whole intervals. -/
theorem Rounds.mul_poll_le (h : l.Rounds n r es) (hr : r < l.deadline) :
    n * l.poll ≤ r - l.began := by
  induction h with
  | none => simp
  | @next n r es h a told hle ht ih =>
    have hnap : l.nap told = l.poll := nap_le.eq_of_not_lt fun hlt => hr.ne (add_nap_eq hlt)
    have hmul := ih (hle.trans_lt ht)
    push_cast
    linarith

theorem readLimit_pos : 0 < l.readLimit r := lt_max_of_lt_right l.poll_pos

theorem le_add_readLimit : l.deadline ≤ r + l.readLimit r := by
  have hl : l.limit - (r - l.began) ≤ l.readLimit r := le_max_left _ _
  show l.began + l.limit ≤ _
  linarith

theorem Rounds.add_readLimit_le (h : l.Rounds n r es) :
    r + l.readLimit r ≤ l.deadline + l.poll := by
  have hpoll := l.poll_pos
  have hr : r ≤ l.began + l.limit := h.le_deadline
  have hl : l.readLimit r ≤ l.began + l.limit + l.poll - r := max_le (by linarith) (by linarith)
  show _ ≤ l.began + l.limit + l.poll
  linarith

theorem Rounds.le_ceil (h : l.Rounds n r es) : n ≤ ⌈l.limit / l.poll⌉₊ := by
  cases h with
  | none => exact Nat.zero_le _
  | @next n r es h a told hr ht =>
    have hmul := h.mul_poll_le (hr.trans_lt ht)
    have hd : told < l.began + l.limit := ht
    have hdiv : (n : Rat) < l.limit / l.poll := by
      rw [lt_div_iff₀ l.poll_pos]
      linarith
    exact Nat.lt_ceil.mpr hdiv

theorem Rounds.countP (h : l.Rounds n r es) : es.countP (·.2.isRead) = n := by
  induction h with
  | none => rfl
  | next h a told hr ht ih =>
    rw [List.countP_append, ih]
    rfl

/-- The entries of a list with a read up to a place where nothing after it is a read. -/
theorem read_of_append {x e : Seconds × Event} {more : List (Seconds × Event)}
    (hn : ∀ y ∈ more, y.2.isRead = false) (he : e.2.isRead = true)
    (hs : es ++ x :: more = before ++ e :: after) :
    (before = es ∧ e = x ∧ after = more) ∨ ∃ rest, es = before ++ e :: rest := by
  have hmore : e ∉ more := fun hm => by simp [hn e hm] at he
  rw [List.append_cons] at hs
  obtain ⟨rest, h, hafter⟩ := exists_of_append_eq_append_cons hmore hs
  rcases List.eq_nil_or_concat' rest with rfl | ⟨rest, y, rfl⟩
  · obtain ⟨rfl, hx⟩ := List.append_inj' h rfl
    exact .inl ⟨rfl, (List.singleton_inj.mp hx).symm, hafter⟩
  · rw [← List.cons_append, ← List.append_assoc] at h
    exact .inr ⟨rest, (List.append_inj' h rfl).1⟩

/-- What comes before a read of the rounds is a number of rounds itself. -/
theorem Rounds.before_read {e : Seconds × Event} (h : l.Rounds n r es) (he : e.2.isRead = true)
    (hs : es = before ++ e :: after) : (∃ k, l.Rounds k e.1 before) ∧ e.1 < l.deadline := by
  induction h generalizing after with
  | none => simp at hs
  | next h a told hr ht ih =>
    rcases read_of_append (by simp [Event.isRead]) he hs with ⟨rfl, rfl, -⟩ | ⟨rest, hes⟩
    · exact ⟨⟨_, h⟩, hr.trans_lt ht⟩
    · exact ih hes

/-! ### what the rounds are followed by -/

/-- The loop is within its time, and gives up only when the limit is reached. -/
def InBounds (l : Loop) (e : Seconds × Event) : Prop :=
  e.1 ≤ l.deadline + l.poll ∧
    ∀ elapsed limit, e.2 = .ended l.call (.error (.run (.startupTimeout elapsed limit))) →
      l.deadline ≤ e.1 ∧ elapsed = .real (.ofRat (e.1 - l.began))

/-- What follows on whole rounds: at most one read, at the moment at which they are over. -/
structure Tail (l : Loop) (r : Seconds) (tail : List (Seconds × Event)) : Prop where
  first : ∃ e more, tail = (r, e) :: more ∧ ∀ y ∈ more, y.2.isRead = false
  inBounds : ∀ e ∈ tail, l.InBounds e

theorem inBounds_of_le {e : Seconds × Event} (ht : e.1 ≤ l.deadline + l.poll)
    (he : ∀ id x, e.2 ≠ .ended id x) : l.InBounds e :=
  ⟨ht, fun _ _ h => absurd h (he _ _)⟩

theorem le_of_le_deadline (h : r ≤ l.deadline) : r ≤ l.deadline + l.poll :=
  h.trans (le_add_of_nonneg_right l.poll_pos.le)

theorem inBounds_of_dozing (a : Answer) (hr : r ≤ told) (ht : told < l.deadline) :
    ∀ e ∈ l.dozing r a told, l.InBounds e := by
  simp only [dozing, List.forall_mem_cons]
  refine ⟨inBounds_of_le (le_of_le_deadline (hr.trans ht.le)) (by simp [read]),
    inBounds_of_le (le_of_le_deadline ht.le) (by simp),
    inBounds_of_le (le_of_le_deadline ht.le) (by simp), by simp⟩

theorem Rounds.inBounds (h : l.Rounds n r es) : ∀ e ∈ es, l.InBounds e := by
  induction h with
  | none => simp
  | next h a told hr ht ih =>
    simp only [List.forall_mem_append, List.forall_mem_singleton]
    exact ⟨ih, inBounds_of_dozing a hr ht,
      inBounds_of_le (le_of_le_deadline add_nap_le) (by simp)⟩

theorem Rounds.tail_read (h : l.Rounds n r es) : l.Tail r [l.read r] where
  first := ⟨_, [], rfl, by simp⟩
  inBounds e he := by
    rw [List.mem_singleton] at he
    subst he
    exact inBounds_of_le (le_of_le_deadline h.le_deadline) (by simp [read])

theorem tail_dozing (a : Answer) (hr : r ≤ told)
    (ht : told < l.deadline) : l.Tail r (l.dozing r a told) where
  first := ⟨_, _, rfl, by simp [Event.isRead]⟩
  inBounds := inBounds_of_dozing a hr ht

theorem Tail.append (h : l.Tail r tail) (hn : ∀ e ∈ new, e.2.isRead = false)
    (hb : ∀ e ∈ new, l.InBounds e) : l.Tail r (tail ++ new) where
  first := by
    obtain ⟨e, more, rfl, hm⟩ := h.first
    refine ⟨e, more ++ new, rfl, fun y hy => ?_⟩
    rcases List.mem_append.mp hy with hy | hy
    · exact hm y hy
    · exact hn y hy
  inBounds e he := by
    rcases List.mem_append.mp he with he | he
    · exact h.inBounds e he
    · exact hb e he

/-- The loop of a start: the limit and the interval bound the reads and the time, the start gives up
only when the limit is reached, and every read but the first comes right after a sleep, which is
shorter than an interval only before the last read. -/
structure Polling (l : Loop) (loop : List (Seconds × Event)) : Prop where
  reads : loop.countP (·.2.isRead) ≤ ⌈l.limit / l.poll⌉₊ + 1
  within : ∀ e ∈ loop, e.1 ≤ l.began + l.limit + l.poll
  timeout : ∀ (t : Seconds) elapsed limit,
    (t, .ended l.call (.error (.run (.startupTimeout elapsed limit)))) ∈ loop →
      l.limit ≤ t - l.began ∧ t - l.began ≤ l.limit + l.poll ∧
        elapsed = .real (.ofRat (t - l.began))
  apart : ∀ before (r : Seconds) (e : Event) after, loop = before ++ (r, e) :: after →
    e.isRead = true → before = [] ∨
      ∃ (earlier : List (Seconds × Event)) (r' : Seconds) (limit : Span) (told : Seconds)
        (a : Answer) (d : Seconds),
        before = earlier ++ [(r', .waits l.call (.readState limit)), (told, .answered l.call a),
          (told, .waits l.call (.sleep d)), (r, .answered l.call .elapsed)] ∧
        r = told + d ∧ 0 < d ∧ d ≤ l.poll ∧ (d < l.poll → ∀ y ∈ after, y.2.isRead = false)

theorem Rounds.polling (h : l.Rounds n r es) (ht : l.Tail r tail) : l.Polling (es ++ tail) := by
  have inBounds : ∀ e ∈ es ++ tail, l.InBounds e := fun e he =>
    (List.mem_append.mp he).elim (h.inBounds e) (ht.inBounds e)
  obtain ⟨e, more, rfl, hm⟩ := ht.first
  refine ⟨?_, fun e he => (inBounds e he).1, ?_, ?_⟩
  · have hnone : more.countP (·.2.isRead) = 0 :=
      List.countP_eq_zero.mpr fun y hy => by simp [hm y hy]
    have hceil := h.le_ceil
    rw [List.countP_append, List.countP_cons, hnone, h.countP]
    split <;> omega
  · intro t elapsed limit hx
    obtain ⟨hle, hx⟩ := inBounds _ hx
    obtain ⟨hge, helapsed⟩ := hx elapsed limit rfl
    simp only [deadline] at hle hge
    exact ⟨by linarith, by linarith, helapsed⟩
  · intro before r' e' after hs he
    obtain ⟨⟨k, hk⟩, hlast⟩ : (∃ k, l.Rounds k r' before) ∧
        (r' = l.deadline → ∀ y ∈ after, y.2.isRead = false) := by
      rcases read_of_append hm he hs with ⟨rfl, he', rfl⟩ | ⟨rest, hes⟩
      · cases he'
        exact ⟨⟨n, h⟩, fun _ => hm⟩
      · obtain ⟨hk, hlt⟩ := h.before_read he hes
        exact ⟨hk, fun heq => absurd heq hlt.ne⟩
    cases hk with
    | none => exact .inl rfl
    | next hk a told hr ht' =>
      refine .inr ⟨_, _, _, told, a, l.nap told, rfl, rfl, nap_pos ht', nap_le, ?_⟩
      exact fun hlt => hlast (add_nap_eq hlt)

/-! ### the turns of the loop -/

/-- A server whose start keeps to the limit and the interval of the loop, in exact arithmetic. -/
structure Times (l : Loop) (v : Server) : Prop where
  limit : v.startupLimit = .finite l.limit
  poll : v.poll = l.poll
  exact : v.rounding = id

variable {v : Server} {w : Surroundings}

theorem Times.of_sameSetup {u : Server} (h : l.Times v) (hu : SameSetup v u) : l.Times u where
  limit := by
    rw [startupLimit, hu.info]
    exact h.limit
  poll := hu.poll.trans h.poll
  exact := hu.rounding.trans h.exact

/-- A turn of the start ends it, with the time that is over where it gives up. -/
structure Finishes (l : Loop) (now : Seconds) (t : Turn) : Prop where
  ends : t.Ends
  timeout : ∀ elapsed limit, t.outcome = .raised (.run (.startupTimeout elapsed limit)) →
    l.deadline ≤ now ∧ elapsed = .real (.ofRat (now - l.began))

theorem finishes_of_raise {u : Server} {now : Seconds} {f : Failure}
    (h : ∀ elapsed limit, f ≠ .run (.startupTimeout elapsed limit)) :
    l.Finishes now (u.raise f) where
  ends := raise_ends f
  timeout elapsed limit ho := absurd (Outcome.raised.inj ho) (h elapsed limit)

theorem Times.look (h : l.Times v) (w : Surroundings) :
    v.look w l.began =
        v.pause (.readingState l.began) (.readState (.finite (l.readLimit w.now))) ∨
      ∃ u f, v.look w l.began = raise u f ∧
        ∀ elapsed limit, f ≠ .run (.startupTimeout elapsed limit) := by
  unfold Server.look
  split
  · exact .inr ⟨_, _, rfl, by simp [notReady]⟩
  · split
    · exact .inr ⟨_, _, rfl, by simp⟩
    · left
      simp [elapsedSince, h.limit, h.exact, h.poll, Span.minus, Span.map, Span.atLeast, readLimit,
        max_def]

theorem Times.sleepOrGiveUp (h : l.Times v) (w : Surroundings) :
    (w.now < l.deadline ∧ v.sleepOrGiveUp w l.began =
        v.pause (.sleeping l.began) (.sleep (l.nap w.now))) ∨
      l.deadline ≤ w.now ∧ l.Finishes w.now (v.sleepOrGiveUp w l.began) := by
  have helapsed : v.elapsedSince w l.began = w.now - l.began := by rw [elapsedSince, h.exact, id]
  have hreached : v.startupLimit.reachedBy (w.now - l.began) = true ↔ l.deadline ≤ w.now := by
    rw [h.limit, Span.reachedBy, decide_eq_true_eq, le_sub_iff_add_le']
    rfl
  simp only [Server.sleepOrGiveUp, helapsed]
  split
  · rename_i hr
    refine .inr ⟨hreached.mp hr, raise_ends _, fun elapsed limit ho => ⟨hreached.mp hr, ?_⟩⟩
    cases ho
    rfl
  · rename_i hr
    refine .inl ⟨not_le.mp (mt hreached.mpr hr), ?_⟩
    simp only [h.limit, h.exact, h.poll, Span.minus, Span.map, Span.atMost, nap, min_def, id]

/-- After a read the loop sleeps, or it is over. -/
theorem Times.read (h : l.Times v) {id : Nat} {a : Answer} {t : Turn}
    (ha : ∀ elapsed limit, a ≠ .failed (.run (.startupTimeout elapsed limit)))
    (ht : v.nextTurn? w id (.readingState l.began) a = some t) :
    (w.now < l.deadline ∧ t = v.pause (.sleeping l.began) (.sleep (l.nap w.now))) ∨
      l.Finishes w.now t := by
  have slept : (w.now < l.deadline ∧
      v.sleepOrGiveUp w l.began = v.pause (.sleeping l.began) (.sleep (l.nap w.now))) ∨
        l.Finishes w.now (v.sleepOrGiveUp w l.began) := (h.sleepOrGiveUp w).imp_right And.right
  cases a <;> simp [nextTurn?] at ht <;> subst ht
  case state value =>
    by_cases hv : value = some "running"
    · rw [stateRead, if_pos hv]
      exact .inr ⟨fun p w ho => (by cases ho), fun elapsed limit ho => (by cases ho)⟩
    · rw [stateRead, if_neg hv]
      exact slept
  case elapsed => exact slept
  case failed f =>
    rcases v.stateFailed_cases w l.began f with ⟨_, -, hf⟩ | ⟨-, hf⟩ <;> rw [hf]
    · exact slept
    · exact .inr (finishes_of_raise fun elapsed limit hf => ha elapsed limit (hf ▸ rfl))
  case cancelled => exact .inr (finishes_of_raise (by simp))

/-- What a last turn adds to the history: no read, and nothing beyond the bounds. -/
theorem Finishes.of_mem_events {now : Seconds} {t : Turn} (h : l.Finishes now t)
    (hn : now ≤ l.deadline + l.poll) :
    ∀ e ∈ (t.events l.call).map fun e => (now, e), e.2.isRead = false ∧ l.InBounds e := by
  intro e he
  obtain ⟨e, hmem, rfl⟩ := List.mem_map.mp he
  rw [Turn.events, List.mem_append, List.mem_map, List.mem_singleton] at hmem
  rcases hmem with ⟨effect, -, rfl⟩ | rfl
  · exact ⟨rfl, inBounds_of_le hn (by simp)⟩
  · cases ho : t.outcome with
    | paused p w => exact absurd ho (h.ends p w)
    | returned code => exact ⟨rfl, hn, fun elapsed limit he => by cases he⟩
    | raised f =>
      refine ⟨rfl, hn, fun elapsed limit he => h.timeout elapsed limit ?_⟩
      cases he
      exact ho

theorem Finishes.ended {now : Seconds} {t : Turn} (h : l.Finishes now t) :
    ∃ e ∈ (t.events l.call).map fun e => (now, e), ∃ x, e.2 = .ended l.call x := by
  refine ⟨_, List.mem_map_of_mem (List.mem_append_right _ List.mem_cons_self), ?_⟩
  cases ho : t.outcome with
  | paused p w => exact absurd ho (h.ends p w)
  | returned code => exact ⟨_, rfl⟩
  | raised f => exact ⟨_, rfl⟩

end Loop

end ServerRun.Server
