import ServerRun.Proofs.Repository.Turn
import ServerRun.Repository.System

/-! The moves of searches side by side. Each move is one turn of one search; it adds the turn's
events to the history and leaves the other searches where they are. A search is begun once under its
name, and what has ended waits no more. -/

namespace ServerRun.Repository

variable {s search other : Search} {p : Point} {n : News} {t : Turn} {id i : Nat}
  {e first : Event} {r : Except Failure Path} {path : Path} {f : Failure} {x y : System}
  {part : List String} {m : Move}

def Turn.waits (t : Turn) (id : Nat) (search : Search) : List (Nat × Search × Point) :=
  match t.progress with
  | .waiting p => [(id, search, p)]
  | .ended _ => []

/-- What a turn adds to the history. -/
def Turn.events (t : Turn) (id : Nat) : List Event :=
  t.effects.map (.effect id) ++
    match t.progress with
    | .waiting _ => []
    | .ended r => [.ended id r]

namespace System

theorem foldl_record (id : Nat) (effects : List Effect) (x : System) :
    effects.foldl (fun x e => x.record (.effect id e)) x =
      { x with history := x.history ++ effects.map (.effect id) } := by
  induction effects generalizing x with
  | nil => simp
  | cons e effects ih =>
    rw [List.foldl_cons, ih]
    simp [record]

theorem take_eq (x : System) (id : Nat) (search : Search) (t : Turn) :
    x.take id search t =
      { x with
        files := t.files
        waiting := t.waits id search ++ x.waiting
        history := x.history ++ t.events id } := by
  obtain ⟨files, effects, p | r⟩ := t <;> rw [take, foldl_record] <;>
    simp [Turn.waits, Turn.events, record]

theorem step?_search_of_not_mem (search : Search) (hid : id ∉ x.begun) :
    x.step? (.search id search) = some
      { files := (search.start x.files).files
        waiting := (search.start x.files).waits id search ++ x.waiting
        begun := id :: x.begun
        history := x.history ++ .began id search :: (search.start x.files).events id } := by
  rw [step?, if_neg (by simpa using hid)]
  refine congrArg some ((take_eq ..).trans ?_)
  simp [record]

theorem step?_search (h : x.step? (.search id search) = some y) :
    id ∉ x.begun ∧
      y = { files := (search.start x.files).files
            waiting := (search.start x.files).waits id search ++ x.waiting
            begun := id :: x.begun
            history := x.history ++ .began id search :: (search.start x.files).events id } := by
  by_cases hid : id ∈ x.begun
  · simp [step?, hid] at h
  · rw [step?_search_of_not_mem search hid] at h
    exact ⟨hid, (Option.some.inj h).symm⟩

theorem step?_news (h : x.step? (.news id n) = some y) :
    ∃ search p, (id, search, p) ∈ x.waiting ∧
      y = { files := (search.next x.files p n).files
            waiting := (search.next x.files p n).waits id search ++
              x.waiting.filter (·.1 != id)
            begun := x.begun
            history := x.history ++ .heard id n :: (search.next x.files p n).events id } := by
  rw [step?] at h
  obtain ⟨⟨id', search, p⟩, hw, rfl⟩ := Option.map_eq_some_iff.mp h
  have hid : id' = id := by simpa using List.find?_some hw
  subst hid
  refine ⟨search, p, List.mem_of_find?_eq_some hw, ?_⟩
  rw [take_eq]
  simp [record]

end System

/-! ### events -/

/-- The search that an event is about. -/
def Event.about : Event → Nat
  | .began id _ | .effect id _ | .heard id _ | .ended id _ => id

/-- The place where a search that a move begins looks for its artifact. -/
def Move.place? : Move → Option (List String)
  | .search _ search => some search.place
  | .news _ _ => none

/-- The news that a search has heard. -/
def heardIn (id : Nat) (history : List Event) : List News :=
  history.filterMap fun e =>
    match e with
    | .heard i n => if i = id then some n else none
    | _ => none

theorem mem_events : e ∈ t.events id ↔
    (∃ effect ∈ t.effects, e = .effect id effect) ∨
      ∃ r, t.progress = .ended r ∧ e = .ended id r := by
  unfold Turn.events
  cases t.progress <;> simp [eq_comm]

theorem ended_mem_events : .ended i r ∈ t.events id ↔ i = id ∧ t.progress = .ended r := by
  simp only [mem_events, reduceCtorEq, and_false, exists_false, false_or, Event.ended.injEq]
  constructor
  · rintro ⟨r', h, rfl, rfl⟩
    exact ⟨rfl, h⟩
  · rintro ⟨rfl, h⟩
    exact ⟨r, h, rfl, rfl⟩

theorem began_not_mem_events : .began i s ∉ t.events id := by
  simp [mem_events]

theorem about_of_mem_events (h : e ∈ t.events id) : e.about = id := by
  rcases mem_events.mp h with ⟨_, -, rfl⟩ | ⟨_, -, rfl⟩ <;> rfl

theorem mem_waits : (i, s, p) ∈ t.waits id search ↔
    i = id ∧ s = search ∧ t.progress = .waiting p := by
  unfold Turn.waits
  cases t.progress <;> simp [eq_comm]

theorem heardIn_append (id : Nat) (h g : List Event) :
    heardIn id (h ++ g) = heardIn id h ++ heardIn id g := List.filterMap_append

theorem heardIn_cons_of_ne (h : e.about ≠ i) (es : List Event) :
    heardIn i (e :: es) = heardIn i es := by
  cases e with
  | heard j n => exact List.filterMap_cons_none (if_neg h)
  | _ => rfl

theorem heardIn_events (i : Nat) (t : Turn) (id : Nat) : heardIn i (t.events id) = [] := by
  rw [heardIn, List.filterMap_eq_nil_iff]
  intro e he
  rcases mem_events.mp he with ⟨_, -, rfl⟩ | ⟨_, -, rfl⟩ <;> rfl

namespace System

/-- The news that a search has heard. -/
def heard (x : System) (id : Nat) : List News := heardIn id x.history

/-- The files that waiting searches collect content in. -/
def parts (x : System) : List (List String) := x.waiting.filterMap (·.2.2.part?)

theorem mem_parts : part ∈ x.parts ↔
    ∃ id search p, (id, search, p) ∈ x.waiting ∧ p.part? = some part := by
  simp [parts]

/-- What searches have begun, wait and have ended goes together. -/
structure Orderly (x : System) : Prop where
  named : ∀ e ∈ x.history, e.about ∈ x.begun
  once : ∀ id s s', .began id s ∈ x.history → .began id s' ∈ x.history → s = s'
  began : ∀ id s p, (id, s, p) ∈ x.waiting → .began id s ∈ x.history
  alone : ∀ id s p s' p', (id, s, p) ∈ x.waiting → (id, s', p') ∈ x.waiting → s = s' ∧ p = p'
  unended : ∀ id s p r, (id, s, p) ∈ x.waiting → .ended id r ∉ x.history
  ends : ∀ id path f, .ended id (.ok path) ∈ x.history → .ended id (.error f) ∉ x.history

theorem orderly_initial (files : FileSystem) : Orderly { files } := by
  constructor <;> simp

/-- A turn of a search leads from one system to another, where it is not over yet; `first` is what
makes it take the turn. -/
structure Goes (x : System) (id : Nat) (search : Search) (first : Event) (t : Turn) (y : System) :
    Prop where
  files : y.files = t.files
  waiting : ∀ i s p, (i, s, p) ∈ y.waiting ↔
    (i = id ∧ s = search ∧ t.progress = .waiting p) ∨ (i ≠ id ∧ (i, s, p) ∈ x.waiting)
  history : y.history = x.history ++ first :: t.events id
  begun : id ∈ y.begun ∧ x.begun ⊆ y.begun
  first_about : first.about = id
  first_ne : ∀ r, first ≠ .ended id r
  began : ∀ s, .began id s ∈ x.history ++ [first] ↔ s = search
  unended : ∀ r, .ended id r ∉ x.history

theorem goes_search (hx : Orderly x) (h : x.step? (.search id search) = some y) :
    Goes x id search (.began id search) (search.start x.files) y := by
  obtain ⟨hid, rfl⟩ := step?_search h
  have absent {e : Event} (he : e ∈ x.history) : e.about ≠ id := fun h => hid (h ▸ hx.named e he)
  generalize search.start x.files = t
  refine ⟨rfl, fun i s p => ?_, rfl, by simp, rfl, by simp, fun s => ?_, fun r hr => absent hr rfl⟩
  · have hne : (i, s, p) ∈ x.waiting → i ≠ id := fun hw => absent (hx.began i s p hw)
    rw [List.mem_append, mem_waits]
    exact or_congr_right ⟨fun hw => ⟨hne hw, hw⟩, fun hw => hw.2⟩
  · have hne : .began id s ∉ x.history := fun he => absent he rfl
    simp [hne]

theorem goes_news (hx : Orderly x) (h : x.step? (.news id n) = some y) :
    ∃ search p, (id, search, p) ∈ x.waiting ∧
      Goes x id search (.heard id n) (search.next x.files p n) y := by
  obtain ⟨search, p, hw, rfl⟩ := step?_news h
  have hbegan := hx.began id search p hw
  refine ⟨search, p, hw, rfl, fun i s p' => ?_, rfl, ⟨hx.named _ hbegan, List.Subset.refl _⟩, rfl,
    by simp, fun s => ?_, fun r => hx.unended id search p r hw⟩
  · simp only [List.mem_append, mem_waits, List.mem_filter, bne_iff_ne]
    exact or_congr_right and_comm
  · have hs : .began id s ∈ x.history ↔ s = search :=
      ⟨fun h => hx.once id s search h hbegan, fun h => h ▸ hbegan⟩
    simp [hs]

namespace Goes

variable (h : Goes x id search first t y)

include h

theorem mem_history : e ∈ y.history ↔ e ∈ x.history ∨ e = first ∨ e ∈ t.events id := by
  rw [h.history, List.mem_append, List.mem_cons]

theorem began_iff : .began i s ∈ y.history ↔
    .began i s ∈ x.history ∨ (i = id ∧ s = search) := by
  have hbegan := h.began s
  rw [List.mem_append, List.mem_singleton] at hbegan
  simp only [h.mem_history, began_not_mem_events, or_false]
  constructor
  · rintro (hx | hfirst)
    · exact .inl hx
    · have hi : i = id := (congrArg Event.about hfirst).trans h.first_about
      subst hi
      exact .inr ⟨rfl, hbegan.mp (.inr hfirst)⟩
  · rintro (hx | ⟨rfl, hs⟩)
    · exact .inl hx
    · exact hbegan.mpr hs

theorem ended_iff : .ended i r ∈ y.history ↔
    .ended i r ∈ x.history ∨ (i = id ∧ t.progress = .ended r) := by
  rw [h.mem_history, ended_mem_events]
  refine or_congr_right ⟨fun hfirst => hfirst.resolve_left fun he => ?_, .inr⟩
  have hi : i = id := (congrArg Event.about he).trans h.first_about
  exact h.first_ne r (hi ▸ he.symm)

theorem heard_of_ne (hi : i ≠ id) : y.heard i = x.heard i := by
  have hfirst : first.about ≠ i := fun he => hi (he.symm.trans h.first_about)
  rw [heard, heard, h.history, heardIn_append, heardIn_cons_of_ne hfirst, heardIn_events,
    List.append_nil]

theorem heard_eq (hfirst : first = .heard id n) : y.heard id = x.heard id ++ [n] := by
  have hnews : heardIn id [.heard id n] = [n] := by simp [heardIn]
  rw [heard, heard, h.history, hfirst, ← List.singleton_append, heardIn_append, heardIn_append,
    heardIn_events, hnews, List.append_nil]

theorem exists_heard (i : Nat) : ∃ news, y.heard i = x.heard i ++ news :=
  ⟨_, by rw [heard, heard, h.history, heardIn_append]⟩

theorem mem_parts : part ∈ y.parts ↔ t.part? = some part ∨
    ∃ i s p, i ≠ id ∧ (i, s, p) ∈ x.waiting ∧ p.part? = some part := by
  have hpart : t.part? = some part ↔ ∃ p, t.progress = .waiting p ∧ p.part? = some part := by
    unfold Turn.part?
    cases t.progress <;> simp
  rw [System.mem_parts, hpart]
  constructor
  · rintro ⟨i, s, p, hw, hp⟩
    rcases (h.waiting i s p).mp hw with ⟨-, -, ht⟩ | ⟨hi, hw⟩
    · exact .inl ⟨p, ht, hp⟩
    · exact .inr ⟨i, s, p, hi, hw, hp⟩
  · rintro (⟨p, ht, hp⟩ | ⟨i, s, p, hi, hw, hp⟩)
    · exact ⟨id, search, p, (h.waiting _ _ _).mpr (.inl ⟨rfl, rfl, ht⟩), hp⟩
    · exact ⟨i, s, p, (h.waiting _ _ _).mpr (.inr ⟨hi, hw⟩), hp⟩

theorem orderly (hx : Orderly x) : Orderly y := by
  have only {s : Search} (hs : .began id s ∈ x.history) : s = search :=
    (h.began s).mp (List.mem_append_left _ hs)
  constructor
  · intro e he
    rcases h.mem_history.mp he with he | rfl | he
    · exact h.begun.2 (hx.named e he)
    · exact h.first_about ▸ h.begun.1
    · exact about_of_mem_events he ▸ h.begun.1
  · intro i s s' hs hs'
    rcases h.began_iff.mp hs with hs | ⟨rfl, rfl⟩ <;> rcases h.began_iff.mp hs' with hs' | ⟨hi, rfl⟩
    · exact hx.once i s s' hs hs'
    · exact only (hi ▸ hs)
    · exact (only hs').symm
    · rfl
  · intro i s p hw
    rcases (h.waiting i s p).mp hw with ⟨rfl, rfl, -⟩ | ⟨-, hw⟩
    · exact h.began_iff.mpr (.inr ⟨rfl, rfl⟩)
    · exact h.began_iff.mpr (.inl (hx.began i s p hw))
  · intro i s p s' p' hw hw'
    rcases (h.waiting i s p).mp hw with ⟨rfl, rfl, hp⟩ | ⟨hi, hw⟩ <;>
      rcases (h.waiting i s' p').mp hw' with ⟨hi', rfl, hp'⟩ | ⟨hi', hw'⟩
    · exact ⟨rfl, Progress.waiting.inj (hp.symm.trans hp')⟩
    · exact absurd rfl hi'
    · exact absurd hi' hi
    · exact hx.alone i s p s' p' hw hw'
  · intro i s p r hw hr
    rcases (h.waiting i s p).mp hw with ⟨rfl, -, hp⟩ | ⟨hi, hw⟩ <;>
      rcases h.ended_iff.mp hr with hr | ⟨hi', hr⟩
    · exact h.unended r hr
    · cases hp.symm.trans hr
    · exact hx.unended i s p r hw hr
    · exact hi hi'
  · intro i path f hok herror
    rcases h.ended_iff.mp hok with hok | ⟨rfl, hok⟩ <;>
      rcases h.ended_iff.mp herror with herror | ⟨hi, herror⟩
    · exact hx.ends i path f hok herror
    · exact h.unended _ (hi ▸ hok)
    · exact h.unended _ herror
    · cases hok.symm.trans herror

end Goes

end System

end ServerRun.Repository
