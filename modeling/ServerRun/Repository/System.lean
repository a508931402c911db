import ServerRun.Repository.Resolve
import ServerRun.Moves

/-! Any number of searches side by side over the same files. Each move is one turn of one search: it
begins, or it hears news, as little as one piece of content at a time. -/

namespace ServerRun.Repository

/-- What has happened. -/
inductive Event where
  | began (id : Nat) (search : Search)
  | effect (id : Nat) (effect : Effect)
  | heard (id : Nat) (news : News)
  | ended (id : Nat) (result : Except Failure Path)

/-- Searches over the same files, and their history. -/
structure System where
  files : FileSystem
  waiting : List (Nat × Search × Point) := []
  /-- The searches that have begun. -/
  begun : List Nat := []
  history : List Event := []

/-- What happens next. -/
inductive Move where
  | search (id : Nat) (search : Search)
  | news (id : Nat) (news : News)

namespace System

/-- A system in which something has happened. -/
def record (s : System) (e : Event) : System := { s with history := s.history ++ [e] }

/-- A system after a turn of a search. -/
def take (s : System) (id : Nat) (search : Search) (t : Turn) : System :=
  let s := t.effects.foldl (fun s e => s.record (.effect id e)) { s with files := t.files }
  match t.progress with
  | .waiting p => { s with waiting := (id, search, p) :: s.waiting }
  | .ended r => s.record (.ended id r)

/-- The system after a move, if it can be made. -/
def step? (s : System) : Move → Option System
  | .search id search =>
    if s.begun.contains id then none
    else
      let s := { s with begun := id :: s.begun }.record (.began id search)
      some (s.take id search (search.start s.files))
  | .news id n =>
    (s.waiting.find? (·.1 == id)).map fun w =>
      ({ s with waiting := s.waiting.filter (·.1 != id) }.record (.heard id n)).take id w.2.1
        (w.2.1.next s.files w.2.2 n)

/-- The systems that moves lead to from a system. -/
abbrev Reaches : System → List Move → System → Prop := Leads step?

end System

end ServerRun.Repository
