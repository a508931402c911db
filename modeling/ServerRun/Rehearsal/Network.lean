import ServerRun.Http.Dialogue
import ServerRun.Http.Message
import ServerRun.Provision.Basic
import ServerRun.Rehearsal.Stage

/-! Rehearsing searches and installations against scripted answers: each address or operation has a
list of answers, of which the last one repeats. -/

namespace ServerRun.Rehearsal

/-- An answer as a script describes it. -/
def replyOf (j : Json) : Http.Reply :=
  match j.get? "raise" with
  | some _ => .failed ((textMember j "message").getD "")
  | none =>
    .response
      { status := (((j.get? "status").bind Json.int?).getD 200).toNat
        headers := textTable (j.get? "headers")
        chunks := match (j.get? "chunks").bind Json.arr? with
          | some cs => cs.map bytesOf
          | none => [bytesOf j]
        broken := textMember j "break" }

/-- Scripted answers by the name of what is asked, and the answer to all else. -/
structure Endpoint where
  replies : List (String × List Http.Reply) := []
  otherwise : String → Http.Reply := fun _ => .response { status := 404 }

namespace Endpoint

/-- The answers of a script. -/
def repliesOf (script : Fields) : List (String × List Http.Reply) :=
  script.map fun f =>
    (f.1, match f.2 with
      | .arr xs => xs.map replyOf
      | j => [replyOf j])

/-- The next answer for a name. -/
def answer (e : Endpoint) (name : String) : Http.Reply × Endpoint :=
  match Fields.get? e.replies name with
  | some (r :: s :: rest) =>
    (r, { e with replies := e.replies.map fun x => if x.1 = name then (name, s :: rest) else x })
  | some [r] => (r, e)
  | _ => (e.otherwise name, e)

end Endpoint

/-- A stage for searches: files and scripted answers. -/
structure Network where
  files : FileSystem
  endpoint : Endpoint

/-- What a search comes to, and what happened. -/
structure Played (α : Type) where
  result : Except Failure α
  events : List Event
  network : Network

def happeningEvent : Http.Dialogue.Happening Http.Request → Event
  | .asked r => .http r.method r.url
  | .told r => .log r

def playTurns (s : Repository.Search) : Nat → Repository.Turn → Endpoint → List Event →
    Played Path
  | 0, t, e, events => ⟨.error (.crash ""), events, ⟨t.files, e⟩⟩
  | fuel + 1, t, e, events =>
    let logs := t.effects.filterMap fun f =>
      match f with
      | .log r => some (Event.log r)
      | .fetch _ => none
    match t.progress with
    | .ended r => ⟨r, events ++ logs, ⟨t.files, e⟩⟩
    | .waiting p =>
      let url := (t.effects.findSome? fun f =>
        match f with
        | .fetch u => some u
        | .log _ => none).getD ""
      let (hs, r, e) := (Http.fetch url).run (fun (e : Endpoint) q => e.answer q.url) e
      let next := Repository.hearAll s t.files p (Repository.newsOf r)
      playTurns s fuel next e (events ++ logs ++ hs.map happeningEvent)

def playSearch (s : Repository.Search) (n : Network) : Played Path :=
  playTurns s (s.repository.remotes.length + 2) (s.start n.files) n.endpoint []

/-- Plays the provision of an installation. -/
def playProvision (p : Provision) (r : Repository) (cwd : Path) (n : Network) : Played Path :=
  match p.given? with
  | some home => ⟨.ok home, [], n⟩
  | none =>
    let found := playSearch ⟨r, p.coordinate, cwd⟩ n
    let (files, result) := p.ensure n.files cwd fun _ => (found.network.files, found.result)
    let last := match found.result with
      | .error _ => []
      | .ok archive => [.log (p.extracting archive)]
    ⟨result, .log p.resolving :: found.events ++ last, { found.network with files }⟩

end ServerRun.Rehearsal
