import ServerRun.Log.Record

/-! Dialogues: computations that ask for something and go on with what comes of it. One that asks a
client is carried out by what the client asks in turn. -/

namespace ServerRun.Http

/-- A computation that asks for things of one kind, goes on with answers of another, and tells
records on the way. -/
inductive Dialogue (Q A α : Type) where
  | done (result : α)
  | ask (request : Q) (next : A → Dialogue Q A α)
  | tell (record : Log.Record) (next : Dialogue Q A α)

namespace Dialogue

variable {Q A Q' A' α β σ τ : Type}

def bind (d : Dialogue Q A α) (f : α → Dialogue Q A β) : Dialogue Q A β :=
  match d with
  | .done a => f a
  | .ask q next => .ask q fun reply => (next reply).bind f
  | .tell record next => .tell record (next.bind f)

instance : Monad (Dialogue Q A) where
  pure := .done
  bind := .bind

/-- What happens in a dialogue. -/
inductive Happening (Q : Type) where
  | asked (request : Q)
  | told (record : Log.Record)
deriving Repr

/-- Runs a dialogue with an endpoint that has a state; tells what happened, in order. -/
def run (answer : σ → Q → A × σ) (s : σ) : Dialogue Q A α → List (Happening Q) × α × σ
  | .done a => ([], a, s)
  | .ask q next =>
    let (reply, s) := answer s q
    let (hs, a, s) := run answer s (next reply)
    (.asked q :: hs, a, s)
  | .tell record next =>
    let (hs, a, s) := run answer s next
    (.told record :: hs, a, s)

/-- A dialogue with a client that has a state and answers by dialogues of its own. -/
def relay (client : τ → Q → Dialogue Q' A' (A × τ)) (t : τ) :
    Dialogue Q A α → Dialogue Q' A' (α × τ)
  | .done a => .done (a, t)
  | .ask q next => (client t q).bind fun r => (next r.1).relay client r.2
  | .tell record next => .tell record (next.relay client t)

/-- A client and the endpoint that it asks, as one endpoint. -/
def through (client : τ → Q → Dialogue Q' A' (A × τ)) (answer : σ → Q' → A' × σ) (s : τ × σ)
    (q : Q) : A × (τ × σ) :=
  let (_, (reply, t), s) := (client s.1 q).run answer s.2
  (reply, (t, s))

end Dialogue

end ServerRun.Http
