import ServerRun.Run.System
import ServerRun.Proofs.Run.Turn

/-! The signs of a run's sequence: what shows from outside how far it has come. The signs that are
ahead of a call on the server are a list, and so are those ahead of a call that waits; each turn of
the call shows the first of them. -/

namespace ServerRun

/-- What shows how far the sequence of a run has come. -/
inductive Sign where
  | registered
  /-- The deployment file was found. -/
  | found (m : Project.Metadata)
  | entered (phase : Phase)
  | provisioned (home : Path)
  /-- The directories of the installation were found to be there. -/
  | checked
  | creating (i : Installation)
  | created
  | launching (command : List String) (directory : Path)
  | launched
  /-- The management client has answered that the server is running. -/
  | running
  | sent (request : Fields)
  | deploying (file : Path) (name : String)
  /-- The server has accepted what it was asked for last. -/
  | accepted
  | failed (failure : Failure)
  | exited (code : Option Int)

namespace Batch

/-- The requests of a batch whose commands can all be read: one for all of them, or one for each in
their order. -/
def script? (b : Batch) : Option (List Fields) :=
  if b.isEmpty then some []
  else
    (b.commands.mapM fun text =>
      (Command.parseWithin .standard text).toOption.map Command.request).map fun all =>
      if b.atomic then [Command.composite (all.map .obj)] else all

/-- The signs of requests that are accepted: each is sent only after the one before it was
accepted. -/
def exchanges (requests : List Fields) : List Sign :=
  requests.flatMap fun q => [.sent q, .accepted]

/-- The signs ahead of a batch that is followed by others. Nothing comes of a batch with a command
that cannot be read. -/
def ahead (b : Batch) (next : List Sign) : List Sign :=
  match b.script? with
  | some requests => exchanges requests ++ next
  | none => []

theorem ahead_of_isEmpty {b : Batch} (h : b.isEmpty = true) (next : List Sign) :
    b.ahead next = next := by
  simp [ahead, script?, h, exchanges]

/-- The commands that were read are all commands of the batch, in their order. -/
theorem mapM_of_requests {texts : List String} {all : List (String × Fields)}
    (h : requests Command.Limits.standard.excess? texts = .ok all) :
    texts.mapM (fun text => (Command.parseWithin .standard text).toOption.map Command.request) =
      some (all.map (·.2)) := by
  induction texts generalizing all with
  | nil =>
    cases h
    rfl
  | cons text rest ih =>
    rw [requests, ← Command.parseWithin] at h
    cases hc : Command.parseWithin .standard text with
    | error e => simp [hc] at h
    | ok c =>
      cases hr : requests Command.Limits.standard.excess? rest with
      | error e => simp [hc, hr] at h
      | ok more =>
        simp only [hc, hr, Except.ok.injEq] at h
        subst h
        rw [List.mapM_cons, hc, ih hr]
        rfl

theorem ahead_of_requests {b : Batch} {all : List (String × Fields)} (he : b.isEmpty = false)
    (hr : requests Command.Limits.standard.excess? b.commands = .ok all) (next : List Sign) :
    b.ahead next =
      exchanges (if b.atomic then [Command.composite (all.map fun r => .obj r.2)]
        else all.map (·.2)) ++ next := by
  rw [ahead, script?, mapM_of_requests hr]
  simp [he, Function.comp_def]

end Batch

namespace Server

/-- The signs of a wait that begins. -/
def Wait.signs : Wait → List Sign
  | .launch command directory => [.launching command directory]
  | .execute request => [.sent request]
  | .deploy file name => [.deploying file name]
  | _ => []

/-- The signs of an answer. -/
def Answer.signs : Answer → List Sign
  | .launched .. => [.launched]
  | .state value => if value = some "running" then [.running] else []
  | .done => [.accepted]
  | _ => []

/-- The signs ahead of a call whose turn comes. -/
def Work.ahead (next : List Sign) : Work → List Sign
  | .deploy file name => .deploying file name :: .accepted :: next
  | .execute b => b.ahead next

/-- The signs ahead of a call that begins. -/
def ahead (s : Server) (next : List Sign) : Call → List Sign
  | .start => .launching s.info.commandLine s.info.home :: .launched :: .running :: next
  | .deploy file name => Work.ahead next (.deploy file name)
  | .execute b => Work.ahead next (.execute b)
  | .waitForExit | .stop => next

/-- The signs ahead of a call that waits. -/
def Point.ahead (next : List Sign) : Point → List Sign
  | .launching => .launched :: .running :: next
  | .readingState _ | .sleeping _ => .running :: next
  | .awaitingTurn work => work.ahead next
  | .deploying _ | .executing _ .composite _ => .accepted :: next
  | .executing _ (.command _ rest) _ => .accepted :: (Batch.exchanges (rest.map (·.2)) ++ next)
  | _ => next

/-- A turn of a call keeps to the signs that are ahead: its wait shows the first of them and leaves
the others ahead, it returns when only those that follow the call are left, or it fails. -/
inductive Turn.KeepsTo (next : List Sign) : List Sign → Turn → Prop
  | waits {ahead v effects p w} (hp : p.concern ≠ .stop) (h : w.signs ++ p.ahead next = ahead) :
      KeepsTo next ahead ⟨v, effects, .paused p w⟩
  | returns {v effects code} : KeepsTo next next ⟨v, effects, .returned code⟩
  | raises {ahead v effects f} : KeepsTo next ahead ⟨v, effects, .raised f⟩

section

variable {s : Server} {w : Surroundings} {id : Nat} {t : Turn} {next ahead : List Sign}

/-! ### starting -/

theorem look_keepsTo (since : Seconds) : (s.look w since).KeepsTo next (.running :: next) := by
  unfold look
  split
  · exact .raises
  · split
    · exact .raises
    · exact .waits (by simp [Point.concern]) rfl

theorem sleepOrGiveUp_keepsTo (since : Seconds) :
    (s.sleepOrGiveUp w since).KeepsTo next (.running :: next) := by
  simp only [sleepOrGiveUp]
  split
  · exact .raises
  · exact .waits (by simp [Point.concern]) rfl

theorem stateRead_keepsTo (since : Seconds) (value : Option String) :
    ∃ left, (Answer.state value).signs ++ left = .running :: next ∧
      (s.stateRead w since value).KeepsTo next left := by
  by_cases hv : value = some "running"
  · refine ⟨next, by simp [Answer.signs, hv], ?_⟩
    simp only [stateRead, hv, ite_true]
    exact .returns
  · refine ⟨.running :: next, by simp [Answer.signs, hv], ?_⟩
    simp only [stateRead, hv, ite_false]
    exact sleepOrGiveUp_keepsTo since

/-! ### commands -/

theorem continueBatch_sendNext (b : Batch) (rest : List (String × Fields)) :
    (s.continueBatch id b (Batch.sendNext rest)).KeepsTo next
      (Batch.exchanges (rest.map (·.2)) ++ next) := by
  cases rest with
  | nil => exact .returns
  | cons x rest => exact .waits (by simp [Point.concern]) rfl

/-- A batch begins with the first of its requests, unless it has none or cannot be read. -/
theorem continueBatch_start (b : Batch) :
    (s.continueBatch id b (b.start Command.Limits.standard.excess?)).KeepsTo next
      (b.ahead next) := by
  cases he : b.isEmpty with
  | true =>
    simp only [Batch.start, he, ite_true, Batch.ahead_of_isEmpty he]
    exact .returns
  | false =>
    cases hr : Batch.requests Command.Limits.standard.excess? b.commands with
    | error e =>
      simp only [Batch.start, he, hr, Bool.false_eq_true, ite_false]
      exact .raises
    | ok all =>
      rw [Batch.ahead_of_requests he hr]
      cases ha : b.atomic with
      | true =>
        simp only [Batch.start, he, hr, ha, Bool.false_eq_true, ite_false, ite_true]
        exact .waits (by simp [Point.concern]) rfl
      | false =>
        simp only [Batch.start, he, hr, ha, Bool.false_eq_true, ite_false]
        exact continueBatch_sendNext b all

/-- A batch whose request was accepted goes on with the next one. -/
theorem continueBatch_accepted (b : Batch) (p : Batch.Point) (request : Fields) :
    ∃ left, .accepted :: left = (Point.executing b p request).ahead next ∧
      (s.continueBatch id b (b.resume p (.ok ()))).KeepsTo next left := by
  cases p with
  | composite => exact ⟨next, rfl, .returns⟩
  | command text rest => exact ⟨_, rfl, continueBatch_sendNext b rest⟩

theorem continueBatch_refused (b : Batch) (p : Batch.Point) (f : Failure) :
    (s.continueBatch id b (b.resume p (.error f))).KeepsTo next ahead := by
  unfold Batch.resume
  split
  · exact .raises
  · exact .raises
  · rename_i h
    cases h

theorem beginWork_keepsTo (work : Work) : (s.beginWork id work).KeepsTo next (work.ahead next) := by
  cases work with
  | deploy file name => exact .waits (by simp [Point.concern]) rfl
  | execute b => exact continueBatch_start b

theorem takeTurn_keepsTo (work : Work) : (s.takeTurn id work).KeepsTo next (work.ahead next) := by
  unfold takeTurn
  split
  · exact beginWork_keepsTo work
  · exact .waits (by simp [Point.concern]) rfl

/-! ### calls -/

/-- The first turn of a call keeps to the signs ahead of the call. -/
theorem firstTurn_keepsTo {c : Call} (h : c.concern ≠ .stop) :
    (s.firstTurn w id c).KeepsTo next (s.ahead next c) := by
  cases c with
  | stop => exact absurd rfl h
  | start =>
    simp only [firstTurn, start]
    split
    · exact .raises
    · exact .waits (by simp [Point.concern]) rfl
  | deploy file name =>
    simp only [firstTurn, deploy]
    split
    · exact .raises
    · split
      · exact .raises
      · exact takeTurn_keepsTo (.deploy file name)
  | execute b =>
    simp only [firstTurn, execute]
    split
    · rename_i hb
      rw [Server.ahead, Work.ahead, Batch.ahead_of_isEmpty hb]
      exact .returns
    · split
      · exact .raises
      · exact takeTurn_keepsTo (.execute b)
  | waitForExit =>
    simp only [firstTurn]
    split
    · exact .returns
    · split
      · exact .returns
      · exact .waits (by simp [Point.concern]) rfl

/-- A call that is answered has come past the signs of the answer and keeps to those left. -/
theorem nextTurn?_keepsTo {p : Point} {a : Answer} (h : p.concern ≠ .stop)
    (ht : s.nextTurn? w id p a = some t) :
    ∃ left, a.signs ++ left = p.ahead next ∧ t.KeepsTo next left := by
  cases p <;> simp [Point.concern] at h <;> cases a <;> simp [nextTurn?] at ht <;> subst ht
  case launching.launched pid client =>
    refine ⟨_, rfl, ?_⟩
    cases client with
    | none => exact look_keepsTo _
    | some f => exact .raises
  case launching.failed f =>
    rcases s.launchFailed_cases f with ⟨_, -, h⟩ | ⟨-, h⟩ <;> rw [h] <;> exact ⟨_, rfl, .raises⟩
  case readingState.state since value => exact stateRead_keepsTo since value
  case readingState.elapsed since => exact ⟨_, rfl, sleepOrGiveUp_keepsTo since⟩
  case readingState.failed since f =>
    rcases s.stateFailed_cases w since f with ⟨_, -, h⟩ | ⟨-, h⟩ <;> rw [h]
    · exact ⟨_, rfl, sleepOrGiveUp_keepsTo since⟩
    · exact ⟨_, rfl, .raises⟩
  case sleeping.elapsed since => exact ⟨_, rfl, look_keepsTo since⟩
  case awaitingTurn.turn work => exact ⟨_, rfl, beginWork_keepsTo work⟩
  case deploying.done name => exact ⟨next, rfl, .returns⟩
  case executing.done b p request => exact continueBatch_accepted b p request
  case executing.failed b p request f => exact ⟨_, rfl, continueBatch_refused b p f⟩
  case awaitingExit.exited code => exact ⟨next, rfl, .returns⟩
  all_goals exact ⟨_, rfl, .raises⟩

end

end Server

end ServerRun
