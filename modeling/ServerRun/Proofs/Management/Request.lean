import ServerRun.Management.Channel
import ServerRun.Proofs.Http.Dialogue

/-! What comes of one post to a management interface. It carries a result, or the operation is
refused, or it raises a failure of the client. -/

namespace ServerRun

namespace Http

/-- What was posted and what came of it. -/
abbrev Exchange := Post × Posted

/-- What comes of posting carries a result: an answer with any status but that of a challenge, whose
content is an object that tells of success. -/
inductive Posted.Carries : Posted → Json → Prop
  | result {a : Answer} {fs : Fields} (hstatus : a.status ≠ 401) (hjson : a.json = .ok (.obj fs))
      (houtcome : Fields.get? fs "outcome" = some (.str "success")) :
      Carries (.answered a) ((Fields.get? fs "result").getD .null)

/-- What comes of posting raises a failure: that of the client, or of reading the content of an
answer as JSON or, where it is none, as text. -/
inductive Posted.Raises : Posted → Failure → Prop
  | raised (f : Foreign) : Raises (.raised f) f.val
  | json {a : Answer} {f : Foreign} (hstatus : a.status ≠ 401)
      (h : a.json = .error (.raised f)) : Raises (.answered a) f.val
  | text {a : Answer} {f : Foreign} (hstatus : a.status ≠ 401)
      (hjson : a.json = .error .malformed) (h : a.text = .error f) : Raises (.answered a) f.val

variable {posted : Posted} {v w : Json} {f g : Failure}

theorem Posted.Carries.unique (hv : posted.Carries v) (hw : posted.Carries w) : v = w := by
  obtain ⟨-, hjson, -⟩ := hv
  obtain ⟨-, hjson', -⟩ := hw
  rw [hjson] at hjson'
  cases hjson'
  rfl

theorem Posted.Raises.unique (hf : posted.Raises f) (hg : posted.Raises g) : f = g := by
  cases hf with
  | raised f =>
    cases hg
    rfl
  | json _ h =>
    cases hg with
    | json _ h' =>
      cases h.symm.trans h'
      rfl
    | text _ h' => cases h.symm.trans h'
  | text _ hjson h =>
    cases hg with
    | json _ h' => cases hjson.symm.trans h'
    | text _ _ h' =>
      cases h.symm.trans h'
      rfl

theorem Posted.Carries.not_raises (hv : posted.Carries v) : ¬ posted.Raises f := by
  obtain ⟨-, hjson, -⟩ := hv
  intro hf
  cases hf with
  | json _ h => cases hjson.symm.trans h
  | text _ h => cases hjson.symm.trans h

theorem Posted.Raises.ne_run (h : posted.Raises f) (e : RunError) : f ≠ .run e := by
  obtain ⟨g, rfl⟩ : ∃ g : Foreign, f = g.val := by
    cases h <;> exact ⟨_, rfl⟩
  exact g.property e

end Http

namespace Management

open Http

/-- Whether a failure tells what is wrong with an operation. -/
def IsRefusal (f : Failure) : Prop := ∃ description name, f = .run (.management description name)

namespace Channel

variable {c : Channel} {url name : String} {body : Body} {xs : List Exchange} {x : Exchange}
  {posted : Posted} {f : Failure} {v : Json} {r : Except Failure Json}

/-- What is made of what comes of posting: the result that it carries, a refusal that names the
operation, or the failure that it raises. -/
inductive Result (name : String) (posted : Posted) : Except Failure Json → Prop
  | carried {v : Json} (hv : posted.Carries v) : Result name posted (.ok v)
  | refused (d : String) (hno : ∀ v, ¬ posted.Carries v) (hnone : ∀ f, ¬ posted.Raises f) :
      Result name posted (.error (refusal d name))
  | raised {f : Failure} (h : posted.Raises f) : Result name posted (.error f)

theorem result_resultOf (a : Answer) (name : String) :
    Result name (.answered a) (resultOf a name) := by
  unfold resultOf
  split
  · rename_i hstatus
    exact .refused _ (fun v h => by cases h; contradiction)
      (fun f h => by cases h <;> contradiction)
  rename_i hstatus
  split
  · rename_i hjson
    split
    · rename_i text htext
      refine .refused _ (fun v h => ?_) (fun f h => ?_)
      · cases h with | result _ h => cases hjson.symm.trans h
      · cases h with
        | json _ h => cases hjson.symm.trans h
        | text _ _ h => cases htext.symm.trans h
    · exact .raised (.text hstatus hjson ‹_›)
  · exact .raised (.json hstatus ‹_›)
  · rename_i data hjson
    have hnone (f : Failure) : ¬ (Posted.answered a).Raises f := by
      rintro (_ | ⟨_, h⟩ | ⟨_, h⟩) <;> cases hjson.symm.trans h
    split
    · rename_i houtcome
      cases data <;> try cases houtcome
      exact .carried (.result hstatus hjson houtcome)
    · rename_i hother
      refine .refused _ (fun v h => ?_) hnone
      cases h with
      | result _ h houtcome =>
        cases hjson.symm.trans h
        exact hother houtcome

theorem result_resultOfPosted (text : String → String) (name : String) (posted : Posted) :
    Result name posted (resultOfPosted text name posted) := by
  cases posted with
  | answered a => exact result_resultOf a name
  | failed m => exact .refused _ nofun nofun
  | raised f => exact .raised (.raised f)

theorem Result.eq_ok (h : Result name posted r) (hv : posted.Carries v) : r = .ok v := by
  cases h with
  | carried hw => rw [hw.unique hv]
  | refused _ hno => exact absurd hv (hno v)
  | raised hf => exact absurd hf hv.not_raises

theorem Result.carries (h : Result name posted (.ok v)) : posted.Carries v := by
  cases h with
  | carried hv => exact hv

theorem Result.eq_error (h : Result name posted r) (hf : posted.Raises f) : r = .error f := by
  cases h with
  | carried hv => exact absurd hf hv.not_raises
  | refused _ _ hnone => exact absurd hf (hnone f)
  | raised hg => rw [hg.unique hf]

theorem Result.refusal_or_raises (h : Result name posted (.error f)) :
    (∃ d, f = refusal d name) ∨ posted.Raises f := by
  cases h with
  | refused d => exact .inl ⟨d, rfl⟩
  | raised h => exact .inr h

end Channel

end Management

end ServerRun
