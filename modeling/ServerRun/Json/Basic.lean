import ServerRun.Number.Binary64

/-! JSON values. An object keeps its members in the order in which their names first appeared;
writing a name again replaces the value in place. -/

namespace ServerRun

/-- A JSON value. -/
inductive Json where
  | null
  | bool (value : Bool)
  | int (value : Int)
  | float (value : Binary64)
  | str (value : String)
  | arr (items : List Json)
  | obj (fields : List (String × Json))
deriving Repr, Inhabited

/-- The members of an object, in order. -/
abbrev Fields := List (String × Json)

/-- The value of the first member with a name. -/
def Fields.get? (fs : List (String × α)) (name : String) : Option α :=
  (fs.find? fun f => f.1 == name).map (·.2)

/-- Gives a member a value: in place if the name is there, and at the end otherwise. -/
def Fields.insert : List (String × α) → String → α → List (String × α)
  | [], name, v => [(name, v)]
  | f :: fs, name, v => if f.1 = name then (name, v) :: fs else f :: Fields.insert fs name v

/-- Gives several members their values, one after the other. -/
def Fields.merge (fs more : List (String × α)) : List (String × α) :=
  more.foldl (fun acc f => Fields.insert acc f.1 f.2) fs

@[simp] theorem Fields.get?_nil (name : String) :
    Fields.get? ([] : List (String × α)) name = none :=
  rfl

theorem Fields.get?_cons (f : String × α) (fs : List (String × α)) (name : String) :
    Fields.get? (f :: fs) name = if f.1 = name then some f.2 else Fields.get? fs name := by
  by_cases h : f.1 = name <;> simp [Fields.get?, h]

/-- After a member is given a value, that name has it and every other name is as before. -/
theorem Fields.get?_insert (fs : List (String × α)) (name other : String) (v : α) :
    Fields.get? (Fields.insert fs name v) other =
      if name = other then some v else Fields.get? fs other := by
  induction fs with
  | nil => simp [Fields.insert, Fields.get?_cons]
  | cons f fs ih =>
    by_cases h : f.1 = name
    · subst h
      by_cases ho : f.1 = other <;> simp [Fields.insert, Fields.get?_cons, ho]
    · by_cases ho : f.1 = other
      · subst ho; simp [Fields.insert, Fields.get?_cons, h, Ne.symm h]
      · simp [Fields.insert, Fields.get?_cons, h, ho, ih]

namespace Json

/-- A number as a value. -/
def ofNumber : Number → Json
  | .whole i => .int i
  | .real x => .float x

/-- The member of an object with a name; nothing for other values. -/
def get? : Json → String → Option Json
  | .obj fs, name => Fields.get? fs name
  | _, _ => none

def str? : Json → Option String
  | .str s => some s
  | _ => none

def bool? : Json → Option Bool
  | .bool b => some b
  | _ => none

def int? : Json → Option Int
  | .int i => some i
  | _ => none

def arr? : Json → Option (List Json)
  | .arr xs => some xs
  | _ => none

def obj? : Json → Option (List (String × Json))
  | .obj fs => some fs
  | _ => none

def number? : Json → Option Number
  | .int i => some (.whole i)
  | .float x => some (.real x)
  | _ => none

mutual

/-- Whether two values are the same: objects with the same members in any order. -/
def same : Json → Json → Bool
  | .null, .null => true
  | .bool a, .bool b => a == b
  | .int a, .int b => a == b
  | .float a, .float b => a == b
  | .str a, .str b => a == b
  | .arr xs, .arr ys => sameItems xs ys
  | .obj fs, .obj gs => fs.length == gs.length && sameFields fs gs
  | _, _ => false

def sameItems : List Json → List Json → Bool
  | [], [] => true
  | x :: xs, y :: ys => same x y && sameItems xs ys
  | _, _ => false

def sameFields : List (String × Json) → List (String × Json) → Bool
  | [], _ => true
  | (name, v) :: fs, gs =>
    (match Fields.get? gs name with
      | some w => same v w
      | none => false) && sameFields fs gs

end

end Json

end ServerRun
