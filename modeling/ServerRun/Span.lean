import ServerRun.Number.Binary64

/-! Moments and lengths of time in seconds. A length may also be endless. -/

namespace ServerRun

/-- A moment, or a length of time, in seconds. -/
abbrev Seconds := Rat

/-- A length of time that may be endless. -/
inductive Span where
  | finite (seconds : Seconds)
  | endless
deriving DecidableEq, Repr, Inhabited

namespace Span

/-- The length that a floating-point number of seconds stands for. -/
def ofBinary64 : Binary64 → Span
  | .infinite false => .endless
  | x => .finite x.toRat

/-- What is left of a length after some time. -/
def minus : Span → Seconds → Span
  | .finite s, t => .finite (s - t)
  | .endless, _ => .endless

/-- Whether some time makes up a whole length. -/
def reachedBy : Span → Seconds → Bool
  | .finite s, t => decide (s ≤ t)
  | .endless, _ => false

/-- The longer one of a length and some time. -/
def atLeast : Span → Seconds → Span
  | .finite s, t => .finite (if s ≤ t then t else s)
  | .endless, _ => .endless

/-- The shorter one of a length and some time. -/
def atMost : Span → Seconds → Seconds
  | .finite s, t => if s ≤ t then s else t
  | .endless, t => t

/-- A length with its seconds changed. -/
def map (f : Seconds → Seconds) : Span → Span
  | .finite s => .finite (f s)
  | .endless => .endless

end Span

end ServerRun
