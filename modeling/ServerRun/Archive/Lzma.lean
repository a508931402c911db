import ServerRun.Archive.Inflate

/-! Decompression of data that are coded as one number: each bit narrows a range in proportion to
how likely it was so far, and bits make up bytes and repetitions of what came before. -/

namespace ServerRun.Archive.Lzma

open Inflate (Ending copyBack)

/-- What is left of the data and the range that they are in, and how likely each kind of bit is to
be clear, in parts of 2048. -/
structure Coder where
  input : List UInt8
  range : Nat := 0xFFFFFFFF
  code : Nat
  likely : Array Nat

/-- Reading that may come to the end of the data. -/
abbrev Reading := StateT Coder (Except Ending)

/-- Takes in a further byte where the range has become small. -/
def refill : Reading Unit := fun c =>
  if 0x1000000 ≤ c.range then .ok ((), c)
  else
    match c.input with
    | [] => .error .exhausted
    | b :: input =>
      .ok ((), { c with input, range := c.range * 256, code := c.code * 256 + b.toNat })

/-- Reads a bit of a kind. -/
def bit (kind : Nat) : Reading Nat := do
  refill
  fun c =>
    let p := c.likely.getD kind 1024
    let bound := c.range / 2048 * p
    if c.code < bound then
      .ok (0, { c with
        range := bound
        likely := c.likely.setIfInBounds kind (p + (2048 - p) / 32) })
    else
      .ok (1, { c with
        range := c.range - bound, code := c.code - bound
        likely := c.likely.setIfInBounds kind (p - p / 32) })

/-- Reads bits that are all as likely as not, after a number. -/
def evenBits : Nat → Nat → Reading Nat
  | v, 0 => pure v
  | v, n + 1 => do
    refill
    let b ← fun c =>
      let half := c.range / 2
      if c.code < half then .ok (0, { c with range := half })
      else .ok (1, { c with range := half, code := c.code - half })
    evenBits (2 * v + b) n

/-- Reads further bits of a number, highest first; each is of the kind that the bits before it,
behind a first bit that is set, name. -/
def treeAfter (base : Nat) : Nat → Nat → Reading Nat
  | m, 0 => pure m
  | m, n + 1 => do treeAfter base (2 * m + (← bit (base + m))) n

/-- Reads a number of so many bits, highest first. -/
def tree (base bits : Nat) : Reading Nat := do return (← treeAfter base 1 bits) - (1 <<< bits)

/-- Reads further bits of a number, lowest first. -/
def reverseTreeAfter (base : Nat) : Nat → Nat → Reading Nat
  | _, 0 => pure 0
  | m, n + 1 => do
    let b ← bit (base + m)
    return b + 2 * (← reverseTreeAfter base (2 * m + b) n)

/-! ### kinds of bits -/

/-- How many kinds of bits there are beside those of bytes. -/
def kinds : Nat := 1860

def isMatch (state place : Nat) : Nat := 16 * state + place

/-- The kinds of the bits that tell which distance is repeated. -/
def isRepeat (n state : Nat) : Nat := 192 + 12 * n + state

def isShort (state place : Nat) : Nat := 240 + 16 * state + place

def slotTree (length : Nat) : Nat := 432 + 64 * min (length - 2) 3

def nearTree (slot distance : Nat) : Nat := 688 + distance - slot

def alignTree : Nat := 816

def matchLength : Nat := 832

def repeatLength : Nat := 1346

/-! ### bytes and repetitions -/

/-- How the coder is set up: bits of the byte before and of the place that a byte depends on, bits
of the place that all else depends on, and how far back repetitions may reach. -/
structure Setup where
  byteBits : Nat
  placeBits : Nat
  matchBits : Nat
  reach : Nat

/-- What has been read: the bytes, the last four distances, and what the last steps were. -/
structure Progress where
  out : Array UInt8 := #[]
  distances : Nat × Nat × Nat × Nat := (0, 0, 0, 0)
  state : Nat := 0

/-- Reads a byte that differs from the one at the last distance, as long as its bits agree with
those of that byte. -/
def matchedByte (base : Nat) (other : Nat) : Nat → Nat → Reading Nat
  | m, 0 => pure m
  | m, n + 1 => do
    let o := (other >>> n) % 2
    let b ← bit (base + 256 * (o + 1) + m)
    if b = o then matchedByte base other (2 * m + b) n else treeAfter base (2 * m + b) n

def Progress.behind (p : Progress) (distance : Nat) : Nat :=
  (p.out.getD (p.out.size - 1 - distance) 0).toNat

/-- Reads a byte. -/
def byte (s : Setup) (p : Progress) : Reading Progress := do
  let before := if p.out.isEmpty then 0 else p.behind 0
  let kind := p.out.size % (1 <<< s.placeBits) * (1 <<< s.byteBits) + before >>> (8 - s.byteBits)
  let base := kinds + 768 * kind
  let m ←
    if p.state < 7 then treeAfter base 1 8 else matchedByte base (p.behind p.distances.1) 1 8
  return { p with
    out := p.out.push (UInt8.ofNat m)
    state := if p.state < 4 then 0 else if p.state < 10 then p.state - 3 else p.state - 6 }

/-- Reads the length of a repetition. -/
def length (base place : Nat) : Reading Nat := do
  if (← bit base) = 0 then return 2 + (← tree (base + 2 + 8 * place) 3)
  else if (← bit (base + 1)) = 0 then return 10 + (← tree (base + 130 + 8 * place) 3)
  else return 18 + (← tree (base + 258) 8)

/-- Reads how far back a repetition of a length begins. -/
def distance (length : Nat) : Reading Nat := do
  let slot ← tree (slotTree length) 6
  if slot < 4 then return slot
  let bits := slot / 2 - 1
  let high := (2 + slot % 2) <<< bits
  if slot < 14 then return high + (← reverseTreeAfter (nearTree slot high) 1 bits)
  let middle ← evenBits 0 (bits - 4)
  return high + 16 * middle + (← reverseTreeAfter alignTree 1 4)

/-- Repeats bytes from the last distance on, if it reaches back to bytes that were read. -/
def Progress.copy (s : Setup) (p : Progress) (length : Nat) : Reading Progress := fun c =>
  if min p.out.size s.reach ≤ p.distances.1 then .error .damaged
  else .ok ({ p with out := copyBack (p.distances.1 + 1) length p.out }, c)

/-- Reads which of the three distances before the last one is repeated. -/
def older (state : Nat) : Reading Nat := do
  if (← bit (isRepeat 2 state)) = 0 then return 1
  else if (← bit (isRepeat 3 state)) = 0 then return 2
  else return 3

/-- Reads a repetition from one of the last four distances; there has to be a byte to repeat. -/
def again (s : Setup) (p : Progress) (place : Nat) : Reading Progress := do
  let (d₀, d₁, d₂, d₃) := p.distances
  let after (short : Bool) : Nat :=
    if short then (if p.state < 7 then 9 else 11) else if p.state < 7 then 8 else 11
  if p.out.isEmpty then throw .damaged
  if (← bit (isRepeat 1 p.state)) = 0 then
    if (← bit (isShort p.state place)) = 0 then
      Progress.copy s { p with state := after true } 1
    else
      let n ← length repeatLength place
      Progress.copy s { p with state := after false } n
  else
    let distances := match ← older p.state with
      | 1 => (d₁, d₀, d₂, d₃)
      | 2 => (d₂, d₀, d₁, d₃)
      | _ => (d₃, d₀, d₁, d₂)
    let n ← length repeatLength place
    Progress.copy s { p with distances, state := after false } n

/-- Reads a byte or a repetition; nothing at the end mark, behind which the number has to be used
up. -/
def step (s : Setup) (p : Progress) : Reading (Option Progress) := do
  let place := p.out.size % (1 <<< s.matchBits)
  if (← bit (isMatch p.state place)) = 0 then return some (← byte s p)
  else if (← bit (isRepeat 0 p.state)) = 1 then return some (← again s p place)
  else
    let n ← length matchLength place
    let d ← distance n
    if d = 0xFFFFFFFF then
      refill
      fun c => if c.code = 0 then .ok (none, c) else .error .damaged
    else
      let (d₀, d₁, d₂, _) := p.distances
      let state := if p.state < 7 then 7 else 10
      return some (← Progress.copy s { p with distances := (d, d₀, d₁, d₂), state } n)

/-- Reads bytes and repetitions up to the end mark. -/
def steps (s : Setup) : Nat → Progress → Coder → Array UInt8 × Ending
  | 0, p, _ => (p.out, .exhausted)
  | fuel + 1, p, c =>
    match step s p c with
    | .error e => (p.out, e)
    | .ok (none, _) => (p.out, .complete)
    | .ok (some q, c) => steps s fuel q c

/-- The number that bytes write, the lowest first. -/
def number (bytes : List UInt8) : Nat := bytes.foldr (fun b n => b.toNat + 256 * n) 0

/-- The setup that five bytes describe. -/
def Setup.ofBytes? : List UInt8 → Option Setup
  | [b, r₀, r₁, r₂, r₃] =>
    let n := b.toNat
    let s : Setup :=
      { byteBits := n % 9
        placeBits := n / 9 % 5
        matchBits := n / 45
        reach := (max 4096 (number [r₀, r₁, r₂, r₃]) + 15) / 16 * 16 }
    if 225 ≤ n ∨ 4 < s.byteBits + s.placeBits then none else some s
  | _ => none

/-- What data behind their setup decompress to, and how the decompression ends. -/
def decode (s : Setup) (bytes : List UInt8) : List UInt8 × Ending :=
  match bytes with
  | [] => ([], .exhausted)
  | b :: rest =>
    if b ≠ 0 then ([], .damaged)
    else if rest.length < 4 then ([], .exhausted)
    else
      let code := (rest.take 4).foldl (fun n b => 256 * n + b.toNat) 0
      let likely := Array.replicate (kinds + 768 <<< (s.byteBits + s.placeBits)) 1024
      -- no bit is more likely than 2017 in 2048, so that a byte of data does for 364 bits at most
      let (out, ending) :=
        steps s (364 * (rest.length + 1)) {} { input := rest.drop 4, code, likely }
      (out.toList, ending)

/-- What data decompress to behind a version and the setup, whose size is given, and how the
decompression ends. -/
def decompress (bytes : List UInt8) : List UInt8 × Ending :=
  match bytes with
  | _ :: _ :: s₀ :: s₁ :: rest =>
    let size := number [s₀, s₁]
    if rest.length ≤ size then ([], .exhausted)
    else
      match Setup.ofBytes? (rest.take size) with
      | none => ([], .damaged)
      | some s => decode s (rest.drop size)
  | _ => ([], .exhausted)

end ServerRun.Archive.Lzma
