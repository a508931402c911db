/-! Decompression of deflated data: blocks of literal bytes, or of symbols in prefix codes that
stand for bytes and for repetitions of what came before. -/

namespace ServerRun.Archive.Inflate

/-- Data as bits, the lowest bit of each byte first. -/
abbrev Bits := List Bool

/-- Why decompression stops. -/
inductive Ending where
  | complete
  /-- The data ends before the last block does. -/
  | exhausted
  | damaged
deriving DecidableEq, Repr

def bitsOf (bytes : List UInt8) : Bits :=
  bytes.flatMap fun b => (List.range 8).map fun k => b.toNat.testBit k

/-- The number that the next bits write, lowest first, and the rest. -/
def number : Nat → Bits → Except Ending (Nat × Bits)
  | 0, bs => .ok (0, bs)
  | _ + 1, [] => .error .exhausted
  | n + 1, b :: bs => do
    let (v, rest) ← number n bs
    .ok (2 * v + b.toNat, rest)

/-! ### prefix codes -/

/-- A canonical prefix code: how many codes there are of each length from one on, and the symbols by
length and value. -/
structure Code where
  counts : List Nat
  symbols : Array Nat
deriving Repr

/-- The code in which each symbol has a given length up to a longest one; a symbol of length zero
has no code. -/
def Code.ofLengths (lengths : List Nat) (longest : Nat := 15) : Code :=
  let ks := (List.range longest).map (· + 1)
  { counts := ks.map fun k => lengths.count k
    symbols := (ks.flatMap fun k =>
      lengths.zipIdx.filterMap fun l => if l.1 = k then some l.2 else none).toArray }

/-- How many codes of full length are left over; nothing if there are too many codes. -/
def Code.spare? (c : Code) : Option Nat :=
  c.counts.foldl (fun left count =>
    left.bind fun l => if count ≤ 2 * l then some (2 * l - count) else none) (some 1)

/-- Whether every sequence of bits starts with a code. -/
def Code.isFull (c : Code) : Bool := c.spare? == some 0

/-- Whether a code may be used for symbols: it is full, or its only codes have length one, or it has
none. -/
def Code.isUsable (c : Code) : Bool :=
  c.isFull || (c.spare?.isSome && (c.counts.drop 1).all (· == 0))

/-- Reads a symbol: `code` are the bits so far, `first` the first code of the present length and
`index` the place of its symbol. -/
def decodeFrom (symbols : Array Nat) (code first index : Nat) :
    List Nat → Bits → Except Ending (Nat × Bits)
  | [], _ => .error .damaged
  | _ :: _, [] => .error .exhausted
  | count :: counts, b :: bs =>
    let code := code + b.toNat
    if code < first + count then .ok (symbols.getD (index + (code - first)) 0, bs)
    else decodeFrom symbols (2 * code) (2 * (first + count)) (index + count) counts bs

/-- Reads a symbol. -/
def Code.decode (c : Code) (bs : Bits) : Except Ending (Nat × Bits) :=
  decodeFrom c.symbols 0 0 0 c.counts bs

/-! ### blocks -/

/-- The codes of a block: one for bytes and lengths, one for distances. -/
structure Codes where
  lengths : Code
  distances : Code

/-- The base and the number of further bits of each length symbol. -/
def lengthTable : List (Nat × Nat) :=
  [(3, 0), (4, 0), (5, 0), (6, 0), (7, 0), (8, 0), (9, 0), (10, 0), (11, 1), (13, 1), (15, 1),
    (17, 1), (19, 2), (23, 2), (27, 2), (31, 2), (35, 3), (43, 3), (51, 3), (59, 3), (67, 4),
    (83, 4), (99, 4), (115, 4), (131, 5), (163, 5), (195, 5), (227, 5), (258, 0)]

/-- The base and the number of further bits of each distance symbol. -/
def distanceTable : List (Nat × Nat) :=
  [(1, 0), (2, 0), (3, 0), (4, 0), (5, 1), (7, 1), (9, 2), (13, 2), (17, 3), (25, 3), (33, 4),
    (49, 4), (65, 5), (97, 5), (129, 6), (193, 6), (257, 7), (385, 7), (513, 8), (769, 8),
    (1025, 9), (1537, 9), (2049, 10), (3073, 10), (4097, 11), (6145, 11), (8193, 12), (12289, 12),
    (16385, 13), (24577, 13)]

/-- The order in which the lengths of the codes for code lengths are given. -/
def lengthOrder : List Nat := [16, 17, 18, 0, 8, 7, 9, 6, 10, 5, 11, 4, 12, 3, 13, 2, 14, 1, 15]

/-- The codes of a block with fixed codes. -/
def fixedCodes : Codes :=
  { lengths := .ofLengths
      (List.replicate 144 8 ++ List.replicate 112 9 ++ List.replicate 24 7 ++ List.replicate 8 8)
    distances := .ofLengths (List.replicate 30 5 ++ [5, 5]) }

/-- The value of a symbol in a table with its further bits. -/
def tableValue (table : List (Nat × Nat)) (symbol : Nat) (bs : Bits) :
    Except Ending (Nat × Bits) :=
  match table[symbol]? with
  | none => .error .damaged
  | some (base, extra) => do
    let (v, bs) ← number extra bs
    .ok (base + v, bs)

/-- Repeats bytes from a distance back. -/
def copyBack (distance : Nat) : Nat → Array UInt8 → Array UInt8
  | 0, out => out
  | n + 1, out => copyBack distance n (out.push (out.getD (out.size - distance) 0))

/-- Reads the symbols of a block up to its end. -/
def symbols (codes : Codes) : Nat → Array UInt8 → Bits → Array UInt8 × Except Ending Bits
  | 0, out, _ => (out, .error .exhausted)
  | fuel + 1, out, bs =>
    match codes.lengths.decode bs with
    | .error e => (out, .error e)
    | .ok (s, bs) =>
      if s < 256 then symbols codes fuel (out.push (UInt8.ofNat s)) bs
      else if s = 256 then (out, .ok bs)
      else
        let back : Except Ending (Nat × Nat × Bits) := do
          let (length, bs) ← tableValue lengthTable (s - 257) bs
          let (d, bs) ← codes.distances.decode bs
          let (distance, bs) ← tableValue distanceTable d bs
          .ok (length, distance, bs)
        match back with
        | .error e => (out, .error e)
        | .ok (length, distance, bs) =>
          if out.size < distance then (out, .error .damaged)
          else symbols codes fuel (copyBack distance length out) bs

/-- Reads literal bytes. -/
def literals : Nat → Array UInt8 → Bits → Array UInt8 × Except Ending Bits
  | 0, out, bs => (out, .ok bs)
  | n + 1, out, bs =>
    match number 8 bs with
    | .error e => (out, .error e)
    | .ok (b, bs) => literals n (out.push (UInt8.ofNat b)) bs

/-- Reads a block of literal bytes, which starts at the next whole byte. -/
def literalBlock (out : Array UInt8) (bs : Bits) : Array UInt8 × Except Ending Bits :=
  let header : Except Ending (Nat × Bits) := do
    let (n, bs) ← number 16 (bs.drop (bs.length % 8))
    let (m, bs) ← number 16 bs
    if n + m = 0xFFFF then .ok (n, bs) else .error .damaged
  match header with
  | .error e => (out, .error e)
  | .ok (n, bs) => literals n out bs

/-- Reads the lengths of the codes for code lengths. -/
def orderedLengths : Nat → Bits → Except Ending (List Nat × Bits)
  | 0, bs => .ok ([], bs)
  | n + 1, bs => do
    let (v, bs) ← number 3 bs
    let (vs, bs) ← orderedLengths n bs
    .ok (v :: vs, bs)

/-- Reads a number of code lengths after those read so far, the last one first. -/
def codeLengths (code : Code) (wanted : Nat) : Nat → List Nat → Bits →
    Except Ending (List Nat × Bits)
  | 0, _, _ => .error .exhausted
  | fuel + 1, done, bs =>
    if done.length = wanted then .ok (done.reverse, bs)
    else do
      let (s, bs) ← code.decode bs
      if s < 16 then codeLengths code wanted fuel (s :: done) bs
      else do
        let (value, base, extra) ←
          if s = 16 then
            match done with
            | v :: _ => Except.ok (v, 3, 2)
            | [] => .error .damaged
          else if s = 17 then .ok (0, 3, 3)
          else .ok (0, 11, 7)
        let (v, bs) ← number extra bs
        if wanted < done.length + base + v then .error .damaged
        else codeLengths code wanted fuel (List.replicate (base + v) value ++ done) bs

/-- Reads the codes of a block that brings its own. -/
def ownCodes (bs : Bits) : Except Ending (Codes × Bits) := do
  let (a, bs) ← number 5 bs
  let (b, bs) ← number 5 bs
  let (c, bs) ← number 4 bs
  if a + 257 > 286 ∨ b + 1 > 30 then .error .damaged
  else do
    let (ordered, bs) ← orderedLengths (c + 4) bs
    let lengthOf (s : Nat) : Nat := (ordered[lengthOrder.idxOf s]?).getD 0
    let inner := Code.ofLengths ((List.range 19).map lengthOf)
    if !inner.isFull then .error .damaged
    else do
      let wanted := a + 257 + (b + 1)
      let (lengths, bs) ← codeLengths inner wanted (wanted + 1) [] bs
      let main := lengths.take (a + 257)
      let codes : Codes := ⟨.ofLengths main, .ofLengths (lengths.drop (a + 257))⟩
      if main.getD 256 0 = 0 ∨ !codes.lengths.isUsable ∨ !codes.distances.isUsable then
        .error .damaged
      else .ok (codes, bs)

/-- Reads blocks up to the last one. -/
def blocks : Nat → Array UInt8 → Bits → Array UInt8 × Ending
  | 0, out, _ => (out, .exhausted)
  | fuel + 1, out, bs =>
    let header : Except Ending (Nat × Nat × Bits) := do
      let (last, bs) ← number 1 bs
      let (kind, bs) ← number 2 bs
      .ok (last, kind, bs)
    match header with
    | .error e => (out, e)
    | .ok (last, kind, bs) =>
      let size := bs.length + 1
      let (out, rest) :=
        match kind with
        | 0 => literalBlock out bs
        | 1 => symbols fixedCodes size out bs
        | 2 =>
          match ownCodes bs with
          | .error e => (out, .error e)
          | .ok (codes, bs) => symbols codes size out bs
        | _ => (out, .error .damaged)
      match rest with
      | .error e => (out, e)
      | .ok bs => if last = 1 then (out, .complete) else blocks fuel out bs

/-- What deflated data decompresses to, and how the decompression ends. -/
def inflate (bytes : List UInt8) : List UInt8 × Ending :=
  let bs := bitsOf bytes
  let (out, ending) := blocks (bs.length + 1) #[] bs
  (out.toList, ending)

end ServerRun.Archive.Inflate
