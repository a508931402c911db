import ServerRun.Archive.Inflate

/-! Decompression of data in blocks that are sorted: the bytes of a block are the last column of its
sorted rotations, given as places in a list of recently used bytes, runs of the first place in a
binary code of their own, all in prefix codes. What the block stands for has its runs shortened. -/

namespace ServerRun.Archive.Bzip2

open Inflate (Bits Code Ending)

/-- Data as bits, the highest bit of each byte first. -/
def bitsOf (bytes : List UInt8) : Bits :=
  bytes.flatMap fun b => (List.range 8).map fun k => b.toNat.testBit (7 - k)

/-- The number that further bits write after a number, highest first, and the rest. -/
def numberAfter : Nat → Nat → Bits → Except Ending (Nat × Bits)
  | v, 0, bs => .ok (v, bs)
  | _, _ + 1, [] => .error .exhausted
  | v, n + 1, b :: bs => numberAfter (2 * v + b.toNat) n bs

/-- The number that the next bits write, highest first, and the rest. -/
def number (n : Nat) (bs : Bits) : Except Ending (Nat × Bits) := numberAfter 0 n bs

/-- Reads bytes that have to be given ones. -/
def expect : List Nat → Bits → Except Ending Bits
  | [], bs => .ok bs
  | m :: ms, bs => do
    let (v, bs) ← number 8 bs
    if v = m then expect ms bs else .error .damaged

/-! ### the head of a block -/

/-- Which of the sixteen items that begin at a number are there. -/
def present (start : Nat) (marks : Nat) : List Nat :=
  ((List.range 16).filter fun k => marks.testBit (15 - k)).map (start + ·)

/-- Reads which bytes of some groups of sixteen are used. -/
def usedOf : List Nat → Bits → Except Ending (List UInt8 × Bits)
  | [], bs => .ok ([], bs)
  | group :: groups, bs => do
    let (marks, bs) ← number 16 bs
    let (rest, bs) ← usedOf groups bs
    .ok ((present (16 * group) marks).map UInt8.ofNat ++ rest, bs)

/-- Reads which bytes a block uses. -/
def usedBytes (bs : Bits) : Except Ending (List UInt8 × Bits) := do
  let (marks, bs) ← number 16 bs
  usedOf (present 0 marks) bs

/-- Counts bits that are set, up to the first that is not; there have to be fewer than a limit. -/
def countSet : Nat → Bits → Except Ending (Nat × Bits)
  | 0, _ => .error .damaged
  | _ + 1, [] => .error .exhausted
  | _ + 1, false :: bs => .ok (0, bs)
  | limit + 1, true :: bs => do
    let (n, bs) ← countSet limit bs
    .ok (n + 1, bs)

/-- The item at a place of a list, and the list with this item moved to its front. -/
def toFront {α : Type} [Inhabited α] (items : List α) (place : Nat) : α × List α :=
  let item := items.getD place default
  (item, item :: items.eraseIdx place)

/-- Reads which code each stretch of symbols is in, as places in a list of recently used codes. -/
def selectors (groups : Nat) : Nat → List Nat → Bits → Except Ending (List Nat × Bits)
  | 0, _, bs => .ok ([], bs)
  | n + 1, recent, bs => do
    let (place, bs) ← countSet groups bs
    let (code, recent) := toFront recent place
    let (rest, bs) ← selectors groups n recent bs
    .ok (code :: rest, bs)

/-- Reads the length of a code, starting from the one before. -/
def codeLength : Nat → Nat → Bits → Except Ending (Nat × Bits)
  | 0, _, _ => .error .exhausted
  | fuel + 1, length, bs =>
    if length < 1 ∨ 20 < length then .error .damaged
    else do
      let (more, bs) ← number 1 bs
      if more = 0 then .ok (length, bs)
      else do
        let (down, bs) ← number 1 bs
        codeLength fuel (if down = 0 then length + 1 else length - 1) bs

/-- Reads the lengths of the codes of some symbols, each starting from the one before. -/
def codeLengths : Nat → Nat → Bits → Except Ending (List Nat × Bits)
  | 0, _, bs => .ok ([], bs)
  | n + 1, length, bs => do
    let (length, bs) ← codeLength (bs.length + 1) length bs
    let (rest, bs) ← codeLengths n length bs
    .ok (length :: rest, bs)

/-- Reads the codes of a block for an alphabet of a size. -/
def codes (alphabet : Nat) : Nat → Bits → Except Ending (List Code × Bits)
  | 0, bs => .ok ([], bs)
  | n + 1, bs => do
    let (start, bs) ← number 5 bs
    let (lengths, bs) ← codeLengths alphabet start bs
    let (rest, bs) ← codes alphabet n bs
    .ok (.ofLengths lengths 21 :: rest, bs)

/-! ### the symbols of a block -/

/-- The codes of the symbols that follow: what is left of the stretch in the present code, and the
codes of further stretches. -/
structure Stretches where
  left : Nat := 0
  code : Code := ⟨[], #[]⟩
  further : List Code

def Stretches.read (s : Stretches) (bs : Bits) : Except Ending (Nat × Stretches × Bits) := do
  let s ← match s.left, s.further with
    | 0, [] => Except.error .damaged
    | 0, code :: further => .ok ⟨49, code, further⟩
    | left + 1, _ => .ok { s with left }
  let (symbol, bs) ← s.code.decode bs
  .ok (symbol, s, bs)

/-- Bytes of a column and the recently used bytes, with a run that is not yet written. -/
structure Column where
  bytes : Array UInt8 := #[]
  recent : List UInt8
  run : Nat := 0
  weight : Nat := 1

/-- Writes the run of the most recently used byte, as far as there is room for it. -/
def Column.endRun (c : Column) (room : Nat) : Except Ending Column :=
  if room < c.bytes.size + c.run then .error .damaged
  else .ok
    { bytes := c.bytes ++ Array.replicate c.run (c.recent.headD 0), recent := c.recent }

/-- Takes in a symbol: a digit of the length of a run, or the place of a recently used byte. -/
def Column.take (c : Column) (room symbol : Nat) : Except Ending Column :=
  if symbol < 2 then
    if 2097152 ≤ c.weight then .error .damaged
    else .ok { c with run := c.run + (symbol + 1) * c.weight, weight := 2 * c.weight }
  else do
    let c ← c.endRun room
    if room ≤ c.bytes.size then .error .damaged
    else
      let (b, recent) := toFront c.recent (symbol - 1)
      .ok { c with bytes := c.bytes.push b, recent }

/-- Reads the symbols of a block up to the one that ends it. -/
def column (room last : Nat) : Nat → Stretches → Column → Bits →
    Except Ending (Array UInt8 × Bits)
  | 0, _, _, _ => .error .exhausted
  | fuel + 1, s, c, bs => do
    let (symbol, s, bs) ← s.read bs
    if symbol = last then do
      let c ← c.endRun room
      .ok (c.bytes, bs)
    else do
      let c ← c.take room symbol
      column room last fuel s c bs

/-! ### from the column to what it stands for -/

/-- How many bytes of a column are lower than each byte. -/
def lowerCounts (bytes : Array UInt8) : Array Nat :=
  let counts := bytes.foldl (fun (counts : Array Nat) b => counts.modify b.toNat (· + 1))
    (Array.replicate 256 0)
  (counts.foldl (fun (sums, n) count => (sums.push n, n + count)) ((#[] : Array Nat), 0)).1

/-- Where in the sorted rotations each row goes on with its next byte. -/
def successors (bytes : Array UInt8) : Array Nat :=
  (bytes.foldl (fun ((next, places, k) : Array Nat × Array Nat × Nat) b =>
    (next.setIfInBounds (places.getD b.toNat 0) k, places.modify b.toNat (· + 1), k + 1))
    (Array.replicate bytes.size 0, lowerCounts bytes, 0)).1

/-- The bytes of a column in the order of what it stands for, from a row on. -/
def inOrder (bytes : Array UInt8) (next : Array Nat) : Nat → Nat → List UInt8
  | 0, _ => []
  | n + 1, row => bytes.getD row 0 :: inOrder bytes next n (next.getD row 0)

/-- The distances between the bytes that are changed in a block that avoids long runs. -/
def distances : List Nat :=
  [619, 720, 127, 481, 931, 816, 813, 233, 566, 247, 985, 724, 205, 454, 863, 491, 741, 242, 949,
    214, 733, 859, 335, 708, 621, 574, 73, 654, 730, 472, 419, 436, 278, 496, 867, 210, 399, 680,
    480, 51, 878, 465, 811, 169, 869, 675, 611, 697, 867, 561, 862, 687, 507, 283, 482, 129, 807,
    591, 733, 623, 150, 238, 59, 379, 684, 877, 625, 169, 643, 105, 170, 607, 520, 932, 727, 476,
    693, 425, 174, 647, 73, 122, 335, 530, 442, 853, 695, 249, 445, 515, 909, 545, 703, 919, 874,
    474, 882, 500, 594, 612, 641, 801, 220, 162, 819, 984, 589, 513, 495, 799, 161, 604, 958, 533,
    221, 400, 386, 867, 600, 782, 382, 596, 414, 171, 516, 375, 682, 485, 911, 276, 98, 553, 163,
    354, 666, 933, 424, 341, 533, 870, 227, 730, 475, 186, 263, 647, 537, 686, 600, 224, 469, 68,
    770, 919, 190, 373, 294, 822, 808, 206, 184, 943, 795, 384, 383, 461, 404, 758, 839, 887, 715,
    67, 618, 276, 204, 918, 873, 777, 604, 560, 951, 160, 578, 722, 79, 804, 96, 409, 713, 940, 652,
    934, 970, 447, 318, 353, 859, 672, 112, 785, 645, 863, 803, 350, 139, 93, 354, 99, 820, 908,
    609, 772, 154, 274, 580, 184, 79, 626, 630, 742, 653, 282, 762, 623, 680, 81, 927, 626, 789,
    125, 411, 521, 938, 300, 821, 78, 343, 175, 128, 250, 170, 774, 972, 275, 999, 639, 495, 78,
    352, 126, 857, 956, 358, 619, 580, 124, 737, 594, 701, 612, 669, 112, 134, 694, 363, 992, 809,
    743, 168, 974, 944, 375, 748, 52, 600, 747, 642, 182, 862, 81, 344, 805, 988, 739, 511, 655,
    814, 334, 249, 515, 897, 955, 664, 981, 649, 113, 974, 459, 893, 228, 433, 837, 553, 268, 926,
    240, 102, 654, 459, 51, 686, 754, 806, 760, 493, 403, 415, 394, 687, 700, 946, 670, 656, 610,
    738, 392, 760, 799, 887, 653, 978, 321, 576, 617, 626, 502, 894, 679, 243, 440, 680, 879, 194,
    572, 640, 724, 926, 56, 204, 700, 707, 151, 457, 449, 797, 195, 791, 558, 945, 679, 297, 59, 87,
    824, 713, 663, 412, 693, 342, 606, 134, 108, 571, 364, 631, 212, 174, 643, 304, 329, 343, 97,
    430, 751, 497, 314, 983, 374, 822, 928, 140, 206, 73, 263, 980, 736, 876, 478, 430, 305, 170,
    514, 364, 692, 829, 82, 855, 953, 676, 246, 369, 970, 294, 750, 807, 827, 150, 790, 288, 923,
    804, 378, 215, 828, 592, 281, 565, 555, 710, 82, 896, 831, 547, 261, 524, 462, 293, 465, 502,
    56, 661, 821, 976, 991, 658, 869, 905, 758, 745, 193, 768, 550, 608, 933, 378, 286, 215, 979,
    792, 961, 61, 688, 793, 644, 986, 403, 106, 366, 905, 644, 372, 567, 466, 434, 645, 210, 389,
    550, 919, 135, 780, 773, 635, 389, 707, 100, 626, 958, 165, 504, 920, 176, 193, 713, 857, 265,
    203, 50, 668, 108, 645, 990, 626, 197, 510, 357, 358, 850, 858, 364, 936, 638]

/-- Undoes the changes of a block that avoids long runs: `left` bytes on, one is changed. -/
def unchanged : Nat → List Nat → List UInt8 → List UInt8
  | _, _, [] => []
  | left, ds, b :: rest =>
    let (left, ds) := match left, ds with
      | 0, [] => (distances.headD 1, distances.tail)
      | 0, d :: ds => (d, ds)
      | left, ds => (left, ds)
    (if left = 2 then b ^^^ 1 else b) :: unchanged (left - 1) ds rest

/-- Writes out runs: four equal bytes are followed by the number of further ones. -/
def withRuns (count : Nat) (last : UInt8) (out : Array UInt8) :
    List UInt8 → Except Ending (Array UInt8)
  | [] => if count = 4 then .error .damaged else .ok out
  | b :: rest =>
    if count = 4 then withRuns 0 last (out ++ Array.replicate b.toNat last) rest
    else withRuns (if b = last ∧ 0 < count then count + 1 else 1) b (out.push b) rest

/-! ### blocks -/

/-- The checksum of what a block stands for. -/
def checksumByte (r : UInt32) (b : UInt8) : UInt32 :=
  Nat.repeat (fun r => if r &&& 0x80000000 = 0 then r <<< 1 else (r <<< 1) ^^^ 0x04C11DB7) 8
    (r ^^^ (b.toUInt32 <<< 24))

def checksum (bytes : Array UInt8) : UInt32 := (bytes.foldl checksumByte 0xFFFFFFFF) ^^^ 0xFFFFFFFF

/-- Reads a block whose mark has been read: what it stands for, and its checksum. -/
def block (room : Nat) (bs : Bits) : Except Ending (Array UInt8 × UInt32 × Bits) := do
  let (crc, bs) ← number 32 bs
  let (changed, bs) ← number 1 bs
  let (row, bs) ← number 24 bs
  if room + 10 < row then .error .damaged
  else do
    let (used, bs) ← usedBytes bs
    if used.isEmpty then .error .damaged
    else do
      let (groups, bs) ← number 3 bs
      if groups < 2 ∨ 6 < groups then .error .damaged
      else do
        let (stretches, bs) ← number 15 bs
        if stretches = 0 then .error .damaged
        else do
          let (selected, bs) ← selectors groups stretches (List.range groups) bs
          let (codes, bs) ← codes (used.length + 2) groups bs
          let further := (selected.take 18002).map fun k => codes.getD k ⟨[], #[]⟩
          let (bytes, bs) ← column room (used.length + 1) (bs.length + 1) { further }
            { recent := used } bs
          if bytes.size ≤ row then .error .damaged
          else do
            let next := successors bytes
            let text := inOrder bytes next bytes.size (next.getD row 0)
            let out ← withRuns 0 0 #[] (if changed = 0 then text else unchanged 0 distances text)
            if checksum out = UInt32.ofNat crc then .ok (out, checksum out, bs)
            else .error .damaged

/-- Reads blocks up to the end mark, which has a checksum of the checksums of all. -/
def blocks (room : Nat) : Nat → Array UInt8 → UInt32 → Bits → Array UInt8 × Ending
  | 0, out, _, _ => (out, .exhausted)
  | fuel + 1, out, all, bs =>
    match number 8 bs with
    | .error e => (out, e)
    | .ok (mark, bs) =>
      if mark = 0x17 then
        match expect [0x72, 0x45, 0x38, 0x50, 0x90] bs >>= number 32 with
        | .error e => (out, e)
        | .ok (crc, _) => (out, if UInt32.ofNat crc = all then .complete else .damaged)
      else if mark = 0x31 then
        match expect [0x41, 0x59, 0x26, 0x53, 0x59] bs >>= block room with
        | .error e => (out, e)
        | .ok (bytes, crc, bs) =>
          blocks room fuel (out ++ bytes) (((all <<< 1) ||| (all >>> 31)) ^^^ crc) bs
      else (out, .damaged)

/-- What data decompress to, and how the decompression ends. -/
def decompress (bytes : List UInt8) : List UInt8 × Ending :=
  let head : Except Ending (Nat × Bits) := do
    let bs ← expect [0x42, 0x5A, 0x68] (bitsOf bytes)
    let (level, bs) ← number 8 bs
    if level < 0x31 ∨ 0x39 < level then .error .damaged else .ok (100000 * (level - 0x30), bs)
  match head with
  | .error e => ([], e)
  | .ok (room, bs) =>
    let (out, ending) := blocks room (bs.length + 1) #[] 0 bs
    (out.toList, ending)

end ServerRun.Archive.Bzip2
