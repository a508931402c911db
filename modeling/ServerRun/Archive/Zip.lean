import ServerRun.Archive.Checksum
import ServerRun.Archive.Bzip2
import ServerRun.Archive.Lzma
import ServerRun.Error
import ServerRun.Text.Charset

/-! Zip archives: the directory at the end lists the entries, and each entry has a header and its
data at its offset. Numbers that do not fit in their fields stand in records of their own, before
the end of the archive and behind the names of its entries. -/

namespace ServerRun.Archive

/-- What an entry holds: the bytes that can be read, and what keeps further ones from being read. -/
structure Content where
  bytes : List UInt8
  fault : Option Failure := none

/-- An entry of an archive: its name, and its content unless the entry cannot be opened. -/
structure Entry where
  name : String
  content : Except Failure Content

/-- Whether an entry stands for a directory. -/
def Entry.isDirectory (e : Entry) : Bool := e.name.toList.getLast? == some '/'

namespace Zip

/-- The number that bytes write, the lowest first. -/
def number (bytes : List UInt8) : Nat := bytes.foldr (fun b n => b.toNat + 256 * n) 0

/-- A number of bytes from an offset on, as far as there are any. -/
def slice (data : Array UInt8) (offset size : Nat) : List UInt8 :=
  (data.extract offset (offset + size)).toList

def numberAt (data : Array UInt8) (offset size : Nat) : Nat := number (slice data offset size)

def directoryEndMark : List UInt8 := [0x50, 0x4B, 5, 6]

def directoryMark : List UInt8 := [0x50, 0x4B, 1, 2]

def headerMark : List UInt8 := [0x50, 0x4B, 3, 4]

/-- The mark of the end record with wide numbers. -/
def wideEndMark : List UInt8 := [0x50, 0x4B, 6, 6]

/-- The mark of the record between the two that end an archive. -/
def wideLocatorMark : List UInt8 := [0x50, 0x4B, 6, 7]

/-- The last offset from which on a mark stands, at or below a first one. -/
def lastMark (data : Array UInt8) : Nat → Option Nat
  | 0 => if slice data 0 4 = directoryEndMark then some 0 else none
  | n + 1 => if slice data (n + 1) 4 = directoryEndMark then some (n + 1) else lastMark data n

/-- The offset of the record that ends an archive, with narrow numbers: the last 22 bytes if it has
no comment, and otherwise wherever the mark stands last. -/
def directoryEnd? (data : Array UInt8) : Option Nat :=
  if data.size < 22 then none
  else
    let final := data.size - 22
    if slice data final 4 = directoryEndMark ∧ slice data (final + 20) 2 = [0, 0] then some final
    else
      match lastMark data (data.size - 4) with
      | some k =>
        if data.size - 22 - 65536 ≤ k ∧ k + 22 ≤ data.size then some k else none
      | none => none

/-- What the records that end an archive say about its directory, and where they begin. -/
structure DirectoryEnd where
  size : Nat
  offset : Nat
  location : Nat
deriving Repr

/-- Reads the records that end an archive. Wide numbers replace the others; an archive that says
that it goes over several volumes is none. -/
def directoryEnd (data : Array UInt8) : Except Failure DirectoryEnd :=
  match directoryEnd? data with
  | none => .error .damagedArchive
  | some location =>
    let narrow : DirectoryEnd :=
      { size := numberAt data (location + 12) 4
        offset := numberAt data (location + 16) 4
        location }
    if location < 20 ∨ slice data (location - 20) 4 ≠ wideLocatorMark then .ok narrow
    else if numberAt data (location - 16) 4 ≠ 0 ∨ 1 < numberAt data (location - 4) 4 then
      .error .damagedArchive
    else if location < 76 then .error .damagedArchive
    else if slice data (location - 76) 4 ≠ wideEndMark then .ok narrow
    else .ok
      { size := numberAt data (location - 36) 8
        offset := numberAt data (location - 28) 8
        location := location - 76 }

/-- The numbers of an entry that may be wide. -/
structure Extent where
  size : Nat
  packedSize : Nat
  offset : Nat
deriving Repr

/-- A line of the directory. -/
structure Record where
  name : String
  flags : Nat
  method : Nat
  crc : UInt32
  packedSize : Nat
  size : Nat
  offset : Int
  /-- Where the next entry or the directory starts. -/
  limit : Int := 0
deriving Repr

/-- The name that bytes write, in UTF-8 if a flag says so. -/
def nameOf (flags : Nat) (bytes : List UInt8) : Except Failure String :=
  if flags.testBit 11 then
    match Text.ofUtf8? bytes with
    | some s => .ok s
    | none => .error .badText
  else .ok (Text.ofCodePage437 bytes)

/-- A number, or, if it is a sign that a wide one replaces it, the next wide one of a field. -/
def widened (isSign : Bool) (n : Nat) (field : List UInt8) : Option (Nat × List UInt8) :=
  if !isSign then some (n, field)
  else if field.length < 8 then none
  else some (number (field.take 8), field.drop 8)

/-- The numbers of an entry with the wide ones of a field; a missing one is an error. -/
def Extent.widen (x : Extent) (field : List UInt8) : Option Extent := do
  let (size, field) ← widened (x.size = 0xFFFFFFFF ∨ x.size = 0xFFFFFFFFFFFFFFFF) x.size field
  let (packedSize, field) ← widened (x.packedSize = 0xFFFFFFFF) x.packedSize field
  let (offset, _) ← widened (x.offset = 0xFFFFFFFF) x.offset field
  some { size, packedSize, offset }

/-- The numbers of an entry with the wide ones among its extra fields, which have to be whole. -/
def Extent.withExtra : Nat → List UInt8 → Extent → Option Extent
  | 0, _, x => some x
  | fuel + 1, bytes, x =>
    if bytes.length < 4 then some x
    else
      let n := number ((bytes.drop 2).take 2)
      if bytes.length - 4 < n then none
      else
        let rest := bytes.drop (4 + n)
        if number (bytes.take 2) = 1 then do
          let x ← x.widen ((bytes.drop 4).take n)
          withExtra fuel rest x
        else withExtra fuel rest x

/-- Reads the line of a directory at a place, and the place of the next one; `shift` is what stands
in front of the archive. -/
def recordAt (directory : Array UInt8) (shift : Int) (place : Nat) :
    Except Failure (Record × Nat) := do
  let field (offset n : Nat) : Nat := numberAt directory (place + offset) n
  let nameSize := field 28 2
  let extraSize := field 30 2
  let name ← nameOf (field 8 2) (slice directory (place + 46) nameSize)
  if 63 < field 6 2 % 256 then .error .unknownMethod
  else
    let narrow : Extent := { size := field 24 4, packedSize := field 20 4, offset := field 42 4 }
    match narrow.withExtra extraSize (slice directory (place + 46 + nameSize) extraSize) with
    | none => .error .damagedArchive
    | some x =>
      let r : Record :=
        { name
          flags := field 8 2
          method := field 10 2
          crc := UInt32.ofNat (field 16 4)
          packedSize := x.packedSize
          size := x.size
          offset := x.offset + shift }
      .ok (r, place + 46 + nameSize + extraSize + field 32 2)

/-- Reads the lines of a directory from a place up to its size. -/
def records (directory : Array UInt8) (shift : Int) (size : Nat) : Nat → Nat →
    Except Failure (List Record)
  | 0, _ => .ok []
  | fuel + 1, place =>
    if size ≤ place then .ok []
    else if directory.size < place + 46 then .error .damagedArchive
    else if slice directory place 4 ≠ directoryMark then .error .damagedArchive
    else do
      let (r, next) ← recordAt directory shift place
      let rest ← records directory shift size fuel next
      .ok (r :: rest)

/-- The records with their limits: the offset of the entry that follows in the data, or the start of
the directory. -/
def withLimits (start : Int) (rs : List Record) : List Record :=
  let offsets := (rs.zipIdx.map fun r => (r.1.offset, r.2)).mergeSort fun a b =>
    a.1 < b.1 || (a.1 == b.1 && a.2 ≤ b.2)
  let limitOf (k : Nat) : Int :=
    match (offsets.dropWhile fun o => o.2 != k).drop 1 with
    | o :: _ => o.1
    | [] => start
  rs.zipIdx.map fun r => { r.1 with limit := limitOf r.2 }

/-- The lines of the directory of an archive. -/
def directory (data : Array UInt8) : Except Failure (List Record) := do
  let e ← directoryEnd data
  if e.location < e.size then .error .damagedArchive
  else do
    let start := e.location - e.size
    let part := data.extract start (start + e.size)
    let rs ← records part ((start : Int) - e.offset) e.size (e.size + 1) 0
    .ok (withLimits start rs)

/-- The size of the pieces in which content is copied. -/
def pieceSize : Nat := 65536

/-- The content that is copied before a fault shows in the piece that ends it. -/
def wholePieces (bytes : List UInt8) : List UInt8 :=
  bytes.take ((bytes.length - 1) / pieceSize * pieceSize)

/-- Content with a checksum that has to fit. -/
def verified (r : Record) (bytes : List UInt8) : Content :=
  let bytes := bytes.take r.size
  if checksum bytes = r.crc then ⟨bytes, none⟩ else ⟨wholePieces bytes, some .damagedArchive⟩

/-- The content of stored data. -/
def stored (r : Record) (packed : List UInt8) : Content :=
  if packed.length < r.packedSize ∧ packed.length < r.size then
    ⟨wholePieces packed, some .endOfData⟩
  else verified r packed

/-- The content of deflated data. -/
def inflated (r : Record) (packed : List UInt8) : Content :=
  match Inflate.inflate packed with
  | (bytes, .damaged) =>
    let whole := wholePieces bytes
    if 0 < r.size ∧ r.size ≤ whole.length then verified r whole
    else ⟨whole, some .damagedData⟩
  | (bytes, .complete) => verified r bytes
  | (bytes, .exhausted) =>
    if packed.length < r.packedSize ∧ bytes.length < r.size then
      ⟨wholePieces bytes, some .endOfData⟩
    else verified r bytes

/-- The least number of bytes of packed data that is read at once. -/
def leastRead : Nat := 4096

/-- The content of data that are decompressed in stretches, as many bytes at once as are missing
from a piece: `taken` bytes have been decompressed, to `bytes`. What is wrong with data shows when
the stretch it is in is decompressed. -/
def decompressed (decompress : List UInt8 → List UInt8 × Inflate.Ending) (damage : Failure)
    (r : Record) (packed : List UInt8) : Nat → Nat → List UInt8 → Content
  | 0, _, bytes => ⟨bytes, some .endOfData⟩
  | fuel + 1, taken, bytes =>
    let pieces := bytes.take (bytes.length / pieceSize * pieceSize)
    let missing := pieceSize - bytes.length % pieceSize
    let stretch := (packed.drop taken).take (min (max missing leastRead) (r.packedSize - taken))
    if stretch = [] ∧ taken < r.packedSize then ⟨pieces, some .endOfData⟩
    else
      let taken := taken + stretch.length
      match decompress (packed.take taken) with
      | (_, .damaged) => ⟨pieces, some damage⟩
      | (all, ending) =>
        let bytes := all.take r.size
        if ending = .complete ∨ r.packedSize ≤ taken ∨ r.size ≤ bytes.length then
          if checksum bytes = r.crc then ⟨bytes, none⟩ else ⟨pieces, some .damagedArchive⟩
        else decompressed decompress damage r packed fuel taken bytes

/-- How the data of an entry are packed. -/
inductive Packing where
  | stored
  | deflated
  | sorted
  | coded
deriving DecidableEq, Repr

/-- The packing that a number stands for. -/
def Packing.ofNumber? : Nat → Option Packing
  | 0 => some .stored
  | 8 => some .deflated
  | 12 => some .sorted
  | 14 => some .coded
  | _ => none

/-- The text of the error of sorted data that are damaged; it counts as one of the system. -/
def sortedFault : String := "Invalid data stream"

/-- The content of packed data. -/
def Packing.unpacked (p : Packing) (r : Record) (packed : List UInt8) : Content :=
  match p with
  | .stored => Zip.stored r packed
  | .deflated => inflated r packed
  | .sorted =>
    decompressed Bzip2.decompress (.system sortedFault) r packed (packed.length + 1) 0 []
  | .coded => decompressed Lzma.decompress .damagedCode r packed (packed.length + 1) 0 []

/-- The text of the error for a place before the start of a file. -/
def seekFault : String := "Invalid argument"

/-- Opens the entry of a directory line. -/
def openRecord (data : Array UInt8) (r : Record) : Except Failure Content :=
  let o := r.offset.toNat
  if r.offset < 0 then .error (.system seekFault)
  else if 0x8000000000000000 ≤ o then .error .badValue
  else if data.size < o + 30 then .error .damagedArchive
  else if slice data o 4 ≠ headerMark then .error .damagedArchive
  else
    let nameSize := numberAt data (o + 26) 2
    let start := o + 30 + nameSize + numberAt data (o + 28) 2
    if r.flags.testBit 5 ∨ r.flags.testBit 6 then .error .unknownMethod
    else do
      let name ← nameOf (numberAt data (o + 6) 2) (slice data (o + 30) nameSize)
      if name ≠ r.name then .error .damagedArchive
      else if r.limit < (start + r.packedSize : Nat) ∧ r.limit ≠ r.offset then
        .error .damagedArchive
      else if r.flags.testBit 0 then .error .encryptedEntry
      else
        match Packing.ofNumber? r.method with
        | none => .error .unknownMethod
        | some p => .ok (p.unpacked r (slice data start r.packedSize))

/-- A name up to its first NUL. -/
def shownName (s : String) : String := String.ofList (s.toList.takeWhile (· != '\x00'))

/-- The entries of an archive, in the order of its directory. -/
def entries (bytes : List UInt8) : Except Failure (List Entry) := do
  let data := bytes.toArray
  let rs ← directory data
  .ok (rs.map fun r => ⟨shownName r.name, openRecord data r⟩)

end Zip

end ServerRun.Archive
