import ServerRun.Log.Style
import ServerRun.Text.Blank
import ServerRun.Text.Encoding

/-! The output of a child process, echoed line by line. The bytes that have come and not been read
are kept in a buffer. A line with more bytes than the limit is dropped up to its newline, or as far
as it has come, and a marker stands for it. -/

namespace ServerRun.Server

/-- The bytes of an output stream that were not read yet. -/
structure LineReader where
  limit : Nat := 65536
  buffer : List UInt8 := []
  ended : Bool := false
deriving Repr, DecidableEq

namespace LineReader

/-- The bytes before the first newline and after it. -/
def splitLine : List UInt8 → Option (List UInt8 × List UInt8)
  | [] => none
  | b :: bs =>
    if b = 10 then some ([], bs) else (splitLine bs).map fun p => (b :: p.1, p.2)

/-- Adds bytes that have come. -/
def feed (r : LineReader) (bytes : List UInt8) : LineReader :=
  { r with buffer := r.buffer ++ bytes }

/-- Notes that no more bytes will come. -/
def close (r : LineReader) : LineReader := { r with ended := true }

/-- What reading a line comes to. -/
inductive Reading where
  | line (bytes : List UInt8)
  | overrun
  | waiting
  | finished
deriving Repr, DecidableEq

/-- Reads a line, and the reader after that. -/
def read (r : LineReader) : Reading × LineReader :=
  match splitLine r.buffer with
  | some (line, rest) =>
    if r.limit < line.length then (.overrun, { r with buffer := rest })
    else (.line line, { r with buffer := rest })
  | none =>
    if r.limit < r.buffer.length then (.overrun, { r with buffer := [] })
    else if !r.ended then (.waiting, r)
    else if r.buffer = [] then (.finished, r)
    else (.line r.buffer, { r with buffer := [] })

end LineReader

/-- A printed line: its text and the colour of the text. -/
structure OutputLine where
  text : String
  style : String
deriving Repr, DecidableEq

namespace OutputLine

/-- The prefix of the lines of a server. -/
def serverPrefix : String := "[server] "

/-- The colour of the prefix. -/
def serverPrefixStyle : String := "#5B9BD5"

/-- The line that stands for one that was too long. -/
def marker : OutputLine := ⟨"[line exceeds buffer limit, truncated]", "#E8A33D"⟩

/-- The printed form of a line: without blanks at its end, and nothing if it is blank. -/
def ofBytes? (bytes : List UInt8) : Option OutputLine :=
  let text := Text.strippedEnd (Text.ofUtf8Lossy bytes)
  if text = "" then none else some ⟨text, Log.lineStyle text⟩

/-- The control characters that a terminal acts on and that are not printed. -/
def isTerminalControl (c : Char) : Bool :=
  c.toNat == 7 || c.toNat == 8 || c.toNat == 11 || c.toNat == 12 || c.toNat == 13

/-- A text as it is printed. -/
def plain (s : String) : String := String.ofList (s.toList.filter fun c => !isTerminalControl c)

end OutputLine

/-- Prints all that can be read, in order, and whether the stream is at its end. -/
def LineReader.print : Nat → LineReader → List OutputLine × Bool × LineReader
  | 0, r => ([], false, r)
  | fuel + 1, r =>
    match r.read with
    | (.line bytes, r) =>
      let (lines, done, r) := print fuel r
      ((OutputLine.ofBytes? bytes).toList ++ lines, done, r)
    | (.overrun, r) =>
      let (lines, done, r) := print fuel r
      (OutputLine.marker :: lines, done, r)
    | (.waiting, r) => ([], false, r)
    | (.finished, r) => ([], true, r)

/-- Prints all that can be read. -/
def LineReader.printAll (r : LineReader) : List OutputLine × Bool × LineReader :=
  r.print (r.buffer.length + 1)

/-- The lines printed when the chunks of a stream come one by one and each is read before the next
one comes, and the stream then ends. -/
def LineReader.echo (r : LineReader) : List (List UInt8) → List OutputLine
  | [] => r.close.printAll.1
  | chunk :: rest =>
    let (lines, _, r) := (r.feed chunk).printAll
    lines ++ r.echo rest

end ServerRun.Server
