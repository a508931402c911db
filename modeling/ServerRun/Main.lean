import ServerRun.Json.Reader
import ServerRun.Rehearsal.Program

/-! The program: its command line is played among the files and variables that the standard input
describes as one JSON value. -/

namespace ServerRun

/-- Reads a stream to its end. -/
partial def readAll (input : IO.FS.Stream) (text : String) : IO String := do
  let line ← input.getLine
  if line = "" then return text else readAll input (text ++ line)

end ServerRun

open ServerRun in
def main (words : List String) : IO UInt32 := do
  let text ← readAll (← IO.getStdin) ""
  let place := Rehearsal.Place.ofJson ((Json.parse? text).getD .null)
  let r := place.report words
  IO.print r.output
  for line in r.errors do IO.eprintln line
  return UInt32.ofNat r.exitCode.toNat
