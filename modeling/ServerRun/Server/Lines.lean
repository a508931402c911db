import ServerRun.Server.Output

/-! The lines of a whole stream and what is printed for each, without regard to the pieces in which
the stream comes. -/

namespace ServerRun.Server

/-- The lines of a stream: the bytes before each newline, and those after the last one if there are
any. -/
def linesOf : List UInt8 → List (List UInt8)
  | [] => []
  | b :: bs =>
    if b = 10 then [] :: linesOf bs
    else
      match linesOf bs with
      | [] => [[b]]
      | l :: ls => (b :: l) :: ls

/-- What is printed for a line: a marker if it is longer than the limit, and nothing if it is
blank. -/
def printedFor (limit : Nat) (line : List UInt8) : List OutputLine :=
  if limit < line.length then [OutputLine.marker] else (OutputLine.ofBytes? line).toList

end ServerRun.Server
