import ServerRun.Json.Reader
import ServerRun.Text.Encoding

/-! JSON as bytes. The encoding shows in the first bytes: a byte order mark, or which of them are
zero. -/

namespace ServerRun.Json

/-- The text of bytes that hold JSON. -/
def textOfBytes? : List UInt8 → Option String
  | 0x00 :: 0x00 :: 0xFE :: 0xFF :: bs => Text.ofUtf32? true bs
  | 0xFF :: 0xFE :: 0x00 :: 0x00 :: bs => Text.ofUtf32? false bs
  | 0xFE :: 0xFF :: bs => Text.ofUtf16? true bs
  | 0xFF :: 0xFE :: bs => Text.ofUtf16? false bs
  | 0xEF :: 0xBB :: 0xBF :: bs => Text.ofUtf8? bs
  | a :: b :: c :: d :: bs =>
    let all := a :: b :: c :: d :: bs
    if a = 0 then if b = 0 then Text.ofUtf32? true all else Text.ofUtf16? true all
    else if b = 0 then if c = 0 ∧ d = 0 then Text.ofUtf32? false all else Text.ofUtf16? false all
    else Text.ofUtf8? all
  | [a, b] =>
    if a = 0 then Text.ofUtf16? true [a, b]
    else if b = 0 then Text.ofUtf16? false [a, b]
    else Text.ofUtf8? [a, b]
  | bs => Text.ofUtf8? bs

/-- The value that bytes write. -/
def ofBytes? (bs : List UInt8) : Option Json := (textOfBytes? bs).bind Json.parse?

mutual

/-- How deep lists and objects stand in one another. -/
def depth : Json → Nat
  | .arr xs => depthOfItems xs + 1
  | .obj fs => depthOfMembers fs + 1
  | _ => 0

def depthOfItems : List Json → Nat
  | [] => 0
  | x :: xs => max x.depth (depthOfItems xs)

def depthOfMembers : List (String × Json) → Nat
  | [] => 0
  | (_, v) :: fs => max v.depth (depthOfMembers fs)

end

end ServerRun.Json
