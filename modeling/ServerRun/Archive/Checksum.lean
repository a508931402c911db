/-! The checksum of archive entries: the remainder of a content, taken as a polynomial over two
elements, by the standard polynomial of degree 32, bits in reverse order. -/

namespace ServerRun.Archive

/-- The remainder after one more zero bit. -/
def checksumBit (r : UInt32) : UInt32 :=
  if r &&& 1 = 1 then (r >>> 1) ^^^ 0xEDB88320 else r >>> 1

/-- The remainder after one more byte. -/
def checksumByte (r : UInt32) (b : UInt8) : UInt32 :=
  Nat.repeat checksumBit 8 (r ^^^ b.toUInt32)

/-- The checksum of a content. -/
def checksum (bytes : List UInt8) : UInt32 :=
  (bytes.foldl checksumByte 0xFFFFFFFF) ^^^ 0xFFFFFFFF

end ServerRun.Archive
