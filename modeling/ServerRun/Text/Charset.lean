import ServerRun.Text.Encoding

/-! Character sets by their names: which bytes stand for which characters. -/

namespace ServerRun.Text

/-- A character set. -/
inductive Charset where
  | utf8
  | latin1
  | ascii
  | codePage1252
  | latin9
  /-- A set with one byte to a character of which only the ASCII half is known. -/
  | asciiHalf
  /-- A set with several bytes to a character. -/
  | multiByte
deriving DecidableEq, Repr

/-- The character set and the names it goes by, words joined by underscores. -/
def charsetNames : List (Charset × List String) :=
  [(.utf8, ["utf_8", "utf8", "u8", "utf"]),
    (.latin1, ["iso_8859_1", "iso8859_1", "iso8859", "latin_1", "latin1", "latin", "l1", "8859",
      "cp819"]),
    (.ascii, ["us_ascii", "ascii", "646"]),
    (.codePage1252, ["cp1252", "windows_1252", "1252"]),
    (.latin9, ["iso_8859_15", "iso8859_15", "latin9", "l9"]),
    (.asciiHalf, ["iso8859_2", "iso_8859_2", "latin2", "iso8859_3", "iso_8859_3", "iso8859_4",
      "iso_8859_4", "iso8859_5", "iso_8859_5", "cyrillic", "iso8859_6", "iso_8859_6", "iso8859_7",
      "iso_8859_7", "greek", "iso8859_8", "iso_8859_8", "iso8859_9", "iso_8859_9", "latin5",
      "iso8859_10", "iso_8859_10", "iso8859_13", "iso_8859_13", "iso8859_14", "iso_8859_14",
      "iso8859_16", "iso_8859_16", "cp1250", "windows_1250", "cp1251", "windows_1251", "cp1253",
      "windows_1253", "cp1254", "windows_1254", "cp1255", "windows_1255", "cp1256",
      "windows_1256", "cp1257", "windows_1257", "cp1258", "windows_1258", "koi8_r", "koi8_u",
      "cp437", "cp850", "cp852", "cp866", "mac_roman", "macintosh"]),
    (.multiByte, ["utf_16", "utf16", "utf_16_le", "utf_16le", "utf_16_be", "utf_16be", "utf_32",
      "utf32", "utf_32_le", "utf_32le", "utf_32_be", "utf_32be", "utf_7", "utf7", "gbk", "gb2312",
      "gb18030", "big5", "shift_jis", "sjis", "euc_jp", "euc_kr", "iso2022_jp", "iso_2022_jp",
      "cp932", "cp936", "cp949", "cp950"])]

/-- A name in lower case with its words joined by underscores; words are made of letters, digits
and full stops. -/
def plainName (s : String) : String :=
  let isWord (c : Char) : Bool := c.isAlphanum || c == '.'
  let words := (s.toList.splitBy fun c d => isWord c == isWord d).filter (·.all isWord)
  String.intercalate "_" (words.map fun w => String.ofList (w.map Char.toLower))

/-- The character set with a name. -/
def Charset.ofName? (name : String) : Option Charset :=
  (charsetNames.find? fun c => c.2.contains (plainName name)).map (·.1)

/-- The characters of the bytes 80 to 9F in code page 1252; zero for the bytes without one. -/
def codePage1252High : List Nat :=
  [0x20AC, 0, 0x201A, 0x192, 0x201E, 0x2026, 0x2020, 0x2021, 0x2C6, 0x2030, 0x160, 0x2039, 0x152,
    0, 0x17D, 0, 0, 0x2018, 0x2019, 0x201C, 0x201D, 0x2022, 0x2013, 0x2014, 0x2DC, 0x2122, 0x161,
    0x203A, 0x153, 0, 0x17E, 0x178]

/-- The characters in which the ninth Latin alphabet differs from the first. -/
def latin9Changes : List (Nat × Nat) :=
  [(0xA4, 0x20AC), (0xA6, 0x160), (0xA8, 0x161), (0xB4, 0x17D), (0xB8, 0x17E), (0xBC, 0x152),
    (0xBD, 0x153), (0xBE, 0x178)]

/-- The character of a byte in a set with one byte to a character. -/
def Charset.charOf? (set : Charset) (b : UInt8) : Option Char :=
  let n := b.toNat
  if n < 0x80 then some (Char.ofNat n)
  else
    match set with
    | .latin1 => some (Char.ofNat n)
    | .latin9 => some (Char.ofNat (((latin9Changes.find? fun c => c.1 == n).map (·.2)).getD n))
    | .codePage1252 =>
      if n < 0xA0 then
        let code := codePage1252High.getD (n - 0x80) 0
        if code = 0 then none else some (Char.ofNat code)
      else some (Char.ofNat n)
    | _ => none

/-- The text of bytes in a character set, if all of them stand for characters. -/
def Charset.decode? (set : Charset) (bs : List UInt8) : Option String :=
  match set with
  | .utf8 => ofUtf8? bs
  | _ => (bs.mapM set.charOf?).map String.ofList

/-- The text of bytes in a character set, with replacement characters for what stands for none. -/
def Charset.decodeLossy (set : Charset) (bs : List UInt8) : String :=
  match set with
  | .utf8 => ofUtf8Lossy bs
  | _ => String.ofList (bs.map fun b => (set.charOf? b).getD '\ufffd')

/-- The characters of the bytes from 80 on in code page 437. -/
def codePage437High : List Nat :=
  [0xC7, 0xFC, 0xE9, 0xE2, 0xE4, 0xE0, 0xE5, 0xE7, 0xEA, 0xEB, 0xE8, 0xEF, 0xEE, 0xEC, 0xC4, 0xC5,
    0xC9, 0xE6, 0xC6, 0xF4, 0xF6, 0xF2, 0xFB, 0xF9, 0xFF, 0xD6, 0xDC, 0xA2, 0xA3, 0xA5, 0x20A7,
    0x192, 0xE1, 0xED, 0xF3, 0xFA, 0xF1, 0xD1, 0xAA, 0xBA, 0xBF, 0x2310, 0xAC, 0xBD, 0xBC, 0xA1,
    0xAB, 0xBB, 0x2591, 0x2592, 0x2593, 0x2502, 0x2524, 0x2561, 0x2562, 0x2556, 0x2555, 0x2563,
    0x2551, 0x2557, 0x255D, 0x255C, 0x255B, 0x2510, 0x2514, 0x2534, 0x252C, 0x251C, 0x2500,
    0x253C, 0x255E, 0x255F, 0x255A, 0x2554, 0x2569, 0x2566, 0x2560, 0x2550, 0x256C, 0x2567,
    0x2568, 0x2564, 0x2565, 0x2559, 0x2558, 0x2552, 0x2553, 0x256B, 0x256A, 0x2518, 0x250C,
    0x2588, 0x2584, 0x258C, 0x2590, 0x2580, 0x3B1, 0xDF, 0x393, 0x3C0, 0x3A3, 0x3C3, 0xB5, 0x3C4,
    0x3A6, 0x398, 0x3A9, 0x3B4, 0x221E, 0x3C6, 0x3B5, 0x2229, 0x2261, 0xB1, 0x2265, 0x2264,
    0x2320, 0x2321, 0xF7, 0x2248, 0xB0, 0x2219, 0xB7, 0x221A, 0x207F, 0xB2, 0x25A0, 0xA0]

/-- The text of bytes in code page 437, in which every byte stands for a character. -/
def ofCodePage437 (bs : List UInt8) : String :=
  String.ofList (bs.map fun b =>
    let n := b.toNat
    Char.ofNat (if n < 0x80 then n else codePage437High.getD (n - 0x80) 0))

end ServerRun.Text
