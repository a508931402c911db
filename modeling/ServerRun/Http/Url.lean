import ServerRun.Text.Encoding
import ServerRun.Text.Digit

/-! Addresses of resources: their parts, the normal form that requests are sent with, and addresses
relative to another one. -/

namespace ServerRun.Http

/-- A text without the slashes at its end. -/
def withoutSlashes (s : String) : String :=
  String.ofList (s.toList.reverse.dropWhile (· == '/')).reverse

/-- An address, its parts percent-encoded. -/
structure Url where
  scheme : String := ""
  userinfo : String := ""
  host : String := ""
  port : Option Nat := none
  path : String := ""
  query : Option String := none
  fragment : Option String := none
deriving DecidableEq, Repr, Inhabited

namespace Url

/-! ### percent encoding -/

/-- Whether a character is one of the printable ASCII ones apart from given others. -/
def isPrintableBut (others : List Char) (c : Char) : Bool :=
  0x20 < c.toNat && c.toNat < 0x7F && !others.contains c

def isQueryChar : Char → Bool := isPrintableBut ['"', '#', '<', '>']

def isFragmentChar : Char → Bool := isPrintableBut ['"', '<', '>', '\x60']

def isPathChar : Char → Bool :=
  isPrintableBut ['"', '#', '<', '>', '?', '\x60', '\x7b', '\x7d']

def isUserChar : Char → Bool :=
  isPrintableBut
    ['"', '#', '<', '>', '?', '\x60', '\x7b', '\x7d', '/', ';', '=', '@', '[', '\\', ']', '^', '|']

def isHostChar (c : Char) : Bool :=
  c.isAlphanum || "-._~!$&'()*+,;=\"\x60\x7b\x7d%|\\".toList.contains c

/-- The bytes of a character, each written as a percent sign and two digits. -/
def percent (c : Char) : List Char :=
  (Text.utf8 c.toString).flatMap fun b =>
    '%' :: (Text.hexDigits 2 b.toNat).map Char.toUpper

/-- A text with every character encoded that may not stand for itself; what is encoded already
stays. -/
def quote (isSafe : Char → Bool) : List Char → List Char
  | [] => []
  | '%' :: a :: b :: cs =>
    if (Text.hexValue? a).isSome && (Text.hexValue? b).isSome then
      '%' :: a :: b :: quote isSafe cs
    else (if isSafe '%' then ['%'] else percent '%') ++ quote isSafe (a :: b :: cs)
  | c :: cs => (if isSafe c then [c] else percent c) ++ quote isSafe cs

def quoted (isSafe : Char → Bool) (cs : List Char) : String := String.ofList (quote isSafe cs)

/-! ### hosts and ports -/

/-- The number that digits write, if it is below 256 and has no needless zeros. -/
def octet? (cs : List Char) : Bool :=
  cs ≠ [] && cs.all Char.isDigit && cs.length ≤ 3 && Text.natOfDigits 0 cs < 256 &&
    (cs.length == 1 || cs.head? != some '0')

/-- The parts of a text between occurrences of a character. -/
def split (sep : Char) : List Char → List (List Char)
  | [] => [[]]
  | c :: cs =>
    if c = sep then [] :: split sep cs
    else
      match split sep cs with
      | p :: ps => (c :: p) :: ps
      | [] => [[c]]

/-- Whether a text is an address of four octets. -/
def isOctets (cs : List Char) : Bool :=
  let ps := split '.' cs
  ps.length == 4 && ps.all octet?

/-- Whether a text has four runs of digits with one character of any kind between two of them;
`left` tells how many runs are still to come and `inside` whether the present one has begun. -/
def looksLikeOctets (left : Nat) (inside : Bool) : List Char → Bool
  | [] => left == 0 && inside
  | c :: cs =>
    (c.isDigit && looksLikeOctets left true cs) ||
      (inside && match left with
        | 0 => false
        | l + 1 => looksLikeOctets l false cs)

/-- How many groups of two bytes the parts of an address write; the last part may be four octets. -/
def groups? (parts : List (List Char)) : Option Nat :=
  let isGroup (p : List Char) : Bool :=
    p ≠ [] && p.length ≤ 4 && p.all fun c => (Text.hexValue? c).isSome
  match parts.reverse with
  | [] => some 0
  | last :: rest =>
    if rest.all isGroup then
      if isGroup last then some parts.length
      else if isOctets last then some (parts.length + 1)
      else none
    else none

/-- The text before and after the first double colon. -/
def splitDouble : List Char → Option (List Char × List Char)
  | ':' :: ':' :: rest => some ([], rest)
  | c :: cs => (splitDouble cs).map fun r => (c :: r.1, r.2)
  | [] => none

/-- Whether a text is an address of eight groups, a double colon standing for groups of zeros. -/
def isGroups (cs : List Char) : Bool :=
  let cs := cs.takeWhile (· != '%')
  let count (cs : List Char) : Option Nat := if cs = [] then some 0 else groups? (split ':' cs)
  match splitDouble cs with
  | none => count cs == some 8
  | some (front, back) =>
    match count front, count back with
    | some a, some b => a + b ≤ 7 && (front = [] || !front.contains '.')
    | _, _ => false

/-- The host that a text names, in lower case; none if it is no proper one. -/
def host? (cs : List Char) : Option String :=
  if cs = [] then some ""
  else if looksLikeOctets 3 false cs then if isOctets cs then some (String.ofList cs) else none
  else if cs.head? == some '[' && cs.getLast? == some ']' then
    let inner := cs.drop 1 |>.dropLast
    if isGroups inner then some (String.ofList inner) else none
  else if cs.all fun c => c.toNat < 128 then some (quoted isHostChar (cs.map Char.toLower))
  else none

/-- The port that a scheme uses when none is given. -/
def defaultPort? : String → Option Nat
  | "http" | "ws" => some 80
  | "https" | "wss" => some 443
  | "ftp" => some 21
  | _ => none

/-- The port that a text writes; the default one of the scheme is not kept. -/
def port? (scheme : String) (cs : List Char) : Option (Option Nat) :=
  if cs = [] then some none
  else if cs.all Char.isDigit then
    let n := Text.natOfDigits 0 cs
    some (if defaultPort? scheme = some n then none else some n)
  else none

/-! ### reading -/

/-- The scheme in front of a colon, in lower case, and the rest. -/
def schemeOf (cs : List Char) : String × List Char :=
  match cs with
  | c :: _ =>
    if c.isAlpha then
      match cs.span fun c => c.isAlphanum || c == '+' || c == '.' || c == '-' with
      | (s, ':' :: rest) => (String.ofList (s.map Char.toLower), rest)
      | _ => ("", cs)
    else if c = ':' then ("", cs.drop 1)
    else ("", cs)
  | [] => ("", cs)

/-- The text up to the last occurrence of a character, and the text after it. -/
def splitLast (sep : Char) (cs : List Char) : Option (List Char × List Char) :=
  let back := cs.reverse
  match back.span (· != sep) with
  | (after, _ :: before) => some (before.reverse, after.reverse)
  | (_, []) => none

/-- The host and the port of a text without user. -/
def hostAndPort (cs : List Char) : List Char × List Char :=
  let bracketed :=
    if cs.head? == some '[' then splitLast ']' cs else none
  match bracketed with
  | some (inner, rest) => (inner ++ [']'], if rest.head? == some ':' then rest.drop 1 else rest)
  | none =>
    let (h, rest) := cs.span (· != ':')
    (h, rest.drop 1)

/-- The segments of a path without dots, and with double dots taken back. -/
def removeDots (cs : List Char) : List Char :=
  let parts := split '/' cs
  if parts.contains ['.'] || parts.contains ['.', '.'] then
    let kept := parts.foldl (fun out p =>
      if p = ['.'] then out
      else if p = ['.', '.'] then (if out ≠ [] ∧ out ≠ [[]] then out.dropLast else out)
      else out ++ [p]) []
    ['/'].intercalate kept
  else cs

/-- Whether a path may stand beside a scheme and an authority, or without them. -/
def isProperPath (path : List Char) (hasScheme hasAuthority : Bool) : Bool :=
  if hasAuthority then path = [] || path.head? == some '/'
  else hasScheme || (!(path.take 2 == ['/', '/']) && path.head? != some ':')

/-- An address from its parts as they are written. -/
def ofParts? (scheme : String) (userinfo host port path : List Char)
    (query fragment : Option (List Char)) : Option Url := do
  let userinfo := quoted isUserChar userinfo
  let host ← host? host
  let port ← port? scheme port
  let hasScheme := scheme ≠ ""
  let hasAuthority := userinfo ≠ "" ∨ host ≠ "" ∨ port ≠ none
  if isProperPath path hasScheme hasAuthority then
    let path := if hasScheme ∨ hasAuthority then removeDots path else path
    some
      { scheme, userinfo, host, port
        path := quoted isPathChar path
        query := query.map (quoted isQueryChar)
        fragment := fragment.map (quoted isFragmentChar) }
  else none

/-- The text of an optional part after its mark, and the text in front of it. -/
def partAfter (mark : Char) (cs : List Char) : List Char × Option (List Char) :=
  match cs.span (· != mark) with
  | (front, _ :: rest) => (front, some rest)
  | (front, []) => (front, none)

/-- Reads an address; control characters, improper hosts and ports and addresses of more than 65536
characters are refused. -/
def parse? (s : String) : Option Url :=
  let cs := s.toList
  if cs.length > 65536 || cs.any fun c => c.toNat < 0x20 || c.toNat == 0x7F then none
  else
    let (scheme, rest) := schemeOf cs
    let (rest, fragment) := partAfter '#' rest
    let (rest, query) := partAfter '?' rest
    let (authority, path) :=
      match rest with
      | '/' :: '/' :: more => more.span (· != '/')
      | _ => ([], rest)
    let (userinfo, hostPart) := (splitLast '@' authority).getD ([], authority)
    let (host, port) := hostAndPort hostPart
    ofParts? scheme userinfo host port path query fragment

/-! ### writing -/

/-- The user, host and port of an address. -/
def authority (u : Url) : String :=
  (if u.userinfo = "" then "" else u.userinfo ++ "@") ++
    (if u.host.toList.contains ':' then "[" ++ u.host ++ "]" else u.host) ++
    match u.port with
    | some p => ":" ++ Nat.repr p
    | none => ""

/-- The text of an address. -/
def text (u : Url) : String :=
  (if u.scheme = "" then "" else u.scheme ++ ":") ++
    (if u.authority = "" then "" else "//" ++ u.authority) ++ u.path ++
    (match u.query with
      | some q => "?" ++ q
      | none => "") ++
    match u.fragment with
    | some f => "#" ++ f
    | none => ""

/-- Whether an address tells where to send a request. -/
def isAbsolute (u : Url) : Bool := u.scheme != "" && u.host != ""

/-- The address that a request is sent to: without a host only a path below the root is left. -/
def ofRequest? (s : String) : Option Url := do
  let u ← parse? s
  if u.isAbsolute then some u
  else
    let path := '/' :: u.path.toList.dropWhile (· == '/')
    some { path := String.ofList path, query := u.query }

/-! ### relative addresses -/

/-- The path that a relative path leads to from another one. -/
def joinPaths (base path : List Char) : List Char :=
  let dropInner (ss : List (List Char)) : List (List Char) :=
    match ss with
    | [] => []
    | first :: rest =>
      match rest.getLast? with
      | none => [first]
      | some last => first :: (rest.dropLast.filter (· ≠ [])) ++ [last]
  let segments :=
    if path.head? == some '/' then split '/' path
    else
      let baseParts := split '/' base
      let baseParts := if baseParts.getLast? == some [] then baseParts else baseParts.dropLast
      dropInner (baseParts ++ split '/' path)
  let kept := segments.foldl (fun out s =>
    if s = ['.', '.'] then out.dropLast else if s = ['.'] then out else out ++ [s]) []
  let dotted := segments.getLast? == some ['.'] || segments.getLast? == some ['.', '.']
  let joined := ['/'].intercalate (if dotted then kept ++ [[]] else kept)
  if joined = [] then ['/'] else joined

/-- An optional part that holds something. -/
def unlessEmpty (part : Option String) : Option String := part.filter (· ≠ "")

/-- The address that a relative address leads to. -/
def join (base u : Url) : Url :=
  if u.scheme ≠ "" ∧ u.scheme ≠ base.scheme then u
  else if u.authority ≠ "" then { u with scheme := base.scheme }
  else if u.path = "" then
    { base with
      query := (unlessEmpty u.query).or (unlessEmpty base.query)
      fragment := unlessEmpty u.fragment }
  else
    { base with
      path := String.ofList (joinPaths base.path.toList u.path.toList)
      query := unlessEmpty u.query
      fragment := unlessEmpty u.fragment }

/-- The address that an answer to a request redirects to. -/
def redirect? (origin : Url) (location : String) : Option Url := do
  let u ← parse? location
  let u ←
    if u.scheme ≠ "" ∧ u.host = "" then
      if isProperPath u.path.toList true (origin.host ≠ "") then
        some { u with host := origin.host }
      else none
    else some u
  let u := if u.isAbsolute then u else origin.join u
  some (match unlessEmpty u.fragment, unlessEmpty origin.fragment with
    | none, some f => { u with fragment := some f }
    | _, _ => u)

end Url

end ServerRun.Http
