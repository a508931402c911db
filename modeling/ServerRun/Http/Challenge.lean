import ServerRun.Http.Message
import ServerRun.Json.Writer
import ServerRun.Text.Blank

/-! Challenges to prove who sends a request, and the character set of an answer: the parts of
headers that consist of named values. -/

namespace ServerRun.Http

/-- The parts of a text between occurrences of a character outside quotes. -/
def splitUnquoted (sep : Char) (quoted : Bool) : List Char → List (List Char)
  | [] => [[]]
  | c :: cs =>
    if c = sep ∧ !quoted then [] :: splitUnquoted sep quoted cs
    else
      match splitUnquoted sep (if c = '"' then !quoted else quoted) cs with
      | p :: ps => (c :: p) :: ps
      | [] => [[c]]

/-- A text without quotes around it. -/
def unquoted (cs : List Char) : List Char :=
  if 2 ≤ cs.length ∧ cs.head? = some '"' ∧ cs.getLast? = some '"' then (cs.drop 1).dropLast
  else cs

/-- A name and a value around the first equals sign. -/
def namedValue? (cs : List Char) : Option (String × String) :=
  match (Text.trim cs).span (· != '=') with
  | (n, _ :: v) => some (String.ofList n, String.ofList (unquoted v))
  | (_, []) => none

/-- Why a challenge cannot be met. -/
inductive ChallengeFault where
  /-- A part without a value. -/
  | unnamed
  | incomplete (message : String)
  | unknownAlgorithm
  | unsupported
deriving Repr

/-- The digest algorithms that a challenge may ask for. -/
def digestAlgorithms : List String :=
  ["MD5", "MD5-SESS", "SHA", "SHA-SESS", "SHA-256", "SHA-256-SESS", "SHA-512", "SHA-512-SESS"]

/-- The values of a digest challenge, if a header holds one. -/
def digestParts? (header : String) : Option (List Char) :=
  let cs := header.toList
  if (cs.take 7).map Char.toLower = "digest ".toList then some (cs.drop 7) else none

/-- The parts of a list between commas, blank ones left out. -/
def listParts (cs : List Char) : List (List Char) :=
  (splitUnquoted ',' false cs).filter fun p => Text.trim p ≠ []

/-- Checks that a digest challenge can be met. -/
def checkChallenge (parts : List Char) : Except ChallengeFault Unit :=
  match (listParts parts).mapM namedValue? with
  | none => .error .unnamed
  | some values =>
    let value (name : String) : Option String := Fields.get? values.reverse name
    if (value "realm").isNone || (value "nonce").isNone then
      .error (.incomplete "Malformed Digest WWW-Authenticate header")
    else
      let algorithm := (value "algorithm").getD "MD5"
      if !digestAlgorithms.contains (String.ofList (algorithm.toList.map Char.toUpper)) then
        .error .unknownAlgorithm
      else
        match value "qop" with
        | none => .ok ()
        | some q =>
          let offered := (splitUnquoted ',' false q.toList).map Text.trim
          if offered.contains "auth".toList then .ok ()
          else if offered = ["auth-int".toList] then .error .unsupported
          else
            .error (.incomplete
              ("Unexpected qop value \"b" ++ Json.displayString q ++ "\" in digest auth"))

/-- The name of the character set that a content type gives, if it does. -/
def charsetName? (contentType : String) : Option String :=
  let values := (splitUnquoted ';' false contentType.toList).drop 1 |>.filterMap namedValue?
  (values.find? fun v => v.1.toList.map Char.toLower == "charset".toList).map (·.2)

end ServerRun.Http
