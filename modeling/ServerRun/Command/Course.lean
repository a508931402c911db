import ServerRun.Command.Parser

/-! The course of reading a command, by rules that have no bound on their depth. A rule says what is
done at a cursor, which is the text that is left there: which stretches of the text are completed,
in the order in which they end, and what is read or why reading stops. A course is made of finitely
many rules, so where there is one, reading comes to an end. -/

namespace ServerRun.Command

/-- What a stretch of text is: a single token, or a part that is made of tokens. -/
inductive Stretch.Kind where
  | token
  | value
  | item
  | parameter
  | segment
deriving DecidableEq, Repr

/-- A stretch of text, from one cursor to another. -/
structure Stretch where
  kind : Stretch.Kind
  before : List Char
  after : List Char
deriving DecidableEq, Repr

/-- Where the cursor stands for a stretch: a token moves it, and a part ends where its last token
does. -/
def Stretch.cursors (s : Stretch) : List (List Char) :=
  match s.kind with
  | .token => [s.before, s.after]
  | _ => [s.after]

/-- The courses of a reader: from a cursor, through the stretches that are completed, to what comes
of it. -/
abbrev Course (α : Type) := List Char → List Stretch → Reading α → Prop

section

variable {α β : Type}

/-- The stretch that a reader completes, unless it fails. -/
def completed (kind : Stretch.Kind) (cs : List Char) : Reading α → List Stretch
  | .ok (_, rest) => [⟨kind, cs, rest⟩]
  | .error _ => []

/-- Reading a single token. -/
def Token (read : List Char → Reading α) : Course α :=
  fun cs ss r => ss = completed .token cs r ∧ r = read cs

/-- Reading nothing more. -/
def Give (x : α) : Course α := fun cs ss r => ss = [] ∧ r = .ok (x, cs)

/-- Reading one thing and, unless that fails, another behind it. -/
inductive Then (first : Course α) (next : α → Course β) : Course β where
  | failed {cs : List Char} {ss : List Stretch} {e : Fault} (h : first cs ss (.error e)) :
      Then first next cs ss (.error e)
  | next {cs mid : List Char} {ss ts : List Stretch} {x : α} {r : Reading β}
      (h : first cs ss (.ok (x, mid))) (hn : next x mid ts r) : Then first next cs (ss ++ ts) r

end

/-! ### words -/

/-- A character that has to come next. -/
def readSign (c : Char) (cs : List Char) : Reading Unit := (expect c cs).map fun rest => ((), rest)

/-- A value that is a single word, in quotes or bare. -/
def readWord (stops : List Char) (cs : List Char) : Reading Json :=
  match Text.trimStart cs with
  | '"' :: rest => (readQuoted rest).map fun (s, rest) => (.str (String.ofList s), rest)
  | cs =>
    match readBare stops cs with
    | ([], rest) => .error ⟨.missingValue, rest⟩
    | (word, rest) => .ok (bareValue word, rest)

/-- The courses of reading a name and the equals sign behind it. -/
def ReadsKey (stops : List Char) (part : Part) : Course String :=
  Then (Token (readName stops part)) fun name => Then (Token (readSign '=')) fun _ => Give name

/-! ### values -/

/-- A list or an object that has been opened, and what has been read of it. -/
inductive Opened where
  | list (items : List Json)
  | object (close : Char) (fields : Fields)

/-- The bracket that closes it. -/
def Opened.close : Opened → Char
  | .list _ => ']'
  | .object close _ => close

/-- What it is if it is closed. -/
def Opened.value : Opened → Json
  | .list items => .arr items
  | .object _ fields => .obj fields

/-- What is to be read: a value that ends before the given delimiters, the parts of something
opened, or what stands behind one of its parts. -/
inductive Task where
  | value (stops : List Char)
  | parts (opened : Opened)
  | behind (opened : Opened)

/-- The courses of reading a value and its parts. -/
inductive Reads : Task → Course Json where
  | word {stops cs : List Char} {ss : List Stretch} {r : Reading Json}
      (hlist : ∀ tail, Text.trimStart cs ≠ '[' :: tail)
      (hobject : ∀ tail, Text.trimStart cs ≠ '\x7b' :: tail) (hr : Token (readWord stops) cs ss r) :
      Reads (.value stops) cs (ss ++ completed .value cs r) r
  | list {stops cs tail : List Char} {ss : List Stretch} {r : Reading Json}
      (h : Text.trimStart cs = '[' :: tail) (hr : Reads (.parts (.list [])) tail ss r) :
      Reads (.value stops) cs (⟨.token, cs, tail⟩ :: ss ++ completed .value cs r) r
  | object {stops cs tail : List Char} {ss : List Stretch} {r : Reading Json}
      (h : Text.trimStart cs = '\x7b' :: tail)
      (hr : Reads (.parts (.object '\x7d' [])) tail ss r) :
      Reads (.value stops) cs (⟨.token, cs, tail⟩ :: ss ++ completed .value cs r) r
  | closed {o : Opened} {cs tail : List Char} (h : Text.trimStart cs = o.close :: tail) :
      Reads (.parts o) cs [⟨.token, cs, tail⟩] (.ok (o.value, tail))
  | badItem {items : List Json} {cs : List Char} {ss : List Stretch} {e : Fault}
      (h : ∀ tail, Text.trimStart cs ≠ ']' :: tail)
      (hv : Reads (.value [',', ']']) (Text.trimStart cs) ss (.error e)) :
      Reads (.parts (.list items)) cs ss (.error e)
  | item {items : List Json} {cs mid : List Char} {ss ts : List Stretch} {v : Json}
      {r : Reading Json} (h : ∀ tail, Text.trimStart cs ≠ ']' :: tail)
      (hv : Reads (.value [',', ']']) (Text.trimStart cs) ss (.ok (v, mid)))
      (hr : Reads (.behind (.list (items ++ [v]))) mid ts r) :
      Reads (.parts (.list items)) cs (ss ++ ⟨.item, Text.trimStart cs, mid⟩ :: ts) r
  | badKey {close : Char} {fields : Fields} {cs : List Char} {ks : List Stretch} {e : Fault}
      (h : ∀ tail, Text.trimStart cs ≠ close :: tail)
      (hk : ReadsKey ['=', close] .parameterName (Text.trimStart cs) ks (.error e)) :
      Reads (.parts (.object close fields)) cs ks (.error e)
  | badValue {close : Char} {fields : Fields} {cs rest : List Char} {name : String}
      {ks ss : List Stretch} {e : Fault} (h : ∀ tail, Text.trimStart cs ≠ close :: tail)
      (hk : ReadsKey ['=', close] .parameterName (Text.trimStart cs) ks (.ok (name, rest)))
      (hv : Reads (.value [',', close]) rest ss (.error e)) :
      Reads (.parts (.object close fields)) cs (ks ++ ss) (.error e)
  | parameter {close : Char} {fields : Fields} {cs rest mid : List Char} {name : String}
      {ks ss ts : List Stretch} {v : Json} {r : Reading Json}
      (h : ∀ tail, Text.trimStart cs ≠ close :: tail)
      (hk : ReadsKey ['=', close] .parameterName (Text.trimStart cs) ks (.ok (name, rest)))
      (hv : Reads (.value [',', close]) rest ss (.ok (v, mid)))
      (hr : Reads (.behind (.object close (Fields.insert fields name v))) mid ts r) :
      Reads (.parts (.object close fields)) cs
        (ks ++ ss ++ ⟨.parameter, Text.trimStart cs, mid⟩ :: ts) r
  | comma {o : Opened} {cs tail : List Char} {ss : List Stretch} {r : Reading Json}
      (h : Text.trimStart cs = ',' :: tail) (hr : Reads (.parts o) tail ss r) :
      Reads (.behind o) cs (⟨.token, cs, tail⟩ :: ss) r
  | closing {o : Opened} {cs tail : List Char} (hc : o.close ≠ ',')
      (h : Text.trimStart cs = o.close :: tail) :
      Reads (.behind o) cs [⟨.token, cs, tail⟩] (.ok (o.value, tail))
  | neither {o : Opened} {cs : List Char}
      (h : ∀ c tail, Text.trimStart cs = c :: tail → c ≠ ',' ∧ c ≠ o.close) :
      Reads (.behind o) cs [] (.error ⟨.expectedNext o.close, Text.trimStart cs⟩)

/-! ### commands -/

/-- The courses of reading a segment behind its slash. -/
def ReadsSegment : Course (String × String) :=
  Then (ReadsKey ['=', ':', '/'] .addressType) fun key =>
    Then (Token (readName ['/', ':'] .addressName)) fun name => Give (key, name)

/-- The courses of reading an address from the start of a segment on, after others. -/
inductive ReadsAddress : List (String × String) → Course (List (String × String)) where
  | done {acc : List (String × String)} {cs : List Char} (h : ∀ tail, cs ≠ '/' :: tail) :
      ReadsAddress acc cs [] (.ok (acc, cs))
  | slash {acc : List (String × String)} {tail : List Char}
      (h : ∀ c more, Text.trimStart tail = c :: more → c = ':') :
      ReadsAddress acc ('/' :: tail) [⟨.token, '/' :: tail, Text.trimStart tail⟩]
        (.ok (acc, Text.trimStart tail))
  | badSegment {acc : List (String × String)} {c : Char} {tail more : List Char}
      {ss : List Stretch} {e : Fault} (h : Text.trimStart tail = c :: more) (hc : c ≠ ':')
      (hs : ReadsSegment (Text.trimStart tail) ss (.error e)) :
      ReadsAddress acc ('/' :: tail) (⟨.token, '/' :: tail, tail⟩ :: ss) (.error e)
  | segment {acc : List (String × String)} {c : Char} {tail more mid : List Char}
      {s : String × String} {ss ts : List Stretch} {r : Reading (List (String × String))}
      (h : Text.trimStart tail = c :: more) (hc : c ≠ ':')
      (hs : ReadsSegment (Text.trimStart tail) ss (.ok (s, mid)))
      (hr : ReadsAddress (acc ++ [s]) mid ts r) :
      ReadsAddress acc ('/' :: tail)
        (⟨.token, '/' :: tail, tail⟩ :: ss ++ ⟨.segment, '/' :: tail, mid⟩ :: ts) r

/-- The courses of reading the parameters behind an operation name, if there are brackets. -/
inductive ReadsParameters : Course Fields where
  | none {cs : List Char} (h : ∀ tail, Text.trimStart cs ≠ '(' :: tail) :
      ReadsParameters cs [] (.ok ([], Text.trimStart cs))
  | brackets {cs tail : List Char} {ss : List Stretch} {r : Reading Fields}
      (h : Text.trimStart cs = '(' :: tail)
      (hr : Reads (.parts (.object ')' [])) tail ss (r.map fun x => (.obj x.1, x.2))) :
      ReadsParameters cs (⟨.token, cs, tail⟩ :: ss) r

/-- A command for which the text has to end. -/
def endWith (c : Command) (cs : List Char) : Reading Command :=
  match Text.trimStart cs with
  | [] => .ok (c, [])
  | rest => .error ⟨.trailingInput, rest⟩

/-- The courses of finding the end of the text. -/
def Ends (c : Command) : Course Command := fun cs ss r => ss = [] ∧ r = endWith c cs

/-- The courses of reading a command that takes up a whole text. -/
def ReadsCommand : Course Command := fun cs =>
  Then (ReadsAddress [])
    (fun address => Then (Token (readSign ':')) fun _ =>
      Then (Token (readName ['('] .operationName)) fun operation =>
        Then ReadsParameters fun parameters => Ends ⟨address, operation, parameters⟩)
    (Text.trimStart cs)

/-- What the parser answers where a course has ended: the command if the text has ended too, or the
reason for which reading stopped, with the text as it was given and the place in it, its blanks at
the ends aside, where the cursor stands. -/
inductive Answers (text : String) : Reading Command → Except ParseError Command → Prop where
  | command (c : Command) : Answers text (.ok (c, [])) (.ok c)
  | refusal {e : Fault} {position : Nat} (hp : position ≤ (Text.trim text.toList).length)
      (hrest : (Text.trim text.toList).drop position = e.rest) :
      Answers text (.error e) (.error ⟨text, e.reason, position⟩)

end ServerRun.Command
