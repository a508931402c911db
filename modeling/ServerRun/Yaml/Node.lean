import ServerRun.Yaml.Lexer

/-! From tokens to nodes. A document is one node: a scalar, a sequence or a mapping, each with its
tag, if it has one. Aliases are replaced by the nodes that they stand for. -/

namespace ServerRun.Yaml

/-- A node. A plain scalar without a tag is one whose text decides what it is. -/
inductive Node where
  | scalar (tag : Option String) (plain : Bool) (text : String)
  | sequence (tag : Option String) (items : List Node)
  | mapping (tag : Option String) (entries : List (Node × Node))
deriving Repr, Inhabited

namespace Node

/-- What is left to read, and the anchors seen so far. -/
structure Reader where
  tokens : List Token
  anchors : List (String × Option Node) := []
  handles : List (String × String) := []

def Reader.peek (r : Reader) : Token := r.tokens.headD .streamEnd

def Reader.drop (r : Reader) : Reader := { r with tokens := r.tokens.tail }

/-- An empty scalar, which stands where a node is left out. -/
def empty : Node := .scalar none true ""

/-- The tag that a handle and a suffix stand for. -/
def expandTag (r : Reader) : Option String → String → Except Fault String
  | none, suffix => .ok suffix
  | some h, suffix =>
    match r.handles.lookup h with
    | some e => .ok (e ++ suffix)
    | none => .error .malformed

/-- The anchor and the tag in front of a node, in either order. -/
def properties (r : Reader) : Except Fault (Option String × Option String × Reader) := do
  let readTag (r : Reader) : Except Fault (Option String × Reader) :=
    match r.peek with
    | .tag h s => do
      let t ← expandTag r h s
      .ok (some t, r.drop)
    | _ => .ok (none, r)
  match r.peek with
  | .anchor a => do
    let (t, r) ← readTag r.drop
    .ok (some a, t, r)
  | _ => do
    let (t, r) ← readTag r
    match t, r.peek with
    | some _, .anchor a => .ok (some a, t, r.drop)
    | _, _ => .ok (none, t, r)

/-- Notes an anchor that is about to be given a node; an anchor is given once. -/
def reserve (r : Reader) : Option String → Except Fault Reader
  | none => .ok r
  | some a =>
    if r.anchors.any (·.1 == a) then .error .malformed
    else .ok { r with anchors := (a, none) :: r.anchors }

/-- Gives an anchor its node. -/
def bindAnchor (r : Reader) (anchor : Option String) (n : Node) : Reader :=
  match anchor with
  | none => r
  | some a => { r with anchors := r.anchors.map fun e => if e.1 == a then (a, some n) else e }

/-- A tag that says something; a lone exclamation mark does not. -/
def meaningful : Option String → Option String
  | some "!" => none
  | t => t

mutual

/-- A node. `block` allows block collections, `indentless` a sequence at the indentation of its
parent. -/
def parse : Nat → Bool → Bool → Reader → Except Fault (Node × Reader)
  | 0, _, _, _ => .error .malformed
  | fuel + 1, block, indentless, r =>
    match r.peek with
    | .alias name =>
      match r.anchors.lookup name with
      | some n => .ok (n.getD empty, r.drop)
      | none => .error .malformed
    | _ => do
      let (anchor, t, r) ← properties r
      let r ← reserve r anchor
      let tag := meaningful t
      let (n, r) ←
        match r.peek with
        | .blockEntry =>
          if indentless then do
            let (items, r) ← indentlessItems fuel r
            pure (.sequence tag items, r)
          else absent anchor t r
        | .scalar s plain => pure (.scalar tag (plain || t == some "!") s, r.drop)
        | .flowSequenceStart => do
          let (items, r) ← flowItems fuel true r.drop
          pure (.sequence tag items, r)
        | .flowMappingStart => do
          let (entries, r) ← flowEntries fuel true r.drop
          pure (.mapping tag entries, r)
        | .blockSequenceStart =>
          if block then do
            let (items, r) ← blockItems fuel r.drop
            pure (.sequence tag items, r)
          else absent anchor t r
        | .blockMappingStart =>
          if block then do
            let (entries, r) ← blockEntries fuel r.drop
            pure (.mapping tag entries, r)
          else absent anchor t r
        | _ => absent anchor t r
      .ok (n, bindAnchor r anchor n)

/-- The node that is left out after an anchor or a tag. -/
def absent (anchor tag : Option String) (r : Reader) : Except Fault (Node × Reader) :=
  if anchor.isSome || tag.isSome then
    .ok (.scalar (meaningful tag) (meaningful tag).isNone "", r)
  else .error .malformed

/-- The items of a block sequence. -/
def blockItems : Nat → Reader → Except Fault (List Node × Reader)
  | 0, _ => .error .malformed
  | fuel + 1, r =>
    match r.peek with
    | .blockEntry => do
      let r := r.drop
      let (n, r) ←
        match r.peek with
        | .blockEntry | .blockEnd => pure (empty, r)
        | _ => parse fuel true false r
      let (more, r) ← blockItems fuel r
      .ok (n :: more, r)
    | .blockEnd => .ok ([], r.drop)
    | _ => .error .malformed

/-- The items of a sequence without an indentation of its own. -/
def indentlessItems : Nat → Reader → Except Fault (List Node × Reader)
  | 0, _ => .error .malformed
  | fuel + 1, r =>
    match r.peek with
    | .blockEntry => do
      let r := r.drop
      let (n, r) ←
        match r.peek with
        | .blockEntry | .key | .value | .blockEnd => pure (empty, r)
        | _ => parse fuel true false r
      let (more, r) ← indentlessItems fuel r
      .ok (n :: more, r)
    | _ => .ok ([], r)

/-- The entries of a block mapping. -/
def blockEntries : Nat → Reader → Except Fault (List (Node × Node) × Reader)
  | 0, _ => .error .malformed
  | fuel + 1, r =>
    match r.peek with
    | .blockEnd => .ok ([], r.drop)
    | .key => do
      let r := r.drop
      let (k, r) ←
        match r.peek with
        | .key | .value | .blockEnd => pure (empty, r)
        | _ => parse fuel true true r
      let (v, r) ← blockValue fuel r
      let (more, r) ← blockEntries fuel r
      .ok ((k, v) :: more, r)
    | .value => .error .malformed
    | _ => .error .malformed

/-- The value of an entry of a block mapping. -/
def blockValue : Nat → Reader → Except Fault (Node × Reader)
  | 0, _ => .error .malformed
  | fuel + 1, r =>
    match r.peek with
    | .value =>
      let r := r.drop
      match r.peek with
      | .key | .value | .blockEnd => .ok (empty, r)
      | _ => parse fuel true true r
    | _ => .ok (empty, r)

/-- The items of a flow sequence; an item may be a mapping of one entry without braces. -/
def flowItems : Nat → Bool → Reader → Except Fault (List Node × Reader)
  | 0, _, _ => .error .malformed
  | fuel + 1, first, r =>
    match r.peek with
    | .flowSequenceEnd => .ok ([], r.drop)
    | t =>
      if !first && t != .flowEntry then .error .malformed
      else
        let r := if first then r else r.drop
        match r.peek with
        | .flowSequenceEnd => .ok ([], r.drop)
        | .key => do
          let r := r.drop
          let (k, r) ←
            match r.peek with
            | .value | .flowEntry | .flowSequenceEnd => pure (empty, r)
            | _ => parse fuel false false r
          let (v, r) ←
            match r.peek with
            | .value =>
              let r := r.drop
              match r.peek with
              | .flowEntry | .flowSequenceEnd => pure (empty, r)
              | _ => parse fuel false false r
            | _ => pure (empty, r)
          let (more, r) ← flowItems fuel false r
          .ok (.mapping none [(k, v)] :: more, r)
        | _ => do
          let (n, r) ← parse fuel false false r
          let (more, r) ← flowItems fuel false r
          .ok (n :: more, r)

/-- The entries of a flow mapping; an entry without a colon has no value. -/
def flowEntries : Nat → Bool → Reader → Except Fault (List (Node × Node) × Reader)
  | 0, _, _ => .error .malformed
  | fuel + 1, first, r =>
    match r.peek with
    | .flowMappingEnd => .ok ([], r.drop)
    | t =>
      if !first && t != .flowEntry then .error .malformed
      else
        let r := if first then r else r.drop
        match r.peek with
        | .flowMappingEnd => .ok ([], r.drop)
        | .key => do
          let r := r.drop
          let (k, r) ←
            match r.peek with
            | .value | .flowEntry | .flowMappingEnd => pure (empty, r)
            | _ => parse fuel false false r
          let (v, r) ←
            match r.peek with
            | .value =>
              let r := r.drop
              match r.peek with
              | .flowEntry | .flowMappingEnd => pure (empty, r)
              | _ => parse fuel false false r
            | _ => pure (empty, r)
          let (more, r) ← flowEntries fuel false r
          .ok ((k, v) :: more, r)
        | _ => do
          let (k, r) ← parse fuel false false r
          let (more, r) ← flowEntries fuel false r
          .ok ((k, empty) :: more, r)

end

/-- The handles that every document knows. -/
def standardHandles : List (String × String) := [("!", "!"), ("!!", "tag:yaml.org,2002:")]

/-- The directives in front of a document: at most one version, of the first major number, and
handles that are declared once. -/
def directives : Option Nat → List (String × String) → List Token →
    Except Fault (List (String × String) × List Token)
  | version, handles, .versionDirective major _ :: rest =>
    if version.isSome || major != 1 then .error .malformed
    else directives (some major) handles rest
  | version, handles, .tagDirective h e :: rest =>
    if handles.any (·.1 == h) then .error .malformed
    else directives version ((h, e) :: handles) rest
  | version, handles, .otherDirective :: rest => directives version handles rest
  | _, handles, rest => .ok (handles, rest)

/-- The tokens after the markers at the end of a document. -/
def dropEndMarkers : List Token → List Token
  | .documentEnd :: rest => dropEndMarkers rest
  | rest => rest

/-- The node of a stream that holds one document; `none` for an empty stream. A stream of several
documents is malformed. -/
def ofTokens? (ts : List Token) : Except Fault (Option Node) := do
  let finish (n : Node) (rest : List Token) : Except Fault (Option Node) :=
    match dropEndMarkers rest with
    | [.streamEnd] => .ok (some n)
    | _ => .error .malformed
  let fuel := 4 * ts.length + 4
  match ts with
  | .streamEnd :: _ => .ok none
  | .versionDirective _ _ :: _ | .tagDirective _ _ :: _ | .otherDirective :: _
  | .documentStart :: _ => do
    let (declared, ts) ← directives none [] ts
    match ts with
    | .documentStart :: rest =>
      match rest with
      | .versionDirective _ _ :: _ | .tagDirective _ _ :: _ | .otherDirective :: _
      | .documentStart :: _ | .documentEnd :: _ | .streamEnd :: _ => finish empty rest
      | _ => do
        let (n, r) ← parse fuel true false
          { tokens := rest, handles := declared ++ standardHandles }
        finish n r.tokens
    | _ => .error .malformed
  | _ => do
    let (n, r) ← parse fuel true false { tokens := ts, handles := standardHandles }
    finish n r.tokens

end Node

end ServerRun.Yaml
