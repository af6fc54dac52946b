import SchemaVersioning.Yaml.Scalar
import SchemaVersioning.Yaml.Token.Lexer

/-!
# Nodes of a document

The nodes of a document stand in a table.  A collection names its parts by their places in the
table, so that an alias is the place of the node that it names, and a collection may contain itself.
`NodeGraph.ofStream?` reads the nodes of the one document from its tokens.
-/

namespace SchemaVersioning.Yaml

/-! ## Nodes -/

/-- What a node holds: a text, or the places of its parts. -/
inductive Content where
  | scalar (text : ScalarText)
  | sequence (items : List Nat)
  | mapping (entries : List (Nat × Nat))
deriving DecidableEq, Repr, Inhabited

/-- A node with its tag. -/
structure Node where
  tag : Tag
  content : Content
deriving DecidableEq, Repr, Inhabited

/-- What stands where a node is left out. -/
def Node.empty : Node := ⟨.null, .scalar (.whole "")⟩

/-- The nodes of a document, the place of its outermost one, and whether an alias stands inside the
node that it names. -/
structure NodeGraph where
  nodes : Array Node
  root : Nat
  selfNaming : Bool
deriving Repr

/-! ## Reading -/

/-- How far a document is read: the tokens to come, the nodes so far, the anchors with the places of
their nodes, newest first, and the collections that are not yet complete. -/
structure Progress where
  stream : TokenStream
  nodes : Array Node
  anchors : List (String × Nat)
  unfinished : List Nat
  selfNaming : Bool

namespace Progress

/-- Nothing is read. -/
def start (stream : TokenStream) : Progress := ⟨stream, #[], [], [], false⟩

/-- The most collections that may stand inside each other. -/
def maxDepth : Nat := 480

variable (p : Progress)

/-- The next token, or none at the end; a fault in its place comes to light here. -/
def front : Except Fault (Option Token) :=
  match p.stream.tokens, p.stream.fault with
  | t :: _, _ => .ok (some t)
  | [], some fault => .error fault
  | [], none => .ok none

/-- Some tokens are to come. -/
def goto (tokens : List Token) : Progress := { p with stream := { p.stream with tokens } }

/-- The next token is read. -/
def advance : Progress := p.goto p.stream.tokens.tail

/-- The next token is one of some. -/
def isAt (tokens : List Token) : Except Fault Bool := do
  .ok ((← p.front).any tokens.contains)

/-- The node at a place has an anchor. -/
def bind (anchor : Option String) (place : Nat) : Progress :=
  match anchor with
  | none => p
  | some a => { p with anchors := (a, place) :: p.anchors }

/-- A node is put behind the others; its place is the number of those. -/
def add (n : Node) : Nat × Progress := (p.nodes.size, { p with nodes := p.nodes.push n })

/-- The place of the node that an alias names. -/
def resolve (name : String) : Except Fault (Nat × Progress) :=
  match p.anchors.lookup name with
  | none => .error (.malformed "found undefined alias")
  | some place =>
    .ok (place, { p with selfNaming := p.selfNaming || p.unfinished.contains place })

/-- A collection with an anchor, whose parts are read while it is incomplete. -/
def collect {α : Type} (anchor : Option String) (tag : Tag) (make : List α → Content)
    (parts : Progress → Except Fault (List α × Progress)) : Except Fault (Nat × Progress) := do
  let outer := p.unfinished
  if maxDepth ≤ outer.length then .error Fault.tooDeep
  let (place, p) := p.add ⟨tag, make []⟩
  let (found, p) ← parts { p.bind anchor place with unfinished := place :: outer }
  .ok (place, { p with
    nodes := p.nodes.setIfInBounds place ⟨tag, make found⟩
    unfinished := outer })

end Progress

/-! ## Properties -/

/-- The handles of a document with their meanings. -/
abbrev Handles := List (String × String)

/-- The handles that every document has. -/
def standardHandles : Handles := [("!", "!"), ("!!", Tag.standardStart)]

/-- What may stand before the content of a node: an anchor and the full name of a tag. -/
structure Properties where
  anchor : Option String
  tag : Option String

namespace Properties

/-- The full name of a tag. -/
def fullName (handles : Handles) (handle : Option String) (suffix : String) : Except Fault String :=
  match handle with
  | none => .ok suffix
  | some h =>
    match handles.lookup h with
    | some start => .ok (start ++ suffix)
    | none => .error (.malformed "found undefined tag handle")

/-- The properties that come next, in either order. -/
def read (handles : Handles) (p : Progress) : Except Fault (Properties × Progress) := do
  match ← p.front with
  | some (.anchor a) =>
    match ← p.advance.front with
    | some (.tag h s) => do .ok (⟨some a, some (← fullName handles h s)⟩, p.advance.advance)
    | _ => .ok (⟨some a, none⟩, p.advance)
  | some (.tag h s) =>
    match ← p.advance.front with
    | some (.anchor a) => do .ok (⟨some a, some (← fullName handles h s)⟩, p.advance.advance)
    | _ => do .ok (⟨none, some (← fullName handles h s)⟩, p.advance)
  | _ => .ok (⟨none, none⟩, p)

/-- The tag of a scalar with these properties. -/
def scalarTag (properties : Properties) (plain : Bool) (text : ScalarText) : Tag :=
  match properties.tag with
  | none => if plain then .ofPlain text else .text
  | some name => if name = "!" then .ofPlain text else .ofName name

/-- The tag of a collection with these properties. -/
def collectionTag (properties : Properties) (standard : Tag) : Tag :=
  match properties.tag with
  | none => standard
  | some name => if name = "!" then standard else .ofName name

def isGiven (properties : Properties) : Bool := properties.anchor.isSome || properties.tag.isSome

/-- A scalar with these properties. -/
def addScalar (properties : Properties) (plain : Bool) (text : ScalarText) (p : Progress) :
    Nat × Progress :=
  let (place, p) := p.add ⟨properties.scalarTag plain text, .scalar text⟩
  (place, p.bind properties.anchor place)

end Properties

/-! ## Parts of nodes -/

/-- Where a node stands: between brackets, in a block, or in a mapping, where the items of a
sequence need not be indented. -/
inductive Place where
  | flow
  | block
  | entry
deriving DecidableEq, Repr

/-- A reader of a node: its place in the table, and how far the document is then read. -/
abbrev NodeReader := Progress → Except Fault (Nat × Progress)

/-- A node, or the empty one if a token comes that stands behind a node. -/
def orEmpty (stops : List Token) (node : NodeReader) : NodeReader := fun p => do
  if ← p.isAt stops then .ok (p.add .empty) else node p

/-- The value behind its mark, or the empty node if the mark is not there. -/
def valueOrEmpty (stops : List Token) (node : NodeReader) : NodeReader := fun p => do
  if ← p.isAt [.value] then orEmpty stops node p.advance else .ok (p.add .empty)

/-- The comma that separates items is read; none stands before the first item. -/
def behindComma (first : Bool) (p : Progress) : Except Fault Progress := do
  if first then .ok p
  else if ← p.isAt [.flowEntry] then .ok p.advance
  else .error (.malformed "expected ',' or a closing bracket")

/-- A node without content, which an anchor or a tag stands for. -/
def readMissing (properties : Properties) : NodeReader := fun p =>
  if properties.isGiven then .ok (properties.addScalar true (.whole "") p)
  else .error (.malformed "expected the node content")

namespace Node

mutual

/-- A node. -/
def read (handles : Handles) : Nat → Place → NodeReader
  | 0, _, _ => .error (.malformed "found unexpected end of stream")
  | fuel + 1, place, p => do
    match ← p.front with
    | some (.aliasTo name) => p.advance.resolve name
    | _ => do
      let (properties, p) ← Properties.read handles p
      let next ← p.front
      let anchor := properties.anchor
      if anchor.any fun a => (p.anchors.lookup a).isSome then
        .error (Fault.malformed "found duplicate anchor")
      let items := properties.collectionTag .seq
      let entries := properties.collectionTag .map
      match next with
      | some (.scalar plain text) => .ok (properties.addScalar plain text p.advance)
      | some .flowSequenceStart =>
        p.advance.collect anchor items .sequence (readFlowItems handles fuel true)
      | some .flowMappingStart =>
        p.advance.collect anchor entries .mapping (readFlowEntries handles fuel true)
      | some .blockSequenceStart =>
        if place = .flow then readMissing properties p
        else p.advance.collect anchor items .sequence (readItems handles fuel)
      | some .blockMappingStart =>
        if place = .flow then readMissing properties p
        else p.advance.collect anchor entries .mapping (readEntries handles fuel)
      | some .blockEntry =>
        if place = .entry then p.collect anchor items .sequence (readOpenItems handles fuel)
        else readMissing properties p
      | _ => readMissing properties p

/-- The items of a block up to its end. -/
def readItems (handles : Handles) : Nat → Progress → Except Fault (List Nat × Progress)
  | 0, _ => .error (.malformed "found unexpected end of stream")
  | fuel + 1, p => do
    match ← p.front with
    | some .blockEntry => do
      let (n, p) ← orEmpty [.blockEntry, .blockEnd] (read handles fuel .block) p.advance
      let (more, p) ← readItems handles fuel p
      .ok (n :: more, p)
    | some .blockEnd => .ok ([], p.advance)
    | _ => .error (.malformed "expected the end of the block")

/-- The items of a sequence that is not indented. -/
def readOpenItems (handles : Handles) : Nat → Progress → Except Fault (List Nat × Progress)
  | 0, _ => .error (.malformed "found unexpected end of stream")
  | fuel + 1, p => do
    match ← p.front with
    | some .blockEntry => do
      let stops := [Token.blockEntry, .key, .value, .blockEnd]
      let (n, p) ← orEmpty stops (read handles fuel .block) p.advance
      let (more, p) ← readOpenItems handles fuel p
      .ok (n :: more, p)
    | _ => .ok ([], p)

/-- The entries of a block up to its end. -/
def readEntries (handles : Handles) :
    Nat → Progress → Except Fault (List (Nat × Nat) × Progress)
  | 0, _ => .error (.malformed "found unexpected end of stream")
  | fuel + 1, p => do
    match ← p.front with
    | some .key => do
      let stops := [Token.key, .value, .blockEnd]
      let (k, p) ← orEmpty stops (read handles fuel .entry) p.advance
      let (v, p) ← valueOrEmpty stops (read handles fuel .entry) p
      let (more, p) ← readEntries handles fuel p
      .ok ((k, v) :: more, p)
    | some .blockEnd => .ok ([], p.advance)
    | _ => .error (.malformed "expected the end of the block")

/-- The items between brackets; one with a colon is a mapping of one entry. -/
def readFlowItems (handles : Handles) :
    Nat → Bool → Progress → Except Fault (List Nat × Progress)
  | 0, _, _ => .error (.malformed "found unexpected end of stream")
  | fuel + 1, first, p => do
    if ← p.isAt [.flowSequenceEnd] then .ok ([], p.advance)
    else
      let p ← behindComma first p
      match ← p.front with
      | some .flowSequenceEnd => .ok ([], p.advance)
      | some .key => do
        let (n, p) ← p.advance.collect none .map .mapping (readFlowPair handles fuel)
        let (more, p) ← readFlowItems handles fuel false p
        .ok (n :: more, p)
      | _ => do
        let (n, p) ← read handles fuel .flow p
        let (more, p) ← readFlowItems handles fuel false p
        .ok (n :: more, p)

/-- The one entry of a mapping that is an item between brackets. -/
def readFlowPair (handles : Handles) : Nat → Progress → Except Fault (List (Nat × Nat) × Progress)
  | 0, _ => .error (.malformed "found unexpected end of stream")
  | fuel + 1, p => do
    let stops := [Token.flowEntry, .flowSequenceEnd]
    let (k, p) ← orEmpty (.value :: stops) (read handles fuel .flow) p
    let (v, p) ← valueOrEmpty stops (read handles fuel .flow) p
    .ok ([(k, v)], p)

/-- The entries between braces; one without a colon has no value. -/
def readFlowEntries (handles : Handles) :
    Nat → Bool → Progress → Except Fault (List (Nat × Nat) × Progress)
  | 0, _, _ => .error (.malformed "found unexpected end of stream")
  | fuel + 1, first, p => do
    if ← p.isAt [.flowMappingEnd] then .ok ([], p.advance)
    else
      let p ← behindComma first p
      let stops := [Token.flowEntry, .flowMappingEnd]
      match ← p.front with
      | some .flowMappingEnd => .ok ([], p.advance)
      | some .key => do
        let (k, p) ← orEmpty (.value :: stops) (read handles fuel .flow) p.advance
        let (v, p) ← valueOrEmpty stops (read handles fuel .flow) p
        let (more, p) ← readFlowEntries handles fuel false p
        .ok ((k, v) :: more, p)
      | _ => do
        let (k, p) ← read handles fuel .flow p
        let (v, p) := p.add .empty
        let (more, p) ← readFlowEntries handles fuel false p
        .ok ((k, v) :: more, p)

end

end Node

/-! ## Documents -/

/-- The handles that the directives at the front of the tokens define, whether one of them gives
the version, and the tokens behind them. -/
def readDirectives : Bool → Handles → List Token → Except Fault (Handles × List Token)
  | versioned, handles, .directive d :: rest =>
    match d with
    | .version major =>
      if versioned then .error (.malformed "found duplicate YAML directive")
      else if major ≠ 1 then .error (.malformed "found incompatible YAML document")
      else readDirectives true handles rest
    | .handle name start =>
      if (handles.lookup name).isSome then .error (.malformed "found duplicate tag handle")
      else readDirectives versioned ((name, start) :: handles) rest
    | .unknown => readDirectives versioned handles rest
  | _, handles, tokens => .ok (handles ++ standardHandles, tokens)

/-- Whether a token cannot begin the node of a document. -/
def isOutside : Token → Bool
  | .directive _ => true
  | .documentStart => true
  | .documentEnd => true
  | _ => false

namespace Progress

/-- Whether a document begins with directives or a mark of its own. -/
def isMarked (p : Progress) : Except Fault Bool := do
  .ok ((← p.front).any fun t => isOutside t && t ≠ .documentEnd)

/-- What follows the one document: marks of its end, and nothing else. -/
def finish (p : Progress) : Except Fault Unit := do
  let p := p.goto (p.stream.tokens.dropWhile (· = .documentEnd))
  if (← p.front).isSome then
    let (_, tokens) ← readDirectives false [] p.stream.tokens
    let _ ← (p.goto tokens).front
    .error (.malformed "expected a single document in the stream")

/-- The nodes of a document whose outermost one is read. -/
def graph (read : Nat × Progress) : Except Fault NodeGraph := do
  let (root, p) := read
  p.finish
  .ok ⟨p.nodes, root, p.selfNaming⟩

/-- The nodes of a document without marks, or behind them. -/
def readNode (p : Progress) (handles : Handles) : Except Fault NodeGraph := do
  graph (← Node.read handles (3 * p.stream.tokens.length + 3) .block p)

/-- The nodes of a document that begins with directives or with its mark; its node may be missing.
-/
def readMarked (p : Progress) : Except Fault NodeGraph := do
  let (handles, tokens) ← readDirectives false [] p.stream.tokens
  let p := p.goto tokens
  if ← p.isAt [.documentStart] then
    let p := p.advance
    if (← p.front).any (!isOutside ·) then p.readNode handles else graph (p.add .empty)
  else .error (.malformed "expected the start of a document")

end Progress

/-- The nodes of the document in a stream, if there is one. -/
def NodeGraph.ofStream? (stream : TokenStream) : Except Fault (Option NodeGraph) := do
  let p := Progress.start stream
  match ← p.front with
  | none => .ok none
  | some _ => some <$> (if ← p.isMarked then p.readMarked else p.readNode standardHandles)

end SchemaVersioning.Yaml
