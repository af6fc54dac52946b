import SchemaVersioning.Yaml.Node

/-!
# What the nodes of a document come to

Each node comes to a plain value or to a collection.  Nodes are taken up breadth first: a collection
is begun where it occurs and filled after all that were begun before it, so that the fault of the
node nearest to the outermost one comes to light.  Before a mapping is filled, its merge keys give
way to the entries of the mappings under them.
-/

namespace SchemaVersioning.Yaml

/-- What a node comes to: a plain value, or a collection that names its parts by their places. -/
inductive Form where
  | plain (x : Plain)
  | list (items : List Nat)
  | pairs (items : List (Nat × Nat))
  | object (entries : List (Plain × Nat))
  | set (members : List Plain)
deriving Repr, Inhabited

/-- The places of the parts. -/
def Form.parts : Form → List Nat
  | plain _ => []
  | list items => items
  | pairs items => items.flatMap fun (k, v) => [k, v]
  | object entries => entries.map (·.2)
  | set _ => []

/-! ## Tables of nodes -/

/-- The nodes of a document by their places. -/
abbrev NodeTable := Array Node

namespace NodeTable

variable (nodes : NodeTable)

def nodeAt (place : Nat) : Node := nodes.getD place .empty

/-- The entries of a mapping. -/
def entriesAt (place : Nat) : List (Nat × Nat) :=
  match (nodes.nodeAt place).content with
  | .mapping entries => entries
  | _ => []

/-- Whether a node is a mapping. -/
def isMapping (place : Nat) : Bool :=
  match (nodes.nodeAt place).content with
  | .mapping _ => true
  | _ => false

/-- A mapping has other entries. -/
def setEntries (place : Nat) (entries : List (Nat × Nat)) : NodeTable :=
  nodes.setIfInBounds place { nodes.nodeAt place with content := .mapping entries }

/-- The text that a node stands for: a scalar's own, or the one under a mapping's default key. -/
def text : Nat → Nat → Except Fault ScalarText
  | 0, _ => .error .tooDeep
  | fuel + 1, place =>
    match (nodes.nodeAt place).content with
    | .scalar t => .ok t
    | .sequence _ => .error (.malformed "expected a scalar node")
    | .mapping entries =>
      match entries.find? fun (k, _) => (nodes.nodeAt k).tag = .default with
      | some (_, v) => text fuel v
      | none => .error (.malformed "expected a scalar node")

/-- The plain value of a node under the tag of a scalar. -/
def plain (place : Nat) : Except Fault Plain := do
  let node := nodes.nodeAt place
  if node.tag.isScalar then
    let t ← nodes.text (nodes.size + 1) place
    if node.tag = .moment ∧ nodes.isMapping place then .error .momentInMapping
    else Plain.read node.tag t
  else .error (.malformed "expected a scalar node")

/-- How many entries all mappings have. -/
def entryCount : Nat := nodes.foldl (fun n node =>
  match node.content with
  | .mapping entries => n + entries.length
  | _ => n) 0

/-! ## Merge keys -/

/-- The default keys of a mapping are texts. -/
def settleDefaults (entries : List (Nat × Nat)) : NodeTable :=
  entries.foldl (fun nodes (k, _) =>
    if (nodes.nodeAt k).tag = .default then
      nodes.setIfInBounds k { nodes.nodeAt k with tag := .text }
    else nodes) nodes

/-- The mappings that a node under a merge key names, those that win last. -/
def sources (place : Nat) : Except Fault (List Nat) :=
  match (nodes.nodeAt place).content with
  | .mapping _ => .ok [place]
  | .sequence items =>
    if items.all nodes.isMapping then .ok items.reverse
    else .error (.malformed "expected a mapping for merging")
  | .scalar _ => .error (.malformed "expected a mapping or a list of mappings for merging")

end NodeTable

/-- The table in which a mapping has no merge keys; `taken` are the entries that it has taken over
so far, and stand before its own. -/
def NodeTable.flatten : Nat → Nat → List (Nat × Nat) → NodeTable → Except Fault NodeTable
  | 0, _, _, _ => .error (.malformed "expected a mapping for merging")
  | fuel + 1, place, taken, nodes =>
    let entries := nodes.entriesAt place
    let own := entries.takeWhile fun (k, _) => (nodes.nodeAt k).tag ≠ .merge
    match entries.drop own.length with
    | [] => .ok ((nodes.settleDefaults own).setEntries place (taken ++ own))
    | (_, v) :: rest => do
      let nodes := nodes.setEntries place (own ++ rest)
      let sources ← nodes.sources v
      let nodes ← sources.reverse.foldlM (fun nodes source => flatten fuel source [] nodes) nodes
      flatten fuel place (taken ++ sources.flatMap nodes.entriesAt) nodes

/-- The table in which a mapping has no merge keys and its default keys are texts.  Each step takes a
merge key away, so that the entries bound the steps. -/
def NodeTable.settle (nodes : NodeTable) (place : Nat) : Except Fault NodeTable :=
  let isSettled := (nodes.entriesAt place).all fun (k, _) =>
    let tag := (nodes.nodeAt k).tag
    tag ≠ .merge && tag ≠ .default
  if isSettled then .ok nodes else nodes.flatten (2 * nodes.entryCount + 2) place []

/-! ## Assembling -/

/-- How far a document is assembled: its nodes, what those come to that are taken up, and the
collections that are begun but not filled, newest first. -/
structure Assembly where
  nodes : NodeTable
  forms : Array (Option Form)
  begun : List Nat

namespace Assembly

/-- Nothing is taken up. -/
def start (nodes : NodeTable) : Assembly := ⟨nodes, nodes.map fun _ => none, []⟩

/-- A node comes to a form. -/
def put (a : Assembly) (place : Nat) (form : Form) : Assembly :=
  { a with forms := a.forms.setIfInBounds place (some form) }

/-- What a node comes to. -/
def form? (a : Assembly) (place : Nat) : Option Form := (a.forms[place]?).join

/-- The empty collection of a tag. -/
def emptyForm? : Tag → Option Form
  | .seq => some (.list [])
  | .pairs => some (.pairs [])
  | .map => some (.object [])
  | .set => some (.set [])
  | _ => none

/-- A node is taken up: a collection is begun, any other node comes to its value. -/
def begin (a : Assembly) (place : Nat) : Except Fault Assembly :=
  if (a.form? place).isSome then .ok a
  else
    match emptyForm? (a.nodes.nodeAt place).tag with
    | some form => .ok { a.put place form with begun := place :: a.begun }
    | none => do .ok (a.put place (.plain (← a.nodes.plain place)))

/-- The value of a key; collections are no keys. -/
def key (a : Assembly) (place : Nat) : Except Fault Plain :=
  match a.form? place with
  | some (.plain x) => .ok x
  | _ => .error (.malformed "found an unhashable key")

/-- Entries with one more: a key that is there keeps its place and takes the new value. -/
def putEntry {α : Type} (identity : Plain.Identity) (key : Plain) (v : α) :
    List (Plain.Identity × Plain × α) → List (Plain.Identity × Plain × α)
  | [] => [(identity, key, v)]
  | (i, k, w) :: rest =>
    if i = identity then (i, k, v) :: rest else (i, k, w) :: putEntry identity key v rest

/-- The nodes of some entries are taken up; equal keys fall together. -/
def beginEntries (a : Assembly) (entries : List (Nat × Nat)) :
    Except Fault (Assembly × List (Plain × Nat)) := do
  let (a, found) ← entries.foldlM (fun (a, found) (k, v) => do
    let a ← a.begin k
    let key ← a.key k
    .ok (← a.begin v, putEntry (key.identity k) key v found)) (a, [])
  .ok (a, found.map (·.2))

/-- The one entry of a mapping. -/
def single (a : Assembly) (place : Nat) : Except Fault (Nat × Nat) :=
  match (a.nodes.nodeAt place).content with
  | .mapping [entry] => .ok entry
  | _ => .error (.malformed "expected a mapping of length 1")

/-- A collection that is begun is filled. -/
def fill (a : Assembly) (place : Nat) : Except Fault Assembly := do
  let node := a.nodes.nodeAt place
  match node.tag, node.content with
  | .seq, .sequence items => do
    .ok ((← items.foldlM begin a).put place (.list items))
  | .pairs, .sequence items => do
    let (a, found) ← items.foldlM (fun (a, found) item => do
      let (k, v) ← single a item
      .ok (← (← a.begin k).begin v, (k, v) :: found)) (a, [])
    .ok (a.put place (.pairs found.reverse))
  | .map, .mapping _ => do
    let nodes ← a.nodes.settle place
    let (a, entries) ← ({ a with nodes } : Assembly).beginEntries (nodes.entriesAt place)
    .ok (a.put place (.object entries))
  | .set, .mapping _ => do
    let nodes ← a.nodes.settle place
    let (a, entries) ← ({ a with nodes } : Assembly).beginEntries (nodes.entriesAt place)
    .ok (a.put place (.set (entries.map (·.1))))
  | _, _ => .error (.malformed "could not determine a constructor for the tag")

/-- The collections at some places are filled, and then those that were begun meanwhile. -/
def run : Nat → List Nat → Assembly → Except Fault Assembly
  | 0, _, _ => .error (.malformed "found unexpected end of stream")
  | fuel + 1, place :: rest, a => do run fuel rest (← a.fill place)
  | fuel + 1, [], a =>
    if a.begun.isEmpty then .ok a else run fuel a.begun.reverse { a with begun := [] }

end Assembly

/-- What the nodes of a document come to. -/
def NodeGraph.forms (g : NodeGraph) : Except Fault (Array (Option Form)) := do
  let a ← (Assembly.start g.nodes).begin g.root
  .ok (← Assembly.run (2 * g.nodes.size + 2) [] a).forms

end SchemaVersioning.Yaml
