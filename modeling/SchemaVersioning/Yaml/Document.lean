import SchemaVersioning.Yaml.Assembly

/-!
# Values of documents

`readDocument` is the value that a text denotes.  A collection that contains itself has no value of
finite depth: it is unfolded as often as its parts may be entered, and each of its occurrences is
marked with its place.
-/

namespace SchemaVersioning.Yaml

/-- What the nodes of a document come to, by their places. -/
abbrev FormTable := Array (Option Form)

namespace FormTable

variable (forms : FormTable)

/-- What the node at a place comes to. -/
def formAt (place : Nat) : Form := ((forms[place]?).join).getD (.plain .null)

/-! ## Collections that contain themselves -/

/-- The places that are reached from some, added to those that are reached already. -/
def reach : Nat → List Nat → List Nat → List Nat
  | 0, _, reached => reached
  | _ + 1, [], reached => reached
  | fuel + 1, place :: rest, reached =>
    if reached.contains place then reach fuel rest reached
    else reach fuel ((forms.formAt place).parts ++ rest) (place :: reached)

/-- How many parts all collections have. -/
def partCount : Nat :=
  forms.foldl (fun n form => n + (form.map fun f => f.parts.length).getD 0) 0

/-- Whether the node at a place contains itself. -/
def isCyclic (place : Nat) : Bool :=
  (forms.reach (2 * forms.partCount + 1) (forms.formAt place).parts []).contains place

/-! ## Unfolding -/

/-- How often a collection that contains itself is unfolded inside of itself. -/
def unfoldings : Nat := 6

/-- The value of a collection whose parts have values already. -/
def assemble {m : Type → Type} [Monad m] (part : Nat → m Value) : Form → m Value
  | .plain x => pure x.toValue
  | .list items => .list <$> items.mapM part
  | .pairs items => .list <$> items.mapM fun (k, v) => do pure (.list [← part k, ← part v])
  | .object entries => .object <$> entries.mapM fun (k, v) => do pure (k.toKey, ← part v)
  | .set members => pure (.set (members.map Plain.toValue))

/-- The value of the node at a place.  `level` bounds how many collections that contain themselves
are entered; the values found are kept for each place and level, so that none is built twice. -/
def value (cyclic : Array Bool) : Nat → Nat → Nat → StateM (Array (Option Value)) Value
  | 0, _, _ => pure .null
  | fuel + 1, level, place => do
    let slot := level * forms.size + place
    match ((← get)[slot]?).join with
    | some v => pure v
    | none =>
      let form := forms.formAt place
      let v ←
        if cyclic.getD place false then
          match level with
          | 0 => pure .null
          | level + 1 => .cyclic place <$> assemble (value cyclic fuel level) form
        else assemble (value cyclic fuel level) form
      modify fun known => known.setIfInBounds slot (some v)
      pure v

end FormTable

/-- The value of a document. -/
def NodeGraph.value (g : NodeGraph) : Except Fault Value := do
  let forms ← g.forms
  let cyclic : Array Bool :=
    if g.selfNaming then ((List.range forms.size).map (FormTable.isCyclic forms)).toArray else #[]
  let level := FormTable.unfoldings * (cyclic.filter id).size
  let room := (level + 1) * forms.size
  .ok (FormTable.value forms cyclic (room + 1) level g.root (Array.replicate room none)).1

/-- The value of the one document in a text; null if there is none. -/
def readDocument (text : String) : Except Fault Value := do
  match ← NodeGraph.ofStream? (← TokenStream.ofText text) with
  | none => .ok .null
  | some g => g.value

end SchemaVersioning.Yaml
