import SchemaVersioning.Failure
import SchemaVersioning.Telemetry.Journal

/-!
# Traced blocks

A tree of blocks that run inside spans.  A block runs its children in order and may then fail; a
failure leaves every block that does not catch it and marks the span of each.
-/

namespace SchemaVersioning

/-- A block of work. -/
inductive Block where
  | run (name : String) (attributes : List (String × Value)) (result : Value)
      (children : List Block) (failure : Option Failure)
  | guarded (body : Block)
deriving Inhabited

namespace Block

/-- The mark that a failure leaves on a span. -/
def mark (f : Failure) : SpanFailure := ⟨f.kind, f.text⟩

mutual

/-- The outcome of a block and what it leaves behind; a guarded block turns its failure into a
value by `report`. -/
def eval (report : Failure → Value) : Block → Except Failure Value × Entry
  | run name attributes result children failure =>
    let (outcome, entries) := evalAll report children
    let outcome := match outcome with
      | .error f => .error f
      | .ok values =>
        match failure with
        | some f => .error f
        | none => .ok (.list (result :: values))
    let marked := match outcome with
      | .error f => some (mark f)
      | .ok _ => none
    (outcome, .span name attributes marked entries)
  | guarded body =>
    match eval report body with
    | (.ok v, entry) => (.ok v, entry)
    | (.error f, entry) => (.ok (report f), entry)

/-- The outcomes of blocks up to the first failure. -/
def evalAll (report : Failure → Value) : List Block → Except Failure (List Value) × List Entry
  | [] => (.ok [], [])
  | b :: rest =>
    match eval report b with
    | (.error f, entry) => (.error f, [entry])
    | (.ok v, entry) =>
      let (outcome, entries) := evalAll report rest
      (outcome.map (v :: ·), entry :: entries)

end

end Block

end SchemaVersioning
