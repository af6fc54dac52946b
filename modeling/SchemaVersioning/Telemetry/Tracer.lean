import SchemaVersioning.Telemetry.Block

/-!
# Tracers

The library that keeps spans is not part of this development.  It is whatever offers the operations
of `SpanLibrary`; `SpanLibrary.Lawful` is what it is relied upon for, in terms of the spans that are
open and those that are finished.  Blocks run against any such library: each opens a span, marks it
with the failure that leaves the block, and ends it.
-/

namespace SchemaVersioning

/-- How the work in a span ended, as far as the span says. -/
inductive SpanStatus where
  | unset
  | error (description : String)
deriving DecidableEq, Repr

/-- The status of the span that a failure leaves, if one does. -/
def SpanStatus.ofFailure? : Option SpanFailure → SpanStatus
  | none => .unset
  | some f => .error f.keptText

/-- The attributes that mark a span with a failure. -/
def SpanFailure.attributes (f : SpanFailure) : List (String × Value) :=
  [("exception.type", .text f.kind), ("exception.message", .text f.keptText)]

/-- A span, told apart from others by its identity. -/
structure Span (ι : Type) where
  id : ι
  parent : Option ι
  name : String
  attributes : Entries
  status : SpanStatus

/-- The span with one more attribute. -/
def Span.withAttribute {ι : Type} (span : Span ι) (name : String) (v : Value) : Span ι :=
  { span with attributes := putAttribute span.attributes name v }

/-- The spans that are open, the innermost first, and those that are finished, in order. -/
structure Tracing (ι : Type) where
  active : List (Span ι)
  finished : List (Span ι)

namespace Tracing

variable {ι : Type} (t : Tracing ι)

/-- The identity of the innermost open span. -/
def current : Option ι := t.active.head?.map (·.id)

/-- The identities of all spans. -/
def ids : List ι := (t.active ++ t.finished).map (·.id)

/-- One more span is open, inside of the current one. -/
def opened (id : ι) (name : String) : Tracing ι :=
  { t with active := ⟨id, t.current, name, [], .unset⟩ :: t.active }

end Tracing

/-! ## The library -/

/-- The operations on spans, in a state of the library: to open one inside of the current one, to
set an attribute or the status of one, and to end one. -/
structure SpanLibrary (σ ι : Type) where
  start : String → σ → ι × σ
  setAttribute : ι → String → Value → σ → σ
  setStatus : ι → SpanStatus → σ → σ
  finish : ι → σ → σ

namespace SpanLibrary

variable {σ ι : Type}

/-- What a library is relied upon for.  A new span has an identity of its own and the current span
as its parent, and becomes the current one.  An attribute or an error that is set on the current
span is set on that span alone.  The current span is finished when it is ended, and the one around
it becomes the current one.  Nothing is said of operations on other spans, and nothing of setting a
status that is no error. -/
structure Lawful (lib : SpanLibrary σ ι) (view : σ → Tracing ι) : Prop where
  fresh : ∀ name s, (lib.start name s).1 ∉ (view s).ids
  start : ∀ name s, view (lib.start name s).2 = (view s).opened (lib.start name s).1 name
  setAttribute : ∀ s span around name v, (view s).active = span :: around →
    view (lib.setAttribute span.id name v s)
      = { view s with active := span.withAttribute name v :: around }
  setError : ∀ s span around description, (view s).active = span :: around →
    view (lib.setStatus span.id (.error description) s)
      = { view s with active := { span with status := .error description } :: around }
  finish : ∀ s span around, (view s).active = span :: around →
    view (lib.finish span.id s) = ⟨around, (view s).finished ++ [span]⟩

variable (lib : SpanLibrary σ ι)

/-- Attributes are set one after another. -/
def setAttributes (id : ι) (attributes : List (String × Value)) (s : σ) : σ :=
  attributes.foldl (fun s (name, v) => lib.setAttribute id name v s) s

/-- Marks a span with a failure. -/
def recordFailure (id : ι) (f : SpanFailure) (s : σ) : σ :=
  lib.setAttributes id f.attributes (lib.setStatus id (.error f.keptText) s)

/-- Work inside of a span of its own.  A failure of the work is recorded and goes on. -/
def inSpan {α : Type} (name : String) (attributes : List (String × Value))
    (work : σ → Except Failure α × σ) (s : σ) : Except Failure α × σ :=
  let (id, s) := lib.start name s
  match work (lib.setAttributes id attributes s) with
  | (.ok a, s) => (.ok a, lib.finish id s)
  | (.error f, s) => (.error f, lib.finish id (lib.recordFailure id (Block.mark f) s))

/-- A call of a traced function: work inside of a span that has the function's name unless it is
given one. -/
def tracedCall {α : Type} (function : String) (name? : Option String)
    (attributes : List (String × Value)) (work : σ → Except Failure α × σ) :
    σ → Except Failure α × σ :=
  lib.inSpan (name?.getD function) attributes work

end SpanLibrary

/-! ## Blocks -/

namespace Block

/-- A block that is a call of a traced function. -/
def call (function : String) (name? : Option String) (attributes : List (String × Value))
    (result : Value) (children : List Block) (failure : Option Failure) : Block :=
  run (name?.getD function) attributes result children failure

/-- What the body of a block comes to, after its children. -/
def concluded (result : Value) (failure : Option Failure) :
    Except Failure (List Value) → Except Failure Value
  | .error f => .error f
  | .ok values =>
    match failure with
    | some f => .error f
    | none => .ok (.list (result :: values))

/-- What a guard makes of an outcome: a failure becomes a value by `report`. -/
def caught (report : Failure → Value) : Except Failure Value → Except Failure Value
  | .ok v => .ok v
  | .error f => .ok (report f)

variable {σ ι : Type}

mutual

/-- The outcome of a block that runs against a library, and the state in which it leaves it. -/
def runWith (lib : SpanLibrary σ ι) (report : Failure → Value) :
    Block → σ → Except Failure Value × σ
  | run name attributes result children failure =>
    lib.inSpan name attributes fun s =>
      match runAllWith lib report children s with
      | (outcome, s) => (concluded result failure outcome, s)
  | guarded body => fun s =>
    match runWith lib report body s with
    | (outcome, s) => (caught report outcome, s)

/-- The outcomes of blocks up to the first failure. -/
def runAllWith (lib : SpanLibrary σ ι) (report : Failure → Value) :
    List Block → σ → Except Failure (List Value) × σ
  | [] => fun s => (.ok [], s)
  | b :: rest => fun s =>
    match runWith lib report b s with
    | (.error f, s) => (.error f, s)
    | (.ok v, s) =>
      match runAllWith lib report rest s with
      | (outcome, s) => (outcome.map (v :: ·), s)

end

end Block

/-! ## Spans in memory -/

namespace Tracing

/-- A library that keeps its spans in memory and numbers them. -/
def memory : SpanLibrary (Tracing Nat) Nat where
  start name t :=
    let id := t.ids.max?.getD 0 + 1
    (id, t.opened id name)
  setAttribute _ name v t :=
    match t.active with
    | [] => t
    | span :: around => { t with active := span.withAttribute name v :: around }
  setStatus _ status t :=
    match t.active with
    | [] => t
    | span :: around => { t with active := { span with status := status } :: around }
  finish _ t :=
    match t.active with
    | [] => t
    | span :: around => ⟨around, t.finished ++ [span]⟩

end Tracing

end SchemaVersioning
