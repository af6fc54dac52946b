import Mathlib.Data.List.Nodup
import SchemaVersioning.Proofs.BlockTrees

/-!
# Runs against a library of spans

A run of a tree of blocks against a lawful library is compared with the journal that the run leaves.
The journal has one record for each block that is entered, in the order in which the blocks end
(`spans_eval`).  The library finishes just these spans, in this order, each inside of the span of
the block around it (`traced`): a span around work is opened, set, marked and ended on its own
(`view_inSpan`), and what happens in between leaves the open spans as they are.
-/

namespace SchemaVersioning

/-- The label of the block around the one at an address; around the outermost one there may be one
more. -/
def Address.enclosing {α : Type} : (Address → α) → Option α → Address → Option α
  | _, outer, [] => outer
  | label, _, i :: a => enclosing (fun a => label (i :: a)) (some (label [])) a

theorem Address.enclosing_concat {α : Type} (label : Address → α) (outer : Option α) (a : Address)
    (i : Nat) : enclosing label outer (a ++ [i]) = some (label a) := by
  induction a generalizing label outer with
  | nil => rfl
  | cons j a ih => exact ih (fun a => label (j :: a)) (some (label []))

/-! ## Records of the entered blocks -/

namespace Block

/-- The span of the block at an address, as a journal has it. -/
def recordAt : Block → Option String → Address → SpanRecord
  | b, parent, [] => ⟨b.name, parent, b.attributes, b.leaving?.map mark⟩
  | b, _, i :: a =>
    match b.children[i]? with
    | some c => c.recordAt (some b.name) a
    | none => ⟨"", none, [], none⟩

/-- The spans of a sequence of blocks, by position and address. -/
def recordIn (blocks : List Block) (parent : Option String) (x : Nat × Address) : SpanRecord :=
  match blocks[x.1]? with
  | some c => c.recordAt parent x.2
  | none => ⟨"", none, [], none⟩

variable {b : Block} {report : Failure → Value}

theorem recordAt_guarded (body : Block) (parent : Option String) :
    (guarded body).recordAt parent = body.recordAt parent := by
  funext a
  cases a <;> rfl

/-- What a record says of its block. -/
theorem recordAt_of_at? {a : Address} {c : Block} (h : b.at? a = some c) (parent : Option String) :
    b.recordAt parent a = ⟨c.name, Address.enclosing (fun a => (b.recordAt parent a).name) parent a,
      c.attributes, c.leaving?.map mark⟩ := by
  induction a generalizing b parent with
  | nil =>
    obtain rfl : b = c := by simpa [at?] using h
    rfl
  | cons i a ih =>
    rw [at?] at h
    obtain ⟨d, hd, hc⟩ := Option.bind_eq_some_iff.1 h
    have hinner : ∀ a, b.recordAt parent (i :: a) = d.recordAt (some b.name) a := by
      intro a
      rw [recordAt, hd]
    rw [Address.enclosing]
    simp only [hinner]
    exact ih hc (some b.name)

mutual

/-- The journal of a run lists the spans of the blocks that are entered, in the order in which they
end. -/
theorem spans_eval (report : Failure → Value) (parent : Option String) :
    ∀ b : Block, (b.eval report).2.spans parent = b.visited.map (b.recordAt parent)
  | run name attributes result children failure => by
    rw [eval_run, Entry.spans, spansAll_evalAll report (some name) children, map_visited,
      failed?_evalAll]
    rfl
  | guarded body => by
    rw [eval_guarded, spans_eval report parent body, visited, recordAt_guarded]

theorem spansAll_evalAll (report : Failure → Value) (parent : Option String) :
    ∀ blocks : List Block, Entry.spansAll parent (evalAll report blocks).2
      = (visitedAll blocks).map (recordIn blocks parent)
  | [] => rfl
  | b :: rest => by
    cases h : (b.eval report).1 with
    | error f =>
      rw [evalAll_cons_of_error h,
        map_visitedAll_of_not_completes _ (not_completes_of_eval_eq_error h), Entry.spansAll,
        spans_eval report parent b]
      exact List.append_nil _
    | ok v =>
      rw [evalAll_cons_of_ok h, map_visitedAll_of_completes _ (completes_of_eval_eq_ok h),
        Entry.spansAll, spans_eval report parent b, spansAll_evalAll report parent rest]
      rfl

end

end Block

/-! ## Spans in a lawful library -/

/-- The attributes of a span with more of them, set one after another. -/
def Span.withAttributes {ι : Type} (span : Span ι) (attributes : List (String × Value)) : Span ι :=
  let put (kept : Entries) : String × Value → Entries := fun (name, v) => putAttribute kept name v
  { span with attributes := attributes.foldl put span.attributes }

/-- A span as it is ended, marked if its work has failed. -/
def Span.marked {ι : Type} (span : Span ι) : Option SpanFailure → Span ι
  | none => span
  | some f => { span with status := .error f.keptText }.withAttributes f.attributes

theorem Span.id_marked {ι : Type} (span : Span ι) (failure : Option SpanFailure) :
    (span.marked failure).id = span.id := by
  cases failure <;> rfl

/-- The finished span that a record is of, told by its identity and that of its parent. -/
def SpanRecord.identified {ι : Type} (r : SpanRecord) (id : ι) (parent : Option ι) : Span ι :=
  ⟨id, parent, r.name, r.keptAttributes, .ofFailure? r.failure⟩

theorem SpanRecord.identified_eq {ι : Type} (r : SpanRecord) (id : ι) (parent : Option ι) :
    r.identified id parent
      = (Span.withAttributes ⟨id, parent, r.name, [], .unset⟩ r.attributes).marked r.failure := by
  rw [identified, keptAttributes]
  cases r.failure with
  | none => rw [List.append_nil]; rfl
  | some f => rw [List.foldl_append]; rfl

variable {σ ι : Type} {lib : SpanLibrary σ ι} {view : σ → Tracing ι}

namespace SpanLibrary

/-- The state in which the work in a span begins. -/
def entering (lib : SpanLibrary σ ι) (name : String) (attributes : List (String × Value)) (s : σ) :
    σ :=
  lib.setAttributes (lib.start name s).1 attributes (lib.start name s).2

/-- The state in which a span is ended after its work, marked if the work has failed. -/
def ending {α : Type} (lib : SpanLibrary σ ι) (id : ι) (outcome : Except Failure α) (s : σ) : σ :=
  match Block.failed? outcome with
  | none => s
  | some f => lib.recordFailure id (Block.mark f) s

theorem inSpan_eq {α : Type} (name : String) (attributes : List (String × Value))
    (work : σ → Except Failure α × σ) (s : σ) : lib.inSpan name attributes work s
      = ((work (lib.entering name attributes s)).1,
        lib.finish (lib.start name s).1
          (lib.ending (lib.start name s).1 (work (lib.entering name attributes s)).1
            (work (lib.entering name attributes s)).2)) := by
  unfold inSpan entering
  dsimp only
  split
  · next h => rw [h]; rfl
  · next h => rw [h]; rfl

namespace Lawful

variable {around : List (Span ι)}

theorem view_setAttributes (hlib : lib.Lawful view) (attributes : List (String × Value))
    {span : Span ι} {s : σ} (h : (view s).active = span :: around) :
    view (lib.setAttributes span.id attributes s)
      = ⟨span.withAttributes attributes :: around, (view s).finished⟩ := by
  induction attributes generalizing span s with
  | nil =>
    rw [Span.withAttributes, List.foldl_nil, ← h]
    rfl
  | cons entry rest ih =>
    obtain ⟨name, v⟩ := entry
    have hview := hlib.setAttribute s span around name v h
    have hnext := @ih (span.withAttribute name v) (lib.setAttribute span.id name v s)
      (by rw [hview])
    rw [hview] at hnext
    exact hnext

theorem view_recordFailure (hlib : lib.Lawful view) (f : SpanFailure) {span : Span ι} {s : σ}
    (h : (view s).active = span :: around) :
    view (lib.recordFailure span.id f s)
      = ⟨{ span with status := .error f.keptText }.withAttributes f.attributes :: around,
        (view s).finished⟩ := by
  have hview := hlib.setError s span around f.keptText h
  have hnext := hlib.view_setAttributes f.attributes
    (s := lib.setStatus span.id (.error f.keptText) s) (by rw [hview])
  rw [hview] at hnext
  exact hnext

theorem view_entering (hlib : lib.Lawful view) (name : String) (attributes : List (String × Value))
    (s : σ) : view (lib.entering name attributes s)
      = ⟨Span.withAttributes ⟨(lib.start name s).1, (view s).current, name, [], .unset⟩ attributes
          :: (view s).active, (view s).finished⟩ := by
  have hview := hlib.start name s
  have hnext := hlib.view_setAttributes attributes (s := (lib.start name s).2) (by rw [hview]; rfl)
  rw [hview] at hnext
  exact hnext

theorem view_ending (hlib : lib.Lawful view) {α : Type} (outcome : Except Failure α)
    {span : Span ι} {s : σ} (h : (view s).active = span :: around) :
    view (lib.ending span.id outcome s)
      = ⟨span.marked ((Block.failed? outcome).map Block.mark) :: around, (view s).finished⟩ := by
  unfold ending
  cases Block.failed? outcome with
  | none => exact congrArg (Tracing.mk · _) h
  | some f => exact hlib.view_recordFailure (Block.mark f) h

/-- Work that leaves the open spans as they are is followed by its own span. -/
theorem view_inSpan (hlib : lib.Lawful view) {α : Type} {name : String}
    {attributes : List (String × Value)} (work : σ → Except Failure α × σ) {s : σ}
    {inner : List (Span ι)} (parent : Option String)
    (hwork : view (work (lib.entering name attributes s)).2
      = ⟨(view (lib.entering name attributes s)).active,
        (view (lib.entering name attributes s)).finished ++ inner⟩) :
    view (lib.inSpan name attributes work s).2
      = ⟨(view s).active, (view s).finished ++ (inner ++
          [SpanRecord.identified ⟨name, parent, attributes,
              (Block.failed? (work (lib.entering name attributes s)).1).map Block.mark⟩
            (lib.start name s).1 (view s).current])⟩ := by
  rw [hlib.view_entering] at hwork
  have hactive := congrArg Tracing.active hwork
  have hending := hlib.view_ending (work (lib.entering name attributes s)).1 hactive
  rw [inSpan_eq, SpanRecord.identified_eq]
  dsimp only
  have hfinish := hlib.finish _ _ _ (congrArg Tracing.active hending)
  rw [hending, hwork, Span.id_marked] at hfinish
  rw [← List.append_assoc]
  exact hfinish

end Lawful

end SpanLibrary

/-! ## Identities -/

namespace Tracing

theorem ids_finished_append (t : Tracing ι) (spans : List (Span ι)) :
    (⟨t.active, t.finished ++ spans⟩ : Tracing ι).ids = t.ids ++ spans.map (·.id) := by
  rw [ids, ids, ← List.append_assoc, List.map_append]

/-- Spans have identities of their own, none of them one of those that are known already. -/
structure Fresh (t : Tracing ι) (spans : List (Span ι)) : Prop where
  distinct : (spans.map (·.id)).Nodup
  new : ∀ span ∈ spans, span.id ∉ t.ids

namespace Fresh

variable {t t' : Tracing ι} {spans later : List (Span ι)}

theorem nil : t.Fresh [] := ⟨List.nodup_nil, by simp⟩

theorem append (h : t.Fresh spans) (hlater : t'.Fresh later)
    (hids : t'.ids = t.ids ++ spans.map (·.id)) : t.Fresh (spans ++ later) := by
  refine ⟨?_, ?_⟩
  · rw [List.map_append, List.nodup_append']
    refine ⟨h.distinct, hlater.distinct, ?_⟩
    intro id hid hid'
    obtain ⟨span, hspan, rfl⟩ := List.mem_map.1 hid'
    refine hlater.new span hspan ?_
    rw [hids]
    exact List.mem_append_right _ hid
  · intro span hspan hknown
    rcases List.mem_append.1 hspan with hspan | hspan
    · exact h.new span hspan hknown
    · refine hlater.new span hspan ?_
      rw [hids]
      exact List.mem_append_left _ hknown

/-- A span that is opened before others and ends after them. -/
theorem concat {span : Span ι} (h : t'.Fresh spans) (hids : t'.ids = span.id :: t.ids)
    (hspan : span.id ∉ t.ids) : t.Fresh (spans ++ [span]) := by
  refine ⟨?_, ?_⟩
  · rw [List.map_append, List.map_singleton, List.nodup_append']
    refine ⟨h.distinct, List.nodup_singleton _, ?_⟩
    rw [List.disjoint_singleton]
    intro hid
    obtain ⟨inner, hinner, heq⟩ := List.mem_map.1 hid
    refine h.new inner hinner ?_
    rw [hids, heq]
    exact List.mem_cons_self ..
  · intro other hother hknown
    rcases List.mem_append.1 hother with hinner | hlast
    · refine h.new other hinner ?_
      rw [hids]
      exact List.mem_cons_of_mem _ hknown
    · obtain rfl := List.mem_singleton.1 hlast
      exact hspan hknown

end Fresh

end Tracing

/-! ## Runs against a library -/

namespace Block

variable {report : Failure → Value} {b : Block}

/-- What runs in the span of a block. -/
def bodyWith (lib : SpanLibrary σ ι) (report : Failure → Value) (result : Value)
    (children : List Block) (failure : Option Failure) (s : σ) : Except Failure Value × σ :=
  (concluded result failure (runAllWith lib report children s).1,
    (runAllWith lib report children s).2)

theorem runWith_run (name : String) (attributes : List (String × Value)) (result : Value)
    (children : List Block) (failure : Option Failure) :
    (run name attributes result children failure).runWith lib report
      = lib.inSpan name attributes (bodyWith lib report result children failure) := by
  rw [runWith]
  rfl

theorem runWith_guarded (body : Block) (s : σ) : (guarded body).runWith lib report s
    = (caught report (body.runWith lib report s).1, (body.runWith lib report s).2) := by
  rw [runWith]

theorem runAllWith_cons_of_error {rest : List Block} {s : σ} {f : Failure}
    (h : (b.runWith lib report s).1 = .error f) :
    runAllWith lib report (b :: rest) s = (.error f, (b.runWith lib report s).2) := by
  rw [runAllWith]
  dsimp only
  split <;> simp_all

theorem runAllWith_cons_of_ok {rest : List Block} {s : σ} {v : Value}
    (h : (b.runWith lib report s).1 = .ok v) : runAllWith lib report (b :: rest) s
      = ((runAllWith lib report rest (b.runWith lib report s).2).1.map (v :: ·),
        (runAllWith lib report rest (b.runWith lib report s).2).2) := by
  rw [runAllWith]
  dsimp only
  split <;> simp_all

mutual

/-- A run against any library has the outcome of the run that leaves a journal. -/
theorem runWith_fst (lib : SpanLibrary σ ι) (report : Failure → Value) :
    ∀ (b : Block) (s : σ), (b.runWith lib report s).1 = (b.eval report).1
  | run name attributes result children failure, s => by
    rw [runWith_run, SpanLibrary.inSpan_eq, bodyWith, runAllWith_fst lib report children, eval_run]
  | guarded body, s => by
    rw [runWith_guarded, eval_guarded, runWith_fst lib report body s]

theorem runAllWith_fst (lib : SpanLibrary σ ι) (report : Failure → Value) :
    ∀ (blocks : List Block) (s : σ),
      (runAllWith lib report blocks s).1 = (evalAll report blocks).1
  | [], s => rfl
  | b :: rest, s => by
    have hfst := runWith_fst lib report b s
    cases h : (b.eval report).1 with
    | error f => rw [runAllWith_cons_of_error (hfst.trans h), evalAll_cons_of_error h]
    | ok v =>
      rw [runAllWith_cons_of_ok (hfst.trans h), evalAll_cons_of_ok h,
        runAllWith_fst lib report rest]

end

theorem failed?_bodyWith (result : Value) (children : List Block) (failure : Option Failure)
    (s : σ) : failed? (bodyWith lib report result children failure s).1
      = (firstEscape? children).or failure := by
  rw [bodyWith, failed?_concluded, runAllWith_fst, failed?_evalAll]

/-! ## The spans of a run -/

/-- The finished span of the block at an address. -/
def spanAt (b : Block) (parent : Option String) (ids : Address → ι) (outer : Option ι)
    (a : Address) : Span ι :=
  (b.recordAt parent a).identified (ids a) (Address.enclosing ids outer a)

theorem spanAt_guarded (body : Block) (parent : Option String) (ids : Address → ι)
    (outer : Option ι) : (guarded body).spanAt parent ids outer = body.spanAt parent ids outer := by
  funext a
  rw [spanAt, spanAt, recordAt_guarded]

/-- The finished spans of a sequence of blocks. -/
def spanIn (blocks : List Block) (parent : Option String) (ids : Nat → Address → ι)
    (outer : Option ι) (x : Nat × Address) : Span ι :=
  (recordIn blocks parent x).identified (ids x.1 x.2) (Address.enclosing (ids x.1) outer x.2)

/-- A run of a block leaves the open spans as they are and finishes new spans, one for each block
that is entered. -/
def Traced (lib : SpanLibrary σ ι) (view : σ → Tracing ι) (report : Failure → Value) (b : Block) :
    Prop :=
  ∀ (parent : Option String) (s : σ), ∃ ids : Address → ι,
    view (b.runWith lib report s).2 = ⟨(view s).active,
      (view s).finished ++ b.visited.map (b.spanAt parent ids (view s).current)⟩ ∧
    (view s).Fresh (b.visited.map (b.spanAt parent ids (view s).current))

/-- So does a run of a sequence of blocks. -/
def TracedAll (lib : SpanLibrary σ ι) (view : σ → Tracing ι) (report : Failure → Value)
    (blocks : List Block) : Prop :=
  ∀ (parent : Option String) (s : σ), ∃ ids : Nat → Address → ι,
    view (runAllWith lib report blocks s).2 = ⟨(view s).active,
      (view s).finished ++ (visitedAll blocks).map (spanIn blocks parent ids (view s).current)⟩ ∧
    (view s).Fresh ((visitedAll blocks).map (spanIn blocks parent ids (view s).current))

theorem tracedAll {blocks : List Block} (h : ∀ c ∈ blocks, c.Traced lib view report) :
    TracedAll lib view report blocks := by
  intro parent s
  induction blocks generalizing s with
  | nil =>
    refine ⟨fun _ _ => (lib.start "" s).1, ?_, .nil⟩
    rw [visitedAll, List.map_nil, List.append_nil, runAllWith]
  | cons c rest ih =>
    obtain ⟨ids, hview, hfresh⟩ := h c (List.mem_cons_self ..) parent s
    have hfst := runWith_fst lib report c s
    cases hc : (c.eval report).1 with
    | error f =>
      refine ⟨fun _ => ids, ?_⟩
      rw [runAllWith_cons_of_error (hfst.trans hc),
        map_visitedAll_of_not_completes _ (not_completes_of_eval_eq_error hc)]
      exact ⟨hview, hfresh⟩
    | ok v =>
      obtain ⟨idsRest, hviewRest, hfreshRest⟩ :=
        ih (fun d hd => h d (List.mem_cons_of_mem c hd)) (c.runWith lib report s).2
      have hcurrent : (view (c.runWith lib report s).2).current = (view s).current := by
        rw [hview]
        rfl
      rw [hcurrent] at hviewRest hfreshRest
      refine ⟨fun i => i.casesOn ids idsRest, ?_⟩
      rw [runAllWith_cons_of_ok (hfst.trans hc),
        map_visitedAll_of_completes _ (completes_of_eval_eq_ok hc)]
      refine ⟨?_, ?_⟩
      · dsimp only
        rw [hviewRest, hview, List.append_assoc]
        rfl
      · refine hfresh.append hfreshRest ?_
        rw [hview, Tracing.ids_finished_append]

theorem traced_run (hlib : lib.Lawful view) {name : String} {attributes : List (String × Value)}
    {result : Value} {children : List Block} {failure : Option Failure}
    (h : TracedAll lib view report children) :
    (run name attributes result children failure).Traced lib view report := by
  intro parent s
  obtain ⟨ids, hview, hfresh⟩ := h (some name) (lib.entering name attributes s)
  refine ⟨fun a => a.casesOn (lib.start name s).1 ids, ?_⟩
  have hentering := hlib.view_entering name attributes s
  have hcurrent : (view (lib.entering name attributes s)).current = some (lib.start name s).1 := by
    rw [hentering]
    rfl
  rw [hcurrent] at hview hfresh
  have hspan := hlib.view_inSpan (bodyWith lib report result children failure) parent hview
  rw [failed?_bodyWith] at hspan
  rw [runWith_run, hspan, map_visited]
  refine ⟨rfl, hfresh.concat ?_ (hlib.fresh name s)⟩
  rw [hentering]
  rfl

theorem traced (hlib : lib.Lawful view) (report : Failure → Value) (b : Block) :
    b.Traced lib view report := by
  induction b using induction with
  | run name attributes result children failure ih => exact traced_run hlib (tracedAll ih)
  | guarded body ih =>
    intro parent s
    obtain ⟨ids, hview, hfresh⟩ := ih parent s
    refine ⟨ids, ?_⟩
    rw [runWith_guarded, visited, spanAt_guarded]
    exact ⟨hview, hfresh⟩

end Block

end SchemaVersioning
