import SchemaVersioning.Proofs.SpanRuns

/-!
# Histories of runs

The states that a run goes through are those that a library notes which records its own states
(`recorded`); in all else a run against it is the same run (`runWith_recorded`).  What every
operation on the current span keeps, a whole run keeps (`keeps_runWith`).  So spans that are
finished at some moment stay as they are until the run ends (`finished_kept`).
-/

namespace SchemaVersioning

variable {σ ι : Type} {lib : SpanLibrary σ ι} {view : σ → Tracing ι} {report : Failure → Value}

/-! ## What a run keeps -/

namespace SpanLibrary

/-- A property of states that the opening of a span and each operation on the current span keep. -/
structure Keeps (lib : SpanLibrary σ ι) (view : σ → Tracing ι) (P : σ → Prop) : Prop where
  start : ∀ name s, P s → P (lib.start name s).2
  setAttribute : ∀ s span around name v, (view s).active = span :: around → P s →
    P (lib.setAttribute span.id name v s)
  setError : ∀ s span around description, (view s).active = span :: around → P s →
    P (lib.setStatus span.id (.error description) s)
  finish : ∀ s span around, (view s).active = span :: around → P s → P (lib.finish span.id s)

namespace Keeps

variable {P : σ → Prop} {around : List (Span ι)} {s : σ}

theorem setAttributes (hkeeps : lib.Keeps view P) (hlib : lib.Lawful view)
    (attributes : List (String × Value)) (span : Span ι)
    (hactive : (view s).active = span :: around) (h : P s) :
    P (lib.setAttributes span.id attributes s) := by
  induction attributes generalizing span s with
  | nil => exact h
  | cons entry rest ih =>
    obtain ⟨name, v⟩ := entry
    have hview := hlib.setAttribute s span around name v hactive
    have hnext : (view (lib.setAttribute span.id name v s)).active
        = span.withAttribute name v :: around := by rw [hview]
    exact ih (span.withAttribute name v) hnext
      (hkeeps.setAttribute s span around name v hactive h)

theorem recordFailure (hkeeps : lib.Keeps view P) (hlib : lib.Lawful view) (f : SpanFailure)
    {span : Span ι} (hactive : (view s).active = span :: around) (h : P s) :
    P (lib.recordFailure span.id f s) := by
  have hview := hlib.setError s span around f.keptText hactive
  have hnext : (view (lib.setStatus span.id (.error f.keptText) s)).active
      = { span with status := .error f.keptText } :: around := by rw [hview]
  exact hkeeps.setAttributes hlib f.attributes { span with status := .error f.keptText } hnext
    (hkeeps.setError s span around f.keptText hactive h)

theorem ending {α : Type} (hkeeps : lib.Keeps view P) (hlib : lib.Lawful view)
    (outcome : Except Failure α) {span : Span ι} (hactive : (view s).active = span :: around)
    (h : P s) :
    P (lib.ending span.id outcome s) := by
  unfold SpanLibrary.ending
  cases Block.failed? outcome with
  | none => exact h
  | some f => exact hkeeps.recordFailure hlib (Block.mark f) hactive h

theorem entering (hkeeps : lib.Keeps view P) (hlib : lib.Lawful view) (name : String)
    (attributes : List (String × Value)) (h : P s) : P (lib.entering name attributes s) := by
  have hview := hlib.start name s
  have hactive : (view (lib.start name s).2).active
      = ⟨(lib.start name s).1, (view s).current, name, [], .unset⟩ :: (view s).active := by
    rw [hview]
    rfl
  exact hkeeps.setAttributes hlib attributes _ hactive (hkeeps.start name s h)

/-- A span around work that leaves the open spans as they are keeps what the work keeps. -/
theorem inSpan {α : Type} (hkeeps : lib.Keeps view P) (hlib : lib.Lawful view) {name : String}
    {attributes : List (String × Value)} {work : σ → Except Failure α × σ}
    (hactive : (view (work (lib.entering name attributes s)).2).active
      = (view (lib.entering name attributes s)).active)
    (hwork : ∀ s, P s → P (work s).2) (h : P s) : P (lib.inSpan name attributes work s).2 := by
  rw [hlib.view_entering] at hactive
  have hbody := hwork _ (hkeeps.entering hlib name attributes h)
  have hending := hkeeps.ending hlib (work (lib.entering name attributes s)).1 hactive hbody
  have hview := hlib.view_ending (work (lib.entering name attributes s)).1 hactive
  have hlast := hkeeps.finish _ _ _ (congrArg Tracing.active hview) hending
  rw [Span.id_marked] at hlast
  rw [inSpan_eq]
  exact hlast

end Keeps

end SpanLibrary

namespace Block

variable {P : σ → Prop}

theorem keeps_runAllWith {blocks : List Block}
    (h : ∀ c ∈ blocks, ∀ s, P s → P (c.runWith lib report s).2) (s : σ) (hs : P s) :
    P (runAllWith lib report blocks s).2 := by
  induction blocks generalizing s with
  | nil => exact hs
  | cons c rest ih =>
    have hfirst := h c (List.mem_cons_self ..) s hs
    cases hc : (c.runWith lib report s).1 with
    | error f =>
      rw [runAllWith_cons_of_error hc]
      exact hfirst
    | ok v =>
      rw [runAllWith_cons_of_ok hc]
      exact ih (fun d hd => h d (List.mem_cons_of_mem c hd)) _ hfirst

/-- What each operation on the current span keeps, a whole run keeps. -/
theorem keeps_runWith (hkeeps : lib.Keeps view P) (hlib : lib.Lawful view) (b : Block) (s : σ)
    (hs : P s) : P (b.runWith lib report s).2 := by
  induction b using induction generalizing s with
  | run name attributes result children failure ih =>
    rw [runWith_run]
    refine hkeeps.inSpan hlib ?_ (fun s hs => keeps_runAllWith ih s hs) hs
    obtain ⟨ids, hview, -⟩ := tracedAll (fun c (_ : c ∈ children) => traced hlib report c) none
      (lib.entering name attributes s)
    have hactive := congrArg Tracing.active hview
    exact hactive
  | guarded body ih =>
    rw [runWith_guarded]
    exact ih s hs

end Block

/-! ## The states of a run -/

namespace SpanLibrary

/-- The library that also notes its states, the latest first. -/
def recorded (lib : SpanLibrary σ ι) : SpanLibrary (σ × List σ) ι where
  start name x := ((lib.start name x.1).1, (lib.start name x.1).2, x.1 :: x.2)
  setAttribute id name v x := (lib.setAttribute id name v x.1, x.1 :: x.2)
  setStatus id status x := (lib.setStatus id status x.1, x.1 :: x.2)
  finish id x := (lib.finish id x.1, x.1 :: x.2)

theorem Lawful.recorded (hlib : lib.Lawful view) : lib.recorded.Lawful fun x => view x.1 where
  fresh name x := hlib.fresh name x.1
  start name x := hlib.start name x.1
  setAttribute x := hlib.setAttribute x.1
  setError x := hlib.setError x.1
  finish x := hlib.finish x.1

/-- The operations keep the spans that were finished in any of the states before. -/
theorem Lawful.keeps_finished (hlib : lib.Lawful view) :
    lib.recorded.Keeps (fun x => view x.1) fun x =>
      ∀ t ∈ x.2, (view t).finished <+: (view x.1).finished := by
  have hstep : ∀ {s s' : σ} {past : List σ}, (view s).finished <+: (view s').finished →
      (∀ t ∈ past, (view t).finished <+: (view s).finished) →
      ∀ t ∈ s :: past, (view t).finished <+: (view s').finished := by
    rintro s s' past hkept hpast t (_ | ⟨_, ht⟩)
    · exact hkept
    · exact (hpast t ht).trans hkept
  constructor
  case start =>
    intro name x
    have hkept : (view x.1).finished <+: (view (lib.start name x.1).2).finished := by
      simp only [hlib.start, Tracing.opened, List.prefix_rfl]
    exact hstep hkept
  case setAttribute =>
    intro x span around name v hactive
    have hkept :
        (view x.1).finished <+: (view (lib.setAttribute span.id name v x.1)).finished := by
      simp only [hlib.setAttribute x.1 span around name v hactive, List.prefix_rfl]
    exact hstep hkept
  case setError =>
    intro x span around description hactive
    have hkept : (view x.1).finished <+:
        (view (lib.setStatus span.id (.error description) x.1)).finished := by
      simp only [hlib.setError x.1 span around description hactive, List.prefix_rfl]
    exact hstep hkept
  case finish =>
    intro x span around hactive
    have hkept : (view x.1).finished <+: (view (lib.finish span.id x.1)).finished := by
      rw [hlib.finish x.1 span around hactive]
      exact List.prefix_append ..
    exact hstep hkept

theorem recorded_setAttributes (id : ι) (attributes : List (String × Value)) (x : σ × List σ) :
    (lib.recorded.setAttributes id attributes x).1 = lib.setAttributes id attributes x.1 := by
  induction attributes generalizing x with
  | nil => rfl
  | cons entry rest ih => exact ih (lib.recorded.setAttribute id entry.1 entry.2 x)

theorem recorded_ending {α : Type} (id : ι) (outcome : Except Failure α) (x : σ × List σ) :
    (lib.recorded.ending id outcome x).1 = lib.ending id outcome x.1 := by
  unfold ending
  cases Block.failed? outcome with
  | none => rfl
  | some f => exact recorded_setAttributes id _ _

theorem recorded_inSpan {α : Type} (name : String) (attributes : List (String × Value))
    {work : σ → Except Failure α × σ} {work' : σ × List σ → Except Failure α × (σ × List σ)}
    (hfst : ∀ x, (work' x).1 = (work x.1).1) (hsnd : ∀ x, (work' x).2.1 = (work x.1).2)
    (x : σ × List σ) :
    (lib.recorded.inSpan name attributes work' x).2.1
      = (lib.inSpan name attributes work x.1).2 := by
  have hentering : (lib.recorded.entering name attributes x).1 = lib.entering name attributes x.1 :=
    recorded_setAttributes _ attributes _
  rw [inSpan_eq, inSpan_eq]
  change lib.finish _ (lib.recorded.ending _ _ _).1 = _
  rw [recorded_ending, hsnd, hfst, hentering]
  rfl

end SpanLibrary

namespace Block

theorem runAllWith_recorded {blocks : List Block}
    (h : ∀ c ∈ blocks, ∀ x : σ × List σ,
      (c.runWith lib.recorded report x).2.1 = (c.runWith lib report x.1).2) (x : σ × List σ) :
    (runAllWith lib.recorded report blocks x).2.1 = (runAllWith lib report blocks x.1).2 := by
  induction blocks generalizing x with
  | nil => rfl
  | cons c rest ih =>
    have hfst := runWith_fst lib.recorded report c x
    have hfst' := runWith_fst lib report c x.1
    cases hc : (c.eval report).1 with
    | error f =>
      rw [runAllWith_cons_of_error (hfst.trans hc), runAllWith_cons_of_error (hfst'.trans hc)]
      exact h c (List.mem_cons_self ..) x
    | ok v =>
      rw [runAllWith_cons_of_ok (hfst.trans hc), runAllWith_cons_of_ok (hfst'.trans hc)]
      dsimp only
      rw [ih fun d hd => h d (List.mem_cons_of_mem c hd), h c (List.mem_cons_self ..)]

/-- A run against a library that notes its states is the same run. -/
theorem runWith_recorded (b : Block) (x : σ × List σ) :
    (b.runWith lib.recorded report x).2.1 = (b.runWith lib report x.1).2 := by
  induction b using induction generalizing x with
  | run name attributes result children failure ih =>
    rw [runWith_run, runWith_run]
    have hfst : ∀ x : σ × List σ, (bodyWith lib.recorded report result children failure x).1
        = (bodyWith lib report result children failure x.1).1 := fun x => by
      rw [bodyWith, bodyWith, runAllWith_fst, runAllWith_fst]
    exact SpanLibrary.recorded_inSpan name attributes hfst (runAllWith_recorded ih) x
  | guarded body ih =>
    rw [runWith_guarded, runWith_guarded]
    exact ih x

/-- The states in which a run turns to the library: before each operation on a span. -/
def statesOf (lib : SpanLibrary σ ι) (report : Failure → Value) (b : Block) (s : σ) : List σ :=
  (b.runWith lib.recorded report (s, [])).2.2

/-- Spans that are finished at some moment of a run stay as they are until its end. -/
theorem finished_kept (hlib : lib.Lawful view) {b : Block} {s t : σ}
    (ht : t ∈ b.statesOf lib report s) :
    (view t).finished <+: (view (b.runWith lib report s).2).finished := by
  have h : ∀ t ∈ b.statesOf lib report s,
      (view t).finished <+: (view (b.runWith lib.recorded report (s, [])).2.1).finished :=
    keeps_runWith hlib.keeps_finished hlib.recorded b (s, []) (by simp)
  rw [runWith_recorded] at h
  exact h t ht

end Block

end SchemaVersioning
