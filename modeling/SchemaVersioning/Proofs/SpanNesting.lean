import SchemaVersioning.Proofs.SpanHistories

/-!
# Nesting of spans

What a run of a tree of blocks leaves in a lawful library, however the blocks nest and wherever one
of them fails (`spans_nest`).  The tree alone says which blocks are entered, in which order they end
and which failures pass through them (`NestedSpans`, `FailuresPass`); of the library no more is used
than that a span is opened inside of the current one and finished when it is ended.
-/

namespace SchemaVersioning

/-! ## Marks of a failure -/

namespace Entries

variable {name name' : String} {v w : Value} {kept : Entries}

theorem find?_append_of_forall_ne {before : Entries} (after : Entries)
    (h : ∀ e ∈ before, e.1 ≠ .text name) : find? name (before ++ after) = find? name after := by
  induction before with
  | nil => rfl
  | cons e rest ih =>
    obtain ⟨key, v⟩ := e
    rw [List.cons_append, find?, if_neg (h (key, v) (List.mem_cons_self ..))]
    exact ih fun e he => h e (List.mem_cons_of_mem _ he)

theorem withRoom_subset (kept : Entries) : withRoom kept ⊆ kept := by
  unfold withRoom
  split
  · exact List.Subset.refl kept
  · exact List.drop_subset 1 kept

/-- The last attribute stays when room is made. -/
theorem exists_withRoom_concat (kept : Entries) (e : Key × Value) :
    ∃ rest, withRoom (kept ++ [e]) = rest ++ [e] ∧ rest ⊆ kept := by
  unfold withRoom
  split
  · exact ⟨kept, rfl, List.Subset.refl kept⟩
  · next hfull =>
    refine ⟨kept.drop 1, ?_, List.drop_subset 1 kept⟩
    have hlength : 1 ≤ kept.length := by
      rw [List.length_append, List.length_singleton] at hfull
      have : 1 < maxAttributes := by decide
      omega
    exact List.drop_append_of_le_length hlength

/-- The attributes of other names. -/
def others (name : String) (kept : Entries) : Entries := kept.filter fun e => e.1 ≠ .text name

theorem mem_others {e : Key × Value} : e ∈ others name kept ↔ e ∈ kept ∧ e.1 ≠ .text name := by
  rw [others, List.mem_filter, decide_eq_true_eq]

theorem others_concat {e : Key × Value} (h : e.1 ≠ .text name) :
    others name (kept ++ [e]) = others name kept ++ [e] := by
  simp [others, h]

theorem putAttribute_eq (hname : name ≠ "") : putAttribute kept name v
    = withRoom (others name kept) ++ [(.text name, attributeValue v)] := by
  rw [putAttribute, if_neg hname]
  rfl

theorem find?_withRoom_others (after : Entries) :
    find? name (withRoom (others name kept) ++ after) = find? name after :=
  find?_append_of_forall_ne after fun _ he => (mem_others.1 (withRoom_subset _ he)).2

theorem find?_putAttribute (hname : name ≠ "") :
    find? name (putAttribute kept name v) = some (attributeValue v) := by
  rw [putAttribute_eq hname, find?_withRoom_others, find?, if_pos rfl]

/-- An attribute is found after one more of another name is set. -/
theorem find?_putAttribute_putAttribute (hname : name ≠ "") (hname' : name' ≠ "")
    (hne : name ≠ name') :
    find? name (putAttribute (putAttribute kept name v) name' w) = some (attributeValue v) := by
  have hkey : Key.text name ≠ .text name' := by simpa using hne
  obtain ⟨rest, hrest, hsubset⟩ := exists_withRoom_concat
    (others name' (withRoom (others name kept))) (.text name, attributeValue v)
  have hother : ∀ e ∈ rest, e.1 ≠ .text name := fun e he =>
    (mem_others.1 (withRoom_subset _ (mem_others.1 (hsubset he)).1)).2
  rw [putAttribute_eq hname', putAttribute_eq hname, others_concat hkey, hrest, List.append_assoc,
    find?_append_of_forall_ne _ hother, List.singleton_append, find?, if_pos rfl]

end Entries

/-- The marks of a failure on a span, whatever other attributes it has. -/
theorem SpanRecord.find?_keptAttributes {r : SpanRecord} {f : SpanFailure}
    (h : r.failure = some f) :
    r.keptAttributes.find? "exception.type" = some (.text f.kind) ∧
      r.keptAttributes.find? "exception.message" = some (.text f.keptText) := by
  rw [keptAttributes, h]
  dsimp only
  rw [List.foldl_append, List.foldl_cons, List.foldl_cons, List.foldl_nil]
  have htype : "exception.type" ≠ "" := by decide
  have hmessage : "exception.message" ≠ "" := by decide
  have hne : "exception.type" ≠ "exception.message" := by decide
  exact ⟨Entries.find?_putAttribute_putAttribute htype hmessage hne,
    Entries.find?_putAttribute hmessage⟩

/-! ## Spans in memory -/

/-- A library that keeps its spans in memory is lawful. -/
theorem Tracing.memory_lawful : Tracing.memory.Lawful id where
  fresh _ _ hmem := Nat.not_succ_le_self _ (List.le_max?_getD_of_mem hmem)
  start _ _ := rfl
  setAttribute t span around name v h := by
    rw [id_eq] at h
    simp [memory, h]
  setError t span around description h := by
    rw [id_eq] at h
    simp [memory, h]
  finish t span around h := by
    rw [id_eq] at h
    simp [memory, h]

/-! ## Nested spans -/

/-- The name of the innermost open span. -/
def Tracing.currentName {ι : Type} (t : Tracing ι) : Option String := t.active.head?.map (·.name)

/-- A record of a journal shows a finished span, inside of a span of some name. -/
structure SpanRecord.Shows {ι : Type} (r : SpanRecord) (span : Span ι) (parent : Option String) :
    Prop where
  name : r.name = span.name
  parent : r.parent = parent
  attributes : r.keptAttributes = span.attributes
  status : .ofFailure? r.failure = span.status

namespace Block

variable {σ ι : Type} {lib : SpanLibrary σ ι} {view : σ → Tracing ι}

/-- Each block of a tree that is entered has one span.  Inner spans are finished before those around
them, earlier ones before later ones; the parent of a span is the one of the block around it.  A
span is marked with the failure that passes through its block, and with nothing if none does. -/
structure NestedSpans (b : Block) (t : Tracing ι) (visited : List Address)
    (span : Address → Span ι) : Prop where
  entered : ∀ a, a ∈ visited ↔ b.Entered a
  once : visited.Nodup
  inOrder : visited.Pairwise EndsBefore
  new : ∀ a ∈ visited, (span a).id ∉ t.ids
  distinct : ∀ a ∈ visited, ∀ a' ∈ visited, (span a).id = (span a').id → a = a'
  outermost : (span []).parent = t.current
  nested : ∀ a i, a ++ [i] ∈ visited → (span (a ++ [i])).parent = some (span a).id
  named : ∀ a ∈ visited, ∀ c, b.at? a = some c → (span a).name = c.name
  marked : ∀ a ∈ visited, ∀ r f, b.Passes r f a →
    (span a).status = .error (String.ofList (f.text.toList.take 500)) ∧
      (span a).attributes.find? "exception.type" = some (.text f.kind) ∧
      (span a).attributes.find? "exception.message"
        = some (.text (String.ofList (f.text.toList.take 500)))
  unmarked : ∀ a ∈ visited, (∀ r f, ¬ b.Passes r f a) → (span a).status = .unset

/-- Failures go the way from the body that raises them outwards.  One that leaves the whole tree has
passed through all blocks around that body.  One that is caught outside of a block has not passed
through any block further out, one that is not caught there goes on through the next. -/
structure FailuresPass (b : Block) : Prop where
  raised : ∀ r f, b.Leaves r f → ∃ c, b.at? r = some c ∧ c.failure? = some f
  passed : ∀ r f a, b.Leaves r f → (b.Passes r f a ↔ a <+: r)
  caught : ∀ r f a a' c, b.at? a = some c → c.isGuarded = true → a' <+: a → a' ≠ a → a <+: r →
    ¬ b.Passes r f a'
  around : ∀ r f a i c, b.Entered (a ++ [i]) → b.at? (a ++ [i]) = some c → c.isGuarded = false →
    b.Passes r f (a ++ [i]) → b.Passes r f a

theorem failuresPass (b : Block) : b.FailuresPass where
  raised _ _ h := h.raised_at
  passed _ _ _ h := h.passes_iff
  caught _ _ _ _ _ hc hguarded hout hne ha := not_passes_of_isGuarded hc hguarded hout hne ha
  around _ _ _ _ _ hentered hc hguarded h := h.around hentered hc hguarded

/-- The spans of the blocks that are entered, as a run finishes them. -/
theorem nestedSpans {b : Block} {t : Tracing ι} {parent : Option String} {ids : Address → ι}
    (hfresh : t.Fresh (b.visited.map (b.spanAt parent ids t.current))) :
    b.NestedSpans t b.visited (b.spanAt parent ids t.current) where
  entered _ := mem_visited
  once := nodup_visited b
  inOrder := pairwise_visited b
  new a ha := hfresh.new _ (List.mem_map_of_mem ha)
  distinct a ha a' ha' heq := by
    have hdistinct := hfresh.distinct
    rw [List.map_map] at hdistinct
    exact List.inj_on_of_nodup_map hdistinct ha ha' heq
  outermost := rfl
  nested a i _ := Address.enclosing_concat ids t.current a i
  named a _ c hc := by
    rw [spanAt, recordAt_of_at? hc]
    rfl
  marked a ha r f h := by
    obtain ⟨c, hc⟩ := (mem_visited.1 ha).exists_at?
    have hfailure : (b.recordAt parent a).failure = some (mark f) := by
      rw [recordAt_of_at? hc, (exists_passes_iff hc).1 ⟨r, h⟩]
      rfl
    refine ⟨?_, SpanRecord.find?_keptAttributes hfailure⟩
    rw [spanAt, SpanRecord.identified, hfailure]
    rfl
  unmarked a ha h := by
    obtain ⟨c, hc⟩ := (mem_visited.1 ha).exists_at?
    have hfailure : (b.recordAt parent a).failure = none := by
      rw [recordAt_of_at? hc, Option.map_eq_none_iff, Option.eq_none_iff_forall_ne_some]
      intro f hf
      obtain ⟨r, hpasses⟩ := (exists_passes_iff hc).2 hf
      exact h r f hpasses
    rw [spanAt, SpanRecord.identified, hfailure]
    rfl

theorem shows_spanAt {b : Block} {a : Address} (h : b.Entered a) (parent : Option String)
    (ids : Address → ι) (outer : Option ι) :
    (b.recordAt parent a).Shows (b.spanAt parent ids outer a)
      (Address.enclosing (fun a => (b.spanAt parent ids outer a).name) parent a) := by
  obtain ⟨c, hc⟩ := h.exists_at?
  refine ⟨rfl, ?_, rfl, rfl⟩
  rw [recordAt_of_at? hc]
  rfl

end Block

end SchemaVersioning
