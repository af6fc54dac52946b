import SchemaVersioning.Config.Data
import SchemaVersioning.Declaration.Reading

/-!
# Refusals

A reader that refuses data says why: no refusal is without an issue.  The rules for the readers of
parts hand this on to those of wholes, up to those of units and conventions
(`CompilationUnit.reasoned_read`, `Config.reasoned_read`).
-/

namespace SchemaVersioning

namespace Checked

variable {α β : Type}

/-- The outcome is a thing, or has an issue. -/
def Reasoned (a : Checked α) : Prop := a ≠ rejected []

theorem Reasoned.exists_cons {a : Checked α} (h : a.Reasoned) {issues : List Issue}
    (ha : a = rejected issues) : ∃ first rest, issues = first :: rest := by
  cases issues with
  | nil => exact absurd ha h
  | cons first rest => exact ⟨first, rest, rfl⟩

@[simp] theorem reasoned_accepted (a : α) : (accepted a).Reasoned := nofun

@[simp] theorem reasoned_refuse (cause : Cause) : (refuse cause : Checked α).Reasoned := nofun

@[simp] theorem reasoned_map (f : α → β) (a : Checked α) : (a.map f).Reasoned ↔ a.Reasoned := by
  cases a <;> simp [map, Reasoned]

@[simp] theorem reasoned_fmap (f : α → β) (a : Checked α) : (f <$> a).Reasoned ↔ a.Reasoned :=
  reasoned_map f a

@[simp] theorem reasoned_under (s : Segment) (a : Checked α) :
    (a.under s).Reasoned ↔ a.Reasoned := by
  cases a <;> simp [under, Reasoned]

theorem reasoned_combine {f : Checked (α → β)} {a : Checked α} (hf : f.Reasoned)
    (ha : a.Reasoned) : (f.combine a).Reasoned := by
  cases f <;> cases a <;> simp_all [combine, Reasoned]

theorem reasoned_seq {f : Checked (α → β)} {a : Checked α} (hf : f.Reasoned)
    (ha : a.Reasoned) : (f <*> a).Reasoned :=
  reasoned_combine hf ha

theorem reasoned_andThen {a : Checked α} {check : α → Checked β} (ha : a.Reasoned)
    (hcheck : ∀ x, (check x).Reasoned) : (a.andThen check).Reasoned := by
  cases a with
  | accepted x => exact hcheck x
  | rejected issues => simpa [andThen, Reasoned] using ha

end Checked

open Checked

namespace Reading

variable {α : Type}

/-! ## Scalars -/

@[simp] theorem reasoned_text (v : Value) : (text v).Reasoned := by
  unfold text
  split <;> (try split) <;> simp

@[simp] theorem reasoned_nonEmptyText (v : Value) : (nonEmptyText v).Reasoned := by
  refine reasoned_andThen ?_ fun s => ?_
  · unfold wholeText
    split <;> simp
  · split <;> simp

theorem reasoned_written {bad : Cause} {v : Value} {ofText : String → Checked α}
    {other : Value → Checked α} (htext : ∀ s, (ofText s).Reasoned)
    (hother : ∀ v, (other v).Reasoned) : (written bad v ofText other).Reasoned := by
  unfold written
  split <;> (try split) <;> simp [htext, hother]

theorem reasoned_integerOfReal (x : Binary64) : (integerOfReal x).Reasoned := by
  unfold integerOfReal
  split <;> (try split) <;> (try split) <;> simp

theorem reasoned_integer (v : Value) : (integer v).Reasoned := by
  refine reasoned_written (fun s => ?_) fun v => ?_
  · unfold integerOfText
    split <;> (try split) <;> simp
  · split <;> simp [reasoned_integerOfReal]

@[simp] theorem reasoned_natFrom (bound : Nat) (v : Value) : (natFrom bound v).Reasoned := by
  refine (reasoned_map _ _).2 (reasoned_andThen (reasoned_integer v) fun n => ?_)
  split <;> simp

@[simp] theorem reasoned_choice (choices : List (String × α)) (v : Value) :
    (choice choices v).Reasoned := by
  refine reasoned_written (fun s => ?_) fun _ => reasoned_refuse _
  split <;> simp

@[simp] theorem reasoned_nullable {read : Value → Checked α} (h : ∀ v, (read v).Reasoned)
    (v : Value) : (nullable read v).Reasoned := by
  unfold nullable
  split <;> simp [h]

/-! ## Lists and objects -/

theorem reasoned_items {bound : Nat} {read : PartReader bound α}
    (h : ∀ v hv, (read v hv).Reasoned) : ∀ (vs : List Value) (hvs : sizeOf vs ≤ bound) (n : Nat),
      (items bound read vs hvs n).Reasoned
  | [], _, _ => reasoned_accepted _
  | v :: rest, _, n => by
    rw [items]
    exact reasoned_combine (by simp [h]) (reasoned_items h rest _ (n + 1))

@[simp] theorem reasoned_tupleOf : ∀ {v : Value} {read : PartReader (sizeOf v) α},
    (∀ w hw, (read w hw).Reasoned) → (tupleOf v read).Reasoned
  | .list vs, _, h => by rw [tupleOf]; exact reasoned_items h vs _ 0
  | .set vs, _, h => by rw [tupleOf]; exact reasoned_items h vs _ 0
  | .cyclic _ _, _, h => by rw [tupleOf]; exact reasoned_tupleOf fun w _ => h w _
  | .null, _, _ | .bool _, _, _ | .int _, _, _ | .real _, _, _ | .text _, _, _ | .broken _, _, _
  | .object _, _, _ | .bytes _, _, _ | .moment _ _, _, _ => reasoned_refuse _

@[simp] theorem reasoned_textTuple (v : Value) : (textTuple v).Reasoned := by simp [textTuple]

@[simp] theorem reasoned_textSet (v : Value) : (textSet v).Reasoned := by
  unfold textSet
  split <;> simp

@[simp] theorem reasoned_required {entries : Entries} {name : String}
    {read : PartReader (sizeOf entries) α} (h : ∀ v hv, (read v hv).Reasoned) :
    (required entries name read).Reasoned := by
  rw [required, reasoned_under]
  split <;> simp [h]

@[simp] theorem reasoned_optional {entries : Entries} {name : String} {absent : α}
    {read : PartReader (sizeOf entries) α} (h : ∀ v hv, (read v hv).Reasoned) :
    (optional entries name absent read).Reasoned := by
  unfold optional
  split <;> simp [h]

@[simp] theorem reasoned_onlyFields {known : List String} {entries : Entries} {fields : Checked α}
    (h : fields.Reasoned) : (onlyFields known entries fields).Reasoned := by
  unfold onlyFields
  split
  · simp
  · split
    · exact h
    · next hne => exact fun heq => hne (Checked.rejected.inj heq)
    · next hne => exact fun heq => hne (List.append_eq_nil_iff.1 (Checked.rejected.inj heq)).2

@[simp] theorem reasoned_model {name : String} : ∀ {v : Value}
    {read : (entries : Entries) → sizeOf entries < sizeOf v → Checked α},
    (∀ entries h, (read entries h).Reasoned) → (model name v read).Reasoned
  | .object es, _, h => by rw [model]; exact h es _
  | .cyclic _ _, _, h => by rw [model]; exact reasoned_model fun es _ => h es _
  | .null, _, _ | .bool _, _, _ | .int _, _, _ | .real _, _, _ | .text _, _, _ | .broken _, _, _
  | .list _, _, _ | .set _, _, _ | .bytes _, _, _ | .moment _ _, _, _ => reasoned_refuse _

@[simp] theorem reasoned_reading {outer : Nesting} {levels : Nat} {name : String} {v : Value}
    {read : Nesting → Checked α} (h : ∀ inner, (read inner).Reasoned) :
    (outer.reading levels name v read).Reasoned := by
  unfold Nesting.reading
  split <;> simp [h]

end Reading

open Reading

/-! ## Declarations -/

/-- A model of fields that are read without refusals for no issue. -/
theorem reasoned_fields {α : Type} {name : String} {known : List String} {v : Value}
    {fieldsOf : (entries : Entries) → sizeOf entries < sizeOf v → Checked α}
    (h : ∀ es hes, (fieldsOf es hes).Reasoned) :
    (model name v fun es hes => onlyFields known es (fieldsOf es hes)).Reasoned :=
  reasoned_model fun es hes => reasoned_onlyFields (h es hes)

@[simp] theorem Location.reasoned_read (v : Value) : (Location.read v).Reasoned := by
  refine reasoned_fields fun es _ => ?_
  repeat' apply reasoned_seq
  all_goals simp

@[simp] theorem Location.reasoned_readField (outer : Nesting) (es : Entries) :
    (Location.readField outer es).Reasoned :=
  reasoned_optional fun v _ =>
    reasoned_nullable (fun v => reasoned_reading fun _ => reasoned_read v) v

@[simp] theorem TypeExpr.reasoned_readPath (v : Value) : (TypeExpr.readPath v).Reasoned := by
  unfold TypeExpr.readPath
  split <;> simp

@[simp] theorem TypeExpr.reasoned_readAt (levels : Nat) (outer : Nesting) (v : Value) :
    (TypeExpr.readAt levels outer v).Reasoned := by
  rw [TypeExpr.readAt]
  refine reasoned_reading fun inner => ?_
  split
  · simp
  · simp
  · refine reasoned_andThen (reasoned_fields fun es hes => ?_) fun x => ?_
    · refine reasoned_seq (reasoned_seq (reasoned_seq (reasoned_seq ?path ?var) ?args) ?attributes)
        ?location
      case args =>
        exact reasoned_optional fun w hw => reasoned_tupleOf fun item hitem =>
          TypeExpr.reasoned_readAt 1 inner item
      all_goals simp
    · obtain ⟨head, rest⟩ := x
      cases head <;> simp
termination_by sizeOf v

@[simp] theorem TypeExpr.reasoned_readPart (outer : Nesting) (v : Value) :
    (TypeExpr.readPart outer v).Reasoned :=
  TypeExpr.reasoned_readAt 2 outer v

@[simp] theorem TypeExpr.reasoned_readParts (outer : Nesting) (v : Value) :
    (TypeExpr.readParts outer v).Reasoned := by
  simp [TypeExpr.readParts]

@[simp] theorem RecordField.reasoned_read (outer : Nesting) (v : Value) :
    (RecordField.read outer v).Reasoned := by
  refine reasoned_fields fun es _ => ?_
  repeat' apply reasoned_seq
  all_goals simp

@[simp] theorem Constructor.reasoned_read (outer : Nesting) (v : Value) :
    (Constructor.read outer v).Reasoned := by
  refine reasoned_fields fun es _ => ?_
  repeat' apply reasoned_seq
  all_goals simp

@[simp] theorem TypeDecl.reasoned_read (outer : Nesting) (v : Value) :
    (TypeDecl.read outer v).Reasoned := by
  refine reasoned_model fun es _ => reasoned_andThen (reasoned_onlyFields ?_) fun x => ?_
  · repeat' apply reasoned_seq
    all_goals simp [TypeKind.read]
  · obtain ⟨shape, make⟩ := x
    cases shape <;> simp

@[simp] theorem TypeDecl.reasoned_readMembers (outer : Nesting) (v : Value) :
    (TypeDecl.readMembers outer v).Reasoned := by
  simp [TypeDecl.readMembers]

@[simp] theorem ValueDecl.reasoned_read (outer : Nesting) (v : Value) :
    (ValueDecl.read outer v).Reasoned := by
  refine reasoned_fields fun es _ => ?_
  repeat' apply reasoned_seq
  all_goals simp

@[simp] theorem ValueDecl.reasoned_readMembers (outer : Nesting) (v : Value) :
    (ValueDecl.readMembers outer v).Reasoned := by
  simp [ValueDecl.readMembers]

@[simp] theorem CodecRef.reasoned_read (outer : Nesting) (v : Value) :
    (CodecRef.read outer v).Reasoned := by
  refine reasoned_fields fun es _ => ?_
  repeat' apply reasoned_seq
  all_goals simp

@[simp] theorem FunctorParameter.reasoned_read (outer : Nesting) (v : Value) :
    (FunctorParameter.read outer v).Reasoned := by
  refine reasoned_fields fun es _ => ?_
  repeat' apply reasoned_seq
  all_goals simp

@[simp] theorem ModuleDecl.reasoned_readAt (levels : Nat) (outer : Nesting) (v : Value) :
    (ModuleDecl.readAt levels outer v).Reasoned := by
  rw [ModuleDecl.readAt]
  refine reasoned_reading fun inner =>
    reasoned_andThen (reasoned_fields fun es hes => ?_) fun x => ?_
  · refine reasoned_seq (reasoned_seq (reasoned_seq (reasoned_seq (reasoned_seq (reasoned_seq
      (reasoned_seq (reasoned_seq (reasoned_seq (reasoned_seq ?name ?types) ?values) ?modules)
        ?attributes) ?codec) ?aliasOf) ?arity) ?parameters) ?arguments) ?location
    case modules =>
      exact reasoned_optional fun w hw => reasoned_tupleOf fun item hitem =>
        ModuleDecl.reasoned_readAt 1 inner item
    all_goals simp
  · obtain ⟨functor, make⟩ := x
    cases functor <;> simp
termination_by sizeOf v

/-! ## Units and conventions -/

theorem CompilationUnit.reasoned_read (v : Value) : (CompilationUnit.read v).Reasoned := by
  refine reasoned_fields fun es _ => ?_
  repeat' apply reasoned_seq
  all_goals simp [ModuleDecl.readPart]

theorem Config.reasoned_read (v : Value) : (Config.read v).Reasoned := by
  refine reasoned_fields fun es _ => ?_
  repeat' apply reasoned_seq
  all_goals simp

end SchemaVersioning
