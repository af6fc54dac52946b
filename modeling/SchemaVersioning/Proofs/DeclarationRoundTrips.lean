import SchemaVersioning.Declaration.Data
import SchemaVersioning.Declaration.Reading
import SchemaVersioning.Proofs.Omissions

/-!
# Round trips of declarations

What a reader accepts is well formed: names and adapters are not empty, and models are not nested
too deep.  What is well formed is read back from its data, whatever null entries are left out.
-/

namespace SchemaVersioning

open Reading Checked

/-! ## Locations -/

theorem Location.readsBack (l : Location) : ReadsBack Location.read l.toValue l := by
  refine readsBack_model (by decide) rfl fun es hes =>
    accepts_seq (accepts_seq (accepts_map _ ?file) ?line) ?column
  case file => exact optional_of_leaves hes (readsBack_text _) (by simp) nofun
  case line => exact optional_of_leaves hes (readsBack_natFrom (Nat.zero_le _)) (by simp) nofun
  case column => exact optional_of_leaves hes (readsBack_natFrom (Nat.zero_le _)) (by simp) nofun

/-- There is room for the location of a model at a depth. -/
def Location.FieldFitsWithin (limit depth : Nat) (l : Option Location) : Prop :=
  l.isSome = true → depth + 1 ≤ limit

abbrev Location.FieldFits := Location.FieldFitsWithin Nesting.maxDepth

section Location

variable {outer : Nesting} {es : Entries} {l : Option Location} {fields : List (String × Value)}

theorem fieldFits_of_readField (h : Location.readField outer es = accepted l) :
    Location.FieldFits outer.depth l := by
  have hread : ∀ a ∈ l, outer.depth + 1 ≤ Nesting.maxDepth :=
    forall_mem_of_nullable h fun hl => by
      obtain ⟨inner, hdepth, hmax, -⟩ := reading_eq_accepted hl
      exact hdepth ▸ hmax
  intro hsome
  obtain ⟨a, ha⟩ := Option.isSome_iff_exists.1 hsome
  exact hread a ha

theorem location_of_leaves (hes : es.Leaves fields) (hfits : Location.FieldFits outer.depth l)
    (hmem : ("location", Location.toField l) ∈ fields) :
    Location.readField outer es = accepted l := by
  refine nullable_of_leaves hes (fun a ha => ?_) hmem nofun
  exact readsBack_reading (hfits (Option.isSome_iff_exists.2 ⟨a, ha⟩)) fun _ _ => a.readsBack

end Location

/-! ## Type expressions -/

/-- An expression at a depth of nesting, with room for its arguments up to a limit. -/
inductive TypeExpr.FitsWithin (limit : Nat) : Nat → TypeExpr → Prop
  | mk {depth : Nat} {e : TypeExpr} (room : depth ≤ limit)
      (args : ∀ a ∈ e.args, FitsWithin limit (depth + 1) a) : FitsWithin limit depth e

/-- An expression fits where it can be read. -/
abbrev TypeExpr.Fits := TypeExpr.FitsWithin Nesting.maxDepth

namespace TypeExpr

theorem toValues_eq (es : List TypeExpr) : toValues es = es.map toValue := by
  induction es with
  | nil => rfl
  | cons e rest ih => rw [toValues, ih, List.map_cons]

theorem toValue_ne_null (e : TypeExpr) : e.toValue ≠ .null := by
  cases e
  nofun

theorem ofParts?_head (h : Head) : Head.ofParts? h.path h.var? = some h := by
  cases h <;> rfl

theorem readsBack_path (p : Path) : ReadsBack readPath (.texts p) p := by
  intro w hw
  obtain ⟨ws, rfl, -⟩ := Value.omits_list_iff.1 hw
  exact readsBack_texts p _ hw

theorem fits_of_args_eq_nil {depth : Nat} {e : TypeExpr} (hroom : depth ≤ Nesting.maxDepth)
    (h : e.args = []) : e.Fits depth :=
  .mk hroom (by simp [h])

theorem fits_of_readAt {levels : Nat} {outer : Nesting} (v : Value) {e : TypeExpr}
    (h : readAt levels outer v = accepted e) : e.Fits (outer.depth + levels) := by
  rw [readAt] at h
  obtain ⟨inner, hdepth, hroom, h⟩ := reading_eq_accepted h
  rw [hdepth] at hroom
  split at h
  · cases h
    exact fits_of_args_eq_nil hroom rfl
  · cases h
    exact fits_of_args_eq_nil hroom rfl
  · obtain ⟨parts, hparts, hhead⟩ := andThen_eq_accepted_iff.1 h
    obtain ⟨entries, hsize, hfields⟩ := model_eq_accepted hparts
    have hfields := exists_of_accepted (onlyFields_eq_accepted hfields)
    simp only [exists_seq_accepted, exists_map_accepted] at hfields
    obtain ⟨location, -, attributes, -, args, hargs, var, -, path, -, rfl⟩ := hfields
    simp only at hhead
    split at hhead
    · cases hhead
      refine .mk hroom fun a ha => ?_
      rcases optional_eq_accepted hargs with rfl | ⟨list, hlist, hread⟩
      · cases ha
      · obtain ⟨item, hitem, hread⟩ := tupleOf_eq_accepted hread a ha
        have := fits_of_readAt item hread
        rwa [hdepth] at this
    · cases hhead
termination_by sizeOf v

theorem readsBack {depth : Nat} {e : TypeExpr} (h : e.Fits depth) {levels : Nat} {outer : Nesting}
    (hdepth : outer.depth + levels = depth) : ReadsBack (readAt levels outer) e.toValue e := by
  induction h generalizing levels outer with
  | @mk depth e room _ ih =>
    obtain ⟨head, args, attributes, location⟩ := e
    intro w hw
    rw [readAt]
    revert w
    refine readsBack_reading (hdepth ▸ room) fun inner hinner w hw => ?_
    obtain ⟨es, rfl, -⟩ := Value.omits_object_iff.1 hw
    refine andThen_eq_accepted_iff.2
      ⟨(Head.ofParts? head.path head.var?, args, attributes, location), ?_, ?_⟩
    · refine model_of_omits hw (by decide) rfl fun es hes => accepts_seq (accepts_seq (accepts_seq
        (accepts_seq (accepts_map _ ?path) ?var) ?args) ?attributes) ?location
      case path => exact optional_of_leaves hes (readsBack_path _) (by simp) nofun
      case var =>
        exact nullable_of_leaves hes (fun s _ => readsBack_text s) (by simp) nofun
      case args =>
        refine optional_of_leaves hes (readsBack_tupleOf fun a ha => ih a ha ?_)
          (by simp [toValues_eq]) nofun
        rw [hinner, hdepth]
      case attributes => exact optional_of_leaves hes (readsBack_texts _) (by simp) nofun
      case location =>
        exact nullable_of_leaves hes (fun l _ => l.readsBack) (by simp [Location.toField]) nofun
    · rw [ofParts?_head]

end TypeExpr

/-- The type expressions of a model at a depth of nesting. -/
theorem fits_of_readPart {outer : Nesting} {v : Value} {e : TypeExpr}
    (h : TypeExpr.readPart outer v = accepted e) : e.Fits (outer.depth + 2) :=
  TypeExpr.fits_of_readAt v h

theorem readsBack_typeExpr {outer : Nesting} {e : TypeExpr} (h : e.Fits (outer.depth + 2)) :
    ReadsBack (TypeExpr.readPart outer) e.toValue e := TypeExpr.readsBack h rfl

theorem readsBack_typeExprs {outer : Nesting} {es : List TypeExpr}
    (h : ∀ e ∈ es, e.Fits (outer.depth + 2)) :
    ReadsBack (TypeExpr.readParts outer) (.list (TypeExpr.toValues es)) es := by
  rw [TypeExpr.toValues_eq]
  exact readsBack_tupleOf fun e he => readsBack_typeExpr (h e he)

/-! ## Types -/

structure RecordField.WellFormedWithin (limit depth : Nat) (f : RecordField) : Prop where
  named : f.name ≠ ""
  type : f.type.FitsWithin limit (depth + 2)

abbrev RecordField.WellFormed := RecordField.WellFormedWithin Nesting.maxDepth

theorem RecordField.wellFormed_of_read {outer : Nesting} {v : Value} {f : RecordField}
    (h : RecordField.read outer v = accepted f) : f.WellFormed outer.depth := by
  obtain ⟨entries, _, h⟩ := model_eq_accepted h
  have hfields := exists_of_accepted (onlyFields_eq_accepted h)
  simp only [exists_seq_accepted, exists_map_accepted] at hfields
  obtain ⟨type, htype, name, hname, rfl⟩ := hfields
  obtain ⟨_, _, hname⟩ := required_eq_accepted hname
  obtain ⟨_, _, htype⟩ := required_eq_accepted htype
  exact ⟨ne_empty_of_nonEmptyText hname, fits_of_readPart htype⟩

theorem RecordField.readsBack {outer : Nesting} {f : RecordField} (h : f.WellFormed outer.depth) :
    ReadsBack (RecordField.read outer) f.toValue f := by
  refine readsBack_model (by decide) rfl fun es hes => accepts_seq (accepts_map _ ?name) ?type
  case name => exact required_of_leaves hes (readsBack_nonEmptyText h.named) (by simp) nofun
  case type =>
    exact required_of_leaves hes (readsBack_typeExpr h.type) (by simp) f.type.toValue_ne_null

structure Constructor.WellFormedWithin (limit depth : Nat) (c : Constructor) : Prop where
  named : c.name ≠ ""
  args : ∀ e ∈ c.args, e.FitsWithin limit (depth + 2)

abbrev Constructor.WellFormed := Constructor.WellFormedWithin Nesting.maxDepth

theorem forall_fits_of_readParts {outer : Nesting} {v : Value} {es : List TypeExpr}
    (h : TypeExpr.readParts outer v = accepted es) : ∀ e ∈ es, e.Fits (outer.depth + 2) :=
  forall_mem_of_tupleOf h fits_of_readPart

theorem Constructor.wellFormed_of_read {outer : Nesting} {v : Value} {c : Constructor}
    (h : Constructor.read outer v = accepted c) : c.WellFormed outer.depth := by
  obtain ⟨entries, _, h⟩ := model_eq_accepted h
  have hfields := exists_of_accepted (onlyFields_eq_accepted h)
  simp only [exists_seq_accepted, exists_map_accepted] at hfields
  obtain ⟨args, hargs, name, hname, rfl⟩ := hfields
  obtain ⟨_, _, hname⟩ := required_eq_accepted hname
  exact ⟨ne_empty_of_nonEmptyText hname, forall_mem_of_optional hargs forall_fits_of_readParts⟩

theorem Constructor.readsBack {outer : Nesting} {c : Constructor} (h : c.WellFormed outer.depth) :
    ReadsBack (Constructor.read outer) c.toValue c := by
  refine readsBack_model (by decide) rfl fun es hes => accepts_seq (accepts_map _ ?name) ?args
  case name => exact required_of_leaves hes (readsBack_nonEmptyText h.named) (by simp) nofun
  case args => exact optional_of_leaves hes (readsBack_typeExprs h.args) (by simp) nofun

structure TypeDecl.WellFormedWithin (limit depth : Nat) (t : TypeDecl) : Prop where
  named : t.name ≠ ""
  target : ∀ e ∈ t.alias?, e.FitsWithin limit (depth + 2)
  fields : ∀ f ∈ t.fields, f.WellFormedWithin limit depth
  constructors : ∀ c ∈ t.constructors, c.WellFormedWithin limit depth
  location : Location.FieldFitsWithin limit depth t.location

abbrev TypeDecl.WellFormed := TypeDecl.WellFormedWithin Nesting.maxDepth

theorem ofKind_eq_ok_iff {name : String} {kind : TypeKind} {target : Option TypeExpr}
    {shape : TypeShape} :
    TypeShape.ofKind name kind target = .ok shape ↔ kind = shape.kind ∧ target = shape.alias? := by
  cases shape <;> cases kind <;> cases target <;>
    simp [TypeShape.ofKind, TypeShape.kind, TypeShape.alias?]

theorem TypeDecl.ofKind_eq (t : TypeDecl) :
    TypeShape.ofKind t.name t.shape.kind t.alias? = .ok t.shape := ofKind_eq_ok_iff.2 ⟨rfl, rfl⟩

theorem TypeDecl.wellFormed_of_read {outer : Nesting} {v : Value} {t : TypeDecl}
    (h : TypeDecl.read outer v = accepted t) : t.WellFormed outer.depth := by
  obtain ⟨entries, _, h⟩ := model_eq_accepted h
  obtain ⟨parts, hparts, hshape⟩ := andThen_eq_accepted_iff.1 h
  have hfields := exists_of_accepted (onlyFields_eq_accepted hparts)
  simp only [exists_seq_accepted, exists_map_accepted] at hfields
  obtain ⟨location, hlocation, attributes, -, constructors, hconstructors, fields, hfields, target,
    htarget, params, -, kind, -, name, hname, rfl⟩ := hfields
  simp only at hshape
  split at hshape
  · next shape hkind =>
    cases hshape
    obtain ⟨_, _, hname⟩ := required_eq_accepted hname
    obtain ⟨-, rfl⟩ := ofKind_eq_ok_iff.1 hkind
    exact {
      named := ne_empty_of_nonEmptyText hname
      target := forall_mem_of_nullable htarget fits_of_readPart
      fields := forall_mem_of_optional hfields fun h =>
        forall_mem_of_tupleOf h RecordField.wellFormed_of_read
      constructors := forall_mem_of_optional hconstructors fun h =>
        forall_mem_of_tupleOf h Constructor.wellFormed_of_read
      location := fieldFits_of_readField hlocation }
  · cases hshape

theorem readsBack_typeKind (kind : TypeKind) :
    ReadsBack TypeKind.read (.text kind.name) kind := by
  refine readsBack_scalar trivial ?_
  cases kind <;> rfl

theorem TypeDecl.readsBack {outer : Nesting} {t : TypeDecl} (h : t.WellFormed outer.depth) :
    ReadsBack (TypeDecl.read outer) t.toValue t := by
  refine readsBack_model_andThen
    (TypeShape.ofKind t.name t.shape.kind t.alias?, fun shape => { t with shape := shape })
    (by decide) rfl (fun es hes => accepts_seq (accepts_seq (accepts_seq (accepts_seq (accepts_seq
      (accepts_seq (accepts_seq (accepts_map _ ?name) ?kind) ?params) ?target) ?fields)
      ?constructors) ?attributes) ?location) ?shape
  case name => exact required_of_leaves hes (readsBack_nonEmptyText h.named) (by simp) nofun
  case kind => exact optional_of_leaves hes (readsBack_typeKind _) (by simp) nofun
  case params => exact optional_of_leaves hes (readsBack_texts _) (by simp) nofun
  case target =>
    exact nullable_of_leaves hes (fun e he => readsBack_typeExpr (h.target e he)) (by simp)
      TypeExpr.toValue_ne_null
  case fields =>
    exact optional_of_leaves hes
      (readsBack_tupleOf fun f hf => RecordField.readsBack (h.fields f hf)) (by simp) nofun
  case constructors =>
    exact optional_of_leaves hes
      (readsBack_tupleOf fun c hc => Constructor.readsBack (h.constructors c hc)) (by simp) nofun
  case attributes => exact optional_of_leaves hes (readsBack_texts _) (by simp) nofun
  case location => exact location_of_leaves hes h.location (by simp)
  case shape => simp only [t.ofKind_eq]

/-- A type definition inside a module at a depth. -/
structure TypeDecl.IsMemberWithin (limit depth : Nat) (t : TypeDecl) : Prop where
  room : depth + 1 ≤ limit
  wellFormed : t.WellFormedWithin limit (depth + 1)

abbrev TypeDecl.IsMember := TypeDecl.IsMemberWithin Nesting.maxDepth

theorem TypeDecl.forall_isMember_of_readMembers {outer : Nesting} {v : Value}
    {ts : List TypeDecl} (h : TypeDecl.readMembers outer v = accepted ts) :
    ∀ t ∈ ts, t.IsMember outer.depth :=
  forall_mem_of_tupleOf h fun hread => by
    obtain ⟨inner, hdepth, hroom, hread⟩ := reading_eq_accepted hread
    rw [hdepth] at hroom
    exact ⟨hroom, hdepth ▸ wellFormed_of_read hread⟩

theorem TypeDecl.readsBack_members {outer : Nesting} {ts : List TypeDecl}
    (h : ∀ t ∈ ts, t.IsMember outer.depth) :
    ReadsBack (TypeDecl.readMembers outer) (.list (ts.map (·.toValue))) ts :=
  readsBack_tupleOf fun t ht => readsBack_reading (h t ht).room fun _ hinner =>
    TypeDecl.readsBack (hinner ▸ (h t ht).wellFormed)

/-! ## Values -/

structure ValueDecl.WellFormedWithin (limit depth : Nat) (v : ValueDecl) : Prop where
  named : v.name ≠ ""
  params : ∀ e ∈ v.params, e.FitsWithin limit (depth + 2)
  returns : v.returns.FitsWithin limit (depth + 2)
  location : Location.FieldFitsWithin limit depth v.location

abbrev ValueDecl.WellFormed := ValueDecl.WellFormedWithin Nesting.maxDepth

theorem ValueDecl.wellFormed_of_read {outer : Nesting} {data : Value} {v : ValueDecl}
    (h : ValueDecl.read outer data = accepted v) : v.WellFormed outer.depth := by
  obtain ⟨entries, _, h⟩ := model_eq_accepted h
  have hfields := exists_of_accepted (onlyFields_eq_accepted h)
  simp only [exists_seq_accepted, exists_map_accepted] at hfields
  obtain ⟨location, hlocation, attributes, -, returns, hreturns, params, hparams, name, hname,
    rfl⟩ := hfields
  obtain ⟨_, _, hname⟩ := required_eq_accepted hname
  obtain ⟨_, _, hreturns⟩ := required_eq_accepted hreturns
  exact {
    named := ne_empty_of_nonEmptyText hname
    params := forall_mem_of_optional hparams forall_fits_of_readParts
    returns := fits_of_readPart hreturns
    location := fieldFits_of_readField hlocation }

theorem ValueDecl.readsBack {outer : Nesting} {v : ValueDecl} (h : v.WellFormed outer.depth) :
    ReadsBack (ValueDecl.read outer) v.toValue v := by
  refine readsBack_model (by decide) rfl fun es hes => accepts_seq (accepts_seq (accepts_seq
    (accepts_seq (accepts_map _ ?name) ?params) ?returns) ?attributes) ?location
  case name => exact required_of_leaves hes (readsBack_nonEmptyText h.named) (by simp) nofun
  case params => exact optional_of_leaves hes (readsBack_typeExprs h.params) (by simp) nofun
  case returns =>
    exact required_of_leaves hes (readsBack_typeExpr h.returns) (by simp) v.returns.toValue_ne_null
  case attributes => exact optional_of_leaves hes (readsBack_texts _) (by simp) nofun
  case location => exact location_of_leaves hes h.location (by simp)

/-- A signature inside a module at a depth. -/
structure ValueDecl.IsMemberWithin (limit depth : Nat) (v : ValueDecl) : Prop where
  room : depth + 1 ≤ limit
  wellFormed : v.WellFormedWithin limit (depth + 1)

abbrev ValueDecl.IsMember := ValueDecl.IsMemberWithin Nesting.maxDepth

theorem ValueDecl.forall_isMember_of_readMembers {outer : Nesting} {data : Value}
    {vs : List ValueDecl} (h : ValueDecl.readMembers outer data = accepted vs) :
    ∀ v ∈ vs, v.IsMember outer.depth :=
  forall_mem_of_tupleOf h fun hread => by
    obtain ⟨inner, hdepth, hroom, hread⟩ := reading_eq_accepted hread
    rw [hdepth] at hroom
    exact ⟨hroom, hdepth ▸ wellFormed_of_read hread⟩

theorem ValueDecl.readsBack_members {outer : Nesting} {vs : List ValueDecl}
    (h : ∀ v ∈ vs, v.IsMember outer.depth) :
    ReadsBack (ValueDecl.readMembers outer) (.list (vs.map (·.toValue))) vs :=
  readsBack_tupleOf fun v hv => readsBack_reading (h v hv).room fun _ hinner =>
    ValueDecl.readsBack (hinner ▸ (h v hv).wellFormed)

/-! ## Codecs and functors -/

structure CodecRef.WellFormedWithin (limit depth : Nat) (r : CodecRef) : Prop where
  adapter : r.adapter ≠ ""
  wraps : ∀ e ∈ r.wraps, e.FitsWithin limit (depth + 2)
  location : Location.FieldFitsWithin limit depth r.location

abbrev CodecRef.WellFormed := CodecRef.WellFormedWithin Nesting.maxDepth

theorem CodecRef.wellFormed_of_read {outer : Nesting} {v : Value} {r : CodecRef}
    (h : CodecRef.read outer v = accepted r) : r.WellFormed outer.depth := by
  obtain ⟨entries, _, h⟩ := model_eq_accepted h
  have hfields := exists_of_accepted (onlyFields_eq_accepted h)
  simp only [exists_seq_accepted, exists_map_accepted] at hfields
  obtain ⟨location, hlocation, wraps, hwraps, adapter, hadapter, rfl⟩ := hfields
  have hnamed : adapter ≠ "" := by
    rcases optional_eq_accepted hadapter with rfl | ⟨_, _, hread⟩
    · decide
    · exact ne_empty_of_nonEmptyText hread
  exact ⟨hnamed, forall_mem_of_nullable hwraps fits_of_readPart, fieldFits_of_readField hlocation⟩

theorem CodecRef.readsBack {outer : Nesting} {r : CodecRef} (h : r.WellFormed outer.depth) :
    ReadsBack (CodecRef.read outer) r.toValue r := by
  refine readsBack_model (by decide) rfl fun es hes =>
    accepts_seq (accepts_seq (accepts_map _ ?adapter) ?wraps) ?location
  case adapter => exact optional_of_leaves hes (readsBack_nonEmptyText h.adapter) (by simp) nofun
  case wraps =>
    exact nullable_of_leaves hes (fun e he => readsBack_typeExpr (h.wraps e he)) (by simp)
      TypeExpr.toValue_ne_null
  case location => exact location_of_leaves hes h.location (by simp)

structure FunctorParameter.WellFormedWithin (limit depth : Nat) (p : FunctorParameter) : Prop where
  named : p.name ≠ ""
  types : ∀ t ∈ p.types, t.IsMemberWithin limit depth
  values : ∀ v ∈ p.values, v.IsMemberWithin limit depth

abbrev FunctorParameter.WellFormed := FunctorParameter.WellFormedWithin Nesting.maxDepth

theorem FunctorParameter.wellFormed_of_read {outer : Nesting} {v : Value} {p : FunctorParameter}
    (h : FunctorParameter.read outer v = accepted p) : p.WellFormed outer.depth := by
  obtain ⟨entries, _, h⟩ := model_eq_accepted h
  have hfields := exists_of_accepted (onlyFields_eq_accepted h)
  simp only [exists_seq_accepted, exists_map_accepted] at hfields
  obtain ⟨values, hvalues, types, htypes, name, hname, rfl⟩ := hfields
  obtain ⟨_, _, hname⟩ := required_eq_accepted hname
  exact ⟨ne_empty_of_nonEmptyText hname,
    forall_mem_of_optional htypes TypeDecl.forall_isMember_of_readMembers,
    forall_mem_of_optional hvalues ValueDecl.forall_isMember_of_readMembers⟩

theorem FunctorParameter.readsBack {outer : Nesting} {p : FunctorParameter}
    (h : p.WellFormed outer.depth) : ReadsBack (FunctorParameter.read outer) p.toValue p := by
  refine readsBack_model (by decide) rfl fun es hes =>
    accepts_seq (accepts_seq (accepts_map _ ?name) ?types) ?values
  case name => exact required_of_leaves hes (readsBack_nonEmptyText h.named) (by simp) nofun
  case types => exact optional_of_leaves hes (TypeDecl.readsBack_members h.types) (by simp) nofun
  case values => exact optional_of_leaves hes (ValueDecl.readsBack_members h.values) (by simp) nofun

/-! ## Modules -/

/-- A module at a depth of nesting. -/
inductive ModuleDecl.WellFormedWithin (limit : Nat) : Nat → ModuleDecl → Prop
  | mk {depth : Nat} {m : ModuleDecl} (room : depth ≤ limit) (named : m.name ≠ "")
      (types : ∀ t ∈ m.types, t.IsMemberWithin limit depth)
      (values : ∀ v ∈ m.values, v.IsMemberWithin limit depth)
      (modules : ∀ n ∈ m.modules, WellFormedWithin limit (depth + 1) n)
      (codec : ∀ r ∈ m.codec, r.WellFormedWithin limit depth)
      (parameters : ∀ p ∈ m.functorParameters, p.WellFormedWithin limit depth)
      (location : Location.FieldFitsWithin limit depth m.location) :
      WellFormedWithin limit depth m

abbrev ModuleDecl.WellFormed := ModuleDecl.WellFormedWithin Nesting.maxDepth

/-- The parameters of a functor header, none without one. -/
def FunctorHeader.parametersOf (functor : Option FunctorHeader) : List FunctorParameter :=
  (functor.map (·.parameters)).getD []

theorem functorParameters_eq (m : ModuleDecl) :
    m.functorParameters = FunctorHeader.parametersOf m.functor := by
  unfold ModuleDecl.functorParameters FunctorHeader.parametersOf
  cases m.functor <;> rfl

theorem ofOption_map {α β : Type} (f : β → Value) (g : α → β) (o : Option α) :
    Value.ofOption f (o.map g) = Value.ofOption (fun a => f (g a)) o := by
  cases o <;> rfl

theorem ofParts_eq_ok_iff {name : String} {arity : Option Nat} {parameters : List FunctorParameter}
    {functor : Option FunctorHeader} :
    FunctorHeader.ofParts name arity parameters = .ok functor ↔
      arity = functor.map (·.arity) ∧ parameters = FunctorHeader.parametersOf functor := by
  unfold FunctorHeader.ofParts
  constructor
  · intro h
    cases arity with
    | none =>
      dsimp only at h
      split at h
      · next hempty =>
        cases h
        exact ⟨rfl, List.isEmpty_iff.1 hempty⟩
      · cases h
    | some arity =>
      dsimp only at h
      split at h
      · cases h
        exact ⟨rfl, rfl⟩
      · cases h
  · rintro ⟨rfl, rfl⟩
    cases functor with
    | none => rfl
    | some f => exact dif_pos f.parameters_le

namespace ModuleDecl

theorem toValues_eq (ms : List ModuleDecl) : toValues ms = ms.map toValue := by
  induction ms with
  | nil => rfl
  | cons m rest ih => rw [toValues, ih, List.map_cons]

theorem wellFormed_of_readAt {levels : Nat} {outer : Nesting} (v : Value) {m : ModuleDecl}
    (h : readAt levels outer v = accepted m) : m.WellFormed (outer.depth + levels) := by
  rw [readAt] at h
  obtain ⟨inner, hdepth, hroom, h⟩ := reading_eq_accepted h
  obtain ⟨parts, hparts, hfunctor⟩ := andThen_eq_accepted_iff.1 h
  obtain ⟨entries, hsize, hfields⟩ := model_eq_accepted hparts
  have hfields := exists_of_accepted (onlyFields_eq_accepted hfields)
  simp only [exists_seq_accepted, exists_map_accepted] at hfields
  obtain ⟨location, hlocation, arguments, -, parameters, hparameters, arity, -, aliasOf, -, codec,
    hcodec, attributes, -, modules, hmodules, values, hvalues, types, htypes, name, hname, rfl⟩ :=
    hfields
  simp only at hfunctor
  split at hfunctor
  · next functor hparts =>
    cases hfunctor
    obtain ⟨-, rfl⟩ := ofParts_eq_ok_iff.1 hparts
    obtain ⟨_, _, hname⟩ := required_eq_accepted hname
    rw [← hdepth]
    refine .mk hroom (ne_empty_of_nonEmptyText hname)
      (forall_mem_of_optional htypes TypeDecl.forall_isMember_of_readMembers)
      (forall_mem_of_optional hvalues ValueDecl.forall_isMember_of_readMembers)
      (fun n hn => ?_) (forall_mem_of_nullable hcodec CodecRef.wellFormed_of_read) ?_
      (fieldFits_of_readField hlocation)
    · rcases optional_eq_accepted hmodules with rfl | ⟨list, hlist, hread⟩
      · cases hn
      · obtain ⟨item, hitem, hread⟩ := tupleOf_eq_accepted hread n hn
        exact wellFormed_of_readAt item hread
    · rw [functorParameters_eq]
      exact forall_mem_of_optional hparameters fun h =>
        forall_mem_of_tupleOf h FunctorParameter.wellFormed_of_read
  · cases hfunctor
termination_by sizeOf v

theorem readsBack {depth : Nat} {m : ModuleDecl} (h : m.WellFormed depth) {levels : Nat}
    {outer : Nesting} (hdepth : outer.depth + levels = depth) :
    ReadsBack (readAt levels outer) m.toValue m := by
  induction h generalizing levels outer with
  | @mk depth m room named types values _ codec parameters location ih =>
    rw [functorParameters_eq] at parameters
    obtain ⟨name, ts, vs, modules, attributes, cr, aliasOf, functor, arguments, loc⟩ := m
    intro w hw
    rw [readAt]
    revert w
    refine readsBack_reading (hdepth ▸ room) fun inner hinner w hw => ?_
    have hdepth : inner.depth = depth := hinner.trans hdepth
    subst hdepth
    refine andThen_eq_accepted_iff.2
      ⟨(FunctorHeader.ofParts name (functor.map (·.arity)) (FunctorHeader.parametersOf functor),
        fun functor => ⟨name, ts, vs, modules, attributes, cr, aliasOf, functor, arguments, loc⟩),
        ?_, ?_⟩
    · refine model_of_omits hw (by decide) rfl fun es hes => accepts_seq (accepts_seq (accepts_seq
        (accepts_seq (accepts_seq (accepts_seq (accepts_seq (accepts_seq (accepts_seq (accepts_seq
          (accepts_map _ ?name) ?types) ?values) ?modules) ?attributes) ?codec) ?aliasOf) ?arity)
          ?parameters) ?arguments) ?location
      case name => exact required_of_leaves hes (readsBack_nonEmptyText named) (by simp) nofun
      case types => exact optional_of_leaves hes (TypeDecl.readsBack_members types) (by simp) nofun
      case values =>
        exact optional_of_leaves hes (ValueDecl.readsBack_members values) (by simp) nofun
      case modules =>
        exact optional_of_leaves hes (readsBack_tupleOf fun n hn => ih n hn rfl)
          (by simp [toValues_eq]) nofun
      case attributes => exact optional_of_leaves hes (readsBack_texts _) (by simp) nofun
      case codec =>
        exact nullable_of_leaves hes (fun r hr => CodecRef.readsBack (codec r hr)) (by simp) nofun
      case aliasOf => exact nullable_of_leaves hes (fun s _ => readsBack_text s) (by simp) nofun
      case arity =>
        exact nullable_of_leaves hes (fun n _ => readsBack_natFrom (Nat.zero_le n))
          (by rw [ofOption_map]; simp) nofun
      case parameters =>
        exact optional_of_leaves hes
          (readsBack_tupleOf fun p hp => FunctorParameter.readsBack (parameters p hp))
          (by simp [FunctorHeader.parametersOf]) nofun
      case arguments => exact optional_of_leaves hes (readsBack_texts _) (by simp) nofun
      case location => exact location_of_leaves hes location (by simp)
    · simp only [ofParts_eq_ok_iff.2 ⟨rfl, rfl⟩]

end ModuleDecl

/-! ## Units -/

/-- The fields of a unit keep their bounds, and its models are nested up to a limit. -/
structure CompilationUnit.WellFormedWithin (limit : Nat) (u : CompilationUnit) : Prop where
  named : u.name ≠ ""
  modules : ∀ m ∈ u.modules, m.WellFormedWithin limit 2

abbrev CompilationUnit.WellFormed := CompilationUnit.WellFormedWithin Nesting.maxDepth

theorem CompilationUnit.wellFormed_of_read {v : Value} {u : CompilationUnit}
    (h : CompilationUnit.read v = accepted u) : u.WellFormed := by
  obtain ⟨entries, _, h⟩ := model_eq_accepted h
  have hfields := exists_of_accepted (onlyFields_eq_accepted h)
  simp only [exists_seq_accepted, exists_map_accepted] at hfields
  obtain ⟨modules, hmodules, name, hname, rfl⟩ := hfields
  obtain ⟨_, _, hname⟩ := required_eq_accepted hname
  exact ⟨ne_empty_of_nonEmptyText hname, forall_mem_of_optional hmodules fun h =>
    forall_mem_of_tupleOf h fun hread => ModuleDecl.wellFormed_of_readAt _ hread⟩

theorem CompilationUnit.readsBack {u : CompilationUnit} (h : u.WellFormed) :
    ReadsBack CompilationUnit.read u.toValue u := by
  refine readsBack_model (by decide) rfl fun es hes => accepts_seq (accepts_map _ ?name) ?modules
  case name => exact required_of_leaves hes (readsBack_nonEmptyText h.named) (by simp) nofun
  case modules =>
    exact optional_of_leaves hes
      (readsBack_tupleOf fun m hm => ModuleDecl.readsBack (h.modules m hm) rfl)
      (by simp [ModuleDecl.toValues_eq]) nofun

end SchemaVersioning
