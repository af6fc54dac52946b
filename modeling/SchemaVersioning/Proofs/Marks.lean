import Mathlib.Data.List.Forall2
import SchemaVersioning.Proofs.Discovery
import SchemaVersioning.Proofs.MarkedIndexes
import SchemaVersioning.Proofs.Outlines

/-!
# Marking a type as unversioned

A unit is marked if one use of a type, or one type definition, gets the attribute of unversioned
types (`CompilationUnit.Marked`).  Each place of the unit stays where it is, with the same contexts
around it.  A mark on a use exempts references and changes nothing that is declared; a mark on a
definition exempts no reference and may free the type that it defines.
-/

namespace SchemaVersioning

/-! ## Marks -/

/-- What is marked: a use of a type or the definition of one. -/
inductive MarkKind where
  | use
  | declaration
deriving DecidableEq

/-- One attribute is added, the one of unversioned types. -/
def AddsMark (attributes marked : List String) : Prop :=
  ∃ before after, attributes = before ++ after ∧ marked = before ++ unversionedAttribute :: after

/-- One entry of a list is replaced. -/
def ReplacesOne {α : Type} (r : α → α → Prop) (as bs : List α) : Prop :=
  ∃ before a b after, as = before ++ a :: after ∧ bs = before ++ b :: after ∧ r a b

/-- The expression, or one inside it, is marked. -/
inductive TypeExpr.Marked : TypeExpr → TypeExpr → Prop
  | here {head : Head} {args : List TypeExpr} {attributes marked : List String}
      {location : Option Location} (h : AddsMark attributes marked) :
      Marked ⟨head, args, attributes, location⟩ ⟨head, args, marked, location⟩
  | argument {head : Head} {before after : List TypeExpr} {e e' : TypeExpr}
      {attributes : List String} {location : Option Location} (h : Marked e e') :
      Marked ⟨head, before ++ e :: after, attributes, location⟩
        ⟨head, before ++ e' :: after, attributes, location⟩

/-- The type of a field is marked. -/
def RecordField.Marked (f f' : RecordField) : Prop :=
  ∃ type, f.type.Marked type ∧ f' = { f with type := type }

/-- An argument of a constructor is marked. -/
def Constructor.Marked (k k' : Constructor) : Prop :=
  ∃ args, ReplacesOne TypeExpr.Marked k.args args ∧ k' = { k with args := args }

/-- A type definition is marked itself, or a use of a type in it. -/
inductive TypeDecl.Marked : MarkKind → TypeDecl → TypeDecl → Prop
  | self {t : TypeDecl} {marked : List String} (h : AddsMark t.attributes marked) :
      Marked .declaration t { t with attributes := marked }
  | target {t : TypeDecl} {e e' : TypeExpr} (shape : t.shape = .synonym e) (h : e.Marked e') :
      Marked .use t { t with shape := .synonym e' }
  | field {t : TypeDecl} {fields : List RecordField}
      (h : ReplacesOne RecordField.Marked t.fields fields) :
      Marked .use t { t with fields := fields }
  | argument {t : TypeDecl} {constructors : List Constructor}
      (h : ReplacesOne Constructor.Marked t.constructors constructors) :
      Marked .use t { t with constructors := constructors }

/-- A use of a type in a signature is marked. -/
inductive ValueDecl.Marked : ValueDecl → ValueDecl → Prop
  | param {v : ValueDecl} {params : List TypeExpr}
      (h : ReplacesOne TypeExpr.Marked v.params params) : Marked v { v with params := params }
  | returns {v : ValueDecl} {e : TypeExpr} (h : v.returns.Marked e) :
      Marked v { v with returns := e }

/-- A type, or a use of a type, in an item of a functor parameter is marked. -/
inductive FunctorParameter.Marked : MarkKind → FunctorParameter → FunctorParameter → Prop
  | type {kind : MarkKind} {p : FunctorParameter} {types : List TypeDecl}
      (h : ReplacesOne (TypeDecl.Marked kind) p.types types) :
      Marked kind p { p with types := types }
  | value {p : FunctorParameter} {values : List ValueDecl}
      (h : ReplacesOne ValueDecl.Marked p.values values) : Marked .use p { p with values := values }

/-- A type, or a use of a type, in a module or in a module nested in it is marked. -/
inductive ModuleDecl.Marked (kind : MarkKind) : ModuleDecl → ModuleDecl → Prop
  | type {m : ModuleDecl} {types : List TypeDecl}
      (h : ReplacesOne (TypeDecl.Marked kind) m.types types) :
      Marked kind m { m with types := types }
  | value {m : ModuleDecl} {values : List ValueDecl} (use : kind = .use)
      (h : ReplacesOne ValueDecl.Marked m.values values) : Marked kind m { m with values := values }
  | codec {m : ModuleDecl} {codec : CodecRef} {e e' : TypeExpr} (use : kind = .use)
      (declared : m.codec = some codec) (wraps : codec.wraps = some e) (h : e.Marked e') :
      Marked kind m { m with codec := some { codec with wraps := some e' } }
  | parameter {m : ModuleDecl} {f f' : FunctorHeader} (declared : m.functor = some f)
      (arity : f'.arity = f.arity)
      (h : ReplacesOne (FunctorParameter.Marked kind) f.parameters f'.parameters) :
      Marked kind m { m with functor := some f' }
  | member {m n n' : ModuleDecl} {before after : List ModuleDecl}
      (declared : m.modules = before ++ n :: after) (h : Marked kind n n') :
      Marked kind m { m with modules := before ++ n' :: after }

/-- One use of a type, or one type definition, in a unit is marked. -/
def CompilationUnit.Marked (kind : MarkKind) (u v : CompilationUnit) : Prop :=
  ∃ modules, ReplacesOne (ModuleDecl.Marked kind) u.modules modules ∧
    v = { u with modules := modules }

/-! ## Lists -/

/-- The same, or in a relation. -/
abbrev SameOr {α : Type} (r : α → α → Prop) (a b : α) : Prop := a = b ∨ r a b

section Lists

variable {α β γ : Type} {r : α → α → Prop} {q : α → β → Prop} {as bs : List α} {cs : List β}

theorem forall₂_sameOr_refl (r : α → α → Prop) (as : List α) : List.Forall₂ (SameOr r) as as :=
  List.forall₂_same.2 fun _ _ => Or.inl rfl

/-- One entry of a list is replaced, and the other ones stay. -/
theorem ReplacesOne.forall₂ (h : ReplacesOne r as bs) : List.Forall₂ (SameOr r) as bs := by
  obtain ⟨before, a, b, after, rfl, rfl, hab⟩ := h
  exact List.rel_append (forall₂_sameOr_refl r before)
    (.cons (Or.inr hab) (forall₂_sameOr_refl r after))

theorem map_eq_of_forall₂ {f : α → γ} {g : β → γ} (h : List.Forall₂ q as cs)
    (hfg : ∀ a c, q a c → g c = f a) : cs.map g = as.map f := by
  induction h with
  | nil => rfl
  | cons hac _ ih => rw [List.map_cons, List.map_cons, hfg _ _ hac, ih]

theorem flatMap_eq_of_forall₂ {f : α → List γ} {g : β → List γ} (h : List.Forall₂ q as cs)
    (hfg : ∀ a c, q a c → g c = f a) : cs.flatMap g = as.flatMap f := by
  rw [List.flatMap_def, List.flatMap_def, map_eq_of_forall₂ h hfg]

theorem filterMap_eq_of_forall₂ {f : α → Option γ} {g : β → Option γ} (h : List.Forall₂ q as cs)
    (hfg : ∀ a c, q a c → g c = f a) : cs.filterMap g = as.filterMap f := by
  have hmap := congrArg (List.filterMap id) (map_eq_of_forall₂ h hfg)
  rwa [List.filterMap_map, List.filterMap_map] at hmap

theorem foldl_eq_of_forall₂ {f : γ → α → γ} {g : γ → β → γ} (h : List.Forall₂ q as cs)
    (hfg : ∀ s a c, q a c → g s c = f s a) (s : γ) : cs.foldl g s = as.foldl f s := by
  induction h generalizing s with
  | nil => rfl
  | cons hac _ ih => rw [List.foldl_cons, List.foldl_cons, hfg _ _ _ hac, ih]

end Lists

/-! ## References -/

/-- A reference after a mark: it may be exempt now, which only a mark on a use does. -/
structure Reference.Eased (kind : MarkKind) (r r' : Reference) : Prop where
  same : r' = { r with exempt := r'.exempt }
  kept : r.exempt = true → r'.exempt = true
  declaration : kind = .declaration → r' = r

theorem Reference.Eased.refl (kind : MarkKind) (r : Reference) : r.Eased kind r :=
  ⟨rfl, id, fun _ => rfl⟩

theorem forall₂_eased_refl (kind : MarkKind) (rs : List Reference) :
    List.Forall₂ (Reference.Eased kind) rs rs := List.forall₂_same.2 fun r _ => .refl kind r

section References

variable {s : Site} {owner : String} {definition : Bool} {location : Option Location}
  {kind : MarkKind}

/-- The reference to the head of an expression. -/
def Site.headReferences (s : Site) (owner : String) (definition : Bool)
    (fallback location : Option Location) (exempt : Bool) : Head → List Reference
  | .var _ => []
  | .named first rest =>
    [{ path := first :: rest
       scope := s.path
       owner := owner
       context := s.context
       definition := definition
       exempt := exempt
       isModule := false
       location := location.or fallback }]

theorem exprReferences_eq_append (head : Head) (args : List TypeExpr) (attributes : List String)
    (l : Option Location) (exempt : Bool) :
    s.exprReferences owner definition location exempt ⟨head, args, attributes, l⟩
      = s.headReferences owner definition location l
          (exempt || attributes.contains unversionedAttribute) head
        ++ s.exprReferencesAll owner definition location
          (exempt || attributes.contains unversionedAttribute) args := by
  cases head <;> rw [Site.exprReferences] <;> rfl

theorem headReferences_exempt {exempt exempt' : Bool} (h : exempt = true → exempt' = true)
    (l : Option Location) (head : Head) :
    List.Forall₂ (Reference.Eased .use) (s.headReferences owner definition location l exempt head)
      (s.headReferences owner definition location l exempt' head) := by
  cases head with
  | var name => exact .nil
  | named first rest => exact .cons ⟨rfl, h, nofun⟩ .nil

mutual

/-- An exemption from outside exempts what it covers, and changes nothing else. -/
theorem exprReferences_exempt {exempt exempt' : Bool} (h : exempt = true → exempt' = true) :
    ∀ e : TypeExpr, List.Forall₂ (Reference.Eased .use)
      (s.exprReferences owner definition location exempt e)
      (s.exprReferences owner definition location exempt' e)
  | ⟨head, args, attributes, l⟩ => by
    have hinside : (exempt || attributes.contains unversionedAttribute) = true →
        (exempt' || attributes.contains unversionedAttribute) = true := by
      simp only [Bool.or_eq_true]
      exact Or.imp_left h
    rw [exprReferences_eq_append, exprReferences_eq_append]
    exact List.rel_append (headReferences_exempt hinside l head)
      (exprReferencesAll_exempt hinside args)

theorem exprReferencesAll_exempt {exempt exempt' : Bool} (h : exempt = true → exempt' = true) :
    ∀ es : List TypeExpr, List.Forall₂ (Reference.Eased .use)
      (s.exprReferencesAll owner definition location exempt es)
      (s.exprReferencesAll owner definition location exempt' es)
  | [] => .nil
  | e :: rest => by
    rw [Site.exprReferencesAll, Site.exprReferencesAll]
    exact List.rel_append (exprReferences_exempt h e) (exprReferencesAll_exempt h rest)

end

theorem contains_of_addsMark {attributes marked : List String} (h : AddsMark attributes marked) :
    marked.contains unversionedAttribute = true := by
  obtain ⟨before, after, -, rfl⟩ := h
  simp

theorem exprReferencesAll_append (exempt : Bool) (es es' : List TypeExpr) :
    s.exprReferencesAll owner definition location exempt (es ++ es')
      = s.exprReferencesAll owner definition location exempt es
        ++ s.exprReferencesAll owner definition location exempt es' := by
  induction es with
  | nil => rfl
  | cons e es ih =>
    rw [List.cons_append, Site.exprReferencesAll, Site.exprReferencesAll, ih, List.append_assoc]

/-- A mark on an expression exempts references of it. -/
theorem exprReferences_marked {e e' : TypeExpr} (h : e.Marked e') (exempt : Bool) :
    List.Forall₂ (Reference.Eased .use) (s.exprReferences owner definition location exempt e)
      (s.exprReferences owner definition location exempt e') := by
  induction h generalizing exempt with
  | @here head args attributes marked l hmark =>
    have hinside : (exempt || attributes.contains unversionedAttribute) = true →
        (exempt || marked.contains unversionedAttribute) = true := by
      rw [contains_of_addsMark hmark, Bool.or_true]
      exact fun _ => rfl
    rw [exprReferences_eq_append, exprReferences_eq_append]
    exact List.rel_append (headReferences_exempt hinside l head)
      (exprReferencesAll_exempt hinside args)
  | @argument head before after e e' attributes l _ ih =>
    rw [exprReferences_eq_append, exprReferences_eq_append, exprReferencesAll_append,
      exprReferencesAll_append, Site.exprReferencesAll, Site.exprReferencesAll]
    exact List.rel_append (forall₂_eased_refl .use _) (List.rel_append (forall₂_eased_refl .use _)
      (List.rel_append (ih _) (forall₂_eased_refl .use _)))

theorem exprReferencesAll_marked {es es' : List TypeExpr}
    (h : List.Forall₂ (SameOr TypeExpr.Marked) es es') (exempt : Bool) :
    List.Forall₂ (Reference.Eased .use) (s.exprReferencesAll owner definition location exempt es)
      (s.exprReferencesAll owner definition location exempt es') := by
  induction h with
  | nil => exact .nil
  | cons hmarked _ ih =>
    rw [Site.exprReferencesAll, Site.exprReferencesAll]
    refine List.rel_append ?_ ih
    rcases hmarked with rfl | hmarked
    · exact forall₂_eased_refl .use _
    · exact exprReferences_marked hmarked exempt

end References

/-! ## Members of a module -/

section Members

variable {kind : MarkKind} {s : Site} {owner : String}

theorem forall₂_typeExprs {t t' : TypeDecl} (h : t.Marked .use t') :
    List.Forall₂ (SameOr TypeExpr.Marked) t.typeExprs t'.typeExprs := by
  have hrefl := forall₂_sameOr_refl TypeExpr.Marked
  cases h with
  | @target _ e e' shape h =>
    have halias : List.Forall₂ (SameOr TypeExpr.Marked) t.alias?.toList [e'] := by
      rw [TypeDecl.alias?, shape]
      exact .cons (Or.inr h) .nil
    exact List.rel_append (List.rel_append halias (hrefl _)) (hrefl _)
  | @field _ fields h =>
    have hfields : List.Forall₂ (SameOr TypeExpr.Marked) (t.fields.map (·.type))
        (fields.map (·.type)) := by
      rw [List.forall₂_map_left_iff, List.forall₂_map_right_iff]
      refine h.forall₂.imp fun f f' hf => ?_
      rcases hf with rfl | ⟨type, htype, rfl⟩
      · exact Or.inl rfl
      · exact Or.inr htype
    exact List.rel_append (List.rel_append (hrefl _) hfields) (hrefl _)
  | @argument _ constructors h =>
    have harguments : List.Forall₂ (SameOr TypeExpr.Marked) (t.constructors.flatMap (·.args))
        (constructors.flatMap (·.args)) := by
      refine List.rel_flatMap h.forall₂ fun k k' hk => ?_
      rcases hk with rfl | ⟨args, hargs, rfl⟩
      · exact hrefl _
      · exact hargs.forall₂
    exact List.rel_append (List.rel_append (hrefl _) (hrefl _)) harguments

theorem typeReferences_marked {t t' : TypeDecl} (h : SameOr (TypeDecl.Marked kind) t t') :
    List.Forall₂ (Reference.Eased kind) (s.typeReferences owner t) (s.typeReferences owner t') := by
  rcases h with rfl | h
  · exact forall₂_eased_refl kind _
  · cases kind with
    | declaration =>
      cases h with
      | self h => exact forall₂_eased_refl .declaration _
    | use =>
      have hname : t'.name = t.name ∧ t'.location = t.location := by
        cases h <;> exact ⟨rfl, rfl⟩
      rw [Site.typeReferences, Site.typeReferences, hname.1, hname.2]
      exact exprReferencesAll_marked (forall₂_typeExprs h) false

theorem valueReferences_marked {v v' : ValueDecl} (h : v.Marked v') :
    List.Forall₂ (Reference.Eased .use) (s.valueReferences owner v)
      (s.valueReferences owner v') := by
  cases h with
  | param h =>
    exact exprReferencesAll_marked
      (List.rel_append h.forall₂ (forall₂_sameOr_refl TypeExpr.Marked _)) false
  | returns h =>
    exact exprReferencesAll_marked
      (List.rel_append (forall₂_sameOr_refl TypeExpr.Marked _) (.cons (Or.inr h) .nil)) false

theorem typesReferences_marked {ts ts' : List TypeDecl}
    (h : List.Forall₂ (SameOr (TypeDecl.Marked kind)) ts ts') :
    List.Forall₂ (Reference.Eased kind) (ts.flatMap (s.typeReferences owner))
      (ts'.flatMap (s.typeReferences owner)) :=
  List.rel_flatMap h fun _ _ => typeReferences_marked

theorem valuesReferences_marked {vs vs' : List ValueDecl}
    (h : List.Forall₂ (SameOr fun v v' => kind = .use ∧ v.Marked v') vs vs') :
    List.Forall₂ (Reference.Eased kind) (vs.flatMap (s.valueReferences owner))
      (vs'.flatMap (s.valueReferences owner)) := by
  refine List.rel_flatMap h fun v v' hv => ?_
  rcases hv with rfl | ⟨rfl, hv⟩
  · exact forall₂_eased_refl kind _
  · exact valueReferences_marked hv

theorem parameterReferences_marked {p p' : FunctorParameter}
    (h : SameOr (FunctorParameter.Marked kind) p p') :
    List.Forall₂ (Reference.Eased kind) (s.parameterReferences p) (s.parameterReferences p') := by
  rcases h with rfl | h
  · exact forall₂_eased_refl kind _
  · cases h with
    | type h => exact List.rel_append (typesReferences_marked h.forall₂) (forall₂_eased_refl _ _)
    | value h =>
      refine List.rel_append (forall₂_eased_refl _ _) (valuesReferences_marked ?_)
      exact h.forall₂.imp fun v v' hv => hv.imp_right fun hv => ⟨rfl, hv⟩

end Members

/-! ## Places -/

/-- Modules that are the same apart from their members and from marks. -/
structure ModuleDecl.Alike (kind : MarkKind) (m m' : ModuleDecl) : Prop where
  name : m'.name = m.name
  attributes : m'.attributes = m.attributes
  arity : m'.arity? = m.arity?
  aliasOf : m'.aliasOf = m.aliasOf
  functorArguments : m'.functorArguments = m.functorArguments
  location : m'.location = m.location
  types : List.Forall₂ (SameOr (TypeDecl.Marked kind)) m.types m'.types
  values : List.Forall₂ (SameOr fun v v' => kind = .use ∧ v.Marked v') m.values m'.values
  parameters : List.Forall₂ (SameOr (FunctorParameter.Marked kind)) m.functorParameters
    m'.functorParameters

/-- Places at which alike modules lie inside alike modules. -/
structure Place.Alike (kind : MarkKind) (p p' : Place) : Prop where
  ancestors : List.Forall₂ (ModuleDecl.Alike kind) p.ancestors p'.ancestors
  module : p.module.Alike kind p'.module

section Places

variable {kind : MarkKind} {m m' : ModuleDecl} {a a' : List ModuleDecl}

theorem ModuleDecl.Alike.refl (kind : MarkKind) (m : ModuleDecl) : m.Alike kind m where
  name := rfl
  attributes := rfl
  arity := rfl
  aliasOf := rfl
  functorArguments := rfl
  location := rfl
  types := forall₂_sameOr_refl _ _
  values := forall₂_sameOr_refl _ _
  parameters := forall₂_sameOr_refl _ _

theorem ModuleDecl.Marked.alike (h : m.Marked kind m') : m.Alike kind m' := by
  have hsame := ModuleDecl.Alike.refl kind m
  cases h with
  | type h => exact { hsame with types := h.forall₂ }
  | value use h =>
    exact { hsame with values := h.forall₂.imp fun _ _ hv => hv.imp_right fun hv => ⟨use, hv⟩ }
  | codec => exact { hsame with }
  | @parameter _ f f' declared arity h =>
    refine { hsame with arity := ?_, parameters := ?_ }
    · simp [ModuleDecl.arity?, declared, arity]
    · simpa [ModuleDecl.functorParameters, declared] using h.forall₂
  | member => exact { hsame with }

mutual

theorem forall₂_ofModule_of_ancestors : ∀ {a a' : List ModuleDecl} (m : ModuleDecl),
    List.Forall₂ (ModuleDecl.Alike kind) a a' →
      List.Forall₂ (Place.Alike kind) (Place.ofModule a m) (Place.ofModule a' m)
  | a, a', ⟨name, types, values, modules, attributes, codec, aliasOf, functor, args, loc⟩, h => by
    rw [Place.ofModule, Place.ofModule]
    exact .cons ⟨h, .refl kind _⟩
      (forall₂_ofModules_of_ancestors modules (List.rel_append h (.cons (.refl kind _) .nil)))

/-- The places of modules inside alike modules are alike. -/
theorem forall₂_ofModules_of_ancestors : ∀ {a a' : List ModuleDecl} (ms : List ModuleDecl),
    List.Forall₂ (ModuleDecl.Alike kind) a a' →
      List.Forall₂ (Place.Alike kind) (Place.ofModules a ms) (Place.ofModules a' ms)
  | a, a', [], _ => .nil
  | a, a', m :: rest, h => by
    rw [Place.ofModules, Place.ofModules]
    exact List.rel_append (forall₂_ofModule_of_ancestors m h)
      (forall₂_ofModules_of_ancestors rest h)

end

/-- The places of modules of which one is replaced are alike if those of this one are. -/
theorem forall₂_ofModules_of_replaced {before after : List ModuleDecl}
    (h : List.Forall₂ (ModuleDecl.Alike kind) a a')
    (hm : List.Forall₂ (Place.Alike kind) (Place.ofModule a m) (Place.ofModule a' m')) :
    List.Forall₂ (Place.Alike kind) (Place.ofModules a (before ++ m :: after))
      (Place.ofModules a' (before ++ m' :: after)) := by
  have hsame := fun ms => forall₂_ofModules_of_ancestors ms h
  simp only [Place.ofModules_eq_flatMap, List.flatMap_append, List.flatMap_cons] at hsame ⊢
  exact List.rel_append (hsame before) (List.rel_append hm (hsame after))

/-- The places of alike modules with the same members are alike. -/
theorem forall₂_ofModule_of_alike (halike : m.Alike kind m') (hmodules : m'.modules = m.modules)
    (hancestors : List.Forall₂ (ModuleDecl.Alike kind) a a') :
    List.Forall₂ (Place.Alike kind) (Place.ofModule a m) (Place.ofModule a' m') := by
  rw [Place.ofModule_eq_cons, Place.ofModule_eq_cons, hmodules]
  exact .cons ⟨hancestors, halike⟩
    (forall₂_ofModules_of_ancestors _ (List.rel_append hancestors (.cons halike .nil)))

theorem forall₂_ofModule_of_marked (h : m.Marked kind m')
    (hancestors : List.Forall₂ (ModuleDecl.Alike kind) a a') :
    List.Forall₂ (Place.Alike kind) (Place.ofModule a m) (Place.ofModule a' m') := by
  have halike := h.alike
  induction h generalizing a a' with
  | @member m n n' before after declared hn ih =>
    have hinside := List.rel_append hancestors (.cons halike .nil)
    rw [Place.ofModule_eq_cons, Place.ofModule_eq_cons, declared]
    exact .cons ⟨hancestors, halike⟩ (forall₂_ofModules_of_replaced hinside (ih hinside hn.alike))
  | _ => exact forall₂_ofModule_of_alike halike rfl hancestors

/-- Marking a unit leaves each place where it is. -/
theorem forall₂_places_of_marked {u v : CompilationUnit} (h : u.Marked kind v) :
    List.Forall₂ (Place.Alike kind) u.places v.places := by
  obtain ⟨-, ⟨before, m, m', after, hu, rfl, hm⟩, rfl⟩ := h
  rw [CompilationUnit.places, CompilationUnit.places, hu]
  exact forall₂_ofModules_of_replaced .nil (forall₂_ofModule_of_marked hm .nil)

end Places

/-! ## Contexts -/

section Contexts

variable {kind : MarkKind} {p p' : Place} {a a' : List ModuleDecl} {c : Config}

theorem ofLine_eq_of_alike (h : List.Forall₂ (ModuleDecl.Alike kind) a a') :
    Path.ofLine a' = Path.ofLine a := map_eq_of_forall₂ h fun _ _ hm => hm.name

theorem ModuleDecl.Alike.isTest {m m' : ModuleDecl} (h : m.Alike kind m') :
    c.isTest m' = c.isTest m := by
  rw [Config.isTest, Config.isTest, ModuleDecl.hasAttribute, ModuleDecl.hasAttribute, h.name,
    h.attributes]

theorem Place.Alike.line (h : p.Alike kind p') :
    List.Forall₂ (ModuleDecl.Alike kind) p.line p'.line :=
  List.rel_append h.ancestors (.cons h.module .nil)

/-- What is declared at alike places is judged alike. -/
structure FamilyDeclaration.Alike (d d' : FamilyDeclaration) : Prop where
  entry : d'.entry = d.entry
  kind : d'.kind = d.kind

theorem FamilyDeclaration.Alike.containerPath {d d' : FamilyDeclaration} (h : d.Alike d') :
    d'.containerPath = d.containerPath := congrArg FunctorEntry.path h.entry

theorem FamilyDeclaration.Alike.name {d d' : FamilyDeclaration} (h : d.Alike d') :
    d'.name = d.name := congrArg FunctorEntry.name h.entry

theorem Place.Alike.declaration? (h : p.Alike kind p') :
    Option.Rel FamilyDeclaration.Alike (p.declaration? c) (p'.declaration? c) := by
  have hattribute : p'.module.familyAttribute? = p.module.familyAttribute? := by
    rw [ModuleDecl.familyAttribute?, ModuleDecl.familyAttribute?, h.module.attributes]
  have hpath : (Enclosure.within c p'.ancestors).path = (Enclosure.within c p.ancestors).path := by
    rw [Enclosure.path_within, Enclosure.path_within, ofLine_eq_of_alike h.ancestors]
  have harities : (Enclosure.within c p'.line).arities = (Enclosure.within c p.line).arities := by
    rw [Enclosure.arities_within, Enclosure.arities_within,
      filterMap_eq_of_forall₂ h.line fun _ _ hm => hm.arity]
  have htest : (Enclosure.within c p'.line).inTest = (Enclosure.within c p.line).inTest := by
    have hany := congrArg (List.any · id)
      (map_eq_of_forall₂ h.line fun _ _ hm => @ModuleDecl.Alike.isTest _ c _ _ hm)
    simp only [List.any_map, Function.id_comp] at hany
    rw [Enclosure.inTest_within, Enclosure.inTest_within, hany]
  rw [Place.line, Place.line, Enclosure.within_concat, Enclosure.within_concat] at harities htest
  rw [Place.declaration?, Place.declaration?, Enclosure.declaration?, Enclosure.declaration?,
    hattribute]
  cases p.module.familyAttribute? with
  | none => exact .none
  | some found =>
    refine .some ⟨?_, rfl⟩
    simp only [FamilyDeclaration.entry, FamilyDeclaration.containerPath, FamilyDeclaration.name,
      hpath, harities, htest, h.module.name, h.module.location]

/-- Marking a unit leaves its families where they are. -/
theorem forall₂_familyDeclarations {u v : CompilationUnit} (h : u.Marked kind v) :
    List.Forall₂ FamilyDeclaration.Alike (u.familyDeclarations c) (v.familyDeclarations c) := by
  rw [familyDeclarations_eq, familyDeclarations_eq]
  exact List.rel_filterMap (fun _ _ hp => hp.declaration?) (forall₂_places_of_marked h)

/-- A container is told by its path and its name. -/
theorem containerAt?_map_entry (ds : List FamilyDeclaration) (q : Path) :
    (containerAt? ds q).map (·.entry) = ((ds.map (·.entry)).filter (·.path = q)).getLast? := by
  rw [containerAt?, List.filter_map, List.getLast?_map]
  rfl

variable {ds ds' : List FamilyDeclaration}

theorem entry_containerAt? (h : List.Forall₂ FamilyDeclaration.Alike ds ds') (q : Path) :
    (containerAt? ds' q).map (·.entry) = (containerAt? ds q).map (·.entry) := by
  rw [containerAt?_map_entry, containerAt?_map_entry,
    map_eq_of_forall₂ h fun _ _ hd => hd.entry]

theorem name_containerAt? (h : List.Forall₂ FamilyDeclaration.Alike ds ds') (q : Path) :
    (containerAt? ds' q).map (·.name) = (containerAt? ds q).map (·.name) := by
  have hname := congrArg (Option.map FunctorEntry.name) (entry_containerAt? h q)
  rwa [Option.map_map, Option.map_map] at hname

theorem enter_of_alike {m m' : ModuleDecl} (h : m.Alike kind m') (outer : Context) (parent : Path) :
    outer.enter c ds parent m' = outer.enter c ds parent m := by
  simp only [Context.enter, Context.enterMember, Context.inherit, h.isTest, h.name, h.arity]

theorem within_of_alike (hds : List.Forall₂ FamilyDeclaration.Alike ds ds')
    (h : List.Forall₂ (ModuleDecl.Alike kind) a a') :
    Context.within c ds' a' = Context.within c ds a := by
  have hline : Context.within c ds' a' = Context.within c ds' a := by
    refine congrArg Prod.snd (foldl_eq_of_forall₂ h (fun s m m' hm => ?_) _)
    rw [enter_of_alike hm, hm.name]
  rw [hline]
  exact within_congr fun q _ => name_containerAt? hds (Path.ofLine q)

end Contexts

/-! ## Sites -/

/-- Sites of alike modules in the same surroundings. -/
structure Site.Alike (kind : MarkKind) (s s' : Site) : Prop where
  parent : s'.parent = s.parent
  outer : s'.outer = s.outer
  context : s'.context = s.context
  module : s.module.Alike kind s'.module

/-- A declared type after a mark: only a mark on a definition frees it. -/
def Declared.MarkedBy (kind : MarkKind) (d d' : Declared) : Prop :=
  d.MarkedAs d' ∧ (kind = .use → d'.standing = d.standing)

section Sites

variable {kind : MarkKind} {c : Config} {ds ds' : List FamilyDeclaration} {s s' : Site}

theorem site_alike (hds : List.Forall₂ FamilyDeclaration.Alike ds ds') {p p' : Place}
    (h : p.Alike kind p') : (p.site c ds).Alike kind (p'.site c ds') where
  parent := ofLine_eq_of_alike h.ancestors
  outer := within_of_alike hds h.ancestors
  context := within_of_alike hds h.line
  module := h.module

namespace Site.Alike

theorem path (h : s.Alike kind s') : s'.path = s.path := by
  rw [Site.path, Site.path, h.parent, h.module.name]

theorem references (h : s.Alike kind s') :
    List.Forall₂ (Reference.Eased kind) s.references s'.references := by
  have hmodule : s'.moduleReference = s.moduleReference := by
    funext context target
    simp only [Site.moduleReference, h.parent, h.path, h.module.location]
  have harguments : s'.argumentReferences = s.argumentReferences := by
    simp only [Site.argumentReferences, h.context, h.outer, h.module.functorArguments, hmodule]
  have halias : s'.aliasReferences = s.aliasReferences := by
    simp only [Site.aliasReferences, h.context, h.outer, h.module.aliasOf, hmodule]
  have htypes : s'.typeReferences = s.typeReferences := by
    funext owner t
    exact exprReferencesAll_congr h.path h.context _ _ _ _ _
  have hvalues : s'.valueReferences = s.valueReferences := by
    funext owner v
    exact exprReferencesAll_congr h.path h.context _ _ _ _ _
  have hparameters : s'.parameterReferences = s.parameterReferences := by
    funext q
    rw [Site.parameterReferences, Site.parameterReferences, htypes, hvalues, h.path]
  rw [Site.references, Site.references, harguments, halias, htypes, hvalues, hparameters, h.path]
  exact List.rel_append (List.rel_append (List.rel_append (forall₂_eased_refl kind _)
    (List.rel_flatMap h.module.parameters fun _ _ => parameterReferences_marked))
    (typesReferences_marked h.module.types)) (valuesReferences_marked h.module.values)

theorem declaredVersion (h : s.Alike kind s') (hds : List.Forall₂ FamilyDeclaration.Alike ds ds') :
    s'.declaredVersion ds' = s.declaredVersion ds := by
  rw [declaredVersion_congr (name_containerAt? hds s'.parent)]
  simp only [Site.declaredVersion, h.context, h.parent, h.module.name, h.path]

theorem declaredAlias (h : s.Alike kind s') : s'.declaredAlias = s.declaredAlias := by
  simp only [Site.declaredAlias, h.parent, h.module.aliasOf, h.path]

end Site.Alike

theorem path_of_marked {e e' : TypeExpr} (h : e.Marked e') : e'.path = e.path := by
  cases h <;> rfl

theorem alias?_of_marked {t t' : TypeDecl} (h : t.Marked kind t') :
    t'.alias?.map (·.path) = t.alias?.map (·.path) := by
  cases h with
  | target shape h =>
    rw [TypeDecl.alias?, TypeDecl.alias?, shape]
    exact congrArg some (path_of_marked h)
  | _ => rfl

/-- A mark on a definition matters outside of versions, alias modules and tests. -/
theorem standingOf_of_marked {t t' : TypeDecl} (h : t.Marked kind t') (context : Context) :
    (Site.standingOf context t' = Site.standingOf context t ∨
      Site.standingOf context t = .plain ∧ Site.standingOf context t' = .unversioned) ∧
      (kind = .use → Site.standingOf context t' = Site.standingOf context t) := by
  cases h with
  | @self _ marked h =>
    refine ⟨?_, nofun⟩
    have hfree : TypeDecl.isUnversioned { t with attributes := marked } = true :=
      contains_of_addsMark h
    unfold Site.standingOf
    split
    · exact Or.inl rfl
    · exact Or.inl rfl
    · exact Or.inl rfl
    · rw [hfree]
      cases t.isUnversioned with
      | true => exact Or.inl rfl
      | false => exact Or.inr ⟨rfl, rfl⟩
  | _ => exact ⟨Or.inl rfl, fun _ => rfl⟩

theorem Site.Alike.declaredTypes (h : s.Alike kind s') :
    List.Forall₂ (Declared.MarkedBy kind) s.declaredTypes s'.declaredTypes := by
  rw [Site.declaredTypes, Site.declaredTypes, List.forall₂_map_left_iff, List.forall₂_map_right_iff,
    h.path, h.context]
  refine h.module.types.imp fun t t' ht => ?_
  rcases ht with rfl | ht
  · exact ⟨.refl _, fun _ => rfl⟩
  · have hname : t'.name = t.name := by cases ht <;> rfl
    obtain ⟨hstanding, huse⟩ := standingOf_of_marked ht s.context
    exact ⟨⟨by rw [hname], rfl, alias?_of_marked ht, hstanding⟩, huse⟩

end Sites

/-! ## Indexes -/

section Indexes

variable {kind : MarkKind} {u v : CompilationUnit} {c : Config}

/-- What is found at a path in lists that declare the same paths. -/
theorem find?_of_forall₂ {l l' : Table} (h : List.Forall₂ (Declared.MarkedBy kind) l l')
    (q : Path) :
    l.find? q = none ∧ l'.find? q = none ∨
      ∃ d d', l.find? q = some d ∧ l'.find? q = some d' ∧ d.MarkedBy kind d' := by
  induction h with
  | nil => exact Or.inl ⟨rfl, rfl⟩
  | @cons d d' l l' hd _ ih =>
    by_cases hpath : d.path = q
    · refine Or.inr ⟨d, d', List.find?_cons_of_pos (by simpa using hpath),
        List.find?_cons_of_pos ?_, hd⟩
      simpa [hd.1.path] using hpath
    · rw [Table.find?, Table.find?, List.find?_cons_of_neg (by simpa using hpath),
        List.find?_cons_of_neg (by simpa [hd.1.path] using hpath)]
      exact ih

theorem forall₂_sites (h : u.Marked kind v) :
    List.Forall₂ (Site.Alike kind) (u.sites c) (v.sites c) := by
  rw [sites_eq, sites_eq, List.forall₂_map_left_iff, List.forall₂_map_right_iff]
  exact (forall₂_places_of_marked h).imp fun _ _ => site_alike (forall₂_familyDeclarations h)

theorem FamilyDeclaration.Alike.declaredLatestTypes {d d' : FamilyDeclaration} (h : d.Alike d') :
    d'.declaredLatestTypes c = d.declaredLatestTypes c := by
  simp only [FamilyDeclaration.declaredLatestTypes, FamilyDeclaration.latestPath, h.kind,
    h.containerPath, h.name]

theorem FamilyDeclaration.Alike.declaredLatest {d d' : FamilyDeclaration} (h : d.Alike d') :
    d'.declaredLatest c = d.declaredLatest c := by
  simp only [FamilyDeclaration.declaredLatest, FamilyDeclaration.latestPath, h.containerPath,
    h.name]

theorem forall₂_types (h : u.Marked kind v) :
    List.Forall₂ (Declared.MarkedBy kind) (u.index c).types (v.index c).types := by
  have hlatest : (v.familyDeclarations c).flatMap (·.declaredLatestTypes c)
      = (u.familyDeclarations c).flatMap (·.declaredLatestTypes c) :=
    flatMap_eq_of_forall₂ (forall₂_familyDeclarations h) fun _ _ hd => hd.declaredLatestTypes
  have hsame : List.Forall₂ (Declared.MarkedBy kind)
      ((u.familyDeclarations c).flatMap (·.declaredLatestTypes c))
      ((v.familyDeclarations c).flatMap (·.declaredLatestTypes c)) := by
    rw [hlatest]
    exact List.forall₂_same.2 fun d _ => ⟨.refl d, fun _ => rfl⟩
  exact List.rel_reverse (List.rel_append hsame
    (List.rel_flatMap (forall₂_sites h) fun _ _ hs => hs.declaredTypes))

theorem index_modules_of_marked (h : u.Marked kind v) :
    (v.index c).modules = (u.index c).modules := by
  have hds := forall₂_familyDeclarations (c := c) h
  have hlatest : (v.familyDeclarations c).map (·.declaredLatest c)
      = (u.familyDeclarations c).map (·.declaredLatest c) :=
    map_eq_of_forall₂ hds fun _ _ hd => hd.declaredLatest
  have hversions : (v.sites c).flatMap (·.declaredVersion (v.familyDeclarations c))
      = (u.sites c).flatMap (·.declaredVersion (u.familyDeclarations c)) :=
    flatMap_eq_of_forall₂ (forall₂_sites h) fun _ _ hs => hs.declaredVersion hds
  exact congrArg List.reverse (congrArg₂ _ hlatest hversions)

theorem index_moduleAliases_of_marked (h : u.Marked kind v) :
    (v.index c).moduleAliases = (u.index c).moduleAliases :=
  congrArg List.reverse
    (flatMap_eq_of_forall₂ (forall₂_sites h) fun _ _ hs => hs.declaredAlias)

/-- The index of a marked unit declares the same, but for a plain type that may be freed. -/
theorem index_markedAs (h : u.Marked kind v) : (u.index c).MarkedAs (v.index c) where
  config := rfl
  modules := index_modules_of_marked h
  moduleAliases := index_moduleAliases_of_marked h
  undeclared := by
    intro q hnone
    rcases find?_of_forall₂ (forall₂_types h) q with ⟨-, hnone'⟩ | ⟨d, d', hd, -, -⟩
    · exact hnone'
    · cases hnone.symm.trans hd
  declared := by
    intro q e he
    rcases find?_of_forall₂ (forall₂_types h) q with ⟨hnone, -⟩ | ⟨d, d', hd, hd', hmarked⟩
    · cases hnone.symm.trans he
    · obtain rfl := Option.some.inj (hd.symm.trans he)
      exact ⟨d', hd', hmarked.1⟩

/-- A mark on a use frees no type. -/
theorem not_frees_of_use (h : u.Marked .use v) (e : Declared) :
    ¬ (u.index c).Frees (v.index c) e := by
  rintro ⟨he, hplain, e', he', hfreed⟩
  rcases find?_of_forall₂ (forall₂_types (c := c) h) e.path with
    ⟨hnone, -⟩ | ⟨d, d', hd, hd', -, huse⟩
  · cases hnone.symm.trans he
  · obtain rfl := Option.some.inj (hd.symm.trans he)
    obtain rfl := Option.some.inj (hd'.symm.trans he')
    cases hfreed.symm.trans ((huse rfl).trans hplain)

/-- The references of a unit are eased by a mark. -/
theorem forall₂_references (h : u.Marked kind v) :
    List.Forall₂ (Reference.Eased kind) (u.index c).references (v.index c).references :=
  List.rel_flatMap (forall₂_sites h) fun _ _ hs => hs.references

theorem functorFamilies_of_marked (h : u.Marked kind v) (fs : List Family) :
    functorFamilies (v.familyDeclarations c) fs = functorFamilies (u.familyDeclarations c) fs := by
  have hds := forall₂_familyDeclarations (c := c) h
  rw [functorFamilies_eq, functorFamilies_eq, map_eq_of_forall₂ hds fun _ _ hd => hd.entry,
    map_eq_of_forall₂ hds fun _ _ hd => hd.containerPath]

theorem interruption?_of_alike {ds ds' : List FamilyDeclaration}
    (hds : List.Forall₂ FamilyDeclaration.Alike ds ds') {s s' : Site} (h : s.Alike kind s') :
    s'.interruption? ds' = s.interruption? ds := by
  have hcontainer := congrArg Option.isNone (name_containerAt? hds s'.parent)
  rw [Option.isNone_map, Option.isNone_map] at hcontainer
  rw [Site.interruption?, Site.interruption?, hcontainer, h.context, h.parent, h.module.name]

/-- The version names that collecting reads stay. -/
theorem indexInterruption?_of_marked (h : u.Marked kind v) :
    v.indexInterruption? c = u.indexInterruption? c := by
  have hinterruptions := congrArg (List.findSome? id) (map_eq_of_forall₂ (forall₂_sites (c := c) h)
    fun _ _ hs => interruption?_of_alike (forall₂_familyDeclarations (c := c) h) hs)
  rwa [List.findSome?_map, List.findSome?_map] at hinterruptions

end Indexes

end SchemaVersioning
