import SchemaVersioning.Proofs.DottedNames
import SchemaVersioning.Proofs.Walks

/-!
# Legible units

A name that spells a version whose number has too many digits cannot be read.  A unit is legible if
neither its modules have such names nor the paths that it mentions such components.  The paths of
all references of a site are mentioned in its module (`path_mem_mentioned`).
-/

namespace SchemaVersioning

/-! ## Paths mentioned in a module -/

namespace ModuleDecl

/-- The outermost type expressions of the definitions, signatures and functor parameters. -/
def typeExprs (m : ModuleDecl) : List TypeExpr :=
  m.functorParameters.flatMap
      (fun p => p.types.flatMap (·.typeExprs) ++ p.values.flatMap (·.typeExprs))
    ++ m.types.flatMap (·.typeExprs) ++ m.values.flatMap (·.typeExprs)

/-- The paths of the modules and types that a module mentions outside its nested modules. -/
def mentioned (m : ModuleDecl) : List Path :=
  (m.functorArguments ++ m.aliasOf.toList).map Path.ofDotted
    ++ (TypeExpr.walkAll m.typeExprs).map (·.path)

end ModuleDecl

theorem walkAll_eq (es : List TypeExpr) : TypeExpr.walkAll es = es.flatMap TypeExpr.walk := by
  induction es with
  | nil => rfl
  | cons e es ih => rw [TypeExpr.walkAll, List.flatMap_cons, ih]

theorem self_mem_walk (e : TypeExpr) : e ∈ e.walk := by
  cases e
  exact List.mem_cons_self

/-- The path of an outermost expression is mentioned. -/
theorem path_mem_mentioned_of_typeExprs {m : ModuleDecl} {e : TypeExpr} (h : e ∈ m.typeExprs) :
    e.path ∈ m.mentioned := by
  refine List.mem_append_right _ (List.mem_map.2 ⟨e, ?_, rfl⟩)
  rw [walkAll_eq]
  exact List.mem_flatMap.2 ⟨e, h, self_mem_walk e⟩

theorem ofDotted_mem_mentioned_of_aliasOf {m : ModuleDecl} {target : String}
    (h : m.aliasOf = some target) : Path.ofDotted target ∈ m.mentioned :=
  List.mem_append_left _ (List.mem_map_of_mem (List.mem_append_right _ (by simp [h])))

theorem path_mem_mentioned_of_alias {m : ModuleDecl} {t : TypeDecl} {e : TypeExpr}
    (ht : t ∈ m.types) (he : t.alias? = some e) : e.path ∈ m.mentioned := by
  refine path_mem_mentioned_of_typeExprs ?_
  simp only [ModuleDecl.typeExprs, List.mem_append, List.mem_flatMap]
  exact Or.inl (Or.inr ⟨t, ht, by simp [TypeDecl.typeExprs, he]⟩)

theorem returns_mem_mentioned {m : ModuleDecl} {v : ValueDecl} (h : v ∈ m.values) :
    v.returns.path ∈ m.mentioned := by
  refine path_mem_mentioned_of_typeExprs ?_
  simp only [ModuleDecl.typeExprs, List.mem_append, List.mem_flatMap]
  exact Or.inr ⟨v, h, by simp [ValueDecl.typeExprs]⟩

/-! ## References of a site -/

section References

variable {s : Site} {r : Reference}

mutual

theorem exists_walk_of_mem_exprReferences {owner : String} {definition : Bool}
    {fallback : Option Location} : ∀ {exempt : Bool} (e : TypeExpr),
    r ∈ s.exprReferences owner definition fallback exempt e → ∃ f ∈ e.walk, f.path = r.path
  | exempt, ⟨.var name, args, attributes, location⟩, h => by
    rw [Site.exprReferences, List.nil_append] at h
    obtain ⟨f, hf, hp⟩ := exists_walkAll_of_mem_exprReferencesAll args h
    exact ⟨f, List.mem_cons_of_mem _ hf, hp⟩
  | exempt, ⟨.named first rest, args, attributes, location⟩, h => by
    rw [Site.exprReferences] at h
    rcases List.mem_append.1 h with hown | hargs
    · rw [List.mem_singleton.1 hown]
      exact ⟨_, self_mem_walk _, rfl⟩
    · obtain ⟨f, hf, hp⟩ := exists_walkAll_of_mem_exprReferencesAll args hargs
      exact ⟨f, List.mem_cons_of_mem _ hf, hp⟩

theorem exists_walkAll_of_mem_exprReferencesAll {owner : String} {definition : Bool}
    {fallback : Option Location} : ∀ {exempt : Bool} (es : List TypeExpr),
    r ∈ s.exprReferencesAll owner definition fallback exempt es →
      ∃ f ∈ TypeExpr.walkAll es, f.path = r.path
  | exempt, [], h => by simp [Site.exprReferencesAll] at h
  | exempt, e :: rest, h => by
    rw [Site.exprReferencesAll] at h
    rw [TypeExpr.walkAll]
    rcases List.mem_append.1 h with he | hrest
    · obtain ⟨f, hf, hp⟩ := exists_walk_of_mem_exprReferences e he
      exact ⟨f, List.mem_append_left _ hf, hp⟩
    · obtain ⟨f, hf, hp⟩ := exists_walkAll_of_mem_exprReferencesAll rest hrest
      exact ⟨f, List.mem_append_right _ hf, hp⟩

end

/-- Every reference of a site is to a path that its module mentions. -/
theorem path_mem_mentioned (h : r ∈ s.references) : r.path ∈ s.module.mentioned := by
  -- Type references come from expressions of the module, module references from its two lists.
  have hexprs : ∀ {owner definition fallback} {es : List TypeExpr}, es ⊆ s.module.typeExprs →
      r ∈ s.exprReferencesAll owner definition fallback false es → r.path ∈ s.module.mentioned := by
    intro owner definition fallback es hes hr
    obtain ⟨f, hf, hp⟩ := exists_walkAll_of_mem_exprReferencesAll es hr
    refine List.mem_append_right _ (List.mem_map.2 ⟨f, ?_, hp⟩)
    rw [walkAll_eq] at hf ⊢
    obtain ⟨e, he, hfe⟩ := List.mem_flatMap.1 hf
    exact List.mem_flatMap.2 ⟨e, hes he, hfe⟩
  simp only [Site.references, List.mem_append] at h
  rcases h with (((hargument | halias) | hparameter) | htype) | hvalue
  · obtain ⟨a, ha, rfl⟩ := List.mem_map.1 hargument
    exact List.mem_append_left _ (List.mem_map_of_mem (List.mem_append_left _ ha))
  · obtain ⟨a, ha, rfl⟩ := Option.map_eq_some_iff.1 (Option.mem_toList.1 halias)
    exact ofDotted_mem_mentioned_of_aliasOf ha
  · obtain ⟨p, hp, hr⟩ := List.mem_flatMap.1 hparameter
    have hincluded : ∀ {e : TypeExpr}, e ∈ p.types.flatMap (·.typeExprs)
        ++ p.values.flatMap (·.typeExprs) → e ∈ s.module.typeExprs := fun he =>
      List.mem_append_left _ (List.mem_append_left _ (List.mem_flatMap.2 ⟨p, hp, he⟩))
    rcases List.mem_append.1 hr with ht | hv
    · obtain ⟨t, ht, hr⟩ := List.mem_flatMap.1 ht
      exact hexprs (fun e he => hincluded
        (List.mem_append_left _ (List.mem_flatMap.2 ⟨t, ht, he⟩))) hr
    · obtain ⟨v, hv, hr⟩ := List.mem_flatMap.1 hv
      exact hexprs (fun e he => hincluded
        (List.mem_append_right _ (List.mem_flatMap.2 ⟨v, hv, he⟩))) hr
  · obtain ⟨t, ht, hr⟩ := List.mem_flatMap.1 htype
    exact hexprs (fun e he => List.mem_append_left _
      (List.mem_append_right _ (List.mem_flatMap.2 ⟨t, ht, he⟩))) hr
  · obtain ⟨v, hv, hr⟩ := List.mem_flatMap.1 hvalue
    exact hexprs (fun e he => List.mem_append_right _ (List.mem_flatMap.2 ⟨v, hv, he⟩)) hr

end References

/-! ## Well-named and legible units -/

namespace CompilationUnit

/-- Every module has a name. -/
def WellNamed (u : CompilationUnit) : Prop := ∀ p ∈ u.places, p.module.name ≠ ""

/-- No module name and no component of a mentioned path is a version name with too many digits. -/
def Legible (u : CompilationUnit) : Prop :=
  ∀ p ∈ u.places, overlongVersion? p.module.name = none ∧
    ∀ q ∈ p.module.mentioned, ∀ a ∈ q, overlongVersion? a = none

instance (u : CompilationUnit) : Decidable u.WellNamed :=
  inferInstanceAs (Decidable (∀ p ∈ u.places, p.module.name ≠ ""))

instance (u : CompilationUnit) : Decidable u.Legible :=
  inferInstanceAs (Decidable (∀ p ∈ u.places, _ ∧ _))

end CompilationUnit

/-- A path with dots is empty only if it has one component or none. -/
theorem dotted_ne_empty {p : Path} (hne : p ≠ []) (h : ∀ a ∈ p, a ≠ "") : p.dotted ≠ "" := by
  match p with
  | [] => exact absurd rfl hne
  | [a] =>
    rw [Path.dotted, String.intercalate_singleton]
    exact h a (List.mem_singleton_self a)
  | a :: b :: rest =>
    rw [Path.dotted, String.intercalate_cons_cons]
    intro hempty
    have hlist := congrArg String.toList hempty
    simp at hlist

section Places

variable {u : CompilationUnit} {c : Config} {p : Place}

theorem mem_places_of_mem_line (hp : p ∈ u.places) {m : ModuleDecl} (hm : m ∈ p.line) :
    ∃ q ∈ u.places, q.module = m := by
  obtain ⟨a, b, hab⟩ := List.append_of_mem hm
  refine ⟨⟨a, m⟩, mem_places.2 ?_, rfl⟩
  have hl : Lineage u.modules ((a ++ [m]) ++ b) := by simpa [hab] using mem_places.1 hp
  exact (lineage_append.1 hl).1

theorem mem_path_of_mem_places (hp : p ∈ u.places) {a : String} (ha : a ∈ p.path) :
    ∃ q ∈ u.places, q.module.name = a := by
  obtain ⟨m, hm, rfl⟩ := List.mem_map.1 ha
  obtain ⟨q, hq, rfl⟩ := mem_places_of_mem_line hp hm
  exact ⟨q, hq, rfl⟩

/-- Every family of a unit with named modules has a name. -/
theorem FamilyDeclaration.name_ne_empty (hu : u.WellNamed) {d : FamilyDeclaration}
    (hd : d ∈ u.familyDeclarations c) : d.name ≠ "" := by
  obtain ⟨p, hp, hpd⟩ := mem_familyDeclarations.1 hd
  rw [FamilyDeclaration.name, Place.container_of_declaration? hpd,
    Place.parentPath_of_declaration? hpd]
  split
  · exact hu p hp
  · next hne =>
    refine dotted_ne_empty (by simpa using hne) fun a ha => ?_
    obtain ⟨q, hq, rfl⟩ := mem_path_of_mem_places hp
      (a := a) (by rw [Place.path_eq]; exact List.mem_append_left _ ha)
    exact hu q hq

theorem CompilationUnit.Legible.of_mem_path (hu : u.Legible) (hp : p ∈ u.places) {a : String}
    (ha : a ∈ p.path) : overlongVersion? a = none := by
  obtain ⟨q, hq, rfl⟩ := mem_path_of_mem_places hp ha
  exact (hu q hq).1

end Places

end SchemaVersioning
