import Mathlib.Data.List.Induction
import SchemaVersioning.Proofs.Places
import SchemaVersioning.Reference.Index

/-!
# Walks

The search for containers and the walk of the index, read off the places of a unit: a family is
declared at a place (`familyDeclarations_eq`), and a site is a place with the contexts around it and
inside it (`sites_eq`).
-/

namespace SchemaVersioning

/-! ## Enclosures -/

/-- What encloses the members of the last module of a line. -/
def Enclosure.within (c : Config) (line : List ModuleDecl) : Enclosure :=
  line.foldl (Enclosure.enter c) Enclosure.top

namespace Enclosure

variable (c : Config)

@[simp] theorem within_nil : within c [] = top := rfl

theorem within_concat (line : List ModuleDecl) (m : ModuleDecl) :
    within c (line ++ [m]) = (within c line).enter c m := by
  simp [within]

theorem path_within (line : List ModuleDecl) : (within c line).path = Path.ofLine line := by
  induction line using List.reverseRecOn with
  | nil => rfl
  | append_singleton line m ih => simp [within_concat, enter, ih]

theorem inTest_within (line : List ModuleDecl) : (within c line).inTest = line.any c.isTest := by
  induction line using List.reverseRecOn with
  | nil => rfl
  | append_singleton line m ih => simp [within_concat, enter, ih]

end Enclosure

/-! ## Families -/

/-- The family declared at a place. -/
def Place.declaration? (c : Config) (p : Place) : Option FamilyDeclaration :=
  (Enclosure.within c p.ancestors).declaration? c p.module

mutual

theorem declarations_within (c : Config) : ∀ (line : List ModuleDecl) (m : ModuleDecl),
    (Enclosure.within c line).declarations c m
      = (Place.ofModule line m).filterMap (Place.declaration? c)
  | line, ⟨name, types, values, modules, attributes, codec, aliasOf, functor, args, loc⟩ => by
    rw [Enclosure.declarations, Place.ofModule, List.filterMap_cons, ← Enclosure.within_concat,
      declarationsAll_within c _ modules]
    rw [Place.declaration?]
    cases (Enclosure.within c line).declaration? c
      ⟨name, types, values, modules, attributes, codec, aliasOf, functor, args, loc⟩ <;> rfl

theorem declarationsAll_within (c : Config) : ∀ line ms : List ModuleDecl,
    (Enclosure.within c line).declarationsAll c ms
      = (Place.ofModules line ms).filterMap (Place.declaration? c)
  | line, [] => rfl
  | line, m :: rest => by
    rw [Enclosure.declarationsAll, Place.ofModules, List.filterMap_append,
      declarations_within c line m, declarationsAll_within c line rest]

end

/-- The families of a unit are those declared at its places, in tree order. -/
theorem familyDeclarations_eq (u : CompilationUnit) (c : Config) :
    u.familyDeclarations c = u.places.filterMap (Place.declaration? c) :=
  declarationsAll_within c [] u.modules

theorem mem_familyDeclarations {u : CompilationUnit} {c : Config} {d : FamilyDeclaration} :
    d ∈ u.familyDeclarations c ↔ ∃ p ∈ u.places, p.declaration? c = some d := by
  rw [familyDeclarations_eq, List.mem_filterMap]

namespace Place

variable {c : Config} {p : Place} {d : FamilyDeclaration}

theorem container_of_declaration? (h : p.declaration? c = some d) : d.container = p.module := by
  obtain ⟨_, _, rfl⟩ := Option.map_eq_some_iff.1 h
  rfl

theorem parentPath_of_declaration? (h : p.declaration? c = some d) :
    d.parentPath = Path.ofLine p.ancestors := by
  obtain ⟨_, _, rfl⟩ := Option.map_eq_some_iff.1 h
  exact Enclosure.path_within c _

theorem containerPath_of_declaration? (h : p.declaration? c = some d) :
    d.containerPath = p.path := by
  rw [FamilyDeclaration.containerPath, parentPath_of_declaration? h, container_of_declaration? h,
    path_eq]

theorem inTest_of_declaration? (h : p.declaration? c = some d) :
    d.inTest = p.line.any c.isTest := by
  obtain ⟨_, _, rfl⟩ := Option.map_eq_some_iff.1 h
  show ((Enclosure.within c p.ancestors).enter c p.module).inTest = _
  rw [← Enclosure.within_concat, Enclosure.inTest_within]
  rfl

end Place

/-- Where siblings have distinct names, one family at most is declared at a path. -/
theorem CompilationUnit.DistinctSiblings.eq_of_containerPath_eq {u : CompilationUnit} {c : Config}
    (hu : u.DistinctSiblings) {d e : FamilyDeclaration} (hd : d ∈ u.familyDeclarations c)
    (he : e ∈ u.familyDeclarations c) (h : d.containerPath = e.containerPath) : d = e := by
  obtain ⟨p, hp, hpd⟩ := mem_familyDeclarations.1 hd
  obtain ⟨q, hq, hqe⟩ := mem_familyDeclarations.1 he
  rw [Place.containerPath_of_declaration? hpd, Place.containerPath_of_declaration? hqe] at h
  obtain rfl := hu.eq_of_path_eq hp hq h
  exact Option.some.inj (hpd.symm.trans hqe)

/-! ## Contexts -/

/-- The context inside the last module of a line. -/
def Context.within (c : Config) (ds : List FamilyDeclaration) (line : List ModuleDecl) : Context :=
  (line.foldl (fun (s : Path × Context) m => (s.1 ++ [m.name], s.2.enter c ds s.1 m))
    ([], .ordinary)).2

namespace Context

variable (c : Config) (ds : List FamilyDeclaration)

@[simp] theorem within_nil : within c ds [] = .ordinary := rfl

theorem within_concat (line : List ModuleDecl) (m : ModuleDecl) :
    within c ds (line ++ [m]) = (within c ds line).enter c ds (Path.ofLine line) m := by
  have hpath : (line.foldl (fun (s : Path × Context) m => (s.1 ++ [m.name], s.2.enter c ds s.1 m))
      ([], .ordinary)).1 = Path.ofLine line := by
    induction line using List.reverseRecOn with
    | nil => rfl
    | append_singleton line m ih => simp [ih]
  simp [within, ← hpath]

end Context

/-! ## Sites -/

/-- The site of a place. -/
def Place.site (c : Config) (ds : List FamilyDeclaration) (p : Place) : Site where
  module := p.module
  parent := Path.ofLine p.ancestors
  outer := Context.within c ds p.ancestors
  context := Context.within c ds p.line

theorem Place.path_site (c : Config) (ds : List FamilyDeclaration) (p : Place) :
    (p.site c ds).path = p.path := p.path_eq.symm

mutual

theorem ofModule_within (c : Config) (ds : List FamilyDeclaration) :
    ∀ (line : List ModuleDecl) (m : ModuleDecl),
      Site.ofModule c ds (Path.ofLine line) (Context.within c ds line) m
        = (Place.ofModule line m).map (Place.site c ds)
  | line, ⟨name, types, values, modules, attributes, codec, aliasOf, functor, args, loc⟩ => by
    rw [Site.ofModule, Place.ofModule, List.map_cons, ← ofModules_within c ds _ modules,
      ofLine_append, Place.site, Place.line, Context.within_concat]
    rfl

theorem ofModules_within (c : Config) (ds : List FamilyDeclaration) :
    ∀ line ms : List ModuleDecl,
      Site.ofModules c ds (Path.ofLine line) (Context.within c ds line) ms
        = (Place.ofModules line ms).map (Place.site c ds)
  | line, [] => rfl
  | line, m :: rest => by
    rw [Site.ofModules, Place.ofModules, List.map_append, ofModule_within c ds line m,
      ofModules_within c ds line rest]

end

/-- The sites of a unit in tree order. -/
def CompilationUnit.sites (u : CompilationUnit) (c : Config) : List Site :=
  Site.ofModules c (u.familyDeclarations c) [] .ordinary u.modules

/-- The sites of a unit are those of its places. -/
theorem sites_eq (u : CompilationUnit) (c : Config) :
    u.sites c = u.places.map (Place.site c (u.familyDeclarations c)) :=
  ofModules_within c _ [] u.modules

theorem mem_sites {u : CompilationUnit} {c : Config} {s : Site} :
    s ∈ u.sites c ↔ ∃ p ∈ u.places, p.site c (u.familyDeclarations c) = s := by
  rw [sites_eq, List.mem_map]

/-! ## Members of the index -/

section Index

variable {u : CompilationUnit} {c : Config}

theorem mem_flatMap_sites {α : Type} {f : Site → List α} {a : α} :
    a ∈ (u.sites c).flatMap f ↔ ∃ p ∈ u.places, a ∈ f (p.site c (u.familyDeclarations c)) := by
  rw [sites_eq, List.mem_flatMap]
  simp

theorem mem_index_types {d : Declared} : d ∈ (u.index c).types ↔
    (∃ e ∈ u.familyDeclarations c, d ∈ e.declaredLatestTypes c) ∨
      ∃ p ∈ u.places, d ∈ (p.site c (u.familyDeclarations c)).declaredTypes := by
  rw [← mem_flatMap_sites, ← List.mem_flatMap, ← List.mem_append]
  exact List.mem_reverse

theorem mem_index_modules {d : Declared} : d ∈ (u.index c).modules ↔
    (∃ e ∈ u.familyDeclarations c, e.declaredLatest c = d) ∨
      ∃ p ∈ u.places, d ∈ (p.site c (u.familyDeclarations c)).declaredVersion
        (u.familyDeclarations c) := by
  rw [← mem_flatMap_sites (f := fun s => s.declaredVersion (u.familyDeclarations c)),
    ← List.mem_map, ← List.mem_append]
  exact List.mem_reverse

theorem mem_index_moduleAliases {d : Declared} : d ∈ (u.index c).moduleAliases ↔
    ∃ p ∈ u.places, d ∈ (p.site c (u.familyDeclarations c)).declaredAlias := by
  rw [← mem_flatMap_sites]
  exact List.mem_reverse

theorem mem_index_references {r : Reference} : r ∈ (u.index c).references ↔
    ∃ p ∈ u.places, r ∈ (p.site c (u.familyDeclarations c)).references :=
  mem_flatMap_sites

end Index

end SchemaVersioning
