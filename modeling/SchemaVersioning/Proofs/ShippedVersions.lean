import SchemaVersioning.Proofs.StableUses
import SchemaVersioning.Proofs.Upgrades
import SchemaVersioning.Rule.VersionLeaks

/-!
# Versions that ship

The build of a container and the walk of the index tell versions apart each in their own way.  The
build goes by the names of the members; the walk looks for tests first.  They agree on a version
exactly if its module is not marked as a test.  A version that is marked as a test ships all the
same, but no rule looks into it (`shipped_versions_exactly`).
-/

namespace SchemaVersioning

/-! ## What the index takes a module for -/

/-- The index takes a module for a version of a family: in the table of modules, for each type that
is declared in the module, and for each reference in its type definitions. -/
structure Place.IsIndexedAs (M : Place) (u : CompilationUnit) (c : Config) (family : String)
    (k : Nat) : Prop where
  listed : (u.index c).modules.find? M.path = some ⟨M.path, .version family k, [], none⟩
  types : ∀ t ∈ M.module.types, ∃ e, (u.index c).types.find? (M.path ++ [t.name]) = some e ∧
    e.standing = .version family k
  definitions : ∀ r ∈ (M.site c (u.familyDeclarations c)).references, r.definition = true →
    r.context = .version family k

/-- The index takes a module for a test: the module is listed as no version, each type that is
declared in it is that of a test, and no rule reports a reference in it. -/
structure Place.IsPassedOver (M : Place) (u : CompilationUnit) (c : Config) : Prop where
  unlisted : ∀ e, (u.index c).modules.find? M.path = some e → ∀ f k, e.standing ≠ .version f k
  types : ∀ t ∈ M.module.types, ∃ e, (u.index c).types.find? (M.path ++ [t.name]) = some e ∧
    e.standing = .test
  unreported : ∀ r ∈ (M.site c (u.familyDeclarations c)).references,
    (u.index c).unstableUse? r = none ∧ (u.index c).versionLeak? r = none

/-- All references of a module in a test are those of a test. -/
theorem context_of_test {s : Site} (hs : s.context = .test) {r : Reference} (h : r ∈ s.references) :
    r.context = .test := by
  have hexprs : ∀ {owner : String} {definition : Bool} {fallback : Option Location}
      {es : List TypeExpr}, r ∈ s.exprReferencesAll owner definition fallback false es →
      r.context = .test :=
    fun he => (of_mem_exprReferencesAll he).1.trans hs
  simp only [Site.references, List.mem_append, List.mem_flatMap, Site.parameterReferences] at h
  rcases h with (((hargument | halias) | ⟨p, -, ⟨t, -, ht⟩ | ⟨v, -, hv⟩⟩) | ⟨t, -, ht⟩) | ⟨v, -, hv⟩
  · obtain ⟨a, -, rfl⟩ := List.mem_map.1 hargument
    simp [hs, Site.moduleReference]
  · obtain ⟨a, -, rfl⟩ := Option.map_eq_some_iff.1 (Option.mem_toList.1 halias)
    simp [hs, Site.moduleReference]
  · exact hexprs ht
  · exact hexprs hv
  · exact hexprs ht
  · exact hexprs hv

theorem Index.unreported_of_test {index : Index} {r : Reference} (h : r.context = .test) :
    index.unstableUse? r = none ∧ index.versionLeak? r = none := by
  have hcounted : r.definedVersion? = none :=
    Option.eq_none_iff_forall_ne_some.2 fun v hv => by
      simp [definedVersion?_eq_some_iff, h] at hv
  refine ⟨by simp [unstableUse?, hcounted], ?_⟩
  rw [← Option.not_isSome_iff_eq_none, versionLeak?_isSome_iff]
  simp [h, Context.mayName]

section Modules

variable {u : CompilationUnit} {c : Config} {M : Place} {d : FamilyDeclaration} {k : Nat}

theorem isPassedOver_of_isTest (hu : u.DistinctSiblings) (hM : M ∈ u.places)
    (htest : c.isTest M.module = true) : M.IsPassedOver u c := by
  have hcontext : Context.within c (u.familyDeclarations c) M.line = .test :=
    (within_eq_test_iff M.line).2 (by simp [Place.line, htest])
  refine ⟨fun e hfind f k hversion => ?_, fun t ht => ?_, fun r hr => ?_⟩
  · rcases mem_index_modules.1 (List.mem_of_find?_eq_some hfind) with ⟨a, -, rfl⟩ | ⟨p, hp, he⟩
    · cases hversion
    · -- A version in the table would be that of the module itself.
      obtain rfl := hu.eq_of_path_eq hp hM
        ((path_of_mem_declaredVersion he).symm.trans (Table.path_of_find? hfind))
      have hnone : (p.site c (u.familyDeclarations c)).declaredVersion (u.familyDeclarations c)
          = [] := if_pos hcontext
      rw [hnone] at he
      cases he
  · obtain ⟨e, t', hfind, hstanding⟩ := find?_type (c := c) hu hM ht
    exact ⟨e, hfind, by rw [hstanding, hcontext, Site.standingOf]⟩
  · exact Index.unreported_of_test (context_of_test hcontext hr)

theorem isIndexedAs_of_not_isTest (hu : u.DistinctSiblings) (hM : M ∈ u.places)
    (hd : d ∈ u.familyDeclarations c) (hparent : d.containerPath = Path.ofLine M.ancestors)
    (hk : versionNumber? M.module.name = some k) (htest : M.line.any c.isTest = false) :
    M.IsIndexedAs u c d.name k := by
  have hcontainer := containerAt?_eq hu hd
  rw [hparent] at hcontainer
  have hcontext : Context.within c (u.familyDeclarations c) M.line = .version d.name k :=
    within_version htest hcontainer hk
  refine ⟨find?_version hu hM hd hparent hk htest, fun t ht => ?_, fun r hr hdefinition => ?_⟩
  · obtain ⟨e, t', hfind, hstanding⟩ := find?_type (c := c) hu hM ht
    exact ⟨e, hfind, by rw [hstanding, standingOf_eq_version_iff.2 hcontext]⟩
  · exact (of_definition hr hdefinition).1.trans hcontext

end Modules

/-! ## What a build takes for versions -/

/-- How the index takes the module of a version that has been built. -/
structure IndexedExactly (u : CompilationUnit) (c : Config) (f : Family) (v : SchemaVersion)
    (M : Place) : Prop where
  /-- The module is the one of the version. -/
  place : M ∈ u.places ∧ M.path = v.modulePath ∧ versionNumber? M.module.name = some v.number
  /-- It is indexed as that version of the family exactly if it is not marked as a test. -/
  agrees : M.IsIndexedAs u c f.name v.number ↔ c.isTest M.module = false
  /-- Then the references of its type definitions count as uses in that version. -/
  counted : c.isTest M.module = false →
    ∀ r ∈ (M.site c (u.familyDeclarations c)).references, r.definition = true →
      r.exempt = false → r.definedVersion? = some (f.name, v.number)
  /-- If it is marked as a test, it is passed over. -/
  passedOver : c.isTest M.module = true → M.IsPassedOver u c

section Versions

variable {u : CompilationUnit} {c : Config} {d : FamilyDeclaration} {f : Family} {v : SchemaVersion}

/-- The module of a built version, as a place in the unit. -/
theorem exists_place_of_version (hd : d ∈ u.familyDeclarations c) (hf : d.build c = .ok f)
    (hv : v ∈ f.versions) : ∃ M ∈ u.places, M.path = v.modulePath ∧
      d.containerPath = Path.ofLine M.ancestors ∧ versionNumber? M.module.name = some v.number ∧
      M.line.any c.isTest = (d.inTest || c.isTest M.module) := by
  obtain ⟨k, m, ⟨hm, hk⟩, rfl⟩ := exists_of_mem_versions hf hv
  obtain ⟨P, hP, hdeclared⟩ := mem_familyDeclarations.1 hd
  rw [Place.container_of_declaration? hdeclared] at hm
  have hpath : d.containerPath = Path.ofLine P.line := Place.containerPath_of_declaration? hdeclared
  refine ⟨⟨P.line, m⟩, mem_places_of_member hP hm, ?_, hpath, hk, ?_⟩
  · rw [Place.path_eq, ← hpath]
    rfl
  · rw [Place.inTest_of_declaration? hdeclared]
    exact List.any_append.trans (by simp)

/-- Each version of a family that is built from a container outside of tests is indexed exactly as
`IndexedExactly` says. -/
theorem shipped_versions_exactly (hu : u.DistinctSiblings) (hd : d ∈ u.familyDeclarations c)
    (hf : d.build c = .ok f) (htest : d.inTest = false) (hv : v ∈ f.versions) :
    ∃ M, IndexedExactly u c f v M := by
  obtain ⟨M, hM, hpath, hparent, hk, hline⟩ := exists_place_of_version hd hf hv
  rw [htest, Bool.false_or] at hline
  have hindexed : c.isTest M.module = false → M.IsIndexedAs u c f.name v.number := fun h => by
    rw [name_of_build hf]
    exact isIndexedAs_of_not_isTest hu hM hd hparent hk (hline.trans h)
  refine ⟨M, ⟨hM, hpath, hk⟩, ⟨fun h => ?_, hindexed⟩, fun h r hr hdefinition hexempt => ?_,
    isPassedOver_of_isTest hu hM⟩
  · by_contra hmarked
    have hover := isPassedOver_of_isTest hu hM (by simpa using hmarked)
    exact hover.unlisted _ h.listed _ _ rfl
  · have hcontext := (hindexed h).definitions r hr hdefinition
    exact definedVersion?_eq_some_iff.2 ⟨hcontext, hdefinition, hexempt⟩

end Versions

/-! ## A version that is marked as a test -/

/-- A version that is marked as a test. -/
def markedVersion : ModuleDecl :=
  { ModuleDecl.bare "V1"
      [{ TypeDecl.bare "t" with shape := .synonym (.ofPath "raw" []) }] [] with
    attributes := ["test"] }

def markedContainer : ModuleDecl :=
  { ModuleDecl.bare "Stable" [] [markedVersion] with attributes := ["versioned"] }

/-- The declaration of the family of the container. -/
def markedDeclaration : FamilyDeclaration where
  container := markedContainer
  parentPath := ["Account"]
  kind := .type
  strategy := .plain
  functorArities := []
  inTest := false
  parentTypes := [.bare "raw"]

def markedUnit : CompilationUnit :=
  ⟨"ledger", [.bare "Account" [.bare "raw"] [markedContainer]]⟩

/-- The version that is built. -/
def markedBuilt : SchemaVersion := markedDeclaration.version .standard 1 markedVersion

/-- The use of the ordinary type in the definition of the version. -/
def markedReference : Reference where
  path := ["raw"]
  scope := ["Account", "Stable", "V1"]
  owner := "Account.Stable.V1.t"
  context := .test
  definition := true
  exempt := false
  isModule := false
  location := none

theorem exists_marked_family : ∃ f, markedDeclaration.build .standard = .ok f ∧
    markedBuilt ∈ f.versions := by
  obtain ⟨f, hbuild⟩ := exists_build (d := markedDeclaration) (c := .standard) (by cbv)
  have hversions : (markedDeclaration.parts .standard).versions = [markedBuilt] := by cbv
  refine ⟨f, hbuild, ?_⟩
  rw [parts_of_build hbuild, hversions]
  exact List.mem_singleton_self _

theorem shipped_versions_exactly_markedUnit : ∃ f, markedUnit.DistinctSiblings ∧
    markedDeclaration ∈ markedUnit.familyDeclarations .standard ∧
    markedDeclaration.build .standard = .ok f ∧ markedDeclaration.inTest = false ∧
    markedBuilt ∈ f.versions ∧ ∃ M, IndexedExactly markedUnit .standard f markedBuilt M := by
  obtain ⟨f, hbuild, hv⟩ := exists_marked_family
  have hu : markedUnit.DistinctSiblings := by decide
  have hd : markedDeclaration ∈ markedUnit.familyDeclarations .standard :=
    List.mem_singleton_self _
  exact ⟨f, hu, hd, hbuild, rfl, hv, shipped_versions_exactly hu hd hbuild rfl hv⟩

/-- The version ships, but the index does not list it, its type is taken for that of a test, and its
use of an ordinary type is not reported. -/
theorem marked_version_passed_over : ∃ f, markedUnit.DistinctSiblings ∧
    markedDeclaration ∈ markedUnit.familyDeclarations .standard ∧
    markedDeclaration.build .standard = .ok f ∧ markedDeclaration.inTest = false ∧
    markedBuilt ∈ f.versions ∧
    (markedUnit.index .standard).modules.find? markedBuilt.modulePath = none ∧
    ((markedUnit.index .standard).types.find? (markedBuilt.modulePath ++ ["t"])).map (·.standing)
      = some .test ∧
    markedReference ∈ (markedUnit.index .standard).references ∧
    ((markedUnit.index .standard).resolve markedReference).standing = .plain ∧
    (markedUnit.index .standard).unstableUses = [] := by
  obtain ⟨f, hbuild, hv⟩ := exists_marked_family
  exact ⟨f, by decide, List.mem_singleton_self _, hbuild, rfl, hv, by decide +kernel,
    by decide +kernel, by decide +kernel, by decide +kernel, by decide +kernel⟩

end SchemaVersioning
