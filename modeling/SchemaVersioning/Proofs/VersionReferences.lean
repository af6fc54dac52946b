import SchemaVersioning.Proofs.Leakage

/-!
# References to one version

A version of a container can be named by its module, or through one of its types.  The table of
types knows the types of every version, those in tests as types of a test; the table of modules
knows the versions outside of tests only.  So the two references are reported alike outside of tests
unless the type is trusted, and in a test exactly if the path of the module does not look like a
version (`reported_alike_exactly`).
-/

namespace SchemaVersioning

/-- A module is a version of a discovered container, in a test or not. -/
structure Place.IsVersionOf (M : Place) (u : CompilationUnit) (c : Config) (d : FamilyDeclaration)
    (k : Nat) : Prop where
  place : M ∈ u.places
  container : d ∈ u.familyDeclarations c
  parent : d.containerPath = Path.ofLine M.ancestors
  number : versionNumber? M.module.name = some k

/-- A reference spells out the path of a module or of a type, from a context in which no version may
be named.  No module around it declares that path closer to it. -/
structure Reference.SpellsOut (r : Reference) (isModule : Bool) (declared : Path → Prop)
    (p : Path) : Prop where
  isModule : r.isModule = isModule
  path : r.path = p
  ordinary : ∀ f, r.context.mayName f = false
  innermost : Innermost declared p r.scope p

section Leaks

variable {index : Index} {r : Reference}

/-- From a context in which no version may be named, each one is a leak. -/
theorem leak_isSome_iff_standing (h : ∀ f, r.context.mayName f = false) :
    (index.versionLeak? r).isSome ↔
      ∃ f j, (index.resolveSpelling r.isModule r.spelling).standing = .version f j := by
  rw [Index.versionLeak?_isSome_iff]
  simp only [h, and_true]
  rfl

end Leaks

section Versions

variable {u : CompilationUnit} {c : Config} {M : Place} {d : FamilyDeclaration} {k : Nat}

namespace Place.IsVersionOf

/-- In a test the path of a version is that of no module, unless it is the latest alias of a
family. -/
theorem lookup_tested (hu : u.DistinctSiblings) (h : M.IsVersionOf u c d k)
    (htest : M.line.any c.isTest = true) {scope : Path}
    (hnames : Innermost (u.NamesModule c) M.path scope M.path)
    (hlatest : ∀ e ∈ u.familyDeclarations c, e.latestPath c ≠ M.path) :
    (u.index c).modules.lookup M.path scope = none := by
  rw [Table.lookup_eq_none_iff]
  rintro j hj ⟨e, he, hpath⟩
  obtain ⟨i, hi, heq, -, hnone⟩ := hnames
  have hlength : i = 0 := by
    have := congrArg List.length heq
    rw [List.length_append, List.length_take] at this
    omega
  rcases Nat.eq_zero_or_pos j with rfl | hpos
  · rw [List.take_zero, List.nil_append] at hpath
    rcases mem_index_modules.1 he with ⟨a, ha, rfl⟩ | ⟨p, hp, he⟩
    · exact hlatest a ha hpath
    · -- What the walk declares there is the module itself, and a test declares no version.
      obtain rfl := hu.eq_of_path_eq hp h.place ((path_of_mem_declaredVersion he).symm.trans hpath)
      have hnothing : (p.site c (u.familyDeclarations c)).declaredVersion (u.familyDeclarations c)
          = [] := if_pos ((within_eq_test_iff p.line).2 htest)
      rw [hnothing] at he
      cases he
  · exact hnone j (by omega) hj (namesModule_of_declares ⟨e, he, hpath⟩)

/-- The path of a version in a container of the configured name looks like a version, unless a
module around the container has that name too. -/
theorem showsVersion (h : M.IsVersionOf u c d k) (hname : d.container.name = c.containerName)
    (hfirst : c.containerName ∉ d.parentPath) (hlegible : overlongVersion? M.module.name = none) :
    ∃ f j, c.ShowsVersion M.path f j := by
  have hpath : M.path = d.parentPath ++ [c.containerName, M.module.name] := by
    rw [Place.path_eq, ← h.parent, FamilyDeclaration.containerPath, hname]
    simp
  refine ⟨_, k, d.parentPath.length, ?_, ⟨M.module.name, ?_, ?_, h.number⟩, rfl, ?_⟩
  · rw [hpath]
    simp
  · rw [hpath]
    simp
  · exact hlegible
  · intro i hi hcontainer
    rw [hpath, List.getElem?_append_left hi] at hcontainer
    exact absurd (List.mem_of_getElem? hcontainer) hfirst

end Place.IsVersionOf

section References

variable {r s : Reference} {x : String}

/-- A reference to a version module is reported outside of tests. -/
theorem module_leak_untested (hu : u.DistinctSiblings) (h : M.IsVersionOf u c d k)
    (htest : M.line.any c.isTest = false) (hs : s.SpellsOut true (u.NamesModule c) M.path) :
    ((u.index c).versionLeak? s).isSome := by
  apply (leak_isSome_iff_standing hs.ordinary).2
  have hlookup : (u.index c).lookupSpelling true s.spelling
      = some ⟨M.path, .version d.name k, [], none⟩ := by
    show (u.index c).modules.lookup s.path s.scope = _
    rw [hs.path]
    exact lookup_module (find?_version hu h.place h.container h.parent h.number htest) hs.innermost
  rw [hs.isModule, Index.resolve_module_of_lookup hlookup]
  exact ⟨d.name, k, rfl⟩

/-- A reference to any module is reported if it shows a version. -/
theorem module_leak_iff (hs : s.SpellsOut true (u.NamesModule c) M.path) :
    ((u.index c).versionLeak? s).isSome ↔ ∃ f j, (u.index c).ShowsVersion s.spelling f j := by
  rw [leak_isSome_iff_standing hs.ordinary, hs.isModule]
  simp only [Index.resolve_module_eq_version_iff]

/-- In a test, a version module that is reached through no alias is reported if its path looks like
a version. -/
theorem module_leak_undeclared (hu : u.DistinctSiblings) (h : M.IsVersionOf u c d k)
    (htest : M.line.any c.isTest = true) (hs : s.SpellsOut true (u.NamesModule c) M.path)
    (halias : ∀ τ, ¬ (u.index c).AliasStep true s.spelling τ)
    (hlatest : ∀ e ∈ u.familyDeclarations c, e.latestPath c ≠ M.path) :
    ((u.index c).versionLeak? s).isSome ↔ ∃ f j, c.ShowsVersion M.path f j := by
  have hlookup : (u.index c).lookupSpelling true s.spelling = none := by
    show (u.index c).modules.lookup s.path s.scope = none
    rw [hs.path]
    exact h.lookup_tested hu htest hs.innermost hlatest
  rw [leak_isSome_iff_standing hs.ordinary, hs.isModule,
    Index.resolve_module_of_undeclared hlookup halias]
  show (∃ f j, c.standingByShape [] s.path = .version f j) ↔ _
  rw [hs.path]
  simp only [Config.standingByShape_eq_version_iff, Config.ShowsVersion]

/-- A reference to a type of a version is reported if the version is outside of tests and the type
is not built in. -/
theorem type_leak_iff (hu : u.DistinctSiblings) (h : M.IsVersionOf u c d k) {t : TypeDecl}
    (ht : t ∈ M.module.types)
    (hr : r.SpellsOut false (u.index c).types.Declares (M.path ++ [t.name])) :
    ((u.index c).versionLeak? r).isSome ↔
      M.line.any c.isTest = false ∧ c.isBuiltin r.path = false := by
  have hnames : Innermost (u.index c).types.Declares r.spelling.path r.spelling.scope
      (M.path ++ [t.name]) := by
    show Innermost _ r.path r.scope _
    rw [hr.path]
    exact hr.innermost
  rw [leak_isSome_iff_standing hr.ordinary, hr.isModule]
  simp only [resolve_type_eq_version_iff hu h.place ht (.refl r.spelling) hnames]
  have hbuiltin : (∀ p ∈ ([] ++ [r.spelling.path] : List Path), c.isBuiltin p = false) ↔
      c.isBuiltin r.path = false := by
    rw [List.nil_append, List.forall_mem_singleton]
    rfl
  rw [hbuiltin]
  by_cases htest : M.line.any c.isTest = true
  · rw [(within_eq_test_iff M.line).2 htest]
    simp [htest]
  · rw [Bool.not_eq_true] at htest
    have hwithin : Context.within c (u.familyDeclarations c) M.line = .version d.name k :=
      within_version htest (h.parent ▸ containerAt?_eq hu h.container) h.number
    rw [hwithin]
    simp [htest]

end References

end Versions

/-- When references to a type of a version and to its module are reported. -/
structure ReportedAlike (u : CompilationUnit) (c : Config) (M : Place) (d : FamilyDeclaration)
    (r s : Reference) : Prop where
  /-- Outside of tests the module is reported, and so is the type unless it is built in. -/
  untested : M.line.any c.isTest = false → ((u.index c).versionLeak? s).isSome ∧
    (((u.index c).versionLeak? r).isSome ↔ c.isBuiltin r.path = false)
  /-- In a test the type is not reported, and the module is if it shows a version. -/
  tested : M.line.any c.isTest = true → (u.index c).versionLeak? r = none ∧
    (((u.index c).versionLeak? s).isSome ↔ ∃ f j, (u.index c).ShowsVersion s.spelling f j)
  /-- So there is one verdict exactly if, outside of tests, the type is not built in or, in a test,
  the module shows no version. -/
  alike : (((u.index c).versionLeak? r).isSome ↔ ((u.index c).versionLeak? s).isSome) ↔
    (M.line.any c.isTest = false → c.isBuiltin r.path = false) ∧
      (M.line.any c.isTest = true → ¬ ∃ f j, (u.index c).ShowsVersion s.spelling f j)
  /-- In a test, what a module shows that is reached through no alias is the shape of its path. -/
  undeclared : M.line.any c.isTest = true → (∀ τ, ¬ (u.index c).AliasStep true s.spelling τ) →
    (∀ e ∈ u.familyDeclarations c, e.latestPath c ≠ M.path) →
      (((u.index c).versionLeak? s).isSome ↔ ∃ f j, c.ShowsVersion M.path f j)
  /-- A container in a test that has the configured name, unlike the modules around it, splits the
  verdicts. -/
  split : M.line.any c.isTest = true → (∀ τ, ¬ (u.index c).AliasStep true s.spelling τ) →
    (∀ e ∈ u.familyDeclarations c, e.latestPath c ≠ M.path) →
      d.container.name = c.containerName → c.containerName ∉ d.parentPath →
        overlongVersion? M.module.name = none →
          ((u.index c).versionLeak? s).isSome ∧ (u.index c).versionLeak? r = none

/-- References that spell out a type of a version and its module, from contexts in which no version
may be named, are reported alike exactly as `ReportedAlike` says. -/
theorem reported_alike_exactly {u : CompilationUnit} {c : Config} (hu : u.DistinctSiblings)
    {M : Place} {d : FamilyDeclaration} {k : Nat} (h : M.IsVersionOf u c d k) {t : TypeDecl}
    (ht : t ∈ M.module.types) {r s : Reference}
    (hr : r.SpellsOut false (u.index c).types.Declares (M.path ++ [t.name]))
    (hs : s.SpellsOut true (u.NamesModule c) M.path) : ReportedAlike u c M d r s := by
  have htype := type_leak_iff hu h ht hr
  have hmodule := module_leak_iff hs
  have huntested := module_leak_untested hu h (s := s)
  have hsilent (htest : M.line.any c.isTest = true) : (u.index c).versionLeak? r = none := by
    rw [← Option.not_isSome_iff_eq_none, htype, htest]
    simp
  refine ⟨fun htest => ⟨huntested htest hs, ?_⟩, fun htest => ⟨hsilent htest, hmodule⟩, ?_,
    fun htest halias hlatest => module_leak_undeclared hu h htest hs halias hlatest,
    fun htest halias hlatest hname hfirst hlegible => ⟨?_, hsilent htest⟩⟩
  · rw [htype, htest]
    simp
  · by_cases htest : M.line.any c.isTest = true
    · rw [hsilent htest, hmodule, htest]
      simp
    · rw [Bool.not_eq_true] at htest
      rw [htype, htest, iff_true_right (huntested htest hs)]
      simp
  · apply (module_leak_undeclared hu h htest hs halias hlatest).2
    exact h.showsVersion hname hfirst hlegible

/-! ## A version in a test suite -/

/-- A version of accounts. -/
def suiteVersion : ModuleDecl := .bare "V1" [.bare "t"] []

def suiteContainer : ModuleDecl :=
  { ModuleDecl.bare "Stable" [] [suiteVersion] with attributes := ["versioned"] }

def suiteAccount : ModuleDecl := .bare "Account" [] [suiteContainer]

/-- The path of the version. -/
def suitePath : Path := ["Tests", "Account", "Stable", "V1"]

/-- A module with a signature that names the type of the version, and with a functor that is applied
to the version. -/
def suiteApp : ModuleDecl :=
  { ModuleDecl.bare "App" []
      [{ ModuleDecl.bare "Copy" [] [] with functorArguments := [suitePath.dotted] }] with
    values := [⟨"load", [], .ofPath "Tests" ["Account", "Stable", "V1", "t"], [], none⟩] }

/-- A unit in which the accounts are in a test. -/
def suiteUnit : CompilationUnit := ⟨"ledger", [.bare "Tests" [] [suiteAccount], suiteApp]⟩

/-- The family of accounts. -/
def suiteDeclaration : FamilyDeclaration where
  container := suiteContainer
  parentPath := ["Tests", "Account"]
  kind := .type
  strategy := .plain
  functorArities := []
  inTest := true
  parentTypes := []

/-- The place of the version. -/
def suitePlace : Place :=
  ⟨[.bare "Tests" [] [suiteAccount], suiteAccount, suiteContainer], suiteVersion⟩

/-- The use of the type in the signature. -/
def suiteTypeReference : Reference where
  path := suitePath ++ ["t"]
  scope := ["App"]
  owner := "App.load"
  context := .ordinary
  definition := false
  exempt := false
  isModule := false
  location := none

/-- The use of the version as a functor argument. -/
def suiteModuleReference : Reference :=
  { suiteTypeReference with path := suitePath, owner := "App.Copy", isModule := true }

theorem suitePlace_isVersionOf : suitePlace.IsVersionOf suiteUnit .standard suiteDeclaration 1 where
  place := mem_places.2
    ⟨List.mem_cons_self, List.mem_cons_self, List.mem_cons_self, List.mem_cons_self, trivial⟩
  container := List.mem_singleton_self _
  parent := rfl
  number := by decide

/-- Nothing in the module is called like a path that is spelled out there. -/
theorem innermost_of_app {declared : Path → Prop} {p : Path} (h : declared p)
    (hnot : ¬ declared ("App" :: p)) : Innermost declared p ["App"] p := by
  refine ⟨0, Nat.zero_le _, rfl, h, fun j hj hn => ?_⟩
  obtain rfl : j = 1 := by
    rw [List.length_singleton] at hn
    omega
  exact hnot

theorem suiteTypeReference_spellsOut :
    suiteTypeReference.SpellsOut false (suiteUnit.index .standard).types.Declares
      (suitePath ++ ["t"]) where
  isModule := rfl
  path := rfl
  ordinary _ := rfl
  innermost := innermost_of_app (Table.declares_iff.2 (by decide +kernel))
    (Table.not_declares_iff.2 (by decide +kernel))

theorem suiteModuleReference_spellsOut :
    suiteModuleReference.SpellsOut true (suiteUnit.NamesModule .standard) suitePath where
  isModule := rfl
  path := rfl
  ordinary _ := rfl
  innermost := by
    apply innermost_of_app
    · exact Or.inl ⟨suitePlace, mem_places.2 ⟨List.mem_cons_self, List.mem_cons_self,
        List.mem_cons_self, List.mem_cons_self, trivial⟩, rfl⟩
    · rintro (⟨p, hp, hpath⟩ | ⟨e, he, hpath⟩)
      · exact absurd hpath (by revert p; decide +kernel)
      · exact absurd hpath (by revert e; decide +kernel)

theorem reported_alike_exactly_suiteUnit :
    suiteUnit.DistinctSiblings ∧ suitePlace.IsVersionOf suiteUnit .standard suiteDeclaration 1 ∧
      suiteTypeReference.SpellsOut false (suiteUnit.index .standard).types.Declares
        (suitePath ++ ["t"]) ∧
      suiteModuleReference.SpellsOut true (suiteUnit.NamesModule .standard) suitePath ∧
      ReportedAlike suiteUnit .standard suitePlace suiteDeclaration suiteTypeReference
        suiteModuleReference :=
  have hu : suiteUnit.DistinctSiblings := by decide
  ⟨hu, suitePlace_isVersionOf, suiteTypeReference_spellsOut, suiteModuleReference_spellsOut,
    reported_alike_exactly hu suitePlace_isVersionOf List.mem_cons_self
      suiteTypeReference_spellsOut suiteModuleReference_spellsOut⟩

/-- A version in a test is reported where it is a functor argument, and not where its type is used
in a signature next to that. -/
theorem version_in_test_split :
    suiteUnit.DistinctSiblings ∧ suitePlace.IsVersionOf suiteUnit .standard suiteDeclaration 1 ∧
      suiteTypeReference ∈ (suiteUnit.index .standard).references ∧
      suiteModuleReference ∈ (suiteUnit.index .standard).references ∧
      suiteTypeReference.SpellsOut false (suiteUnit.index .standard).types.Declares
        (suitePath ++ ["t"]) ∧
      suiteModuleReference.SpellsOut true (suiteUnit.NamesModule .standard) suitePath ∧
      ¬ (((suiteUnit.index .standard).versionLeak? suiteTypeReference).isSome ↔
        ((suiteUnit.index .standard).versionLeak? suiteModuleReference).isSome) :=
  ⟨by decide, suitePlace_isVersionOf, by decide +kernel, by decide +kernel,
    suiteTypeReference_spellsOut, suiteModuleReference_spellsOut, by decide +kernel⟩

end SchemaVersioning
