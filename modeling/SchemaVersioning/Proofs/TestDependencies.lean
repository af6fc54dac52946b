import SchemaVersioning.Proofs.AliasArguments
import SchemaVersioning.Proofs.EnclosingContexts
import SchemaVersioning.Proofs.Grounds
import SchemaVersioning.Proofs.TestModules

/-!
# Uses of tests in versions

What is found in the definition of a version that names something in a test.  A type that stands in
the test is reported, whatever route leads to it.  What does not stand there is judged as it is
elsewhere: the types of the alias that every family has count as latest, also those of a family in
the test, and an undeclared path is taken for what it looks like (`test_uses_checked_exactly`).
-/

namespace SchemaVersioning

/-! ## Types in tests -/

/-- A type stands at a path. -/
def CompilationUnit.DeclaresType (u : CompilationUnit) (q : Path) : Prop :=
  ∃ P ∈ u.places, ∃ t ∈ P.module.types, P.path ++ [t.name] = q

/-- The alias that every family has brings a type of a path. -/
def FamilyDeclaration.Generates (d : FamilyDeclaration) (c : Config) (q : Path) : Prop :=
  ∃ x ∈ c.versionedTypeNames d.kind, d.latestPath c ++ [x] = q

/-- A path looks like a version or like a latest type. -/
def Config.ShowsStable (c : Config) (q : Path) : Prop :=
  (∃ f k, c.ShowsVersion q f k) ∨ ∃ f, c.ShowsLatest q f

section Types

variable {u : CompilationUnit} {c : Config} {q : Path}

theorem isStable_standingByShape_iff :
    (c.standingByShape [] q).isStable = true ↔ c.ShowsStable q := by
  constructor
  · intro h
    apply (Index.shape_of_isStable h).imp_right
    rintro ⟨f, hf⟩
    exact ⟨f, Config.standingByShape_eq_latest_iff.1 hf⟩
  · rintro (⟨f, k, h⟩ | ⟨f, h⟩)
    · rw [Config.standingByShape_eq_version_iff.2 h]
      rfl
    · rw [Config.standingByShape_eq_latest_iff.2 h]
      rfl

/-- Where no type stands, what is in force is a type of an alias that every family has. -/
theorem find?_types_of_not_declaresType (h : ¬ u.DeclaresType q) {e : Declared}
    (he : (u.index c).types.find? q = some e) :
    ∃ d ∈ u.familyDeclarations c, d.Generates c q ∧ e.standing = .latest d.name := by
  have hpath := Table.path_of_find? he
  rcases mem_index_types.1 (List.mem_of_find?_eq_some he) with ⟨d, hd, hmem⟩ | ⟨P, hP, hmem⟩
  · obtain ⟨x, hx, rfl⟩ := List.mem_map.1 hmem
    exact ⟨d, hd, ⟨x, hx, hpath⟩, rfl⟩
  · obtain ⟨t, ht, rfl⟩ := List.mem_map.1 hmem
    refine absurd ⟨P, hP, t, ht, ?_⟩ h
    rw [← Place.path_site c (u.familyDeclarations c)]
    exact hpath

theorem declares_of_generates {d : FamilyDeclaration} (hd : d ∈ u.familyDeclarations c)
    (h : d.Generates c q) : (u.index c).types.Declares q := by
  obtain ⟨x, hx, rfl⟩ := h
  exact ⟨_, mem_index_types.2 (Or.inl ⟨d, hd, List.mem_map_of_mem hx⟩), rfl⟩

/-- What is around a path inside another one begins with that one. -/
theorem isPrefix_of_concat_eq {p : Path} {a b : String} {rest : Path}
    (h : q ++ [b] = p ++ a :: rest) : p <+: q := by
  apply List.prefix_of_prefix_length_le (List.prefix_append p (a :: rest))
  · rw [← h]
    exact List.prefix_append q [b]
  · have hlength := congrArg List.length h
    simp only [List.length_append, List.length_cons, List.length_nil] at hlength
    omega

variable {T : Place} {a : String} {rest : Path}

/-- What is at or below the path of a test is in the test. -/
theorem any_isTest_of_isPrefix (hu : u.DistinctSiblings) (hT : T ∈ u.places)
    (htest : c.isTest T.module = true) {P : Place} (hP : P ∈ u.places) (h : T.path <+: P.path) :
    P.line.any c.isTest = true := by
  have hline : T.line <+: P.line := line_isPrefix_of_path hu hT hP h
  apply List.any_eq_true.2
  exact ⟨T.module, hline.subset (List.mem_append_right _ (List.mem_singleton_self _)), htest⟩

/-- What resolves to a type that stands inside a test is a type in a test. -/
theorem standing_of_type_in_test (hu : u.DistinctSiblings) (hT : T ∈ u.places)
    (htest : c.isTest T.module = true) {res : Resolution} (hgrounds : (u.index c).Grounds false res)
    (htarget : res.target = T.path ++ a :: rest) (hbuiltin : res.standing ≠ .builtin)
    (hdeclared : u.DeclaresType res.target) : res.standing = .test := by
  obtain ⟨P, hP, t, ht, hpath⟩ := hdeclared
  obtain ⟨e, t', hfind, hstanding⟩ := find?_type (c := c) hu hP ht
  have hline : P.line.any c.isTest = true :=
    any_isTest_of_isPrefix hu hT htest hP (isPrefix_of_concat_eq (hpath.trans htarget))
  rw [hpath] at hfind
  rw [(within_eq_test_iff P.line).2 hline] at hstanding
  exact (hgrounds.standing_of_find? (fun _ => hbuiltin) hfind).trans hstanding

/-- A family whose alias reaches into a test is in the test, or the test is that alias. -/
theorem inTest_of_generates (hu : u.DistinctSiblings) (hT : T ∈ u.places)
    (htest : c.isTest T.module = true) {d : FamilyDeclaration} (hd : d ∈ u.familyDeclarations c)
    (h : d.Generates c (T.path ++ a :: rest)) : d.inTest = true ∨ d.latestPath c = T.path := by
  obtain ⟨x, -, hx⟩ := h
  obtain ⟨P, hP, hPd⟩ := mem_familyDeclarations.1 hd
  have hbegins : T.path <+: d.latestPath c := isPrefix_of_concat_eq hx
  rw [FamilyDeclaration.latestPath, List.prefix_concat_iff] at hbegins
  rcases hbegins with hlatest | hcontainer
  · exact Or.inr hlatest.symm
  · rw [Place.containerPath_of_declaration? hPd] at hcontainer
    rw [Place.inTest_of_declaration? hPd]
    exact Or.inl (any_isTest_of_isPrefix hu hT htest hP hcontainer)

end Types

/-! ## Uses of them -/

/-- What resolves to a path inside a test is stable in three cases: it is taken for a built-in type,
or no type stands at the path and either a family brings one or the path looks stable. -/
theorem isStable_in_test_iff {u : CompilationUnit} {c : Config} (hu : u.DistinctSiblings)
    {T : Place} (hT : T ∈ u.places) (htest : c.isTest T.module = true) {res : Resolution}
    (hgrounds : (u.index c).Grounds false res) {a : String} {rest : Path}
    (htarget : res.target = T.path ++ a :: rest) :
    res.standing.isStable = true ↔ res.standing = .builtin ∨
      ¬ u.DeclaresType res.target ∧
        ((∃ d ∈ u.familyDeclarations c, d.Generates c res.target) ∨ c.ShowsStable res.target) := by
  by_cases hbuiltin : res.standing = .builtin
  · simp [hbuiltin, Standing.isStable]
  by_cases hdeclared : u.DeclaresType res.target
  · have hstanding : res.standing = .test :=
      standing_of_type_in_test hu hT htest hgrounds htarget hbuiltin hdeclared
    simp [hstanding, hdeclared, Standing.isStable]
  simp only [hbuiltin, hdeclared, not_false_eq_true, true_and, false_or]
  by_cases hgenerated : ∃ d ∈ u.familyDeclarations c, d.Generates c res.target
  · obtain ⟨d, hd, hgenerates⟩ := hgenerated
    obtain ⟨e, hfind⟩ := Option.isSome_iff_exists.1
      (Table.declares_iff.1 (declares_of_generates hd hgenerates))
    obtain ⟨d', -, -, he⟩ := find?_types_of_not_declaresType hdeclared hfind
    have hstanding : res.standing = .latest d'.name :=
      (hgrounds.standing_of_find? (fun _ => hbuiltin) hfind).trans he
    simp only [hstanding, Standing.isStable, true_iff]
    exact Or.inl ⟨d, hd, hgenerates⟩
  · have hnowhere : ¬ (u.index c).types.Declares res.target := by
      rw [Table.declares_iff, Option.isSome_iff_exists]
      rintro ⟨e, hfind⟩
      obtain ⟨d, hd, hgenerates, -⟩ := find?_types_of_not_declaresType hdeclared hfind
      exact hgenerated ⟨d, hd, hgenerates⟩
    have hstanding : res.standing = c.standingByShape [] res.target :=
      hgrounds.standing_of_undeclared (fun _ => hbuiltin) hnowhere
    rw [hstanding, isStable_standingByShape_iff]
    exact ⟨Or.inr, fun h => h.resolve_left hgenerated⟩

/-- How a reference in the definition of a version is checked that resolves to a path inside a
test. -/
structure CheckedIntoTest (u : CompilationUnit) (c : Config) (f : String) (k : Nat) (T : Place)
    (r : Reference) (q : Path) : Prop where
  /-- It counts as a use in the definition of that version. -/
  counted : r ∈ (u.index c).references ∧ r.definedVersion? = some (f, k)
  /-- Unless it is taken for a built-in type, it is reported if a type stands at the path, and also
  if neither a family brings one nor the path looks stable. -/
  reported : ((u.index c).unstableUse? r).isSome ↔ ((u.index c).resolve r).standing ≠ .builtin ∧
    (u.DeclaresType q ∨
      (∀ d ∈ u.familyDeclarations c, ¬ d.Generates c q) ∧ ¬ c.ShowsStable q)
  /-- A type that stands there is a type in a test, also one in a version. -/
  declared : u.DeclaresType q → ((u.index c).resolve r).standing ≠ .builtin →
    ((u.index c).resolve r).standing = .test
  /-- A family that brings a type there lies in the test, or the test is the alias of the family. -/
  generated : ∀ d ∈ u.familyDeclarations c, d.Generates c q →
    d.inTest = true ∨ d.latestPath c = T.path
  /-- Where nothing is reported no type stands at the path, unless it is taken for a built-in
  type. -/
  clean : (u.index c).unstableUses = [] → ((u.index c).resolve r).standing = .builtin ∨
    ¬ u.DeclaresType q ∧
      ((∃ d ∈ u.familyDeclarations c, d.Generates c q) ∨ c.ShowsStable q)

/-- References in the type definitions of a version that are not exempt and resolve to a path inside
a test are checked exactly as `CheckedIntoTest` says. -/
theorem test_uses_checked_exactly {u : CompilationUnit} {c : Config} (hu : u.DistinctSiblings)
    {M : Place} (hM : M ∈ u.places) {f : String} {k : Nat}
    (hversion : Encloses c M.line (.version f k)) {r : Reference}
    (hr : r ∈ (M.site c (u.familyDeclarations c)).references) (hdefinition : r.definition = true)
    (hexempt : r.exempt = false) {T : Place} (hT : T ∈ u.places) (htest : c.isTest T.module = true)
    {a : String} {rest : Path} (htarget : ((u.index c).resolve r).target = T.path ++ a :: rest) :
    CheckedIntoTest u c f k T r (T.path ++ a :: rest) := by
  obtain ⟨hinside, hmodule⟩ := of_definition hr hdefinition
  have hcontext : r.context = .version f k :=
    hinside.trans ((within_eq_iff hu (mem_places.1 hM)).2 hversion)
  have hmem : r ∈ (u.index c).references := mem_index_references.2 ⟨M, hM, hr⟩
  have hcounted : r.definedVersion? = some (f, k) :=
    definedVersion?_eq_some_iff.2 ⟨hcontext, hdefinition, hexempt⟩
  have hgrounds := (u.index c).grounds_resolve r
  rw [hmodule] at hgrounds
  have hstable := isStable_in_test_iff hu hT htest hgrounds htarget
  rw [htarget] at hstable
  have hsilent : (u.index c).unstableUse? r = none ↔
      ((u.index c).resolve r).standing.isStable = true := Index.unstableUse?_eq_none_iff hcounted
  refine ⟨⟨hmem, hcounted⟩, ?_, ?_, fun d hd h => inTest_of_generates hu hT htest hd h, ?_⟩
  · rw [← Option.ne_none_iff_isSome, Ne, hsilent, hstable]
    simp only [not_or, not_and, not_exists]
    constructor
    · rintro ⟨hbuiltin, h⟩
      refine ⟨hbuiltin, ?_⟩
      by_cases hdeclared : u.DeclaresType (T.path ++ a :: rest)
      · exact Or.inl hdeclared
      · exact Or.inr (h hdeclared)
    · rintro ⟨hbuiltin, hdeclared | h⟩
      · exact ⟨hbuiltin, fun hnot => absurd hdeclared hnot⟩
      · exact ⟨hbuiltin, fun _ => h⟩
  · intro hdeclared hbuiltin
    rw [← htarget] at hdeclared
    exact standing_of_type_in_test hu hT htest hgrounds htarget hbuiltin hdeclared
  · intro hclean
    exact hstable.1 (hsilent.1 (List.filterMap_eq_nil_iff.1 hclean r hmem))

/-! ## The alias of a family in a test -/

/-- The first version of a family in a test. -/
def sampleVersion : ModuleDecl := .bare "V1" [.bare "t"] []

/-- A test with a family. -/
def sampleTest : ModuleDecl :=
  .bare "Tests" []
    [{ ModuleDecl.bare "Stable" [] [sampleVersion] with attributes := ["versioned"] }]

/-- A version that is defined by a member of the container in the test. -/
def sampledVersion (member : String) : ModuleDecl :=
  .bare "V1" [{ TypeDecl.bare "t" with
    shape := .synonym (.ofPath "Tests" ["Stable", member, "t"]) }] []

/-- A container of the version. -/
def sampledContainer (member : String) : ModuleDecl :=
  { ModuleDecl.bare "Stable" [] [sampledVersion member] with attributes := ["versioned"] }

/-- A unit with the container and the test. -/
def sampledUnit (member : String) : CompilationUnit :=
  ⟨"ledger", [.bare "Account" [] [sampledContainer member], sampleTest]⟩

/-- The place of the version outside of the test. -/
def sampledPlace (member : String) : Place :=
  ⟨[.bare "Account" [] [sampledContainer member], sampledContainer member], sampledVersion member⟩

/-- The place of the test. -/
def sampleTestPlace : Place := ⟨[], sampleTest⟩

/-- The use of the test in the definition of the version. -/
def sampledReference (member : String) : Reference where
  path := ["Tests", "Stable", member, "t"]
  scope := ["Account", "Stable", "V1"]
  owner := "Account.Stable.V1.t"
  context := .version "Account" 1
  definition := true
  exempt := false
  isModule := false
  location := none

theorem sampledPlace_mem (member : String) : sampledPlace member ∈ (sampledUnit member).places :=
  mem_places.2 ⟨List.mem_cons_self, List.mem_cons_self, List.mem_cons_self, trivial⟩

theorem sampleTestPlace_mem (member : String) : sampleTestPlace ∈ (sampledUnit member).places :=
  mem_places.2 ⟨List.mem_cons_of_mem _ List.mem_cons_self, trivial⟩

/-- A version of the family in the test is reported. -/
theorem test_uses_checked_exactly_sampledUnit :
    (sampledUnit "V1").DistinctSiblings ∧
      sampledPlace "V1" ∈ (sampledUnit "V1").places ∧
      Encloses .standard (sampledPlace "V1").line (.version "Account" 1) ∧
      sampledReference "V1" ∈ ((sampledPlace "V1").site .standard
        ((sampledUnit "V1").familyDeclarations .standard)).references ∧
      (sampledReference "V1").definition = true ∧ (sampledReference "V1").exempt = false ∧
      sampleTestPlace ∈ (sampledUnit "V1").places ∧
      Config.standard.isTest sampleTestPlace.module = true ∧
      (((sampledUnit "V1").index .standard).resolve (sampledReference "V1")).target
        = sampleTestPlace.path ++ ["Stable", "V1", "t"] ∧
      CheckedIntoTest (sampledUnit "V1") .standard "Account" 1 sampleTestPlace
        (sampledReference "V1") (sampleTestPlace.path ++ ["Stable", "V1", "t"]) ∧
      (((sampledUnit "V1").index .standard).unstableUse? (sampledReference "V1")).isSome := by
  have hu : (sampledUnit "V1").DistinctSiblings := by decide
  have hversion : Encloses .standard (sampledPlace "V1").line (.version "Account" 1) :=
    (within_eq_iff hu (mem_places.1 (sampledPlace_mem _))).1 (by decide +kernel)
  have hr : sampledReference "V1" ∈ ((sampledPlace "V1").site .standard
      ((sampledUnit "V1").familyDeclarations .standard)).references := by decide +kernel
  have htarget : (((sampledUnit "V1").index .standard).resolve (sampledReference "V1")).target
      = sampleTestPlace.path ++ ["Stable", "V1", "t"] := by decide +kernel
  exact ⟨hu, sampledPlace_mem _, hversion, hr, rfl, rfl, sampleTestPlace_mem _, by decide, htarget,
    test_uses_checked_exactly hu (sampledPlace_mem _) hversion hr rfl rfl (sampleTestPlace_mem _)
      (by decide) htarget, by decide +kernel⟩

/-- The latest type of the family in the test is not: nothing is reported of the unit. -/
theorem latest_in_test_unreported :
    (sampledUnit "Latest").DistinctSiblings ∧
      sampledPlace "Latest" ∈ (sampledUnit "Latest").places ∧
      Encloses .standard (sampledPlace "Latest").line (.version "Account" 1) ∧
      sampledReference "Latest" ∈ ((sampledPlace "Latest").site .standard
        ((sampledUnit "Latest").familyDeclarations .standard)).references ∧
      (sampledReference "Latest").definition = true ∧ (sampledReference "Latest").exempt = false ∧
      sampleTestPlace ∈ (sampledUnit "Latest").places ∧
      Config.standard.isTest sampleTestPlace.module = true ∧
      (((sampledUnit "Latest").index .standard).resolve (sampledReference "Latest")).target
        = sampleTestPlace.path ++ ["Stable", "Latest", "t"] ∧
      ((sampledUnit "Latest").index .standard).unstableUses = [] := by
  have hu : (sampledUnit "Latest").DistinctSiblings := by decide
  have hversion : Encloses .standard (sampledPlace "Latest").line (.version "Account" 1) :=
    (within_eq_iff hu (mem_places.1 (sampledPlace_mem _))).1 (by decide +kernel)
  exact ⟨hu, sampledPlace_mem _, hversion, by decide +kernel, rfl, rfl, sampleTestPlace_mem _,
    by decide, by decide +kernel, by decide +kernel⟩

end SchemaVersioning
