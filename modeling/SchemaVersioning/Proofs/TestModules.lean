import SchemaVersioning.Proofs.Outlines

/-!
# Test modules

What tests hold is indexed with everything else.  Still, if no path outside of tests has a component
that is the name of one of some tests, the rules find the same whatever these tests hold
(`tests_inert`).  Each unit is compared with what is left of it without the tests: the references in
them are not reported, and a look-up from outside of them never comes upon a path inside.
-/

namespace SchemaVersioning

/-! ## Units without some tests -/

/-- A module is a test with one of some names. -/
def Config.hides (c : Config) (names : List String) (m : ModuleDecl) : Bool :=
  c.isTest m && names.contains m.name

namespace ModuleDecl

mutual

/-- A module without the tests of some names in it. -/
def pruned (c : Config) (names : List String) : ModuleDecl → ModuleDecl
  | ⟨name, types, values, modules, attributes, codec, aliasOf, functor, arguments, location⟩ =>
    ⟨name, types, values, prunedAll c names modules, attributes, codec, aliasOf, functor, arguments,
      location⟩

/-- Modules without the tests of some names among them and in them. -/
def prunedAll (c : Config) (names : List String) : List ModuleDecl → List ModuleDecl
  | [] => []
  | m :: rest =>
    if c.hides names m then prunedAll c names rest else pruned c names m :: prunedAll c names rest

end

/-- The paths that the module and its types are aliases of. -/
def aliased (m : ModuleDecl) : List Path :=
  m.aliasOf.toList.map Path.ofDotted ++ m.types.filterMap fun t => t.alias?.map (·.path)

/-- What is aliased is mentioned. -/
theorem mem_mentioned_of_mem_aliased {m : ModuleDecl} {q : Path} (h : q ∈ m.aliased) :
    q ∈ m.mentioned := by
  rcases List.mem_append.1 h with h | h
  · obtain ⟨target, htarget, rfl⟩ := List.mem_map.1 h
    exact ofDotted_mem_mentioned_of_aliasOf (Option.mem_toList.1 htarget)
  · obtain ⟨t, ht, halias⟩ := List.mem_filterMap.1 h
    obtain ⟨e, he, rfl⟩ := Option.map_eq_some_iff.1 halias
    exact path_mem_mentioned_of_alias ht he

end ModuleDecl

namespace CompilationUnit

/-- What is left of a unit without the tests of some names. -/
def pruned (u : CompilationUnit) (c : Config) (names : List String) : CompilationUnit :=
  ⟨u.name, ModuleDecl.prunedAll c names u.modules⟩

/-- No path that is written outside of tests has one of some names as a component, and no alias in
a test, if there are any, leads to such a path. -/
structure Shuns (u : CompilationUnit) (c : Config) (names : List String) : Prop where
  mentioned : ∀ p ∈ u.places, p.line.any c.isTest = false →
    ∀ q ∈ p.module.mentioned, ∀ a ∈ q, a ∉ names
  aliased : ∀ p ∈ u.places, p.line.any c.isTest = true →
    ∀ q ∈ p.module.aliased, ∀ a ∈ q, a ∉ names

end CompilationUnit

/-! ## Places outside of the tests -/

section Places

variable {c : Config} {names : List String}

/-- A place is neither a test of one of the names nor in one. -/
def Place.isShown (c : Config) (names : List String) (p : Place) : Bool :=
  !p.line.any (c.hides names)

theorem isShown_eq_false_iff {p : Place} :
    p.isShown c names = false ↔ ∃ m ∈ p.line, c.hides names m = true := by
  rw [Place.isShown, Bool.not_eq_false', List.any_eq_true]

theorem filter_isShown_of_hides {m : ModuleDecl} (h : c.hides names m = true)
    (line : List ModuleDecl) :
    (Place.ofModule line m).filter (Place.isShown c names) = [] := by
  rw [List.filter_eq_nil_iff]
  intro p hp
  obtain ⟨rest, hancestors, hrest⟩ := (Place.mem_ofModule line m).1 hp
  have hm : m ∈ p.line := by
    rw [Place.line, hancestors, List.append_assoc]
    refine List.mem_append_right _ ?_
    cases hl : rest ++ [p.module] with
    | nil => simp at hl
    | cons n rest' =>
      rw [hl] at hrest
      rw [List.mem_singleton.1 hrest.1]
      exact List.mem_cons_self
  rw [isShown_eq_false_iff.2 ⟨m, hm, h⟩]
  exact Bool.false_ne_true

mutual

theorem outline_prunedModule : ∀ (m : ModuleDecl) {line line' : List ModuleDecl},
    c.hides names m = false → line'.map ModuleDecl.alone = line.map ModuleDecl.alone →
      line.any (c.hides names) = false →
      (Place.ofModule line' (m.pruned c names)).map Place.alone
        = ((Place.ofModule line m).filter (Place.isShown c names)).map Place.alone
  | ⟨name, types, values, modules, attributes, codec, aliasOf, functor, args, loc⟩, line, line', hm,
      hline, hany => by
    have hlonger : ∀ {m}, c.hides names m = false → (line ++ [m]).any (c.hides names) = false :=
      fun h => by rw [List.any_append, hany, List.any_cons, h]; rfl
    rw [ModuleDecl.pruned, Place.ofModule, Place.ofModule, List.map_cons,
      List.filter_cons_of_pos (by rw [Place.isShown, Place.line, hlonger hm]; rfl), List.map_cons,
      outline_prunedAll modules (by rw [List.map_append, List.map_append, hline]; rfl)
        (hlonger hm)]
    congr 1
    rw [Place.alone, Place.alone, hline]
    rfl

theorem outline_prunedAll : ∀ (ms : List ModuleDecl) {line line' : List ModuleDecl},
    line'.map ModuleDecl.alone = line.map ModuleDecl.alone → line.any (c.hides names) = false →
      (Place.ofModules line' (ModuleDecl.prunedAll c names ms)).map Place.alone
        = ((Place.ofModules line ms).filter (Place.isShown c names)).map Place.alone
  | [], _, _, _, _ => rfl
  | m :: rest, line, line', hline, hany => by
    rw [Place.ofModules, List.filter_append, List.map_append, ModuleDecl.prunedAll,
      ← outline_prunedAll rest hline hany]
    by_cases hm : c.hides names m = true
    · rw [if_pos hm, filter_isShown_of_hides hm]
      rfl
    · rw [if_neg hm, Place.ofModules, List.map_append,
        outline_prunedModule m (by simpa using hm) hline hany]

end

theorem outline_pruned (u : CompilationUnit) (c : Config) (names : List String) :
    (u.pruned c names).places.map Place.alone
      = (u.places.filter (Place.isShown c names)).map Place.alone :=
  outline_prunedAll u.modules rfl rfl

/-- A place that is shown is still there without the tests. -/
theorem exists_pruned_place {u : CompilationUnit} {p : Place} (hp : p ∈ u.places)
    (hshown : p.isShown c names = true) : ∃ p' ∈ (u.pruned c names).places, p'.alone = p.alone := by
  refine List.mem_map.1 ?_
  rw [outline_pruned]
  exact List.mem_map_of_mem (List.mem_filter.2 ⟨hp, hshown⟩)

theorem any_isTest_alone (p : Place) : p.alone.line.any c.isTest = p.line.any c.isTest := by
  rw [Place.line_alone, List.any_map]
  rfl

/-- Outside of the tests of some names no path has one of the names as a component, as far as it is
looked up. -/
structure CompilationUnit.ShunsShown (u : CompilationUnit) (c : Config) (names : List String) :
    Prop where
  mentioned : ∀ p ∈ u.places, p.isShown c names = true → p.line.any c.isTest = false →
    ∀ q ∈ p.module.mentioned, ∀ a ∈ q, a ∉ names
  aliased : ∀ p ∈ u.places, p.isShown c names = true →
    ∀ q ∈ p.module.aliased, ∀ a ∈ q, a ∉ names

theorem CompilationUnit.Shuns.shown {u : CompilationUnit} (h : (u.pruned c names).Shuns c names) :
    u.ShunsShown c names where
  mentioned p hp hshown htest q hq := by
    obtain ⟨p', hp', halone⟩ := exists_pruned_place hp hshown
    refine h.mentioned p' hp' ?_ q ?_
    · rw [← any_isTest_alone, halone, any_isTest_alone, htest]
    · show q ∈ p'.alone.module.mentioned
      rw [halone]
      exact hq
  aliased p hp hshown q hq := by
    obtain ⟨p', hp', halone⟩ := exists_pruned_place hp hshown
    have hmodule : q ∈ p'.module.aliased := by
      show q ∈ p'.alone.module.aliased
      rw [halone]
      exact hq
    cases htest : p'.line.any c.isTest with
    | true => exact h.aliased p' hp' htest q hmodule
    | false => exact h.mentioned p' hp' htest q (ModuleDecl.mem_mentioned_of_mem_aliased hmodule)

/-! ## Look-ups from outside of the tests -/

/-- A path does not lie in a test of one of the names. -/
def CompilationUnit.LiesOutside (u : CompilationUnit) (c : Config) (names : List String)
    (s : Path) : Prop :=
  ∀ h ∈ u.places, c.hides names h.module = true → ¬ h.path <+: s

section LookUps

variable {u : CompilationUnit} {p : Place}

/-- A module whose path begins another path is around it. -/
theorem line_isPrefix_of_path (hu : u.DistinctSiblings) {h : Place} (hh : h ∈ u.places)
    (hp : p ∈ u.places) (hpath : h.path <+: p.path) : h.line <+: p.line := by
  have hnames : Path.ofLine (p.line.take h.path.length) = Path.ofLine h.line := by
    rw [Path.ofLine, List.map_take]
    exact (List.prefix_iff_eq_take.1 hpath).symm
  have hlineage : Lineage u.modules (p.line.take h.path.length) := by
    have hwhole := mem_places.1 hp
    rw [← List.take_append_drop h.path.length p.line] at hwhole
    exact (lineage_append.1 hwhole).1
  rw [← hu.eq_of_ofLine_eq hlineage (mem_places.1 hh) hnames]
  exact List.take_prefix _ _

theorem liesOutside_path (hu : u.DistinctSiblings) (hp : p ∈ u.places)
    (hshown : p.isShown c names = true) : u.LiesOutside c names p.path := by
  intro h hh hhides hpath
  have hmem : h.module ∈ p.line := (line_isPrefix_of_path hu hh hp hpath).subset
    (List.mem_append_right _ (List.mem_singleton_self _))
  rw [isShown_eq_false_iff.2 ⟨_, hmem, hhides⟩] at hshown
  cases hshown

/-- No path that is looked up from outside of the tests lies in one. -/
theorem liesOutside_take_append {q s : Path} (hq : ∀ a ∈ q, a ∉ names)
    (hs : u.LiesOutside c names s) (i : Nat) : u.LiesOutside c names (s.take i ++ q) := by
  intro h hh hhides hbegins
  rcases Nat.le_total h.path.length (s.take i).length with hle | hle
  · have htake := List.prefix_of_prefix_length_le hbegins (List.prefix_append _ _) hle
    exact hs h hh hhides (htake.trans (List.take_prefix _ _))
  · -- The name of the test would be a component of the path that is looked up.
    obtain ⟨r, hr⟩ := List.prefix_of_prefix_length_le (List.prefix_append (s.take i) q) hbegins hle
    rw [← hr, List.prefix_append_right_inj] at hbegins
    have hlast : h.path.getLast? = some h.module.name := by
      rw [Place.path_eq, List.getLast?_concat]
    cases r with
    | nil =>
      rw [List.append_nil] at hr
      refine hs h hh hhides ?_
      rw [← hr]
      exact List.take_prefix _ _
    | cons a r =>
      rw [← hr, List.getLast?_append_of_ne_nil _ (List.cons_ne_nil _ _)] at hlast
      have hmem : h.module.name ∈ names := by
        simpa using (Bool.and_eq_true_iff.1 hhides).2
      exact hq _ (hbegins.subset (List.mem_of_getLast? hlast)) hmem

/-- A place in a test lies at or below the path of the test. -/
theorem exists_hidden_place (hp : p ∈ u.places) (hhidden : p.isShown c names = false) :
    ∃ h ∈ u.places, c.hides names h.module = true ∧ h.path <+: p.path := by
  obtain ⟨m, hm, hhides⟩ := isShown_eq_false_iff.1 hhidden
  obtain ⟨a, b, hab⟩ := List.append_of_mem hm
  have hline : p.line = (a ++ [m]) ++ b := by rw [hab, List.append_assoc, List.singleton_append]
  refine ⟨⟨a, m⟩, mem_places.2 ?_, hhides, ?_⟩
  · have hlineage := mem_places.1 hp
    rw [hline] at hlineage
    exact (lineage_append.1 hlineage).1
  · show Path.ofLine (a ++ [m]) <+: Path.ofLine p.line
    rw [hline, ofLine_append (a ++ [m]) b]
    exact List.prefix_append _ _

theorem samePlaces_isShown {q : Path} (hq : u.LiesOutside c names q) :
    SamePlaces u.places (u.places.filter (Place.isShown c names)) q := by
  intro a ha
  rw [List.filter_filter]
  refine List.filter_congr fun p hp => ?_
  cases hshown : p.isShown c names with
  | true => rw [Bool.and_true]
  | false =>
    rw [Bool.and_false, decide_eq_false_iff_not]
    rintro rfl
    obtain ⟨h, hh, hhides, hpath⟩ := exists_hidden_place hp hshown
    exact hq h hh hhides (hpath.trans ha)

theorem answersAlike_isShown (hu : u.DistinctSiblings) (h : u.ShunsShown c names) :
    AnswersAlike (u.places.filter (Place.isShown c names)) u.places (fun q => ∀ a ∈ q, a ∉ names)
      (u.LiesOutside c names) where
  same hp hs i _ := samePlaces_isShown (liesOutside_take_append hp hs i)
  nil := List.forall_mem_nil _
  joined _ hp hq i a ha :=
    (List.mem_append.1 ha).elim (hp a) fun ha => hq a (List.mem_of_mem_drop ha)
  inside p hp := liesOutside_path hu (List.mem_filter.1 hp).1 (List.mem_filter.1 hp).2
  around p hp a ha hhides hpath := by
    refine liesOutside_path hu (List.mem_filter.1 hp).1 (List.mem_filter.1 hp).2 a ha hhides ?_
    exact hpath.trans ((List.prefix_append _ _).map _)
  typeAlias p hp t ht e he := by
    refine h.aliased p (List.mem_filter.1 hp).1 (List.mem_filter.1 hp).2 _ ?_
    exact List.mem_append_right _ (List.mem_filterMap.2 ⟨t, ht, by rw [he]; rfl⟩)
  moduleAlias p hp target htarget := by
    refine h.aliased p (List.mem_filter.1 hp).1 (List.mem_filter.1 hp).2 _ ?_
    exact List.mem_append_left _ (List.mem_map_of_mem (by simp [htarget]))

end LookUps

/-! ## References and families in tests -/

section Silence

variable {p : Place}

theorem any_isTest_of_hidden (h : p.isShown c names = false) : p.line.any c.isTest = true := by
  obtain ⟨m, hm, hhides⟩ := isShown_eq_false_iff.1 h
  exact List.any_eq_true.2 ⟨m, hm, (Bool.and_eq_true_iff.1 hhides).1⟩

theorem context_of_mem_references {ds : List FamilyDeclaration} {r : Reference}
    (htest : p.line.any c.isTest = true) (hr : r ∈ p.references c ds) : r.context = .test :=
  context_of_test ((within_eq_test_iff p.line).2 htest) hr

/-- The rules have nothing to say of the references in a test. -/
theorem silent_of_test {ps : List Place} (htest : p.line.any c.isTest = true) :
    ∀ x ∈ p.rulings c ps, x = .silent := by
  intro x hx
  obtain ⟨r, hr, rfl⟩ := List.mem_map.1 hx
  exact Index.ruling_of_test _ (context_of_mem_references htest hr)

theorem interruption?_of_test {ps : List Place} (htest : p.line.any c.isTest = true) :
    p.interruption? c ps = none := by
  have hcontext : (p.site c (declarationsAt c ps)).context = .test :=
    (within_eq_test_iff p.line).2 htest
  rw [Place.interruption?, Site.interruption?, hcontext]
  rfl

end Silence

/-! ## Findings without the tests -/

section Pruned

variable {u : CompilationUnit}

theorem filterMap_rulings_pruned (hu : u.DistinctSiblings) (h : u.ShunsShown c names) {β : Type}
    {g : Ruling → Option β} (hg : g .silent = none) :
    (u.index c).rulings.filterMap g = ((u.pruned c names).index c).rulings.filterMap g := by
  rw [index_eq_ofPlaces (u.pruned c names), ← rulings_ofPlaces_map_alone, outline_pruned,
    rulings_ofPlaces_map_alone, index_eq_ofPlaces, rulings_ofPlaces, rulings_ofPlaces,
    List.filterMap_flatMap, List.filterMap_flatMap]
  refine flatMap_filter_congr (fun p hp hshown => congrArg (List.filterMap g) ?_)
    fun p hp hhidden => ?_
  · refine (answersAlike_isShown hu h).rulings c (List.mem_filter.2 ⟨hp, hshown⟩) fun r hr => ?_
    cases htest : p.line.any c.isTest with
    | true => exact Or.inl (context_of_mem_references htest hr)
    | false => exact Or.inr (h.mentioned p hp hshown htest _ (path_mem_mentioned hr))
  · rw [List.filterMap_eq_nil_iff]
    intro x hx
    rw [silent_of_test (any_isTest_of_hidden hhidden) x hx, hg]

theorem indexInterruption?_pruned (hu : u.DistinctSiblings) (h : u.ShunsShown c names) :
    u.indexInterruption? c = (u.pruned c names).indexInterruption? c := by
  rw [indexInterruption?_eq (u.pruned c names), ← findSome?_interruption?_map_alone, outline_pruned,
    findSome?_interruption?_map_alone, indexInterruption?_eq, ← List.head?_filterMap,
    ← List.head?_filterMap, List.filterMap_eq_flatMap_toList, List.filterMap_eq_flatMap_toList]
  refine congrArg List.head? (flatMap_filter_congr (fun p hp hshown => congrArg Option.toList ?_)
    fun p hp hhidden => ?_)
  · exact (answersAlike_isShown hu h).interruption? c (List.mem_filter.2 ⟨hp, hshown⟩)
  · rw [interruption?_of_test (any_isTest_of_hidden hhidden)]
    rfl

/-- What holds of no container in a test holds of the containers that remain. -/
theorem filterMap_declarationsAt_isShown (c : Config) (names : List String) {β : Type}
    {g : FamilyDeclaration → Option β} (hg : ∀ d : FamilyDeclaration, d.inTest = true → g d = none) :
    (declarationsAt c u.places).filterMap g
      = (declarationsAt c (u.places.filter (Place.isShown c names))).filterMap g := by
  simp only [declarationsAt, List.filterMap_filterMap]
  rw [List.filterMap_eq_flatMap_toList, List.filterMap_eq_flatMap_toList]
  refine flatMap_filter_congr (fun _ _ _ => rfl) fun p hp hhidden => ?_
  cases hd : p.declaration? c with
  | none => rfl
  | some d => simp [hg d ((Place.inTest_of_declaration? hd).trans (any_isTest_of_hidden hhidden))]

/-- The containers that remain, apart from what the rules do not read. -/
theorem map_alone_familyDeclarations_pruned (c : Config) (names : List String) :
    ((u.pruned c names).familyDeclarations c).map FamilyDeclaration.alone
      = (declarationsAt c (u.places.filter (Place.isShown c names))).map
        FamilyDeclaration.alone := by
  rw [familyDeclarations_eq, ← declarationsAt, ← declarationsAt_map_alone, outline_pruned,
    declarationsAt_map_alone]

theorem arityInterruption?_pruned (names : List String) :
    (u.familyDeclarations c).filterMap FamilyDeclaration.arityInterruption?
      = ((u.pruned c names).familyDeclarations c).filterMap
        FamilyDeclaration.arityInterruption? := by
  have halone : ∀ ds : List FamilyDeclaration,
      (ds.map FamilyDeclaration.alone).filterMap FamilyDeclaration.arityInterruption?
        = ds.filterMap FamilyDeclaration.arityInterruption? := by
    intro ds
    rw [List.filterMap_map]
    rfl
  rw [← halone ((u.pruned c names).familyDeclarations c), map_alone_familyDeclarations_pruned,
    halone, familyDeclarations_eq]
  exact filterMap_declarationsAt_isShown c names fun d htest => if_pos htest

theorem checkInterruption?_pruned (hu : u.DistinctSiblings) (h : u.ShunsShown c names) :
    u.checkInterruption? c = (u.pruned c names).checkInterruption? c := by
  simp only [CompilationUnit.checkInterruption?, indexInterruption?_pruned hu h,
    Index.interruption?_eq, functorInterruption?_families, ← List.head?_filterMap]
  rw [arityInterruption?_pruned names, filterMap_rulings_pruned hu h (g := (·.useInterruption)) rfl,
    filterMap_rulings_pruned hu h (g := (·.leakInterruption)) rfl]

/-- Of families built elsewhere it matters only which of them lie at paths that have been seen. -/
theorem foreignFamilies_congr {fs : List Family} {seen seen' : List Path}
    (h : ∀ f ∈ fs, f.containerPath ∈ seen ↔ f.containerPath ∈ seen') :
    foreignFamilies seen fs = foreignFamilies seen' fs := by
  induction fs generalizing seen seen' with
  | nil => rfl
  | cons f fs ih =>
    have hf : seen.contains f.containerPath = seen'.contains f.containerPath := by
      simpa using h f List.mem_cons_self
    rw [foreignFamilies, foreignFamilies, hf,
      ih fun g hg => h g (List.mem_cons_of_mem _ hg),
      @ih (f.containerPath :: seen) (f.containerPath :: seen') fun g hg => by
        rw [List.mem_cons, List.mem_cons, h g (List.mem_cons_of_mem _ hg)]]

theorem mem_containerPaths {ps : List Place} {q : Path} :
    q ∈ (declarationsAt c ps).map (·.containerPath) ↔
      ∃ p ∈ ps, (p.declaration? c).isSome ∧ p.path = q := by
  simp only [List.mem_map, declarationsAt, List.mem_filterMap]
  constructor
  · rintro ⟨d, ⟨p, hp, hd⟩, rfl⟩
    exact ⟨p, hp, by rw [hd]; rfl, (Place.containerPath_of_declaration? hd).symm⟩
  · rintro ⟨p, hp, hsome, rfl⟩
    obtain ⟨d, hd⟩ := Option.isSome_iff_exists.1 hsome
    exact ⟨d, ⟨p, hp, hd⟩, Place.containerPath_of_declaration? hd⟩

/-- No family lies at the path of a place in a test of one of the names. -/
def CompilationUnit.Spares (u : CompilationUnit) (c : Config) (names : List String)
    (fs : List Family) : Prop :=
  ∀ f ∈ fs, ∀ p ∈ u.places, p.isShown c names = false → f.containerPath ≠ p.path

theorem functorFamilies_pruned {fs : List Family} (hfs : u.Spares c names fs) :
    functorFamilies (u.familyDeclarations c) fs
      = functorFamilies ((u.pruned c names).familyDeclarations c) fs := by
  have hpruned : functorFamilies ((u.pruned c names).familyDeclarations c) fs
      = functorFamilies (declarationsAt c (u.places.filter (Place.isShown c names))) fs := by
    rw [← functorFamilies_map_alone, map_alone_familyDeclarations_pruned, functorFamilies_map_alone]
  have hown : (declarationsAt c u.places).filterMap FamilyDeclaration.parameterized?
      = (declarationsAt c (u.places.filter (Place.isShown c names))).filterMap
        FamilyDeclaration.parameterized? :=
    filterMap_declarationsAt_isShown c names fun d htest => if_pos htest
  rw [hpruned, familyDeclarations_eq]
  show functorFamilies (declarationsAt c u.places) fs = _
  rw [functorFamilies, functorFamilies, hown]
  refine congrArg (_ ++ List.filterMap _ ·) (foreignFamilies_congr fun f hf => ?_)
  rw [mem_containerPaths, mem_containerPaths]
  constructor
  · rintro ⟨p, hp, hsome, hpath⟩
    cases hshown : p.isShown c names with
    | true => exact ⟨p, List.mem_filter.2 ⟨hp, hshown⟩, hsome, hpath⟩
    | false => exact absurd hpath.symm (hfs f hf p hp hshown)
  · rintro ⟨p, hp, hrest⟩
    exact ⟨p, (List.mem_filter.1 hp).1, hrest⟩

theorem violations_pruned (hu : u.DistinctSiblings) (h : u.ShunsShown c names) {fs : List Family}
    (hfs : u.Spares c names fs) :
    (u.index c).violations fs = ((u.pruned c names).index c).violations fs := by
  rw [Index.violations, Index.violations, Index.unstableUses_eq, Index.unstableUses_eq,
    Index.versionLeaks_eq, Index.versionLeaks_eq,
    filterMap_rulings_pruned hu h (g := (·.use)) rfl,
    filterMap_rulings_pruned hu h (g := (·.leak)) rfl]
  show Diagnostic.sort (_ ++ functorFamilies (u.familyDeclarations c) fs ++ _) = _
  rw [functorFamilies_pruned hfs]
  rfl

end Pruned

end Places

/-! ## Inert tests -/

/-- What the tests of some names hold makes no difference between two units. -/
structure TestsInert (u v : CompilationUnit) (c : Config) (names : List String) : Prop where
  /-- The check of one unit is interrupted exactly as that of the other. -/
  interrupted : u.checkInterruption? c = v.checkInterruption? c
  /-- The rules report the same in the same order, also if they are given families that lie outside
  of the tests. -/
  reported : ∀ fs, u.Spares c names fs → v.Spares c names fs →
    (u.index c).violations fs = (v.index c).violations fs
  /-- So they do beside the families that each unit builds. -/
  built : (u.index c).violations (u.families c) = (v.index c).violations (v.families c)
  /-- The rules have nothing to say of what is written in any test. -/
  silent : ∀ p ∈ u.places, p.line.any c.isTest = true →
    ∀ r ∈ (p.site c (u.familyDeclarations c)).references, (u.index c).ruling r = .silent
  /-- No family in any test is reported. -/
  unreported : ∀ d ∈ u.familyDeclarations c, d.inTest = true → d.parameterized? = none

theorem index_congr {u v : CompilationUnit} (h : u.modules = v.modules) (c : Config) :
    u.index c = v.index c := by
  cases u
  cases v
  cases h
  rfl

theorem checkInterruption?_congr {u v : CompilationUnit} (h : u.modules = v.modules) (c : Config) :
    u.checkInterruption? c = v.checkInterruption? c := by
  cases u
  cases v
  cases h
  rfl

/-- Two units that are the same without the tests of some names are checked alike, if no path that
is written outside of tests has one of the names as a component.  Where the names are not those of
all outermost tests, no alias in a remaining test may lead to one either. -/
theorem tests_inert {u v : CompilationUnit} {c : Config} {names : List String}
    (hu : u.DistinctSiblings) (hv : v.DistinctSiblings)
    (hsame : (u.pruned c names).modules = (v.pruned c names).modules)
    (hshuns : (u.pruned c names).Shuns c names) : TestsInert u v c names := by
  have hshuns' : (v.pruned c names).Shuns c names := by
    have hplaces : (v.pruned c names).places = (u.pruned c names).places :=
      congrArg (Place.ofModules []) hsame.symm
    exact ⟨hplaces ▸ hshuns.mentioned, hplaces ▸ hshuns.aliased⟩
  have hreported : ∀ fs, u.Spares c names fs → v.Spares c names fs →
      (u.index c).violations fs = (v.index c).violations fs := by
    intro fs hfs hfs'
    rw [violations_pruned hu hshuns.shown hfs, violations_pruned hv hshuns'.shown hfs',
      index_congr hsame]
  refine ⟨?_, hreported, ?_, fun p hp htest r hr => ?_, fun d _ htest => if_pos htest⟩
  · rw [checkInterruption?_pruned hu hshuns.shown, checkInterruption?_pruned hv hshuns'.shown,
      checkInterruption?_congr hsame]
  · rw [violations_families, violations_families]
    exact hreported [] (fun f hf => nomatch hf) fun f hf => nomatch hf
  · exact Index.ruling_of_test _ (context_of_mem_references htest hr)

/-- A unit with a leak outside of its test, and some modules in the test. -/
def testedUnit (modules : List ModuleDecl) (aliasOf : Option String) : CompilationUnit where
  name := "ledger"
  modules := [
    .bare "Account" [.bare "raw"] [
      { ModuleDecl.bare "Stable" [] [.bare "V1" [.bare "t"] []] with attributes := ["versioned"] },
      { ModuleDecl.bare "Tests" [] modules with aliasOf := aliasOf }],
    { ModuleDecl.bare "App" [] [] with functorArguments := ["Account.Stable.V1"] }]

/-- A family, a use of an ordinary type and a leak in a test. -/
def testedModules : List ModuleDecl := [
  { ModuleDecl.bare "Stable" []
      [.bare "V1" [{ TypeDecl.bare "t" with shape := .synonym (.ofPath "raw" []) }] []] with
    attributes := ["versioned"] },
  { ModuleDecl.bare "Old" [] [] with aliasOf := some "Stable.V1" }]

theorem tests_inert_testedUnit : (testedUnit testedModules none).DistinctSiblings ∧
    (testedUnit [] (some "App")).DistinctSiblings ∧
    ((testedUnit testedModules none).pruned .standard ["Tests"]).modules
      = ((testedUnit [] (some "App")).pruned .standard ["Tests"]).modules ∧
    ((testedUnit testedModules none).pruned .standard ["Tests"]).Shuns .standard ["Tests"] ∧
    TestsInert (testedUnit testedModules none) (testedUnit [] (some "App")) .standard
      ["Tests"] := by
  have hu : (testedUnit testedModules none).DistinctSiblings := by decide
  have hv : (testedUnit [] (some "App")).DistinctSiblings := by decide
  have hshuns : ((testedUnit testedModules none).pruned .standard ["Tests"]).Shuns .standard
      ["Tests"] := ⟨by decide, by decide⟩
  exact ⟨hu, hv, rfl, hshuns, tests_inert hu hv rfl hshuns⟩

/-- The leak outside of the test is reported. -/
example : (((testedUnit testedModules none).index .standard).versionLeaks).map (·.subject)
    = ["App"] := by
  decide +kernel

end SchemaVersioning
