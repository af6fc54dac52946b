import Mathlib.Data.List.Forall2
import SchemaVersioning.Analysis.Data
import SchemaVersioning.Failure
import SchemaVersioning.Proofs.LegibleReferences
import SchemaVersioning.Proofs.Numbering
import SchemaVersioning.Proofs.Order

/-!
# The outcome of an analysis

A unit that can be read has a result.  Its diagnostics are the findings of the builds and of the
rules in the order of reports, and the built families neither add to the findings of the rules nor
take from them (`violations_families`).  Declarations are generated for all containers or for none
(`forall₂_generated`).
-/

namespace SchemaVersioning

/-! ## Built families -/

section Builds

variable {d : FamilyDeclaration} {c : Config} {f : Family}

theorem family?_eq_some_iff : d.family? c = some f ↔ d.build c = .ok f := by
  unfold FamilyDeclaration.family?
  cases d.build c <;> simp

theorem exists_build (h : (d.family? c).isSome = true) : ∃ f, d.build c = .ok f := by
  obtain ⟨f, hf⟩ := Option.isSome_iff_exists.1 h
  exact ⟨f, family?_eq_some_iff.1 hf⟩

theorem parts_of_build (h : d.build c = .ok f) : f.toFamilyParts = d.parts c :=
  (FamilyDeclaration.build_eq_ok_iff.1 h).2.2

theorem containerPath_of_build (h : d.build c = .ok f) : f.containerPath = d.containerPath := by
  rw [parts_of_build h]
  rfl

theorem name_of_build (h : d.build c = .ok f) : f.name = d.name := by
  rw [parts_of_build h]
  rfl

theorem typeNames_of_build (h : d.build c = .ok f) : f.typeNames = d.typeNames c := by
  rw [parts_of_build h]
  rfl

end Builds

theorem mem_families {u : CompilationUnit} {c : Config} {f : Family} :
    f ∈ u.families c ↔ ∃ d ∈ u.familyDeclarations c, d.build c = .ok f := by
  simp only [CompilationUnit.families, List.mem_filterMap, family?_eq_some_iff]

/-! ## Findings of the rules -/

/-- Families at paths that have been seen are not checked again. -/
theorem foreignFamilies_eq_nil {seen : List Path} {fs : List Family}
    (h : ∀ f ∈ fs, f.containerPath ∈ seen) : foreignFamilies seen fs = [] := by
  induction fs with
  | nil => rfl
  | cons f fs ih =>
    have hf : seen.contains f.containerPath = true := by simpa using h f List.mem_cons_self
    rw [foreignFamilies, hf, Bool.true_or, if_pos rfl]
    exact ih fun g hg => h g (List.mem_cons_of_mem _ hg)

/-- The families that build are at paths that are declared. -/
theorem containerPath_mem_of_families {u : CompilationUnit} {c : Config} :
    ∀ f ∈ u.families c, f.containerPath ∈ (u.index c).declarations.map (·.containerPath) := by
  intro f hf
  obtain ⟨d, hd, hbuild⟩ := mem_families.1 hf
  rw [containerPath_of_build hbuild]
  exact List.mem_map_of_mem hd

theorem functorFamilies_families (u : CompilationUnit) (c : Config) :
    functorFamilies (u.index c).declarations (u.families c)
      = functorFamilies (u.index c).declarations [] := by
  rw [functorFamilies, functorFamilies, foreignFamilies_eq_nil containerPath_mem_of_families]
  rfl

theorem functorInterruption?_families (u : CompilationUnit) (c : Config) :
    functorInterruption? (u.index c).declarations (u.families c)
      = (u.familyDeclarations c).findSome? FamilyDeclaration.arityInterruption? := by
  rw [functorInterruption?, foreignFamilies_eq_nil containerPath_mem_of_families,
    List.findSome?_nil, Option.or_none]
  rfl

/-- The families that build make no difference to the findings of the rules. -/
theorem violations_families (u : CompilationUnit) (c : Config) :
    (u.index c).violations (u.families c) = (u.index c).violations [] := by
  rw [Index.violations, Index.violations, functorFamilies_families]

theorem sort_eq_nil_iff {ds : List Diagnostic} : Diagnostic.sort ds = [] ↔ ds = [] := by
  have hlength : (Diagnostic.sort ds).length = ds.length := List.length_mergeSort ds
  rw [← List.length_eq_zero_iff, hlength, List.length_eq_zero_iff]

/-! ## Arities -/

section Arities

variable {arities : List Int} {u : CompilationUnit} {c : Config}

theorem largestArity?_eq_none_iff : largestArity? arities = none ↔ ∀ a ∈ arities, ¬ 0 < a := by
  simp [largestArity?, List.max?_eq_none_iff, List.filter_eq_nil_iff]

theorem largestArity?_eq_some_iff {b : Int} : largestArity? arities = some b ↔
    (b ∈ arities ∧ 0 < b) ∧ ∀ a ∈ arities, 0 < a → a ≤ b := by
  simp [largestArity?, List.max?_eq_some_iff]

/-- The largest arity can be told exactly if all positive ones can. -/
theorem arityInterruption?_eq_none_iff : arityInterruption? arities = none ↔
    ∀ a ∈ arities, 0 < a → DecimalDigit.isShort a.natAbs = true := by
  unfold arityInterruption?
  cases hlargest : largestArity? arities with
  | none =>
    have hnone := largestArity?_eq_none_iff.1 hlargest
    exact iff_of_true rfl fun a ha hpos => absurd hpos (hnone a ha)
  | some b =>
    obtain ⟨⟨hb, hpos⟩, hle⟩ := largestArity?_eq_some_iff.1 hlargest
    simp only [ite_eq_left_iff, reduceCtorEq, imp_false, Bool.not_eq_true, Bool.not_eq_false]
    refine ⟨fun hshort a ha hapos => ?_, fun h => h b hb hpos⟩
    have := hle a ha hapos
    exact DecimalDigit.isShort_of_le (by omega) hshort

theorem arityInterruption?_eq_some {interruption : Interruption}
    (h : arityInterruption? arities = some interruption) : interruption = .overlongNumeral := by
  unfold arityInterruption? at h
  split at h
  · cases h
  · split at h
    · cases h
    · exact (Option.some.inj h).symm

/-- No functor around a container outside of tests has an arity of too many digits. -/
def FamilyDeclaration.TellsArities (d : FamilyDeclaration) : Prop :=
  d.inTest = false → ∀ a ∈ d.functorArities, DecimalDigit.isShort a = true

instance (d : FamilyDeclaration) : Decidable d.TellsArities :=
  inferInstanceAs (Decidable (_ → _))

/-- No functor around a container of the unit, outside of tests, has an arity of too many digits. -/
def CompilationUnit.TellsArities (u : CompilationUnit) (c : Config) : Prop :=
  ∀ d ∈ u.familyDeclarations c, d.TellsArities

instance (u : CompilationUnit) (c : Config) : Decidable (u.TellsArities c) :=
  inferInstanceAs (Decidable (∀ d ∈ _, _))

theorem FamilyDeclaration.arityInterruption?_eq_none_iff {d : FamilyDeclaration} :
    d.arityInterruption? = none ↔ d.TellsArities := by
  rw [FamilyDeclaration.arityInterruption?, TellsArities]
  cases d.inTest with
  | true => simp
  | false =>
    rw [if_neg (by decide), SchemaVersioning.arityInterruption?_eq_none_iff]
    simp only [List.forall_mem_map, true_implies]
    refine forall₂_congr fun a ha => ?_
    rcases Nat.eq_zero_or_pos a with rfl | hpos
    · exact iff_of_true (by simp) (by decide)
    · simp [hpos]

theorem FamilyDeclaration.arityInterruption?_eq_some {d : FamilyDeclaration}
    {interruption : Interruption} (h : d.arityInterruption? = some interruption) :
    interruption = .overlongNumeral := by
  unfold FamilyDeclaration.arityInterruption? at h
  split at h
  · cases h
  · exact SchemaVersioning.arityInterruption?_eq_some h

/-- A container that is not reported has no arity to tell. -/
theorem FamilyDeclaration.tellsArities_of_parameterized? {d : FamilyDeclaration}
    (h : d.parameterized? = none) : d.TellsArities := by
  rw [← arityInterruption?_eq_none_iff, arityInterruption?]
  rw [parameterized?, parameterizedFamily?] at h
  split
  · rfl
  · next htest =>
    rw [if_neg htest] at h
    rw [SchemaVersioning.arityInterruption?]
    cases hlargest : largestArity? (d.functorArities.map Int.ofNat) with
    | none => rfl
    | some a =>
      rw [hlargest] at h
      cases h

theorem tellsArities_iff : u.TellsArities c ↔
    (u.familyDeclarations c).findSome? FamilyDeclaration.arityInterruption? = none := by
  rw [List.findSome?_eq_none_iff]
  exact forall₂_congr fun d _ => d.arityInterruption?_eq_none_iff.symm

theorem interruption_of_not_tellsArities (h : ¬ u.TellsArities c) :
    (u.familyDeclarations c).findSome? FamilyDeclaration.arityInterruption?
      = some .overlongNumeral := by
  obtain ⟨interruption, hsome⟩ := Option.ne_none_iff_exists'.1 (tellsArities_iff.not.1 h)
  obtain ⟨d, -, hd⟩ := List.exists_of_findSome?_eq_some hsome
  rw [hsome, FamilyDeclaration.arityInterruption?_eq_some hd]

end Arities

/-! ## Generated declarations -/

/-- The bounds that hold of the fields of generated declarations. -/
structure GeneratedFamily.WithinBounds (g : GeneratedFamily) : Prop where
  family : g.family ≠ ""
  containerPath : g.containerPath ≠ []
  latestVersion : 1 ≤ g.latestVersion
  operations : 2 ≤ g.operations.length
  decodeOrder : g.decodeOrder ≠ []

theorem withinBounds_synthesize {u : CompilationUnit} {c : Config} (hw : u.WellNamed)
    {d : FamilyDeclaration} (hd : d ∈ u.familyDeclarations c) {f : Family}
    (h : d.build c = .ok f) : (f.synthesize c).WithinBounds where
  family := by
    rw [show (f.synthesize c).family = d.name from name_of_build h]
    exact FamilyDeclaration.name_ne_empty hw hd
  containerPath := by
    rw [show (f.synthesize c).containerPath = d.containerPath from containerPath_of_build h]
    simp [FamilyDeclaration.containerPath]
  latestVersion := one_le_latest f
  operations := by
    have hnames : 1 ≤ f.typeNames.length := by
      rw [typeNames_of_build h, FamilyDeclaration.typeNames]
      cases d.kind <;> simp [Config.versionedTypeNames]
    have hlength : (f.synthesize c).operations.length = f.typeNames.length * 2 := by
      simp [Family.synthesize, Family.operationsOf, List.length_flatMap]
    omega
  decodeOrder := by
    simp [Family.synthesize, Family.decodeOrder, f.nonempty]

theorem forall₂_filterMap {α β : Type} {f : α → Option β} {as : List α}
    (h : ∀ a ∈ as, (f a).isSome) : List.Forall₂ (fun a b => f a = some b) as (as.filterMap f) := by
  induction as with
  | nil => exact .nil
  | cons a as ih =>
    obtain ⟨b, hb⟩ := Option.isSome_iff_exists.1 (h a List.mem_cons_self)
    rw [List.filterMap_cons_some hb]
    exact .cons hb (ih fun e he => h e (List.mem_cons_of_mem _ he))

/-- A unit without diagnostics has declarations for each container, in order. -/
theorem forall₂_generated {u : CompilationUnit} {c : Config} (h : u.diagnostics c = []) :
    List.Forall₂ (fun d g => ∃ f, d.build c = .ok f ∧ g = f.synthesize c)
      (u.familyDeclarations c) (u.analyze c).generated := by
  have hbuilds : ∀ d ∈ u.familyDeclarations c, (d.family? c).isSome := by
    intro d hd
    have hnil : u.buildDiagnostics c = [] :=
      (List.append_eq_nil_iff.1 (sort_eq_nil_iff.1 h)).1
    exact FamilyDeclaration.buildDiagnostics_eq_nil_iff.1 (List.flatMap_eq_nil_iff.1 hnil d hd)
  have hgenerated : (u.analyze c).generated = (u.families c).map (·.synthesize c) := by
    simp [CompilationUnit.analyze, h]
  rw [hgenerated, List.forall₂_map_right_iff]
  exact (forall₂_filterMap hbuilds).imp fun d f hf => ⟨f, family?_eq_some_iff.1 hf, rfl⟩

/-! ## The result -/

/-- What the result of analyzing a unit holds: the families that build and the diagnostics of all
builds and rules, each in their order, and generated declarations for each container if there are no
diagnostics.  No bound of the result and of the generated declarations is broken. -/
structure CompilationResult.Describes (r : CompilationResult) (u : CompilationUnit) (c : Config) :
    Prop where
  unitName : r.unitName = u.name
  families : r.families = (u.familyDeclarations c).filterMap (·.family? c)
  diagnostics : Diagnostic.StablySorts r.diagnostics
    ((u.familyDeclarations c).flatMap (·.buildDiagnostics c) ++ (u.index c).violations [])
  sortedOnce : Diagnostic.StablySorts r.diagnostics
    ((u.familyDeclarations c).flatMap (·.buildDiagnostics c) ++ ((u.index c).unstableUses
      ++ functorFamilies (u.index c).declarations [] ++ (u.index c).versionLeaks))
  passed : r.passed = true ↔ r.diagnostics = []
  aligned : r.passed = true → List.Forall₂
    (fun d g => g.containerPath = d.containerPath ∧ ∃ f, d.build c = .ok f ∧ g = f.synthesize c)
    (u.familyDeclarations c) r.generated
  nothing : r.passed = false → r.generated = []
  flag : CompilationResult.flagFault? r.passed r = none
  withinBounds : ∀ g ∈ r.generated, g.WithinBounds

section Result

variable {u : CompilationUnit} {c : Config}

theorem analyzed_eq (hw : u.WellNamed) (hu : u.Legible) (ha : u.TellsArities c) :
    u.analyzed c = .ok (u.analyze c) := by
  rw [CompilationUnit.analyzed, CompilationUnit.analyze?, interruption?_eq_of_legible hw hu,
    functorInterruption?_families, tellsArities_iff.1 ha]
  rfl

/-- An arity that cannot be told ends the analysis. -/
theorem analyzed_eq_tooLarge (hw : u.WellNamed) (hu : u.Legible) (ha : ¬ u.TellsArities c) :
    u.analyzed c = .error .tooLarge := by
  rw [CompilationUnit.analyzed, CompilationUnit.analyze?, interruption?_eq_of_legible hw hu,
    functorInterruption?_families, interruption_of_not_tellsArities ha]
  rfl

theorem compile_eq {r : CompilationResult} (h : u.analyzed c = .ok r) :
    u.compile c = r.settled := by
  rw [CompilationUnit.compile, h]
  rfl

theorem passed_iff (r : CompilationResult) : r.passed = true ↔ r.diagnostics = [] :=
  List.isEmpty_iff

theorem stablySorts_diagnostics : Diagnostic.StablySorts (u.diagnostics c)
    ((u.familyDeclarations c).flatMap (·.buildDiagnostics c) ++ (u.index c).violations []) := by
  rw [← violations_families]
  exact Diagnostic.stablySorts_sort _

theorem generated_eq_nil (h : (u.analyze c).passed = false) : (u.analyze c).generated = [] := by
  have hne : (u.diagnostics c).isEmpty = false := h
  simp [CompilationUnit.analyze, hne]

theorem exists_of_mem_generated {g : GeneratedFamily} (hg : g ∈ (u.analyze c).generated) :
    ∃ f ∈ u.families c, f.synthesize c = g := by
  cases hpassed : (u.analyze c).passed with
  | false =>
    rw [generated_eq_nil hpassed] at hg
    cases hg
  | true =>
    have hnil : (u.diagnostics c).isEmpty = true := hpassed
    simp only [CompilationUnit.analyze, hnil, if_true] at hg
    exact List.mem_map.1 hg

theorem flagFault?_analyze :
    CompilationResult.flagFault? (u.analyze c).passed (u.analyze c) = none := by
  unfold CompilationResult.flagFault?
  rw [if_neg (by simp [CompilationResult.passed])]
  cases hpassed : (u.analyze c).passed with
  | true => simp [(passed_iff _).1 hpassed]
  | false => simp [generated_eq_nil hpassed]

theorem describes_analyze (hw : u.WellNamed) : (u.analyze c).Describes u c where
  unitName := rfl
  families := rfl
  diagnostics := stablySorts_diagnostics
  sortedOnce := stablySorts_diagnostics.of_append (Diagnostic.stablySorts_sort _)
  passed := passed_iff _
  aligned hpassed := by
    refine (forall₂_generated ((passed_iff _).1 hpassed)).imp fun d g hg => ⟨?_, hg⟩
    obtain ⟨f, hf, rfl⟩ := hg
    exact containerPath_of_build hf
  nothing := generated_eq_nil
  flag := flagFault?_analyze
  withinBounds g hg := by
    obtain ⟨f, hf, rfl⟩ := exists_of_mem_generated hg
    obtain ⟨d, hd, hbuild⟩ := mem_families.1 hf
    exact withinBounds_synthesize hw hd hbuild

/-- The place of each diagnostic that a summary shows has a line and a column of no more than 4300
digits. -/
def CompilationResult.Tellable (r : CompilationResult) : Prop :=
  ∀ d ∈ r.diagnostics.take 5, ∀ l, d.location = some l →
    l.line < DecimalDigit.limit ∧ l.column < DecimalDigit.limit

theorem tellable_iff {r : CompilationResult} : r.Tellable ↔
    ((r.diagnostics.take Diagnostic.maxShown).all (·.isTellable)) = true := by
  rw [List.all_eq_true]
  refine forall₂_congr fun d _ => ?_
  rw [Diagnostic.isTellable]
  cases d.location with
  | none => simp
  | some l => simp [DecimalDigit.isShort_iff]

/-- What compiling a unit comes to if its analysis has a result: the result if it passes, and else
the failure with its diagnostics, if the places of those that are shown can be told. -/
structure CompilationResult.Settles (r : CompilationResult)
    (outcome : Except Failure CompilationResult) : Prop where
  passed : r.passed = true → outcome = .ok r
  failed : r.passed = false → r.Tellable → outcome = .error (.violations r.diagnostics)
  untold : r.passed = false → ¬ r.Tellable → outcome = .error .tooLarge

theorem settles_settled (r : CompilationResult) : r.Settles r.settled where
  passed h := by rw [CompilationResult.settled, if_pos h]
  failed h htell := by
    rw [CompilationResult.settled, if_neg (by simp [h]), Failure.ofDiagnostics,
      if_pos (tellable_iff.1 htell)]
  untold h htell := by
    rw [CompilationResult.settled, if_neg (by simp [h]), Failure.ofDiagnostics,
      if_neg (tellable_iff.not.1 htell)]

/-- The analysis of a unit with named modules that can be read gives a result that describes the
unit, which settles what compiling the unit comes to.  Only the arity of a functor around a family
can keep it from a result, by having too many digits; the unit does not compile then. -/
theorem analysis_describes_unit (hw : u.WellNamed) (hu : u.Legible) :
    (u.TellsArities c → ∃ r, u.analyzed c = .ok r ∧ r.Describes u c ∧ r.Settles (u.compile c)) ∧
    (¬ u.TellsArities c →
      u.analyzed c = .error .tooLarge ∧ u.compile c = .error .tooLarge) := by
  refine ⟨fun ha => ?_, fun ha => ?_⟩
  · have hok := analyzed_eq hw hu ha
    refine ⟨u.analyze c, hok, describes_analyze hw, ?_⟩
    rw [compile_eq hok]
    exact settles_settled _
  · have herror := analyzed_eq_tooLarge hw hu ha
    exact ⟨herror, by rw [CompilationUnit.compile, herror]; rfl⟩

end Result

/-- A unit with a family, a container without its first version, and a leak. -/
def mixedUnit : CompilationUnit where
  name := "ledger"
  modules := [
    .bare "Account" [] [
      { ModuleDecl.bare "Stable" [] [.bare "V1" [.bare "t"] []] with attributes := ["versioned"] }],
    .bare "Order" [] [
      { ModuleDecl.bare "Stable" [] [.bare "V2" [.bare "t"] []] with attributes := ["versioned"] }],
    { ModuleDecl.bare "App" [] [] with functorArguments := ["Account.Stable.V1"] }]

theorem analysis_describes_mixedUnit : mixedUnit.WellNamed ∧ mixedUnit.Legible ∧
    mixedUnit.TellsArities .standard ∧
    ∃ r, mixedUnit.analyzed .standard = .ok r ∧ r.Describes mixedUnit .standard ∧
      r.Settles (mixedUnit.compile .standard) :=
  have hw : mixedUnit.WellNamed := by decide
  have hu : mixedUnit.Legible := by decide
  have ha : mixedUnit.TellsArities .standard := by decide +kernel
  ⟨hw, hu, ha, (analysis_describes_unit hw hu).1 ha⟩

/-- The failed build does not hide the leak. -/
example : (mixedUnit.index .standard).versionLeaks.map (·.rule) = [.specificVersionLeak] := by
  decide +kernel

/-- A unit with a family inside a functor of some parameters. -/
def functorUnit (arity : Nat) : CompilationUnit where
  name := "ledger"
  modules := [
    { ModuleDecl.bare "Account" [] [
        { ModuleDecl.bare "Stable" [] [.bare "V1" [.bare "t"] []] with
          attributes := ["versioned"] }] with functor := some ⟨arity, [], Nat.zero_le _⟩ }]

theorem arity_lt_of_tellsArities {arity : Nat} (h : (functorUnit arity).TellsArities .standard) :
    arity < DecimalDigit.limit :=
  DecimalDigit.isShort_iff.1 (h _ List.mem_cons_self rfl arity List.mem_cons_self)

/-- Neither the analysis of the unit nor compiling it has a result if the number of parameters has
too many digits. -/
theorem functorUnit_interrupted :
    (functorUnit DecimalDigit.limit).WellNamed ∧
    (functorUnit DecimalDigit.limit).Legible ∧
    (functorUnit DecimalDigit.limit).analyzed .standard = .error .tooLarge ∧
    (functorUnit DecimalDigit.limit).compile .standard = .error .tooLarge := by
  have hw : (functorUnit DecimalDigit.limit).WellNamed := by decide
  have hu : (functorUnit DecimalDigit.limit).Legible := by decide
  have herror := analyzed_eq_tooLarge hw hu fun ha => (arity_lt_of_tellsArities ha).false
  exact ⟨hw, hu, herror, by rw [CompilationUnit.compile, herror]; rfl⟩

end SchemaVersioning
