import SchemaVersioning.Proofs.LegibleReferences
import SchemaVersioning.Proofs.Shapes
import SchemaVersioning.Proofs.Tables

/-!
# Reports of leaks

Which references into the versions of a container are reported.  A path that names a version module
is resolved through the table of versions, whatever the container is called.  The modules nested in
a version are in no table: a path that names one of them is reported only if what it is rewritten to
is a version again or has the shape of one (`leaks_reported_exactly`).
-/

namespace SchemaVersioning

/-! ## Modules that show a version -/

namespace Index

variable {index : Index}

/-- A spelling of a module is rewritten to a version in the table, or to a path that is declared
nowhere, begins with no alias and has the shape of a version. -/
def ShowsVersion (index : Index) (σ : Spelling) (f : String) (j : Nat) : Prop :=
  ∃ trail τ, index.Rewrites true σ trail τ ∧
    ((∃ e, index.lookupSpelling true τ = some e ∧ e.standing = .version f j) ∨
      (index.lookupSpelling true τ = none ∧ (∀ υ, ¬ index.AliasStep true τ υ) ∧
        index.config.ShowsVersion τ.path f j))

/-- No alias is followed from the declaration of a module. -/
theorem declaredResolution_module {visiting : List Path} {e : Declared} :
    index.declaredResolution true visiting e = e.resolution := by
  unfold declaredResolution
  cases e.plainTarget? <;> rfl

/-- What a declaration gives is a version exactly when the declaration is one. -/
theorem declaredResolution_eq_version_iff {isModule : Bool} {visiting : List Path} {e : Declared}
    {f : String} {j : Nat} :
    (index.declaredResolution isModule visiting e).standing = .version f j ↔
      e.standing = .version f j := by
  cases isModule with
  | true =>
    rw [declaredResolution_module]
    rfl
  | false =>
    constructor
    · intro h
      rwa [declaredResolution_of_version h] at h
    · intro h
      rwa [declaredResolution_of_ne_plain (by simp [h])]

theorem resolve_module_of_lookup {σ : Spelling} {e : Declared}
    (h : index.lookupSpelling true σ = some e) :
    index.resolveSpelling true σ = e.resolution := by
  rw [resolveSpelling, resolvePath_of_lookup (Or.inl rfl) h, declaredResolution_module]

theorem resolve_module_of_undeclared {σ : Spelling} (h : index.lookupSpelling true σ = none)
    (hrests : ∀ υ, ¬ index.AliasStep true σ υ) :
    index.resolveSpelling true σ = ⟨index.config.standingByShape [] σ.path, σ.path⟩ :=
  resolvePath_of_unknown (Or.inl rfl) h (aliasStep?_eq_none_iff.2 hrests)

theorem resolve_module_eq_version_iff {σ : Spelling} {f : String} {j : Nat} :
    (index.resolveSpelling true σ).standing = .version f j ↔ index.ShowsVersion σ f j := by
  constructor
  · intro h
    obtain ⟨trail, τ, hrewrites, hrests⟩ := exists_rewrites index true σ
    rw [resolve_of_rewrites hrewrites fun _ _ => Or.inl rfl] at h
    refine ⟨trail, τ, hrewrites, ?_⟩
    cases hlookup : index.lookupSpelling true τ with
    | some e =>
      rw [resolve_module_of_lookup hlookup] at h
      exact Or.inl ⟨e, rfl, h⟩
    | none =>
      have hnone := hrests.resolve_left (not_not.2 hlookup)
      rw [resolve_module_of_undeclared hlookup hnone] at h
      exact Or.inr ⟨rfl, hnone, Config.standingByShape_eq_version_iff.1 h⟩
  · rintro ⟨trail, τ, hrewrites, h⟩
    rw [resolve_of_rewrites hrewrites fun _ _ => Or.inl rfl]
    rcases h with ⟨e, hlookup, he⟩ | ⟨hlookup, hnone, hshape⟩
    · rw [resolve_module_of_lookup hlookup]
      exact he
    · rw [resolve_module_of_undeclared hlookup hnone]
      exact Config.standingByShape_eq_version_iff.2 hshape

end Index

/-! ## Modules in versions -/

/-- The paths of modules: those that are declared, and the alias that every family has. -/
def CompilationUnit.NamesModule (u : CompilationUnit) (c : Config) (q : Path) : Prop :=
  (∃ p ∈ u.places, p.path = q) ∨ ∃ d ∈ u.familyDeclarations c, d.latestPath c = q

/-- A module outside of tests is a version of a container, or it is nested in that version. -/
def Place.LiesIn (M : Place) (u : CompilationUnit) (c : Config) (d : FamilyDeclaration) (k : Nat)
    (nested : List ModuleDecl) : Prop :=
  M ∈ u.places ∧ M.line.any c.isTest = false ∧ ∃ (P : Place) (v : ModuleDecl),
    P.declaration? c = some d ∧ versionNumber? v.name = some k ∧ M.line = P.line ++ v :: nested

section Leaks

variable {u : CompilationUnit} {c : Config} {M : Place} {d : FamilyDeclaration} {k : Nat}

theorem namesModule_of_declares {q : Path} (h : (u.index c).modules.Declares q) :
    u.NamesModule c q := by
  obtain ⟨e, he, rfl⟩ := h
  rcases mem_index_modules.1 he with ⟨a, ha, rfl⟩ | ⟨p, hp, he⟩
  · exact Or.inr ⟨a, ha, rfl⟩
  · exact Or.inl ⟨p, hp, (path_of_mem_declaredVersion he).symm⟩

theorem Place.LiesIn.mem_familyDeclarations {nested : List ModuleDecl}
    (h : M.LiesIn u c d k nested) : d ∈ u.familyDeclarations c := by
  obtain ⟨hM, -, P, v, hP, -, hline⟩ := h
  refine SchemaVersioning.mem_familyDeclarations.2 ⟨P, mem_places.2 ?_, hP⟩
  have hlineage := mem_places.1 hM
  rw [hline] at hlineage
  exact (lineage_append.1 hlineage).1

/-- A line that leads to a container ends with a module that has a family attribute. -/
theorem containerAt?_eq_none (hu : u.DistinctSiblings) {line : List ModuleDecl} {m : ModuleDecl}
    (hline : Lineage u.modules (line ++ [m])) (hm : m.familyAttribute? = none) :
    containerAt? (u.familyDeclarations c) (Path.ofLine (line ++ [m])) = none := by
  rw [containerAt?, List.getLast?_eq_none_iff, List.filter_eq_nil_iff]
  intro e he hpath
  obtain ⟨q, hq, hqe⟩ := mem_familyDeclarations.1 he
  rw [decide_eq_true_eq, Place.containerPath_of_declaration? hqe] at hpath
  have hsame : q.line = line ++ [m] := hu.eq_of_ofLine_eq (mem_places.1 hq) hline hpath
  obtain ⟨-, hmodule⟩ := List.append_inj' (show q.ancestors ++ [q.module] = line ++ [m] from hsame) rfl
  obtain ⟨_, hattribute, -⟩ := Option.map_eq_some_iff.1 hqe
  rw [(List.cons.inj hmodule).1, hm] at hattribute
  cases hattribute

theorem within_concat_of_version {line : List ModuleDecl} {m : ModuleDecl} {f : String}
    (hline : Context.within c (u.familyDeclarations c) line = .version f k)
    (htest : c.isTest m = false)
    (hparent : containerAt? (u.familyDeclarations c) (Path.ofLine line) = none) :
    Context.within c (u.familyDeclarations c) (line ++ [m]) = .version f k := by
  rw [Context.within_concat, hline, Context.enter, if_neg (by simp [htest]), hparent]
  rfl

/-- Modules that are no containers lead on in the context of the version around them. -/
theorem within_nested (hu : u.DistinctSiblings) {line nested : List ModuleDecl} {v : ModuleDecl}
    (hlineage : Lineage u.modules (line ++ v :: nested))
    (htest : (line ++ v :: nested).any c.isTest = false)
    (hversion : Context.within c (u.familyDeclarations c) (line ++ [v]) = .version d.name k)
    (hplain : ∀ m ∈ (v :: nested).dropLast, m.familyAttribute? = none) :
    Context.within c (u.familyDeclarations c) (line ++ v :: nested) = .version d.name k := by
  induction nested using List.reverseRecOn with
  | nil => exact hversion
  | append_singleton nested m ih =>
    have hsplit : line ++ v :: (nested ++ [m]) = (line ++ v :: nested) ++ [m] := by simp
    have hlast : (v :: (nested ++ [m])).dropLast = v :: nested := by
      rw [← List.cons_append, List.dropLast_concat]
    rw [hsplit] at hlineage htest ⊢
    rw [hlast] at hplain
    rw [List.any_append, Bool.or_eq_false_iff] at htest
    have hbefore := (lineage_append.1 hlineage).1
    refine within_concat_of_version (ih hbefore htest.1 fun n hn =>
      hplain n (List.dropLast_subset _ hn)) (by simpa using htest.2) ?_
    rcases List.eq_nil_or_concat (v :: nested) with hnil | ⟨init, n, hconcat⟩
    · cases hnil
    · rw [hconcat, List.concat_eq_append] at hbefore hplain ⊢
      rw [← List.append_assoc] at hbefore ⊢
      exact containerAt?_eq_none hu hbefore
        (hplain n (List.mem_append_right _ (List.mem_singleton_self n)))

/-- A module in a version has the context of that version unless it lies in a further container. -/
theorem context_of_liesIn (hu : u.DistinctSiblings) {nested : List ModuleDecl}
    (h : M.LiesIn u c d k nested)
    (hplain : ∀ m ∈ M.ancestors.drop d.containerPath.length, m.familyAttribute? = none) :
    Context.within c (u.familyDeclarations c) M.line = .version d.name k := by
  have hd := h.mem_familyDeclarations
  obtain ⟨hM, htest, P, v, hP, hk, hline⟩ := h
  have hlineage := mem_places.1 hM
  have hpath : d.containerPath = Path.ofLine P.line := Place.containerPath_of_declaration? hP
  rw [hline] at hlineage htest ⊢
  have hversion : Context.within c (u.familyDeclarations c) (P.line ++ [v])
      = .version d.name k := by
    rw [List.append_cons, List.any_append, Bool.or_eq_false_iff] at htest
    exact within_version htest.1 (hpath ▸ containerAt?_eq hu hd) hk
  refine within_nested hu hlineage htest hversion fun m hm => hplain m ?_
  have hancestors : M.ancestors = P.line ++ (v :: nested).dropLast := by
    have : M.ancestors = M.line.dropLast := by simp [Place.line]
    rw [this, hline, List.dropLast_append_of_ne_nil (by simp)]
  rwa [hancestors, hpath, length_ofLine, List.drop_left]

/-! ## References that name them -/

/-- The module in force at the path of a version module is that version. -/
theorem Place.LiesIn.find?_modules (hu : u.DistinctSiblings) (h : M.LiesIn u c d k []) :
    (u.index c).modules.find? M.path = some ⟨M.path, .version d.name k, [], none⟩ := by
  have hd := h.mem_familyDeclarations
  obtain ⟨hM, htest, P, v, hP, hk, hline⟩ := h
  obtain ⟨hancestors, hmodule⟩ := List.append_inj'
    (show M.ancestors ++ [M.module] = P.line ++ [v] from hline) rfl
  refine find?_version hu hM hd ?_ ?_ htest
  · rw [hancestors, Place.containerPath_of_declaration? hP]
    rfl
  · rw [(List.cons.inj hmodule).1]
    exact hk

/-- A path that names a module is looked up as what the table holds for that module. -/
theorem lookup_module {p scope q : Path} {e : Declared}
    (hfind : (u.index c).modules.find? q = some e)
    (hp : Innermost (u.NamesModule c) p scope q) :
    (u.index c).modules.lookup p scope = some e := by
  obtain rfl := Table.path_of_find? hfind
  obtain ⟨i, hi, heq, -, hnone⟩ := hp
  refine Table.lookup_eq_some_iff.2 ⟨⟨i, hi, heq, ?_, fun j hj hn hdeclared => ?_⟩, hfind⟩
  · rw [Table.declares_iff, hfind]
    rfl
  · exact hnone j hj hn (namesModule_of_declares hdeclared)

theorem mayName_eq_false_iff {context : Context} (h : context.isExempt = false) {f : String} :
    context.mayName f = false ↔ context ≠ .latestAlias f := by
  cases context with
  | latestAlias own => simp [Context.mayName, eq_comm]
  | version => cases h
  | test => cases h
  | _ => simp [Context.mayName]

theorem leak_isSome_iff {index : Index} {r : Reference} (h : r.context.isExempt = false) :
    (index.versionLeak? r).isSome ↔
      ∃ f j, (index.resolveSpelling r.isModule r.spelling).standing = .version f j ∧
        r.context ≠ .latestAlias f := by
  rw [Index.versionLeak?_isSome_iff]
  simp only [mayName_eq_false_iff h]
  rfl

/-- A type in force has the standing of a version exactly in the context of that version. -/
theorem standingOf_eq_version_iff {context : Context} {t : TypeDecl} {f : String} {j : Nat} :
    Site.standingOf context t = .version f j ↔ context = .version f j := by
  unfold Site.standingOf
  cases context with
  | version g n => simp
  | test => simp
  | latestAlias g => simp
  | functorBody n => cases t.isUnversioned <;> simp
  | ordinary => cases t.isUnversioned <;> simp

/-- The resolution of a type path that names a type of a module is that of the context inside. -/
theorem resolve_type_eq_version_iff (hu : u.DistinctSiblings) (hM : M ∈ u.places) {t : TypeDecl}
    (ht : t ∈ M.module.types) {σ τ : Spelling} {trail : List Path}
    (hrewrites : (u.index c).Rewrites false σ trail τ)
    (hnames : Innermost (u.index c).types.Declares τ.path τ.scope (M.path ++ [t.name])) {f : String}
    {j : Nat} : ((u.index c).resolveSpelling false σ).standing = .version f j ↔
      (∀ p ∈ trail ++ [τ.path], c.isBuiltin p = false) ∧
        Context.within c (u.familyDeclarations c) M.line = .version f j := by
  obtain ⟨e, t', hfind, hstanding⟩ := find?_type (c := c) hu hM ht
  have hpath := Table.path_of_find? hfind
  have hlookup : (u.index c).lookupSpelling false τ = some e := by
    refine Table.lookup_eq_some_iff.2 ⟨?_, ?_⟩
    · rw [hpath]
      exact hnames
    · rw [hpath]
      exact hfind
  by_cases hbuiltin : ∀ p ∈ trail ++ [τ.path], c.isBuiltin p = false
  · rw [Index.resolve_of_names ⟨trail, hrewrites, hbuiltin, hlookup⟩,
      Index.declaredResolution_eq_version_iff, hstanding, standingOf_eq_version_iff]
    exact ⟨fun h => ⟨hbuiltin, h⟩, fun h => h.2⟩
  · have hmet : ∃ p ∈ trail ++ [τ.path], c.isBuiltin p = true := by
      simpa only [not_forall, Bool.not_eq_false, exists_prop] using hbuiltin
    rw [Index.standing_of_builtin hrewrites hmet]
    simp only [reduceCtorEq, false_iff, not_and]
    exact fun h => absurd h hbuiltin

end Leaks

/-- When a reference is reported whose path is rewritten to a spelling, if that spelling names a
module in a version of a container or one of its types. -/
structure ReportedExactly (u : CompilationUnit) (c : Config) (M : Place) (d : FamilyDeclaration)
    (k : Nat) (nested : List ModuleDecl) (r : Reference) (trail : List Path) (σ : Spelling) :
    Prop where
  /-- A version module is reported except to the latest alias of a family of the same name. -/
  version : r.isModule = true → nested = [] → Innermost (u.NamesModule c) σ.path σ.scope M.path →
    (((u.index c).versionLeak? r).isSome ↔ r.context ≠ .latestAlias d.name)
  /-- Any module is reported if its spelling shows a version. -/
  module : r.isModule = true → Innermost (u.NamesModule c) σ.path σ.scope M.path →
    (((u.index c).versionLeak? r).isSome ↔
      ∃ f j, (u.index c).ShowsVersion σ f j ∧ r.context ≠ .latestAlias f)
  /-- A type is reported if nothing on the way to it is built in and its module is in a version. -/
  type : r.isModule = false → ∀ t ∈ M.module.types,
    Innermost (u.index c).types.Declares σ.path σ.scope (M.path ++ [t.name]) →
      (((u.index c).versionLeak? r).isSome ↔
        (∀ p ∈ trail ++ [σ.path], c.isBuiltin p = false) ∧
          ∃ f j, Context.within c (u.familyDeclarations c) M.line = .version f j ∧
            r.context ≠ .latestAlias f)
  /-- The module is in the version around it unless there is a further container in between. -/
  context : (∀ m ∈ M.ancestors.drop d.containerPath.length, m.familyAttribute? = none) →
    Context.within c (u.familyDeclarations c) M.line = .version d.name k

/-- References that are written outside of versions and tests, and that name a module in a version
of a discovered container or one of its types, are reported exactly as `ReportedExactly` says. -/
theorem leaks_reported_exactly {u : CompilationUnit} {c : Config} (hu : u.DistinctSiblings)
    {M : Place} {d : FamilyDeclaration} {k : Nat} {nested : List ModuleDecl}
    (h : M.LiesIn u c d k nested) {r : Reference} (hcontext : r.context.isExempt = false)
    {trail : List Path} {σ : Spelling}
    (hrewrites : (u.index c).Rewrites r.isModule r.spelling trail σ) :
    ReportedExactly u c M d k nested r trail σ where
  version hm hnested hnames := by
    subst hnested
    rw [hm] at hrewrites
    rw [leak_isSome_iff hcontext, hm, Index.resolve_of_rewrites hrewrites fun _ _ => Or.inl rfl,
      Index.resolve_module_of_lookup (lookup_module (h.find?_modules hu) hnames)]
    simp [Declared.resolution]
  module hm hnames := by
    rw [hm] at hrewrites
    rw [leak_isSome_iff hcontext, hm, Index.resolve_of_rewrites hrewrites fun _ _ => Or.inl rfl]
    simp only [Index.resolve_module_eq_version_iff]
  type hm t ht hnames := by
    rw [hm] at hrewrites
    rw [leak_isSome_iff hcontext, hm]
    simp only [resolve_type_eq_version_iff hu h.1 ht hrewrites hnames]
    constructor
    · rintro ⟨f, j, ⟨hbuiltin, hwithin⟩, hne⟩
      exact ⟨hbuiltin, f, j, hwithin, hne⟩
    · rintro ⟨hbuiltin, f, j, hwithin, hne⟩
      exact ⟨f, j, ⟨hbuiltin, hwithin⟩, hne⟩
  context := context_of_liesIn hu h

/-! ## A container of another name -/

/-- A module that is nested in a version. -/
def innerModule : ModuleDecl := .bare "Inner" [.bare "u"] []

/-- A version with a nested module. -/
def frozenVersion : ModuleDecl := .bare "V1" [.bare "t"] [innerModule]

/-- A container that is not called by the conventional name. -/
def frozenContainer : ModuleDecl :=
  { ModuleDecl.bare "Frozen" [] [frozenVersion] with attributes := ["versioned"] }

/-- The declaration of the family of the container. -/
def frozenDeclaration : FamilyDeclaration where
  container := frozenContainer
  parentPath := ["Account"]
  kind := .type
  strategy := .plain
  functorArities := []
  inTest := false
  parentTypes := []

/-- A unit with the container and with a functor argument. -/
def frozenUnit (argument : String) : CompilationUnit where
  name := "ledger"
  modules := [.bare "Account" [] [frozenContainer],
    { ModuleDecl.bare "App" [] [] with functorArguments := [argument] }]

/-- The place of the version. -/
def frozenPlace : Place := ⟨[.bare "Account" [] [frozenContainer], frozenContainer], frozenVersion⟩

/-- The place of the nested module. -/
def innerPlace : Place := ⟨frozenPlace.line, innerModule⟩

/-- The reference to the functor argument. -/
def argumentReference (argument : String) : Reference where
  path := Path.ofDotted argument
  scope := []
  owner := "App"
  context := .ordinary
  definition := false
  exempt := false
  isModule := true
  location := none

theorem frozenPlace_liesIn (argument : String) :
    frozenPlace.LiesIn (frozenUnit argument) .standard frozenDeclaration 1 [] :=
  ⟨mem_places.2 ⟨List.mem_cons_self, List.mem_cons_self, List.mem_cons_self, trivial⟩, by decide,
    ⟨[.bare "Account" [] [frozenContainer]], frozenContainer⟩, frozenVersion, rfl, by decide, rfl⟩

theorem innerPlace_liesIn (argument : String) :
    innerPlace.LiesIn (frozenUnit argument) .standard frozenDeclaration 1 [innerModule] :=
  ⟨mem_places_of_member (frozenPlace_liesIn argument).1 List.mem_cons_self, by decide,
    ⟨[.bare "Account" [] [frozenContainer]], frozenContainer⟩, frozenVersion, rfl, by decide, rfl⟩

theorem leaks_reported_exactly_frozenUnit :
    (frozenUnit "Account.Frozen.V1").DistinctSiblings ∧
      frozenPlace.LiesIn (frozenUnit "Account.Frozen.V1") .standard frozenDeclaration 1 [] ∧
      (argumentReference "Account.Frozen.V1").context.isExempt = false ∧
      ((frozenUnit "Account.Frozen.V1").index .standard).Rewrites true
        (argumentReference "Account.Frozen.V1").spelling []
        (argumentReference "Account.Frozen.V1").spelling ∧
      ReportedExactly (frozenUnit "Account.Frozen.V1") .standard frozenPlace frozenDeclaration 1 []
        (argumentReference "Account.Frozen.V1") []
        (argumentReference "Account.Frozen.V1").spelling :=
  have hu : (frozenUnit "Account.Frozen.V1").DistinctSiblings := by decide
  have hplace := frozenPlace_liesIn "Account.Frozen.V1"
  ⟨hu, hplace, rfl, .refl _, leaks_reported_exactly hu hplace rfl (.refl _)⟩

/-- A functor argument that names a module nested in a version is not reported if the container is
not called by the conventional name. -/
theorem nested_module_of_frozen_version_unreported :
    (frozenUnit "Account.Frozen.V1.Inner").DistinctSiblings ∧
      innerPlace.LiesIn (frozenUnit "Account.Frozen.V1.Inner") .standard frozenDeclaration 1
        [innerModule] ∧
      argumentReference "Account.Frozen.V1.Inner"
        ∈ ((frozenUnit "Account.Frozen.V1.Inner").index .standard).references ∧
      Innermost ((frozenUnit "Account.Frozen.V1.Inner").NamesModule .standard)
        (argumentReference "Account.Frozen.V1.Inner").path
        (argumentReference "Account.Frozen.V1.Inner").scope innerPlace.path ∧
      ((frozenUnit "Account.Frozen.V1.Inner").index .standard).versionLeaks = [] := by
  have hplace := innerPlace_liesIn "Account.Frozen.V1.Inner"
  have hnames : Innermost ((frozenUnit "Account.Frozen.V1.Inner").NamesModule .standard)
      (argumentReference "Account.Frozen.V1.Inner").path
      (argumentReference "Account.Frozen.V1.Inner").scope innerPlace.path :=
    ⟨0, Nat.le_refl 0, by decide, Or.inl ⟨innerPlace, hplace.1, rfl⟩,
      fun j hj hn => absurd hj (Nat.not_lt.2 hn)⟩
  exact ⟨by decide, hplace, by decide +kernel, hnames, by decide +kernel⟩

end SchemaVersioning
