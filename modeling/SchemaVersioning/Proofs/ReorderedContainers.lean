import SchemaVersioning.Proofs.LatestMembers
import SchemaVersioning.Proofs.Reordering

/-!
# Reordered containers

The build of a container sorts its versions by number and picks its other members by name, so where
these have distinct names their order shows in two places only: in the order of findings about
unexpected members, and in the choice among several companion tests.  With what holds of the index,
an analysis gives the same whatever the order of declarations (`order_irrelevant`).
-/

namespace SchemaVersioning

open ModuleDecl (Reordered)

/-- What a build reads of a member: the module without its members, and these in no order, each
without its own. -/
def ModuleDecl.sketch (m : ModuleDecl) : ModuleDecl × Multiset ModuleDecl :=
  (m.alone, ↑(m.modules.map ModuleDecl.alone))

theorem ModuleDecl.Reorders.sketch_eq {m n : ModuleDecl} (h : m.Reorders n) : m.sketch = n.sketch :=
  Prod.ext h.1 (Multiset.coe_eq_coe.2 (perm_map_of_rel h.2.rel fun _ _ _ _ hab => hab.1))

/-- The parts of a family without its companion test. -/
def FamilyParts.untested (parts : FamilyParts) : FamilyParts :=
  { parts with testObligation := none }

namespace FamilyDeclaration

/-! ## Companion tests -/

/-- A test as the companion of a family. -/
def testAt (parent : Path) (m : ModuleDecl) : TestObligation := ⟨parent ++ [m.name], m.location⟩

section Companions

variable (d : FamilyDeclaration) (c : Config)

/-- The tests in the container, and those in each version in ascending order. -/
def testGroups : List (List TestObligation) :=
  (d.testModules c).map (testAt d.containerPath)
    :: (d.orderedVersions c).map fun (_, m) =>
      (m.modules.filter c.isTest).map (testAt (d.versionPath m))

/-- The tests that can be the companion of the family: those in the container, else those in the
lowest version that has any. -/
def companions : List TestObligation := ((d.testGroups c).find? (!·.isEmpty)).getD []

theorem findSome?_head? {α : Type} (groups : List (List α)) :
    groups.findSome? List.head? = ((groups.find? (!·.isEmpty)).getD []).head? := by
  induction groups with
  | nil => rfl
  | cons group groups ih =>
    cases group with
    | nil => exact ih
    | cons a group => rfl

/-- The companion of a family is the first of the tests that can be. -/
theorem testObligation?_eq_head? : d.testObligation? c = (d.companions c).head? := by
  rw [companions, ← findSome?_head?, testGroups, List.findSome?_cons, List.findSome?_map,
    testObligation?]
  cases d.testModules c with
  | cons test rest => rfl
  | nil =>
    refine congrArg (List.findSome? · (d.orderedVersions c)) (funext fun v => ?_)
    show (v.2.modules.find? c.isTest).map (testAt (d.versionPath v.2)) = _
    rw [← List.head?_filter, ← List.head?_map]
    rfl

/-- The tests among modules are found without looking at their members. -/
theorem perm_testAt_filter {isTest : ModuleDecl → Bool} (h : ∀ m, isTest m.alone = isTest m)
    {ms ns : List ModuleDecl} (hperm : (ms.map ModuleDecl.alone).Perm (ns.map ModuleDecl.alone))
    (path : Path) :
    ((ms.filter isTest).map (testAt path)).Perm ((ns.filter isTest).map (testAt path)) := by
  have hread : ∀ ms : List ModuleDecl, (ms.filter isTest).map (testAt path)
      = ((ms.map ModuleDecl.alone).filter isTest).map (testAt path) := by
    intro ms
    rw [List.filter_map, List.map_map, show isTest ∘ ModuleDecl.alone = isTest from funext h]
    rfl
  rw [hread ms, hread ns]
  exact (hperm.filter _).map _

end Companions

/-! ## Members in another order -/

section Members

variable {d : FamilyDeclaration} {c : Config} {ms : List ModuleDecl}
  (h : Reordered d.container.modules ms)

include h

theorem numbers_reordered : (d.withMembers ms).numbers c = d.numbers c := by
  refine List.Perm.eq_of_pairwise (fun _ _ _ _ hab hba => Nat.le_antisymm hab hba)
    pairwise_numbers pairwise_numbers (numbers_perm.trans (.trans ?_ numbers_perm.symm))
  refine (perm_filterMap_of_rel h.rel fun m _ n _ hmn => ?_).symm
  exact ModuleDecl.eq_of_alone_eq (fun m => versionNumber? m.name) (fun _ => rfl) hmn.1

theorem highest_reordered : (d.withMembers ms).highest c = d.highest c := by
  rw [← length_numbers, ← length_numbers, numbers_reordered h]

theorem numbered_reordered {n : Nat} (hn : d.Numbered n) : (d.withMembers ms).Numbered n := by
  rw [numbered_iff (c := .standard), highest_reordered h, numbers_reordered h]
  exact numbered_iff.1 hn

theorem memberFindings_reordered :
    ((d.withMembers ms).memberFindings c).Perm (d.memberFindings c) := by
  refine (perm_filterMap_of_rel h.rel fun m _ n _ hmn => ?_).symm
  exact ModuleDecl.eq_of_alone_eq (fun m => if member c m = .unexpected then
    some (Finding.mk (.unexpectedMember m.name d.container.name) d.name m.location) else none)
    (fun _ => rfl) hmn.1

theorem memberInterruption?_reordered :
    (∀ m ∈ d.container.modules, d.memberInterruption? c m = none) ↔
      ∀ m ∈ ms, (d.withMembers ms).memberInterruption? c m = none := by
  refine forall_iff_of_rel h.rel fun m _ n _ hmn => ?_
  have hmember : d.memberInterruption? c m = d.memberInterruption? c n :=
    ModuleDecl.eq_of_alone_eq _ (fun _ => rfl) hmn.1
  rw [hmember]
  rfl

/-! ### The latest alias -/

/-- Where members have distinct names, one at most is the latest alias. -/
theorem latestModule?_reordered (hnames : (d.container.modules.map (·.name)).Nodup) :
    ((d.withMembers ms).latestModule? c).map ModuleDecl.alone
      = (d.latestModule? c).map ModuleDecl.alone := by
  have hfilter : ∀ ns : List ModuleDecl,
      (ns.filter fun m => member c m = .latest).map ModuleDecl.alone
        = (ns.map ModuleDecl.alone).filter fun m => member c m = .latest := fun ns => by
    rw [List.filter_map]
    rfl
  rw [latestModule?, latestModule?, ← List.getLast?_map, ← List.getLast?_map, hfilter, hfilter]
  refine congrArg List.getLast? (Eq.symm (perm_eq_of_forall_eq ?_ fun x hx y hy => ?_))
  · exact (perm_map_of_rel h.rel fun _ _ _ _ hmn => hmn.1).filter _
  · obtain ⟨hx, hxl⟩ := List.mem_filter.1 hx
    obtain ⟨hy, hyl⟩ := List.mem_filter.1 hy
    obtain ⟨m, hm, rfl⟩ := List.mem_map.1 hx
    obtain ⟨n, hn, rfl⟩ := List.mem_map.1 hy
    have hmname : m.name = c.latestName := (member_eq_latest_iff.1 (of_decide_eq_true hxl)).2
    have hnname : n.name = c.latestName := (member_eq_latest_iff.1 (of_decide_eq_true hyl)).2
    rw [eq_of_name_eq hnames hm hn (hmname.trans hnname.symm)]

/-- Either no member is the latest alias, or the one that is differs at most in its members. -/
theorem latestModule?_cases (hnames : (d.container.modules.map (·.name)).Nodup) :
    (d.latestModule? c = none ∧ (d.withMembers ms).latestModule? c = none) ∨
      ∃ m n, d.latestModule? c = some m ∧ (d.withMembers ms).latestModule? c = some n ∧
        m.alone = n.alone := by
  have hlatest := latestModule?_reordered (c := c) h hnames
  cases hm : d.latestModule? c with
  | none =>
    rw [hm, Option.map_none, Option.map_eq_none_iff] at hlatest
    exact Or.inl ⟨rfl, hlatest⟩
  | some m =>
    rw [hm, Option.map_some, Option.map_eq_some_iff] at hlatest
    obtain ⟨n, hn, halone⟩ := hlatest
    exact Or.inr ⟨m, n, rfl, hn, halone.symm⟩

theorem latestFindings_reordered (hnames : (d.container.modules.map (·.name)).Nodup) :
    (d.withMembers ms).latestFindings c = d.latestFindings c := by
  unfold latestFindings
  obtain ⟨hd, hms⟩ | ⟨m, n, hd, hms, halone⟩ := latestModule?_cases (c := c) h hnames
  · rw [hd, hms]
  · have htargets := ModuleDecl.eq_of_alone_eq aliasTargets (fun _ => rfl) halone
    have hlocation := ModuleDecl.eq_of_alone_eq (·.location) (fun _ => rfl) halone
    rw [hd, hms]
    simp only [htargets, hlocation, highest_reordered h]
    rfl

theorem latestInterruption?_reordered (hnames : (d.container.modules.map (·.name)).Nodup) :
    (d.withMembers ms).latestInterruption? c = d.latestInterruption? c := by
  unfold latestInterruption?
  obtain ⟨hd, hms⟩ | ⟨m, n, hd, hms, halone⟩ := latestModule?_cases (c := c) h hnames
  · rw [hd, hms]
  · have htypes := ModuleDecl.eq_of_alone_eq (·.types) (fun _ => rfl) halone
    have haliasOf := ModuleDecl.eq_of_alone_eq (·.aliasOf) (fun _ => rfl) halone
    rw [hd, hms]
    simp only [htypes, haliasOf, latestFindings_reordered h hnames]
    rfl

/-! ### Versions -/

/-- In a container of the versions `1..n` these have one order. -/
theorem orderedVersions_reordered {n : Nat} (hn : d.Numbered n) :
    List.Forall₂ (fun v w => v.1 = w.1 ∧ v.2.sketch = w.2.sketch)
      ((d.withMembers ms).orderedVersions c) (d.orderedVersions c) := by
  have hsorted : ∀ {d : FamilyDeclaration}, d.Numbered n →
      ((d.orderedVersions c).map (Prod.map id ModuleDecl.sketch)).Pairwise fun a b => a.1 < b.1 :=
    fun hn => List.pairwise_map.2 (pairwise_orderedVersions hn)
  have hperm : ((d.versionModules c).map (Prod.map id ModuleDecl.sketch)).Perm
      (((d.withMembers ms).versionModules c).map (Prod.map id ModuleDecl.sketch)) := by
    rw [versionModules_eq, versionModules_eq, List.map_filterMap, List.map_filterMap]
    refine perm_filterMap_of_rel h.rel fun m _ m' _ hmn => ?_
    have hname : m.name = m'.name := ModuleDecl.eq_of_alone_eq (·.name) (fun _ => rfl) hmn.1
    rw [Option.map_map, Option.map_map, hname]
    exact congrArg (Option.map · _) (funext fun k => Prod.ext rfl hmn.sketch_eq)
  -- Both lists are strictly ascending and hold the same sketches, so they are the same list.
  have hsame : ((d.withMembers ms).orderedVersions c).map (Prod.map id ModuleDecl.sketch)
      = (d.orderedVersions c).map (Prod.map id ModuleDecl.sketch) := by
    refine List.Perm.eq_of_pairwise (fun _ _ _ _ hab hba => absurd hab (Nat.lt_asymm hba))
      (hsorted (numbered_reordered h hn)) (hsorted hn) ?_
    have hd := (List.mergeSort_perm (d.versionModules c) fun a b => a.1 ≤ b.1).map
      (Prod.map id ModuleDecl.sketch)
    have hms := (List.mergeSort_perm ((d.withMembers ms).versionModules c)
      fun a b => a.1 ≤ b.1).map (Prod.map id ModuleDecl.sketch)
    exact hms.trans (hperm.symm.trans hd.symm)
  rw [← List.forall₂_eq_eq_eq, List.forall₂_map_left_iff, List.forall₂_map_right_iff] at hsame
  exact hsame.imp fun v w hvw => Prod.mk.inj hvw

theorem map_orderedVersions_reordered {n : Nat} (hn : d.Numbered n) {β : Type}
    {f : Nat × ModuleDecl → β}
    (hf : ∀ v w, v.1 = w.1 → v.2.sketch = w.2.sketch → f v = f w) :
    ((d.withMembers ms).orderedVersions c).map f = (d.orderedVersions c).map f := by
  rw [← List.forall₂_eq_eq_eq, List.forall₂_map_left_iff, List.forall₂_map_right_iff]
  exact (orderedVersions_reordered h hn).imp fun v w hvw => hf v w hvw.1 hvw.2

/-- What does not depend on the members of a version is the same of each version. -/
theorem map_orderedVersions_of_alone {n : Nat} (hn : d.Numbered n) {β : Type}
    {f : Nat × ModuleDecl → β} (hf : ∀ k m, f (k, m.alone) = f (k, m)) :
    ((d.withMembers ms).orderedVersions c).map f = (d.orderedVersions c).map f := by
  apply map_orderedVersions_reordered h hn
  rintro ⟨k, m⟩ ⟨k', m'⟩ hk hsketch
  obtain rfl : k = k' := hk
  exact ModuleDecl.eq_of_alone_eq (fun m => f (k, m)) (hf k) (congrArg Prod.fst hsketch)

/-! ### Tests -/

theorem testGroups_reordered {n : Nat} (hn : d.Numbered n) :
    ((d.withMembers ms).testGroups c).map Multiset.ofList
      = (d.testGroups c).map Multiset.ofList := by
  rw [testGroups, testGroups, List.map_cons, List.map_cons, List.map_map, List.map_map]
  congr 1
  · have hmembers := perm_map_of_rel h.rel fun _ _ _ _ hmn => hmn.1
    have hperm := @perm_testAt_filter (fun m => member c m = .test) (fun _ => rfl) _ _
      hmembers d.containerPath
    exact Multiset.coe_eq_coe.2 hperm.symm
  · apply map_orderedVersions_reordered h hn
    intro v w _ hsketch
    obtain ⟨halone, hmembers⟩ := Prod.mk.inj hsketch
    have hpath : d.versionPath v.2 = d.versionPath w.2 :=
      ModuleDecl.eq_of_alone_eq d.versionPath (fun _ => rfl) halone
    apply Multiset.coe_eq_coe.2
    show ((v.2.modules.filter c.isTest).map (testAt (d.versionPath v.2))).Perm _
    rw [hpath]
    exact perm_testAt_filter (fun _ => rfl) (Multiset.coe_eq_coe.1 hmembers) (d.versionPath w.2)

/-- The tests that can be the companion are the same in some order. -/
theorem perm_companions {n : Nat} (hn : d.Numbered n) :
    ((d.withMembers ms).companions c).Perm (d.companions c) := by
  have hfirst : ∀ groups : List (List TestObligation),
      (↑((groups.find? (!·.isEmpty)).getD []) : Multiset TestObligation)
        = ((groups.map Multiset.ofList).find? (· ≠ 0)).getD 0 := by
    intro groups
    have hempty : (fun s : Multiset TestObligation => decide (s ≠ 0)) ∘ Multiset.ofList
        = fun group => !group.isEmpty := by
      funext group
      cases group <;> simp
    rw [List.find?_map, hempty]
    cases groups.find? (!·.isEmpty) <;> rfl
  rw [← Multiset.coe_eq_coe, companions, companions, hfirst, hfirst, testGroups_reordered h hn]

theorem isNone_testObligation?_reordered {n : Nat} (hn : d.Numbered n) :
    ((d.withMembers ms).testObligation? c).isNone = (d.testObligation? c).isNone := by
  have hhead : ∀ tests : List TestObligation, tests.head?.isNone = tests.isEmpty := fun tests => by
    cases tests <;> rfl
  rw [testObligation?_eq_head?, testObligation?_eq_head?, hhead, hhead,
    (perm_companions h hn).isEmpty_eq]

theorem testFindings_reordered {n : Nat} (hn : d.Numbered n) :
    (d.withMembers ms).testFindings c = d.testFindings c := by
  unfold testFindings
  rw [isNone_testObligation?_reordered h hn]
  rfl

/-! ### Builds -/

omit h in
theorem versionInterruption?_withMembers (hhigh : (d.withMembers ms).highest c = d.highest c) :
    (d.withMembers ms).versionInterruption? c = d.versionInterruption? c := by
  have hupgrade : (d.withMembers ms).upgradeInterruption? c = d.upgradeInterruption? c := by
    funext k m x
    simp only [upgradeInterruption?, upgradeFault?_withMembers hhigh]
  funext k m
  simp only [versionInterruption?, hupgrade, hhigh]
  rfl

/-- The first version that interrupts a build is the same. -/
theorem versionInterruptions_reordered {n : Nat} (hn : d.Numbered n) :
    ((d.withMembers ms).orderedVersions c).findSome?
        (fun (k, m) => (d.withMembers ms).versionInterruption? c k m)
      = (d.orderedVersions c).findSome? fun (k, m) => d.versionInterruption? c k m := by
  have hmap : ((d.withMembers ms).orderedVersions c).map
        (fun (k, m) => d.versionInterruption? c k m)
      = (d.orderedVersions c).map fun (k, m) => d.versionInterruption? c k m :=
    map_orderedVersions_of_alone h hn fun _ _ => rfl
  have hfirst := congrArg (List.findSome? id) hmap
  rw [List.findSome?_map, List.findSome?_map] at hfirst
  rw [versionInterruption?_withMembers (highest_reordered h)]
  exact hfirst

theorem untested_parts_reordered {n : Nat} (hn : d.Numbered n) :
    ((d.withMembers ms).parts c).untested = (d.parts c).untested := by
  have hversions : ((d.withMembers ms).orderedVersions c).map
        (fun (k, m) => (d.withMembers ms).version c k m)
      = (d.orderedVersions c).map fun (k, m) => d.version c k m := by
    rw [version_withMembers (highest_reordered h)]
    exact map_orderedVersions_of_alone h hn fun _ _ => rfl
  rw [FamilyParts.untested, FamilyParts.untested, parts, parts, hversions]
  rfl

variable (hnames : (d.container.modules.map (·.name)).Nodup)

include hnames

theorem findings_reordered {n : Nat} (hn : d.Numbered n) :
    ((d.withMembers ms).findings c).Perm (d.findings c) := by
  have hversions : ((d.withMembers ms).orderedVersions c).flatMap
        (fun (k, m) => (d.withMembers ms).versionFindings c k m)
      = (d.orderedVersions c).flatMap fun (k, m) => d.versionFindings c k m := by
    rw [versionFindings_withMembers (highest_reordered h), List.flatMap_def, List.flatMap_def]
    exact congrArg List.flatten (map_orderedVersions_of_alone h hn fun _ _ => rfl)
  rw [findings, findings, latestFindings_reordered h hnames, testFindings_reordered h hn, hversions]
  exact (((memberFindings_reordered h).append_right _).append_right _).append_right _

theorem findings_eq_nil_iff_reordered {n : Nat} (hn : d.Numbered n) :
    (d.withMembers ms).findings c = [] ↔ d.findings c = [] := by
  rw [← List.isEmpty_iff, ← List.isEmpty_iff, (findings_reordered h hnames hn).isEmpty_eq]

/-- A container builds the same family, except for the choice of the companion. -/
theorem family?_reordered :
    ((d.withMembers ms).family? c).map (·.untested)
      = (d.family? c).map (·.untested) := by
  have hnumbered : (d.withMembers ms).Numbered ((d.withMembers ms).highest c) ↔
      d.Numbered (d.highest c) := by
    rw [← numbers_eq_range'_iff, ← numbers_eq_range'_iff, numbers_reordered h]
  cases hd : d.family? c with
  | some f =>
    obtain ⟨hn, hfindings, hparts⟩ := build_eq_ok_iff.1 (family?_eq_some_iff.1 hd)
    obtain ⟨g, hg⟩ := build_ok_iff.2 ⟨_, sound_iff.2
      ⟨hnumbered.2 hn, (findings_eq_nil_iff_reordered h hnames hn).2 hfindings⟩⟩
    rw [family?_eq_some_iff.2 hg, Option.map_some, Option.map_some, parts_of_build hg, hparts,
      untested_parts_reordered h hn]
  | none =>
    rw [Option.map_none, Option.map_eq_none_iff, Option.eq_none_iff_forall_ne_some]
    intro g hg
    obtain ⟨hn, hfindings, -⟩ := build_eq_ok_iff.1 (family?_eq_some_iff.1 hg)
    have hn := hnumbered.1 hn
    obtain ⟨f, hf⟩ := build_ok_iff.2 ⟨_, sound_iff.2
      ⟨hn, (findings_eq_nil_iff_reordered h hnames hn).1 hfindings⟩⟩
    rw [family?_eq_some_iff.2 hf] at hd
    cases hd

/-- The diagnostics of a build are the same in some order. -/
theorem buildDiagnostics_reordered :
    ((d.withMembers ms).buildDiagnostics c).Perm (d.buildDiagnostics c) := by
  by_cases hn : d.Numbered (d.highest c)
  · rw [buildDiagnostics_of_numbered hn, buildDiagnostics_of_numbered (numbered_reordered h hn)]
    exact (findings_reordered h hnames hn).map _
  · have hrange : ¬ (d.numbers c = List.range' 1 (d.numbers c).length ∧ d.numbers c ≠ []) :=
      fun hrange => hn (numbers_eq_range'_iff.1 hrange)
    have hmembers := memberFindings_reordered (c := c) h
    unfold buildDiagnostics build
    simp only [numbers_reordered h]
    by_cases hnil : d.numbers c = []
    · rw [dif_pos hnil, dif_pos hnil]
      exact (hmembers.append_right _).map _
    · rw [dif_neg hnil, dif_neg hnil, dif_neg fun heq => hrange ⟨heq, hnil⟩,
        dif_neg fun heq => hrange ⟨heq, hnil⟩]
      exact (hmembers.append_right _).map _

theorem interruption?_reordered :
    (d.withMembers ms).interruption? c = none ↔ d.interruption? c = none := by
  rw [interruption?, interruption?, Option.or_eq_none_iff, Option.or_eq_none_iff,
    List.findSome?_eq_none_iff, List.findSome?_eq_none_iff, numbers_reordered h]
  refine and_congr (memberInterruption?_reordered h).symm ?_
  by_cases hrange : d.numbers c = List.range' 1 (d.numbers c).length ∧ d.numbers c ≠ []
  · have hn := numbers_eq_range'_iff.1 hrange
    rw [if_pos hrange, if_pos hrange, latestInterruption?_reordered h hnames,
      versionInterruptions_reordered h hn]
    simp only [testInterruption?, testFindings_reordered h hn, familyInterruption?,
      findings_eq_nil_iff_reordered h hnames hn]
    rfl
  · rw [if_neg hrange, if_neg hrange]
    rfl

end Members

/-- A declaration with its members reordered is that declaration with other members. -/
theorem Reorders.withMembers_eq {d e : FamilyDeclaration} (h : d.Reorders e) :
    d.withMembers e.container.modules = e :=
  calc d.withMembers e.container.modules
      = d.alone.withMembers e.container.modules := rfl
    _ = e.alone.withMembers e.container.modules := by rw [h.alone]
    _ = e := by
      obtain ⟨⟨⟩⟩ := e
      rfl

end FamilyDeclaration

/-- The generated declarations do not depend on the companion test. -/
theorem synthesize_congr {f g : Family} (h : f.untested = g.untested)
    (c : Config) : f.synthesize c = g.synthesize c := by
  obtain ⟨⟨name, path, kind, strategy, typeNames, versions, test, arities, inTest, location⟩⟩ := f
  obtain ⟨⟨name', path', kind', strategy', typeNames', versions', test', arities', inTest',
    location'⟩⟩ := g
  obtain ⟨rfl, rfl, -, -, rfl, rfl, -, -, -, rfl⟩ := FamilyParts.mk.inj h
  rfl

/-! ## Reordered units -/

/-- A unit with its modules reordered, those of the unit itself or the members of any module. -/
structure CompilationUnit.Reorders (u v : CompilationUnit) : Prop where
  name : u.name = v.name
  modules : Reordered u.modules v.modules

/-- Two results that agree in everything but the order of diagnostics and families and the choice of
companion tests. -/
structure CompilationResult.Rearranges (r s : CompilationResult) : Prop where
  unitName : r.unitName = s.unitName
  passed : r.passed = s.passed
  diagnostics : r.diagnostics.Perm s.diagnostics
  families : (r.families.map (·.untested)).Perm (s.families.map (·.untested))
  generated : r.generated.Perm s.generated

/-- How a unit and a reordered one are analyzed. -/
structure CompilationUnit.AnalyzedAlike (u v : CompilationUnit) (c : Config) : Prop where
  /-- Both analyses have a result or neither. -/
  readable : (∃ r, u.analyzed c = .ok r) ↔ ∃ s, v.analyzed c = .ok s
  results : ∀ r s, u.analyzed c = .ok r → v.analyzed c = .ok s → r.Rearranges s
  /-- Two families of one container have the first of the same tests as their companions. -/
  companions : ∀ d ∈ u.familyDeclarations c, ∀ e ∈ v.familyDeclarations c,
    d.containerPath = e.containerPath → ∀ f g, d.build c = .ok f → e.build c = .ok g →
      (d.companions c).Perm (e.companions c) ∧
        f.testObligation = (d.companions c).head? ∧ g.testObligation = (e.companions c).head?
  /-- A path has one meaning in a scope, whether what it names is declared earlier or later. -/
  meanings : ∀ isModule p scope,
    (v.index c).resolvePath isModule p scope [] = (u.index c).resolvePath isModule p scope []

section Units

variable {u v : CompilationUnit} (hu : u.DistinctSiblings) (h : Reordered u.modules v.modules)
  (c : Config)

include hu

theorem nodup_members {d : FamilyDeclaration} (hd : d ∈ u.familyDeclarations c) :
    (d.container.modules.map (·.name)).Nodup := by
  obtain ⟨p, hp, hpd⟩ := mem_familyDeclarations.1 hd
  rw [Place.container_of_declaration? hpd]
  exact hu.2 p hp

include h

/-- An analysis is interrupted or not, whatever the order. -/
theorem interruption?_eq_none_iff_reordered :
    u.interruption? c = none ↔ v.interruption? c = none := by
  have hbuilds : (∀ d ∈ u.familyDeclarations c, d.interruption? c = none) ↔
      ∀ e ∈ v.familyDeclarations c, e.interruption? c = none := by
    refine forall_iff_of_rel (rel_familyDeclarations h c) fun d hd e _ hde => ?_
    rw [← hde.withMembers_eq]
    exact (FamilyDeclaration.interruption?_reordered hde.members (nodup_members hu c hd)).symm
  have harities : (∀ d ∈ u.familyDeclarations c, d.arityInterruption? = none) ↔
      ∀ e ∈ v.familyDeclarations c, e.arityInterruption? = none := by
    refine forall_iff_of_rel (rel_familyDeclarations h c) fun d _ e _ hde => ?_
    rw [← hde.withMembers_eq]
    rfl
  simp only [CompilationUnit.interruption?, CompilationUnit.buildInterruption?,
    CompilationUnit.checkInterruption?, Index.interruption?_eq, functorInterruption?_families,
    Option.or_eq_none_iff, List.findSome?_eq_none_iff, hbuilds, harities,
    indexInterruption?_reordered hu h c, (perm_rulings hu h c).mem_iff]

theorem perm_families : ((u.families c).map (·.untested)).Perm
    ((v.families c).map (·.untested)) := by
  rw [CompilationUnit.families, CompilationUnit.families, List.map_filterMap, List.map_filterMap]
  refine perm_filterMap_of_rel (rel_familyDeclarations h c) fun d hd e _ hde => ?_
  rw [← hde.withMembers_eq]
  exact (FamilyDeclaration.family?_reordered hde.members (nodup_members hu c hd)).symm

theorem perm_diagnostics_reordered : (u.diagnostics c).Perm (v.diagnostics c) := by
  have hbuilds : (u.buildDiagnostics c).Perm (v.buildDiagnostics c) := by
    refine perm_flatMap_of_rel (rel_familyDeclarations h c) fun d hd e _ hde => ?_
    rw [← hde.withMembers_eq]
    exact (FamilyDeclaration.buildDiagnostics_reordered hde.members (nodup_members hu c hd)).symm
  have hfunctors : ((u.familyDeclarations c).filterMap FamilyDeclaration.parameterized?).Perm
      ((v.familyDeclarations c).filterMap FamilyDeclaration.parameterized?) := by
    refine perm_filterMap_of_rel (rel_familyDeclarations h c) fun d _ e _ hde => ?_
    rw [← hde.withMembers_eq]
    rfl
  have hrulings := perm_rulings hu h c
  refine perm_diagnostics.trans (.trans ?_ perm_diagnostics.symm)
  exact hbuilds.append (((hrulings.filterMap _).append hfunctors).append (hrulings.filterMap _))

theorem perm_generated (hpassed : (u.analyze c).passed = true)
    (hpassed' : (v.analyze c).passed = true) :
    (u.analyze c).generated.Perm (v.analyze c).generated := by
  rw [generated_of_passed hpassed, generated_of_passed hpassed', CompilationUnit.families,
    CompilationUnit.families, List.map_filterMap, List.map_filterMap]
  refine perm_filterMap_of_rel (rel_familyDeclarations h c) fun d hd e _ hde => ?_
  have hbuild := FamilyDeclaration.family?_reordered (c := c) hde.members (nodup_members hu c hd)
  rw [hde.withMembers_eq] at hbuild
  cases hd : d.family? c with
  | none =>
    rw [hd, Option.map_none, Option.map_eq_none_iff] at hbuild
    rw [hbuild]
  | some f =>
    rw [hd, Option.map_some, Option.map_eq_some_iff] at hbuild
    obtain ⟨g, hg, hparts⟩ := hbuild
    rw [hg, Option.map_some, Option.map_some, synthesize_congr hparts]

theorem rearranges_analyze (hname : u.name = v.name) :
    (u.analyze c).Rearranges (v.analyze c) := by
  have hdiagnostics := perm_diagnostics_reordered hu h c
  have hpassed : (u.analyze c).passed = (v.analyze c).passed := hdiagnostics.isEmpty_eq
  refine ⟨hname, hpassed, hdiagnostics, perm_families hu h c, ?_⟩
  cases hresult : (u.analyze c).passed with
  | true => exact perm_generated hu h c hresult (hpassed ▸ hresult)
  | false => rw [generated_eq_nil hresult, generated_eq_nil (hpassed ▸ hresult)]

/-- The declarations of one container correspond to one another. -/
theorem reorders_of_containerPath_eq {d e : FamilyDeclaration} (hd : d ∈ u.familyDeclarations c)
    (he : e ∈ v.familyDeclarations c) (hpath : d.containerPath = e.containerPath) :
    d.Reorders e := by
  obtain ⟨d', hd', hreorders⟩ :=
    Multiset.exists_mem_of_rel_of_mem (Multiset.rel_flip.2 (rel_familyDeclarations h c)) he
  have hsame : d'.containerPath = e.containerPath := by
    rw [← hreorders.withMembers_eq]
    rfl
  rwa [hu.eq_of_containerPath_eq hd hd' (hpath.trans hsame.symm)]

end Units

/-- Where siblings have distinct names, the order of declarations is irrelevant. -/
theorem order_irrelevant {u v : CompilationUnit} (hu : u.DistinctSiblings) (h : u.Reorders v)
    (c : Config) : u.AnalyzedAlike v c where
  readable := by
    simp only [analyzed_eq_ok_iff, exists_and_left, exists_eq', and_true]
    exact interruption?_eq_none_iff_reordered hu h.modules c
  results r s hr hs := by
    obtain ⟨-, rfl⟩ := analyzed_eq_ok_iff.1 hr
    obtain ⟨-, rfl⟩ := analyzed_eq_ok_iff.1 hs
    exact rearranges_analyze hu h.modules c h.name
  companions d hd e he hpath f g hf hg := by
    have hde := reorders_of_containerPath_eq hu h.modules c hd he hpath
    obtain ⟨hn, -, hparts⟩ := FamilyDeclaration.build_eq_ok_iff.1 hf
    refine ⟨?_, ?_, ?_⟩
    · have hperm := FamilyDeclaration.perm_companions (c := c) hde.members hn
      rw [hde.withMembers_eq] at hperm
      exact hperm.symm
    · rw [hparts]
      exact d.testObligation?_eq_head? c
    · rw [parts_of_build hg]
      exact e.testObligation?_eq_head? c
  meanings isModule p scope := resolvePath_reordered hu h.modules c isModule p scope []

/-- A unit with a leak before a container of two versions and two tests, in some order. -/
def assertedUnit (members : List ModuleDecl) : CompilationUnit where
  name := "ledger"
  modules := [
    { ModuleDecl.bare "App" [] [] with functorArguments := ["Account.Stable.V1"] },
    .bare "Account" [] [
      { ModuleDecl.bare "Stable" [] members with attributes := ["versioned_asserted"] }]]

/-- A member that is a test. -/
def companionTest (name : String) : ModuleDecl :=
  { ModuleDecl.bare name [] [] with attributes := ["test"] }

def assertedMembers : List ModuleDecl :=
  [companionTest "Old", upgradingVersion "V1" (.ofPath "Latest" ["t"]), .bare "V2" [.bare "t"] [],
    companionTest "New"]

/-- The unit with its modules and the members of the container in reverse. -/
def reversedUnit : CompilationUnit where
  name := "ledger"
  modules := (assertedUnit assertedMembers.reverse).modules.reverse

theorem reorders_reversedUnit : (assertedUnit assertedMembers).Reorders reversedUnit where
  name := rfl
  modules := by
    refine .trans (.siblings (List.reverse_perm _).symm) ?_
    exact .members (.members (.siblings (List.reverse_perm assertedMembers).symm))

/-- Both units are analyzed, and the version that the first module leaks is declared after it. -/
theorem order_irrelevant_assertedUnit : (assertedUnit assertedMembers).DistinctSiblings ∧
    (assertedUnit assertedMembers).Reorders reversedUnit ∧
    (assertedUnit assertedMembers).AnalyzedAlike reversedUnit .standard ∧
    (∃ r, (assertedUnit assertedMembers).analyzed .standard = .ok r) ∧
    ((assertedUnit assertedMembers).index .standard).resolvePath true
      ["Account", "Stable", "V1"] [] [] = ⟨.version "Account" 1, ["Account", "Stable", "V1"]⟩ := by
  have hu : (assertedUnit assertedMembers).DistinctSiblings := by decide
  exact ⟨hu, reorders_reversedUnit, order_irrelevant hu reorders_reversedUnit .standard,
    ⟨_, analyzed_eq (by decide) (by decide) (by decide +kernel)⟩, by decide +kernel⟩

/-- The families of the two units have different companions. -/
example : [assertedUnit assertedMembers, reversedUnit].map
    (fun u => (u.familyDeclarations .standard).map fun d =>
      (d.testObligation? .standard).map (·.modulePath.getLast?))
      = [[some (some "Old")], [some (some "New")]] := by
  decide +kernel

end SchemaVersioning
