import SchemaVersioning.Analysis
import SchemaVersioning.Proofs.Containers
import SchemaVersioning.Proofs.Legibility
import SchemaVersioning.Proofs.VersionNames

/-!
# Containers that cannot be read

Which builds end without a result.  A family of a unit has a name, so only a version whose number
has too many digits ends its build, and only where the build comes upon it: in the name of a member,
in the hand-written alias of the latest version, and in the result of an upgrade function that would
be reported as a chained one (`interruption?_isSome_iff`).
-/

namespace SchemaVersioning

/-! ## The first version of a path -/

theorem findSome?_versionNumber? (p : Path) :
    p.findSome? versionNumber? = (p.find? isVersionName).bind versionNumber? := by
  induction p with
  | nil => rfl
  | cons a p ih =>
    rw [List.findSome?_cons, List.find?_cons, isVersionName]
    cases h : versionNumber? a with
    | some number => simp [h]
    | none => exact ih

namespace FamilyDeclaration

variable (d : FamilyDeclaration) (c : Config)

/-! ## Illegible names -/

/-- The latest alias refers to a version that cannot be read. -/
def IllegibleAlias : Prop :=
  ∃ m, d.IsLatestModule c m ∧
    ((∃ target a, m.aliasOf = some target ∧ (Path.ofDotted target).getLast? = some a ∧
        overlongVersion? a ≠ none) ∨
      ∃ t ∈ m.types, ∃ e, t.alias? = some e ∧ ∃ a ∈ e.path, overlongVersion? a ≠ none)

/-- An upgrade function of a version below the highest converts the own type, but not to the latest
one, and the first version that its result names cannot be read. -/
def IllegibleUpgrade (n : Nat) : Prop :=
  ∃ k m, d.HasVersion k m ∧ k < n ∧ ∃ x ∈ d.typeNames c, ∃ v,
    m.findValue? (c.upgradeName x) = some v ∧ d.ConvertsOwn k x v ∧
      ¬ d.NamesLatest c n x v.returns.path ∧
      ∃ a, v.returns.path.find? isVersionName = some a ∧ overlongVersion? a ≠ none

/-- A build of the container comes upon a version that cannot be read: among the members, or, if
the members declare `1..n`, in the latest alias or in an upgrade function. -/
def Illegible : Prop :=
  (∃ m ∈ d.container.modules, overlongVersion? m.name ≠ none) ∨
    ∃ n, d.Numbered n ∧ (d.IllegibleAlias c ∨ d.IllegibleUpgrade c n)

variable {d c}

/-! ## Interruptions of the parts -/

theorem reportInterruption?_eq_none (hname : d.name ≠ "") : d.reportInterruption? = none :=
  if_neg hname

theorem memberInterruption?_isSome_iff (hname : d.name ≠ "") {m : ModuleDecl} :
    (d.memberInterruption? c m).isSome ↔ overlongVersion? m.name ≠ none := by
  unfold memberInterruption?
  cases overlongVersion? m.name with
  | some digits => simp
  | none => simp [reportInterruption?_eq_none hname]

/-- The names that are read off a hand-written alias of the latest version. -/
def aliasNames (m : ModuleDecl) : List String :=
  m.types.flatMap (fun t => (t.alias?.map (·.path)).getD [])
    ++ (m.aliasOf.bind fun target => (Path.ofDotted target).getLast?).toList

theorem mem_aliasNames {m : ModuleDecl} {a : String} : a ∈ aliasNames m ↔
    (∃ target, m.aliasOf = some target ∧ (Path.ofDotted target).getLast? = some a) ∨
      ∃ t ∈ m.types, ∃ e, t.alias? = some e ∧ a ∈ e.path := by
  rw [aliasNames, List.mem_append, List.mem_flatMap, Option.mem_toList, Option.bind_eq_some_iff,
    or_comm]
  refine or_congr_right (exists_congr fun t => and_congr_right fun _ => ?_)
  cases t.alias? <;> simp

theorem exists_overlong_aliasName_iff {m : ModuleDecl} :
    (∃ a ∈ aliasNames m, overlongVersion? a ≠ none) ↔
      (∃ target a, m.aliasOf = some target ∧ (Path.ofDotted target).getLast? = some a ∧
        overlongVersion? a ≠ none) ∨
      ∃ t ∈ m.types, ∃ e, t.alias? = some e ∧ ∃ a ∈ e.path, overlongVersion? a ≠ none := by
  simp only [mem_aliasNames]
  constructor
  · rintro ⟨a, ⟨target, ht, ha⟩ | ⟨t, ht, e, he, ha⟩, ho⟩
    · exact Or.inl ⟨target, a, ht, ha, ho⟩
    · exact Or.inr ⟨t, ht, e, he, a, ha, ho⟩
  · rintro (⟨target, a, ht, ha, ho⟩ | ⟨t, ht, e, he, a, ha, ho⟩)
    · exact ⟨a, Or.inl ⟨target, ht, ha⟩, ho⟩
    · exact ⟨a, Or.inr ⟨t, ht, e, he, ha⟩, ho⟩

theorem latestInterruption?_isSome_iff (hname : d.name ≠ "") :
    (d.latestInterruption? c).isSome ↔ d.IllegibleAlias c := by
  simp only [IllegibleAlias, ← latestModule?_eq_some_iff, ← exists_overlong_aliasName_iff]
  unfold latestInterruption?
  cases d.latestModule? c with
  | none => simp
  | some m =>
    have hsome : ((aliasNames m).findSome? SchemaVersioning.overlongVersion?).isSome ↔
        ∃ a ∈ aliasNames m, overlongVersion? a ≠ none := by
      rw [List.findSome?_isSome_iff]
      simp only [Option.isSome_iff_ne_none]
    simp only [reportInterruption?_eq_none hname, ite_self, Option.some.injEq, exists_eq_left',
      ← hsome, ← aliasNames.eq_def]
    cases (aliasNames m).findSome? SchemaVersioning.overlongVersion? <;> simp

/-- A fault of an upgrade function is a chained upgrade when it converts the own type to another
version than the highest. -/
theorem upgradeFault?_eq_chained_iff {k target : Nat} {x signature : String} {v : ValueDecl} :
    d.upgradeFault? c k x (some v) = some (.chained signature target) ↔
      d.ConvertsOwn k x v ∧ ¬ d.NamesLatest c (d.highest c) x v.returns.path ∧
        v.returns.path.findSome? versionNumber? = some target ∧ target ≠ d.highest c ∧
        v.signature = signature := by
  simp only [ConvertsOwn, ← isLatestType_iff, ← isOwnType_iff]
  unfold upgradeFault?
  cases hparams : v.params with
  | nil => simp [hparams]
  | cons e rest =>
    cases rest with
    | cons e' rest => simp [hparams]
    | nil =>
      cases hown : d.isOwnType k x e with
      | false => simp [hparams, hown]
      | true =>
        cases hlatest : d.isLatestType c x v.returns with
        | true => simp [hparams, hown, hlatest]
        | false =>
          simp only [hparams, hown, hlatest]
          cases v.returns.path.findSome? versionNumber? with
          | none => simp
          | some number =>
            by_cases hn : number = d.highest c
            · simp only [hn, if_true, Bool.not_true, Bool.false_eq_true, if_false, Option.some.injEq,
                reduceCtorEq, false_iff, not_and, ne_eq]
              intro _ _ heq hne
              exact absurd heq.symm hne
            · simp only [hn, if_false, Bool.not_true, Bool.false_eq_true, Option.some.injEq,
                UpgradeFault.chained.injEq]
              constructor
              · rintro ⟨rfl, rfl⟩
                exact ⟨⟨e, rfl, hown⟩, by simp, rfl, hn, rfl⟩
              · rintro ⟨-, -, rfl, -, rfl⟩
                exact ⟨rfl, rfl⟩

/-- The highest version of a container that can be read has a number that can be read. -/
theorem Numbered.ne_of_overlong {n : Nat} (hn : d.Numbered n)
    (hlegible : ∀ m ∈ d.container.modules, overlongVersion? m.name = none) {a : String}
    (ha : overlongVersion? a ≠ none) : versionNumber? a ≠ some n := by
  obtain ⟨m, hm, hmn⟩ := List.mem_filterMap.1
    (hn.2.mem_iff.2 (List.mem_range'_1.2 ⟨hn.1, by omega⟩))
  exact versionNumber?_ne_of_overlong ha (hlegible m hm) hmn

theorem upgradeInterruption?_isSome_iff (hn : d.Numbered (d.highest c))
    (hlegible : ∀ m ∈ d.container.modules, overlongVersion? m.name = none) {k : Nat}
    {m : ModuleDecl} {x : String} :
    (d.upgradeInterruption? c k m x).isSome ↔ ∃ v, m.findValue? (c.upgradeName x) = some v ∧
      d.ConvertsOwn k x v ∧ ¬ d.NamesLatest c (d.highest c) x v.returns.path ∧
      ∃ a, v.returns.path.find? isVersionName = some a ∧ overlongVersion? a ≠ none := by
  unfold upgradeInterruption?
  rw [show upgradeValue? c m x = m.findValue? (c.upgradeName x) from rfl]
  cases m.findValue? (c.upgradeName x) with
  | none => simp
  | some v =>
    simp only [Option.some.injEq, exists_eq_left']
    constructor
    · intro h
      split at h
      · next signature target hfault =>
        obtain ⟨hown, hlatest, -, -, -⟩ := upgradeFault?_eq_chained_iff.1 hfault
        rw [Option.isSome_map, Path.overlongVersion?, Option.isSome_iff_exists] at h
        obtain ⟨digits, hdigits⟩ := h
        obtain ⟨a, ha, ho⟩ := Option.bind_eq_some_iff.1 hdigits
        exact ⟨hown, hlatest, a, ha, by simp [ho]⟩
      · simp at h
    · rintro ⟨hown, hlatest, a, ha, ho⟩
      obtain ⟨number, hnumber⟩ := Option.isSome_iff_exists.1 (isVersionName_of_overlong ho)
      have hfirst : v.returns.path.findSome? versionNumber? = some number := by
        rw [findSome?_versionNumber?, ha]
        exact hnumber
      -- No number that cannot be read is that of the highest version, so the fault is reported.
      have hne : number ≠ d.highest c := fun heq =>
        hn.ne_of_overlong hlegible ho (heq ▸ hnumber)
      rw [upgradeFault?_eq_chained_iff.2 ⟨hown, hlatest, hfirst, hne, rfl⟩]
      simp only [Option.isSome_map, Path.overlongVersion?, ha, Option.bind_some]
      exact Option.isSome_iff_ne_none.2 ho

theorem upgradesInterruption_isSome_iff (hn : d.Numbered (d.highest c))
    (hlegible : ∀ m ∈ d.container.modules, overlongVersion? m.name = none) :
    ((d.orderedVersions c).findSome? fun (number, m) => d.versionInterruption? c number m).isSome ↔
      d.IllegibleUpgrade c (d.highest c) := by
  simp only [List.findSome?_isSome_iff, Prod.exists, mem_orderedVersions, IllegibleUpgrade]
  refine exists_congr fun k => exists_congr fun m => and_congr_right fun hm => ?_
  have hle := hn.le hm
  unfold versionInterruption?
  split
  · next heq =>
    simp only [Option.isSome_none, Bool.false_eq_true, false_iff]
    rintro ⟨hlt, -⟩
    omega
  · next hne =>
    simp only [List.findSome?_isSome_iff, upgradeInterruption?_isSome_iff hn hlegible]
    exact ⟨fun h => ⟨by omega, h⟩, fun h => h.2⟩

/-- The build of a container that has a name is interrupted exactly when it comes upon a version
that cannot be read. -/
theorem interruption?_isSome_iff (hname : d.name ≠ "") :
    (d.interruption? c).isSome ↔ d.Illegible c := by
  rw [interruption?, Option.isSome_or, Bool.or_eq_true, List.findSome?_isSome_iff]
  simp only [memberInterruption?_isSome_iff hname, Illegible]
  by_cases hmember : ∃ m ∈ d.container.modules, overlongVersion? m.name ≠ none
  · simp [hmember]
  · have hlegible : ∀ m ∈ d.container.modules, overlongVersion? m.name = none := by
      simpa using hmember
    simp only [hmember, false_or]
    split
    · next hrange =>
      have hn := numbers_eq_range'_iff.1 hrange
      have htest : d.testInterruption? c = none := by
        simp [testInterruption?, reportInterruption?_eq_none hname]
      have hfamily : d.familyInterruption? c = none := by simp [familyInterruption?, hname]
      rw [Option.isSome_or, Option.isSome_or, Option.isSome_or, htest, hfamily]
      simp only [Bool.or_eq_true, latestInterruption?_isSome_iff hname,
        upgradesInterruption_isSome_iff hn hlegible, Option.isSome_none, Bool.false_eq_true,
        or_false]
      constructor
      · intro h
        exact ⟨d.highest c, hn, h⟩
      · rintro ⟨n, hnumbered, h⟩
        rwa [((numbered_iff (c := c)).1 hnumbered).1]
    · next hrange =>
      rw [reportInterruption?_eq_none hname]
      simp only [Option.isSome_none, Bool.false_eq_true, false_iff]
      rintro ⟨n, hnumbered, -⟩
      have hhigh := ((numbered_iff (c := c)).1 hnumbered).1
      exact hrange (numbers_eq_range'_iff.2 (hhigh ▸ hnumbered))

theorem family?_isSome_iff : (d.family? c).isSome ↔ ∃ n, d.Sound c n := by
  rw [← build_ok_iff, family?]
  cases d.build c <;> simp

theorem buildDiagnostics_eq_nil_iff : d.buildDiagnostics c = [] ↔ (d.family? c).isSome := by
  unfold buildDiagnostics family?
  cases h : d.build c with
  | ok f => simp
  | error fs => simpa using findings_ne_nil_of_build h

/-- The diagnostics of a container whose numbers are `1..n` are those of its problems. -/
theorem buildDiagnostics_of_numbered {n : Nat} (hn : d.Numbered n) :
    d.buildDiagnostics c = (d.findings c).map (·.diagnostic) := by
  obtain ⟨hhigh, -, -⟩ := (numbered_iff (c := c)).1 hn
  obtain ⟨hrange, hne⟩ := numbers_eq_range'_iff.2 (hhigh ▸ hn)
  rw [buildDiagnostics, build, dif_neg hne, dif_pos hrange]
  by_cases hfindings : d.findings c = []
  · rw [dif_pos hfindings, hfindings]
    rfl
  · rw [dif_neg hfindings]

/-- A family that is built without an interruption has a name. -/
theorem name_ne_empty_of_build {f : Family} (hread : d.interruption? c = none)
    (hbuild : d.build c = .ok f) : d.name ≠ "" := by
  intro hname
  obtain ⟨hnumbered, hfindings, -⟩ := build_eq_ok_iff.1 hbuild
  have hfamily : d.familyInterruption? c ≠ none := by
    rw [familyInterruption?, if_pos ⟨hfindings, hname⟩]
    exact Option.some_ne_none _
  rw [interruption?, if_pos (numbers_eq_range'_iff.2 hnumbered)] at hread
  simp only [Option.or_eq_none_iff] at hread
  exact hfamily hread.2.2.2.2

/-- The build of a discovered container gives a family or diagnostics unless it comes upon a version
that cannot be read: it gives a family exactly when the container is sound, and diagnostics exactly
when it gives no family. -/
theorem builds_exactly_sound_containers {u : CompilationUnit} (hu : u.WellNamed)
    (hd : d ∈ u.familyDeclarations c) :
    (d.interruption? c = none ↔ ¬ d.Illegible c) ∧
      ((d.family? c).isSome ↔ ∃ n, d.Sound c n) ∧
      (d.buildDiagnostics c = [] ↔ (d.family? c).isSome) := by
  refine ⟨?_, family?_isSome_iff, buildDiagnostics_eq_nil_iff⟩
  rw [← interruption?_isSome_iff (name_ne_empty hu hd), Option.not_isSome_iff_eq_none]

end FamilyDeclaration

/-- A family of one version whose latest alias has some target. -/
def aliasedUnit (target : String) : CompilationUnit where
  name := "ledger"
  modules := [.bare "Account" [] [
    { ModuleDecl.bare "Stable" [] [
        .bare "V1" [.bare "t"] [], { ModuleDecl.bare "Latest" [] [] with aliasOf := some target }]
      with attributes := ["versioned"] }]]

/-- The family of `aliasedUnit`. -/
def aliasedDeclaration (target : String) : FamilyDeclaration where
  container := { ModuleDecl.bare "Stable" [] [
        .bare "V1" [.bare "t"] [], { ModuleDecl.bare "Latest" [] [] with aliasOf := some target }]
      with attributes := ["versioned"] }
  parentPath := ["Account"]
  kind := .type
  strategy := .plain
  functorArities := []
  inTest := false
  parentTypes := []

theorem builds_exactly_aliased_family :
    (aliasedUnit "V1").WellNamed ∧
      aliasedDeclaration "V1" ∈ (aliasedUnit "V1").familyDeclarations .standard ∧
      ((aliasedDeclaration "V1").interruption? .standard = none ↔
        ¬ (aliasedDeclaration "V1").Illegible .standard) ∧
      (((aliasedDeclaration "V1").family? .standard).isSome ↔
        ∃ n, (aliasedDeclaration "V1").Sound .standard n) ∧
      ((aliasedDeclaration "V1").buildDiagnostics .standard = [] ↔
        ((aliasedDeclaration "V1").family? .standard).isSome) :=
  have hu : (aliasedUnit "V1").WellNamed := by decide
  have hd : aliasedDeclaration "V1" ∈ (aliasedUnit "V1").familyDeclarations .standard :=
    List.mem_singleton_self _
  ⟨hu, hd, FamilyDeclaration.builds_exactly_sound_containers hu hd⟩

/-- An alias of a version whose number has too many digits ends the build of its container. -/
theorem overlong_alias_interrupts_build :
    ∃ d ∈ (aliasedUnit (onesName 4301)).familyDeclarations .standard,
      d.interruption? .standard ≠ none := by
  refine ⟨aliasedDeclaration (onesName 4301), List.mem_singleton_self _, ?_⟩
  rw [← Option.isSome_iff_ne_none, FamilyDeclaration.interruption?_isSome_iff (by decide)]
  have hoverlong : overlongVersion? (onesName 4301) ≠ none := by
    rw [overlongVersion?_onesName (by decide)]
    exact Option.some_ne_none _
  refine Or.inr ⟨1, ⟨by decide, List.Perm.refl _⟩,
    Or.inl ⟨_, rfl, Or.inl ⟨_, _, rfl, ?_, hoverlong⟩⟩⟩
  rw [Path.ofDotted_of_not_mem (dot_not_mem_onesName 4301)]
  rfl

end SchemaVersioning
