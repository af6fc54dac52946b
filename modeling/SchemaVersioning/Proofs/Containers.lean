import Mathlib.Data.List.Sort
import SchemaVersioning.Family.Build

/-!
# Sound containers

When a container holds a family.  `Sound` lists the conditions in terms of the declarations alone;
each part of the search for problems finds nothing exactly when its condition holds, and so a
container builds exactly when it is sound (`build_ok_iff`).
-/

namespace SchemaVersioning

/-! ## Written paths -/

/-- A path spells the end of a full path, in at least so many components. -/
def Path.Spells (p full : Path) (fewest : Nat) : Prop := fewest ≤ p.length ∧ p <:+ full

@[simp] theorem denotes_eq_true_iff {p full : Path} {fewest : Nat} :
    p.denotes full fewest = true ↔ p.Spells full fewest := by
  simp [Path.denotes, Path.Spells]

namespace FamilyDeclaration

variable (d : FamilyDeclaration) (c : Config)

/-! ## Members -/

/-- A member of the container that declares a version. -/
def HasVersion (number : Nat) (m : ModuleDecl) : Prop :=
  m ∈ d.container.modules ∧ versionNumber? m.name = some number

/-- The last member that has the name of the latest alias and is no version. -/
def IsLatestModule (m : ModuleDecl) : Prop :=
  (d.container.modules.filter fun m =>
    versionNumber? m.name = none ∧ m.name = c.latestName).getLast? = some m

/-- A test among the members: neither a version nor the latest alias. -/
def IsTestMember (m : ModuleDecl) : Prop :=
  m ∈ d.container.modules ∧ versionNumber? m.name = none ∧ m.name ≠ c.latestName ∧ c.isTest m = true

/-- The members declare the versions `1..n`, each once, and at least one. -/
def Numbered (n : Nat) : Prop :=
  1 ≤ n ∧ (d.container.modules.filterMap fun m => versionNumber? m.name).Perm (List.range' 1 n)

/-! ## Latest types -/

/-- The type declared beside the container is an alias of the latest one. -/
def ParentAliases (n : Nat) (typeName : String) : Prop :=
  ∃ t e, d.parentTypes.find? (·.name = typeName) = some t ∧ t.alias? = some e ∧
    (e.path.Spells (d.containerPath ++ [c.latestName, typeName]) 3 ∨
      e.path.Spells (d.containerPath ++ [versionName n, typeName]) 3)

/-- A path names the latest type: through the latest alias, as the highest version, or through an
alias beside the container. -/
def NamesLatest (n : Nat) (typeName : String) (p : Path) : Prop :=
  p.Spells (d.containerPath ++ [c.latestName, typeName]) 2 ∨
    p.Spells (d.containerPath ++ [versionName n, typeName]) 2 ∨
    (d.parentPath ≠ [] ∧ d.ParentAliases c n typeName ∧ p.Spells (d.parentPath ++ [typeName]) 2)

/-- A signature converts a type of a version. -/
def ConvertsOwn (number : Nat) (typeName : String) (v : ValueDecl) : Prop :=
  ∃ e, v.params = [e] ∧ e.path.Spells (d.containerPath ++ [versionName number, typeName]) 1

/-! ## Soundness -/

/-- A container that holds a family of `n` versions. -/
structure Sound (n : Nat) : Prop where
  numbered : d.Numbered n
  members : ∀ m ∈ d.container.modules, versionNumber? m.name = none →
    m.name = c.latestName ∨ c.isTest m = true
  aliasTarget : ∀ m, d.IsLatestModule c m → ∀ target, m.aliasOf = some target →
    ∀ a, (Path.ofDotted target).getLast? = some a → versionNumber? a = some n
  aliasTypes : ∀ m, d.IsLatestModule c m → ∀ t ∈ m.types, ∀ e, t.alias? = some e →
    ∀ a ∈ e.path, isVersionName a = true → versionNumber? a = some n
  types : ∀ k m, d.HasVersion k m → ∀ x ∈ d.typeNames c, ∃ t ∈ m.types, t.name = x
  upgrades : ∀ k m, d.HasVersion k m → k < n → ∀ x ∈ d.typeNames c,
    ∃ v, m.findValue? (c.upgradeName x) = some v ∧ d.ConvertsOwn k x v ∧
      d.NamesLatest c n x v.returns.path
  codecs : d.strategy = .binable → ∀ k m, d.HasVersion k m →
    ∃ codec, m.codec = some codec ∧
      (codec.adapter = "of_stringable" ∨ codec.adapter = "of_binable" ∧ codec.wraps.isSome)
  tested : d.strategy = .asserted →
    (∃ m, d.IsTestMember c m) ∨ ∃ k m, d.HasVersion k m ∧ ∃ t ∈ m.modules, c.isTest t = true
  adapters : d.kind = .rpc → ∀ k m, d.HasVersion k m → ∀ name ∈ callAdapters,
    ∃ v ∈ m.values, v.name = name

variable {d c}

/-! ## The parts that members play -/

theorem member_eq_version_iff {m : ModuleDecl} {k : Nat} :
    member c m = .version k ↔ versionNumber? m.name = some k := by
  unfold member
  cases h : versionNumber? m.name with
  | some number => simp
  | none =>
    simp only [reduceCtorEq, iff_false]
    split_ifs <;> simp

theorem member_eq_latest_iff {m : ModuleDecl} :
    member c m = .latest ↔ versionNumber? m.name = none ∧ m.name = c.latestName := by
  unfold member
  cases h : versionNumber? m.name with
  | some number => simp
  | none => by_cases hl : m.name = c.latestName <;> by_cases ht : c.isTest m <;> simp [hl, ht]

theorem member_eq_test_iff {m : ModuleDecl} :
    member c m = .test ↔
      versionNumber? m.name = none ∧ m.name ≠ c.latestName ∧ c.isTest m = true := by
  unfold member
  cases h : versionNumber? m.name with
  | some number => simp
  | none => by_cases hl : m.name = c.latestName <;> by_cases ht : c.isTest m <;> simp [hl, ht]

theorem member_eq_unexpected_iff {m : ModuleDecl} :
    member c m = .unexpected ↔
      versionNumber? m.name = none ∧ m.name ≠ c.latestName ∧ ¬ c.isTest m = true := by
  unfold member
  cases h : versionNumber? m.name with
  | some number => simp
  | none => by_cases hl : m.name = c.latestName <;> by_cases ht : c.isTest m <;> simp [hl, ht]

theorem latestModule?_eq_some_iff {m : ModuleDecl} :
    d.latestModule? c = some m ↔ d.IsLatestModule c m := by
  rw [latestModule?, IsLatestModule]
  simp only [member_eq_latest_iff]

theorem mem_testModules {m : ModuleDecl} : m ∈ d.testModules c ↔ d.IsTestMember c m := by
  rw [testModules, List.mem_filter, decide_eq_true_eq, member_eq_test_iff, IsTestMember]

/-! ## Numbers -/

theorem versionModules_eq : d.versionModules c
    = d.container.modules.filterMap fun m => (versionNumber? m.name).map (·, m) := by
  unfold versionModules
  congr 1
  funext m
  cases h : versionNumber? m.name with
  | some number => rw [member_eq_version_iff.2 h]; rfl
  | none =>
    cases hm : member c m with
    | version number => rw [member_eq_version_iff.1 hm] at h; cases h
    | _ => rfl

theorem mem_orderedVersions {k : Nat} {m : ModuleDecl} :
    (k, m) ∈ d.orderedVersions c ↔ d.HasVersion k m := by
  rw [orderedVersions, List.mem_mergeSort, versionModules_eq, List.mem_filterMap, HasVersion]
  constructor
  · rintro ⟨n, hn, h⟩
    obtain ⟨number, hnumber, heq⟩ := Option.map_eq_some_iff.1 h
    obtain ⟨rfl, rfl⟩ := Prod.mk.inj heq
    exact ⟨hn, hnumber⟩
  · rintro ⟨hm, hk⟩
    exact ⟨m, hm, by rw [hk]; rfl⟩

theorem numbers_perm : (d.numbers c).Perm
    (d.container.modules.filterMap fun m => versionNumber? m.name) := by
  refine ((List.mergeSort_perm _ _).map _).trans (List.Perm.of_eq ?_)
  rw [versionModules_eq, List.map_filterMap]
  congr 1
  funext m
  cases versionNumber? m.name <;> rfl

theorem pairwise_numbers : (d.numbers c).Pairwise (· ≤ ·) := by
  rw [numbers, List.pairwise_map]
  refine (List.pairwise_mergeSort ?_ ?_ (d.versionModules c)).imp ?_
  · intro a b c hab hbc
    simp only [decide_eq_true_eq] at hab hbc ⊢
    exact Nat.le_trans hab hbc
  · intro a b
    simp only [Bool.or_eq_true, decide_eq_true_eq]
    exact Nat.le_total a.1 b.1
  · intro a b h
    simpa using h

theorem length_numbers : (d.numbers c).length = d.highest c := List.length_map _

/-- The sorted numbers are `1..n` exactly when the members declare these versions. -/
theorem numbered_iff {n : Nat} :
    d.Numbered n ↔ d.highest c = n ∧ d.numbers c = List.range' 1 n ∧ d.numbers c ≠ [] := by
  constructor
  · rintro ⟨hn, hperm⟩
    have heq : d.numbers c = List.range' 1 n :=
      (numbers_perm.trans hperm).eq_of_pairwise (fun a b _ _ hab hba => Nat.le_antisymm hab hba)
        pairwise_numbers ((List.pairwise_lt_range' 1).imp Nat.le_of_lt)
    refine ⟨?_, heq, ?_⟩
    · rw [← length_numbers, heq, List.length_range']
    · rw [heq]
      simp only [ne_eq, List.range'_eq_nil_iff]
      omega
  · rintro ⟨hhigh, heq, hne⟩
    refine ⟨?_, ?_⟩
    · rw [heq, ne_eq, List.range'_eq_nil_iff] at hne
      omega
    · rw [← heq]
      exact numbers_perm.symm

theorem numbers_eq_range'_iff :
    (d.numbers c = List.range' 1 (d.numbers c).length ∧ d.numbers c ≠ []) ↔
      d.Numbered (d.highest c) := by
  rw [numbered_iff (c := c), length_numbers]
  simp

theorem pairwise_orderedVersions {n : Nat} (hn : d.Numbered n) :
    (d.orderedVersions c).Pairwise fun a b => a.1 < b.1 := by
  obtain ⟨-, hnumbers, -⟩ := (numbered_iff (c := c)).1 hn
  have hsorted : ((d.orderedVersions c).map Prod.fst).Pairwise (· < ·) := by
    rw [show (d.orderedVersions c).map Prod.fst = List.range' 1 n from hnumbers]
    exact List.pairwise_lt_range' 1
  exact List.pairwise_map.1 hsorted

theorem eq_of_hasVersion {n k : Nat} (hn : d.Numbered n) {m m' : ModuleDecl}
    (hm : d.HasVersion k m) (hm' : d.HasVersion k m') : m = m' := by
  have hdistinct : ((d.orderedVersions .standard).map Prod.fst).Nodup :=
    (List.pairwise_map.2 (pairwise_orderedVersions hn)).imp Nat.ne_of_lt
  exact congrArg Prod.snd (List.inj_on_of_nodup_map hdistinct (mem_orderedVersions.2 hm)
    (mem_orderedVersions.2 hm') rfl)

/-- The versions in ascending order, if their numbers are distinct. -/
theorem orderedVersions_eq {n : Nat} (hn : d.Numbered n) {ordered : List (Nat × ModuleDecl)}
    (hperm : ordered.Perm (d.versionModules c)) (hsorted : ordered.Pairwise fun a b => a.1 < b.1) :
    d.orderedVersions c = ordered :=
  List.Perm.eq_of_pairwise (fun _ _ _ _ hab hba => absurd hab (Nat.lt_asymm hba))
    (pairwise_orderedVersions hn) hsorted ((List.mergeSort_perm _ _).trans hperm.symm)

/-! ## Problems of the parts -/

theorem memberFindings_eq_nil_iff : d.memberFindings c = [] ↔
    ∀ m ∈ d.container.modules, versionNumber? m.name = none →
      m.name = c.latestName ∨ c.isTest m = true := by
  rw [memberFindings, List.filterMap_eq_nil_iff]
  refine forall₂_congr fun m _ => ?_
  rw [ite_eq_right_iff]
  simp only [reduceCtorEq, imp_false, member_eq_unexpected_iff]
  tauto

theorem mem_aliasTargets {m : ModuleDecl} {a : String} : a ∈ aliasTargets m ↔
    (∃ target, m.aliasOf = some target ∧ (Path.ofDotted target).getLast? = some a) ∨
      ∃ t ∈ m.types, ∃ e, t.alias? = some e ∧ a ∈ e.path ∧ isVersionName a = true := by
  rw [aliasTargets, List.mem_append, List.mem_flatMap, Option.mem_toList, Option.bind_eq_some_iff]
  refine or_congr_right (exists_congr fun t => and_congr_right fun _ => ?_)
  cases t.alias? with
  | none => simp
  | some e => simp

theorem latestFindings_eq_nil_iff : d.latestFindings c = [] ↔
    ∀ m, d.IsLatestModule c m → ∀ a ∈ aliasTargets m, versionNumber? a = some (d.highest c) := by
  simp only [← latestModule?_eq_some_iff]
  unfold latestFindings
  cases d.latestModule? c with
  | none => simp
  | some m => simp

theorem findType?_isSome_iff {m : ModuleDecl} {x : String} :
    (m.findType? x).isSome ↔ ∃ t ∈ m.types, t.name = x := by
  simp [ModuleDecl.findType?, List.find?_isSome]

theorem findValue?_isSome_iff {m : ModuleDecl} {x : String} :
    (m.findValue? x).isSome ↔ ∃ v ∈ m.values, v.name = x := by
  simp [ModuleDecl.findValue?, List.find?_isSome]

theorem typeFindings_eq_nil_iff {m : ModuleDecl} : d.typeFindings c m = [] ↔
    ∀ x ∈ d.typeNames c, ∃ t ∈ m.types, t.name = x := by
  rw [typeFindings, List.filterMap_eq_nil_iff]
  refine forall₂_congr fun x _ => ?_
  rw [← findType?_isSome_iff]
  cases m.findType? x <;> simp

theorem parentAliasesLatest_iff {x : String} :
    d.parentAliasesLatest c x = true ↔ d.ParentAliases c (d.highest c) x := by
  unfold parentAliasesLatest ParentAliases
  cases ht : d.parentTypes.find? (·.name = x) with
  | none => simp
  | some t =>
    cases he : t.alias? with
    | none => simp [he]
    | some e => simp [he, latestTargets]

theorem isLatestType_iff {x : String} {e : TypeExpr} :
    d.isLatestType c x e = true ↔ d.NamesLatest c (d.highest c) x e.path := by
  rw [isLatestType, List.any_eq_true]
  simp only [denotes_eq_true_iff, latestPaths, latestTargets, List.mem_append, NamesLatest,
    ← parentAliasesLatest_iff]
  by_cases hp : d.parentPath = [] <;> by_cases ha : d.parentAliasesLatest c x = true <;>
    simp [hp, ha, or_assoc]

theorem isOwnType_iff {k : Nat} {x : String} {e : TypeExpr} : d.isOwnType k x e = true ↔
    e.path.Spells (d.containerPath ++ [versionName k, x]) 1 := denotes_eq_true_iff

/-- An upgrade function is faultless when it converts the own type to the latest one. -/
theorem upgradeFault?_eq_none_iff {k : Nat} {x : String} {v : Option ValueDecl} :
    d.upgradeFault? c k x v = none ↔ ∃ value, v = some value ∧ d.ConvertsOwn k x value ∧
      d.NamesLatest c (d.highest c) x value.returns.path := by
  cases v with
  | none => simp [upgradeFault?]
  | some value =>
    simp only [Option.some.injEq, exists_eq_left', ConvertsOwn, ← isLatestType_iff, ← isOwnType_iff]
    unfold upgradeFault?
    cases hparams : value.params with
    | nil => simp [hparams]
    | cons e rest =>
      cases rest with
      | cons e' rest => simp [hparams]
      | nil =>
        cases hown : d.isOwnType k x e with
        | false => simp [hparams, hown]
        | true =>
          cases hlatest : d.isLatestType c x value.returns with
          | true => simp [hparams, hown, hlatest]
          | false =>
            -- Whatever version the result names, it is not the latest type.
            simp only [hparams, hown, hlatest]
            cases value.returns.path.findSome? versionNumber? with
            | none => simp
            | some target => by_cases ht : target = d.highest c <;> simp [ht]

theorem upgradeFindings_eq_nil_iff {k : Nat} {m : ModuleDecl} :
    (d.typeNames c).filterMap (d.upgradeFinding? c k m) = [] ↔
      ∀ x ∈ d.typeNames c, ∃ v, m.findValue? (c.upgradeName x) = some v ∧ d.ConvertsOwn k x v ∧
        d.NamesLatest c (d.highest c) x v.returns.path := by
  rw [List.filterMap_eq_nil_iff]
  refine forall₂_congr fun x _ => ?_
  rw [upgradeFinding?, Option.map_eq_none_iff, upgradeFault?_eq_none_iff]
  rfl

theorem adapterFinding?_eq_none_iff {m : ModuleDecl} : d.adapterFinding? m = none ↔
    (d.strategy = .binable → ∃ codec, m.codec = some codec ∧
      (codec.adapter = "of_stringable" ∨ codec.adapter = "of_binable" ∧ codec.wraps.isSome)) := by
  unfold adapterFinding?
  split
  · next hb =>
    simp only [hb, true_imp_iff, Option.map_eq_none_iff]
    unfold adapterFault?
    cases m.codec with
    | none => simp
    | some codec =>
      by_cases hs : codec.adapter = "of_stringable"
      · simp [hs, recognizedAdapters]
      · by_cases ho : codec.adapter = "of_binable"
        · simp [ho, recognizedAdapters, Option.isSome_iff_ne_none]
        · simp [hs, ho, recognizedAdapters]
  · next hb => simp [hb]

theorem callAdapterFinding?_eq_none_iff {m : ModuleDecl} : d.callAdapterFinding? m = none ↔
    (d.kind = .rpc → ∀ name ∈ callAdapters, ∃ v ∈ m.values, v.name = name) := by
  have hmissing : missingCallAdapters m = [] ↔
      ∀ name ∈ callAdapters, ∃ v ∈ m.values, v.name = name := by
    simp [missingCallAdapters, List.filter_eq_nil_iff, ← findValue?_isSome_iff,
      Option.isSome_iff_ne_none]
  rw [callAdapterFinding?, ite_eq_right_iff, ← hmissing]
  simp only [reduceCtorEq, imp_false, not_and, not_not]

theorem testObligation?_isSome_iff : (d.testObligation? c).isSome ↔
    (∃ m, d.IsTestMember c m) ∨ ∃ k m, d.HasVersion k m ∧ ∃ t ∈ m.modules, c.isTest t = true := by
  simp only [← mem_testModules, ← mem_orderedVersions (c := c)]
  unfold testObligation?
  cases d.testModules c with
  | cons test rest => simp
  | nil =>
    simp only [List.findSome?_isSome_iff, Option.isSome_map, List.find?_isSome, Prod.exists]
    simp

theorem testFindings_eq_nil_iff : d.testFindings c = [] ↔
    (d.strategy = .asserted → (∃ m, d.IsTestMember c m) ∨
      ∃ k m, d.HasVersion k m ∧ ∃ t ∈ m.modules, c.isTest t = true) := by
  rw [testFindings, ite_eq_right_iff, ← testObligation?_isSome_iff]
  simp only [reduceCtorEq, imp_false, not_and, Option.isNone_iff_eq_none, Option.isSome_iff_ne_none]

theorem versionFindings_eq_nil_iff {k : Nat} {m : ModuleDecl} : d.versionFindings c k m = [] ↔
    (d.typeFindings c m = [] ∧ (k ≠ d.highest c →
      (d.typeNames c).filterMap (d.upgradeFinding? c k m) = [])) ∧
    d.adapterFinding? m = none ∧ d.callAdapterFinding? m = none := by
  rw [versionFindings]
  by_cases hk : k = d.highest c <;> simp [hk, and_assoc]

/-! ## Building -/

theorem findings_eq_nil_iff : d.findings c = [] ↔
    d.memberFindings c = [] ∧ d.latestFindings c = [] ∧
      (∀ k m, d.HasVersion k m → d.versionFindings c k m = []) ∧ d.testFindings c = [] := by
  simp only [findings, List.append_eq_nil_iff, List.flatMap_eq_nil_iff, Prod.forall,
    mem_orderedVersions, and_assoc]

/-- The versions of a numbered container lie between one and the highest. -/
theorem Numbered.le {n : Nat} (hn : d.Numbered n) {k : Nat} {m : ModuleDecl}
    (h : d.HasVersion k m) : 1 ≤ k ∧ k ≤ n := by
  have hk := hn.2.mem_iff.1 (List.mem_filterMap.2 ⟨m, h⟩)
  rw [List.mem_range'_1] at hk
  omega

/-- A container without problems whose numbers are `1..n` is sound, and the other way round. -/
theorem sound_iff {n : Nat} :
    d.Sound c n ↔ d.Numbered n ∧ d.findings c = [] := by
  constructor
  · intro h
    obtain ⟨hhigh, -, -⟩ := (numbered_iff (c := c)).1 h.numbered
    refine ⟨h.numbered, findings_eq_nil_iff.2 ⟨memberFindings_eq_nil_iff.2 h.members,
      latestFindings_eq_nil_iff.2 ?_, ?_, testFindings_eq_nil_iff.2 h.tested⟩⟩
    · intro m hm a ha
      rw [hhigh]
      rcases mem_aliasTargets.1 ha with ⟨target, htarget, hlast⟩ | ⟨t, ht, e, he, hae, hv⟩
      · exact h.aliasTarget m hm target htarget a hlast
      · exact h.aliasTypes m hm t ht e he a hae hv
    · intro k m hm
      refine versionFindings_eq_nil_iff.2 ⟨⟨typeFindings_eq_nil_iff.2 (h.types k m hm), ?_⟩,
        adapterFinding?_eq_none_iff.2 fun hb => h.codecs hb k m hm,
        callAdapterFinding?_eq_none_iff.2 fun hr => h.adapters hr k m hm⟩
      intro hne
      rw [upgradeFindings_eq_nil_iff, hhigh]
      rw [hhigh] at hne
      have hle := h.numbered.le hm
      exact h.upgrades k m hm (by omega)
  · rintro ⟨hnumbered, hfindings⟩
    obtain ⟨hhigh, -, -⟩ := (numbered_iff (c := c)).1 hnumbered
    obtain ⟨hmembers, hlatest, hversions, htest⟩ := findings_eq_nil_iff.1 hfindings
    have hparts := fun k m hm => versionFindings_eq_nil_iff.1 (hversions k m hm)
    rw [latestFindings_eq_nil_iff, hhigh] at hlatest
    exact {
      numbered := hnumbered
      members := memberFindings_eq_nil_iff.1 hmembers
      aliasTarget := fun m hm target htarget a ha =>
        hlatest m hm a (mem_aliasTargets.2 (Or.inl ⟨target, htarget, ha⟩))
      aliasTypes := fun m hm t ht e he a ha hv =>
        hlatest m hm a (mem_aliasTargets.2 (Or.inr ⟨t, ht, e, he, ha, hv⟩))
      types := fun k m hm => typeFindings_eq_nil_iff.1 (hparts k m hm).1.1
      upgrades := fun k m hm hk => by
        have hupgrades := (hparts k m hm).1.2 (by omega)
        rwa [upgradeFindings_eq_nil_iff, hhigh] at hupgrades
      codecs := fun hb k m hm => adapterFinding?_eq_none_iff.1 (hparts k m hm).2.1 hb
      tested := testFindings_eq_nil_iff.1 htest
      adapters := fun hr k m hm => callAdapterFinding?_eq_none_iff.1 (hparts k m hm).2.2 hr }

/-- What a container that builds gives. -/
theorem build_eq_ok_iff {f : Family} : d.build c = .ok f ↔
    d.Numbered (d.highest c) ∧ d.findings c = [] ∧ f.toFamilyParts = d.parts c := by
  rw [← numbers_eq_range'_iff]
  unfold build
  split
  · next hempty => simp [hempty]
  · next hne =>
    split
    · next hrange =>
      split
      · next hnil =>
        simp only [Except.ok.injEq]
        constructor
        · rintro rfl
          exact ⟨⟨hrange, hne⟩, hnil, rfl⟩
        · rintro ⟨-, -, hparts⟩
          cases f
          cases hparts
          rfl
      · next hsome => simp [hsome]
    · next hrange => simp [hrange]

/-- A container builds exactly when it is sound. -/
theorem build_ok_iff : (∃ f, d.build c = .ok f) ↔ ∃ n, d.Sound c n := by
  constructor
  · rintro ⟨f, hf⟩
    obtain ⟨hnumbered, hfindings, -⟩ := build_eq_ok_iff.1 hf
    exact ⟨d.highest c, sound_iff.2 ⟨hnumbered, hfindings⟩⟩
  · rintro ⟨n, hn⟩
    obtain ⟨hnumbered, hfindings⟩ := sound_iff.1 hn
    obtain ⟨hhigh, -, -⟩ := (numbered_iff (c := c)).1 hnumbered
    rw [← hhigh] at hnumbered
    have hrange := numbers_eq_range'_iff.2 hnumbered
    cases h : d.build c with
    | ok f => exact ⟨f, rfl⟩
    | error fs =>
      rw [build, dif_neg hrange.2, dif_pos hrange.1, dif_pos hfindings] at h
      cases h

/-- A container that does not build has at least one problem. -/
theorem findings_ne_nil_of_build {fs : List Finding} (h : d.build c = .error fs) : fs ≠ [] := by
  unfold build at h
  split at h
  · obtain rfl := Except.error.inj h
    simp
  · split at h
    · split at h
      · cases h
      · next hne =>
        obtain rfl := Except.error.inj h
        exact hne
    · obtain rfl := Except.error.inj h
      simp

end FamilyDeclaration

/-- The highest version of a family counts its versions. -/
theorem highest_eq_length {d : FamilyDeclaration} {c : Config} {f : Family}
    (h : d.build c = .ok f) : d.highest c = f.versions.length := by
  obtain ⟨-, -, hparts⟩ := FamilyDeclaration.build_eq_ok_iff.1 h
  rw [hparts, FamilyDeclaration.length_parts, FamilyDeclaration.length_numbers]

end SchemaVersioning
