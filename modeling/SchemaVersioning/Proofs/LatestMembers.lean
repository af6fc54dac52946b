import SchemaVersioning.Proofs.Growth
import SchemaVersioning.Proofs.Outcome

/-!
# Hand-written aliases of the latest version

A container may hold a module with the name of the latest alias.  The build reads the last one and
asks that each version it refers to is the highest (`mem_buildDiagnostics_latest_iff`).  What does
not refer to a version in this sense, and other members of the name, it lets pass
(`latest_checked_exactly`).
-/

namespace SchemaVersioning

/-- A name is one through which a latest alias refers to a version: the last component of the target
of the module, or a version in the target of a type. -/
def ModuleDecl.RefersTo (m : ModuleDecl) (a : String) : Prop :=
  (∃ target, m.aliasOf = some target ∧ (Path.ofDotted target).getLast? = some a) ∨
    ∃ t ∈ m.types, ∃ e, t.alias? = some e ∧ a ∈ e.path ∧ isVersionName a = true

namespace FamilyDeclaration

/-- The container with other members. -/
def withMembers (d : FamilyDeclaration) (ms : List ModuleDecl) : FamilyDeclaration :=
  { d with container := { d.container with modules := ms } }

/-- Each versioned type of a module is an alias whose path ends with a certain name and then that of
the type. -/
def AliasesInto (d : FamilyDeclaration) (c : Config) (m : ModuleDecl) (P : String → Prop) : Prop :=
  ∀ t ∈ m.types, t.name ∈ d.typeNames c →
    ∃ e before a, t.alias? = some e ∧ e.path = before ++ [a, t.name] ∧ P a

/-- A latest alias points at a version: as an alias of that module, and with an alias of each
versioned type that it declares. -/
def PointsAt (d : FamilyDeclaration) (c : Config) (n : Nat) (m : ModuleDecl) : Prop :=
  (∀ target, m.aliasOf = some target →
    ∃ a, (Path.ofDotted target).getLast? = some a ∧ versionNumber? a = some n) ∧
    d.AliasesInto c m (versionNumber? · = some n)

variable {d : FamilyDeclaration} {c : Config} {n : Nat}

/-! ## What is reported -/

/-- The rules that the members of a version can break. -/
def versionRules : List Rule :=
  [.missingVersionedType, .missingUpgradeFunction, .unrecognizedCodecAdapter, .missingRpcAdapter]

theorem rule_of_mem_versionFindings {k : Nat} {m : ModuleDecl} {x : Finding}
    (h : x ∈ d.versionFindings c k m) : x.problem.rule ∈ versionRules := by
  rw [versionFindings, List.mem_append, List.mem_append, List.mem_append, Option.mem_toList,
    Option.mem_toList] at h
  rcases h with ((h | h) | h) | h
  · obtain ⟨y, -, hy⟩ := List.mem_filterMap.1 h
    cases hfind : m.findType? y with
    | some t => simp [hfind] at hy
    | none =>
      obtain rfl := Option.some.inj (by simpa [hfind] using hy)
      simp [Problem.rule, versionRules]
  · split at h
    · cases h
    · obtain ⟨y, -, hy⟩ := List.mem_filterMap.1 h
      obtain ⟨fault, -, rfl⟩ := Option.map_eq_some_iff.1 hy
      simp [Problem.rule, versionRules]
  · unfold adapterFinding? at h
    split at h
    · obtain ⟨fault, -, rfl⟩ := Option.map_eq_some_iff.1 h
      simp [Problem.rule, versionRules]
    · cases h
  · unfold callAdapterFinding? at h
    split at h
    · obtain rfl := Option.some.inj h
      simp [Problem.rule, versionRules]
    · cases h

theorem rule_of_mem_memberFindings {x : Finding} (h : x ∈ d.memberFindings c) :
    x.problem.rule = .unexpectedContainerMember := by
  obtain ⟨m, -, hm⟩ := List.mem_filterMap.1 h
  split at hm
  · obtain rfl := Option.some.inj hm
    rfl
  · cases hm

theorem rule_of_mem_testFindings {x : Finding} (h : x ∈ d.testFindings c) :
    x.problem.rule = .missingTestObligation := by
  unfold testFindings at h
  split at h
  · obtain rfl := List.mem_singleton.1 h
    rfl
  · cases h

theorem rule_of_mem_latestFindings {x : Finding} (h : x ∈ d.latestFindings c) :
    x.problem.rule = .latestNotHighest := by
  unfold latestFindings at h
  split at h
  · cases h
  · dsimp only at h
    split at h
    · cases h
    · obtain rfl := List.mem_singleton.1 h
      rfl

/-- A finding breaks the rule of the latest alias exactly if it is one about that alias. -/
theorem exists_latestNotHighest_iff :
    (∃ x ∈ d.findings c, x.problem.rule = .latestNotHighest) ↔ d.latestFindings c ≠ [] := by
  constructor
  · rintro ⟨x, hx, hrule⟩ hnil
    rw [findings, hnil, List.append_nil, List.mem_append, List.mem_append, List.mem_flatMap] at hx
    rcases hx with (hmember | ⟨⟨k, m⟩, -, hversion⟩) | htest
    · cases hrule.symm.trans (rule_of_mem_memberFindings hmember)
    · exact absurd (hrule ▸ rule_of_mem_versionFindings hversion) (by decide)
    · cases hrule.symm.trans (rule_of_mem_testFindings htest)
  · intro hne
    obtain ⟨x, hx⟩ := List.exists_mem_of_ne_nil _ hne
    refine ⟨x, ?_, rule_of_mem_latestFindings hx⟩
    simp [findings, hx]

/-- The latest alias is reported exactly if the last member of its name refers to another version
than the highest. -/
theorem mem_buildDiagnostics_latest_iff (hn : d.Numbered n) :
    (∃ x ∈ d.buildDiagnostics c, x.rule = .latestNotHighest) ↔
      ∃ m, d.IsLatestModule c m ∧ ∃ a, m.RefersTo a ∧ versionNumber? a ≠ some n := by
  obtain ⟨hhigh, -, -⟩ := (numbered_iff (c := c)).1 hn
  have hdiagnostics : (∃ x ∈ d.buildDiagnostics c, x.rule = .latestNotHighest) ↔
      ∃ x ∈ d.findings c, x.problem.rule = .latestNotHighest := by
    rw [buildDiagnostics_of_numbered hn]
    simp [Finding.diagnostic]
  rw [hdiagnostics, exists_latestNotHighest_iff, ne_eq, latestFindings_eq_nil_iff, hhigh]
  simp only [mem_aliasTargets, ModuleDecl.RefersTo, not_forall, exists_prop]

/-! ## What passes -/

/-- A module that refers to no other version points at that version exactly if its versioned types
are aliases that end with versions. -/
theorem pointsAt_iff {m : ModuleDecl} (h : ∀ a, m.RefersTo a → versionNumber? a = some n) :
    d.PointsAt c n m ↔ d.AliasesInto c m (isVersionName · = true) := by
  constructor
  · rintro ⟨-, htypes⟩ t ht hname
    obtain ⟨e, before, a, he, hpath, ha⟩ := htypes t ht hname
    exact ⟨e, before, a, he, hpath, by simp [isVersionName, ha]⟩
  · intro htypes
    refine ⟨fun target htarget => ?_, fun t ht hname => ?_⟩
    · obtain ⟨a, ha⟩ := Option.ne_none_iff_exists'.1
        (fun hnone => Path.ofDotted_ne_nil target (List.getLast?_eq_none_iff.1 hnone))
      exact ⟨a, ha, h a (Or.inl ⟨target, htarget, ha⟩)⟩
    · obtain ⟨e, before, a, he, hpath, ha⟩ := htypes t ht hname
      have hmem : a ∈ e.path := by simp [hpath]
      exact ⟨e, before, a, he, hpath, h a (Or.inr ⟨t, ht, e, he, hmem, ha⟩)⟩

/-! ## Other members -/

section Others

variable {ms : List ModuleDecl} (hhigh : (d.withMembers ms).highest c = d.highest c)

include hhigh

/-- The other members matter to an upgrade function only through the highest version. -/
theorem upgradeFault?_withMembers : (d.withMembers ms).upgradeFault? c = d.upgradeFault? c := by
  funext k x value
  simp only [upgradeFault?, isLatestType, latestPaths, parentAliasesLatest, latestTargets, hhigh]
  rfl

theorem versionFindings_withMembers :
    (d.withMembers ms).versionFindings c = d.versionFindings c := by
  have hfinding : (d.withMembers ms).upgradeFinding? c = d.upgradeFinding? c := by
    funext k m x
    simp only [upgradeFinding?, upgradeFault?_withMembers hhigh]
    rfl
  funext k m
  simp only [versionFindings, hfinding, hhigh]
  rfl

theorem version_withMembers : (d.withMembers ms).version c = d.version c := by
  funext k m
  simp only [version, hhigh]
  rfl

end Others

/-! ## What is not read -/

section Unread

variable {before after : List ModuleDecl} {m : ModuleDecl}
  (hversion : versionNumber? m.name = none) (hname : m.name = c.latestName)

include hversion

theorem versionModules_unread : (d.withMembers (before ++ m :: after)).versionModules c
    = (d.withMembers (before ++ after)).versionModules c := by
  simp [versionModules_eq, withMembers, hversion]

theorem orderedVersions_unread : (d.withMembers (before ++ m :: after)).orderedVersions c
    = (d.withMembers (before ++ after)).orderedVersions c := by
  rw [orderedVersions, orderedVersions, versionModules_unread hversion]

theorem highest_unread : (d.withMembers (before ++ m :: after)).highest c
    = (d.withMembers (before ++ after)).highest c := by
  rw [highest, highest, orderedVersions_unread hversion]

include hname

theorem member_unread : member c m = .latest := member_eq_latest_iff.2 ⟨hversion, hname⟩

theorem memberFindings_unread : (d.withMembers (before ++ m :: after)).memberFindings c
    = (d.withMembers (before ++ after)).memberFindings c := by
  simp [memberFindings, withMembers, member_unread hversion hname, FamilyDeclaration.name]

theorem testModules_unread : (d.withMembers (before ++ m :: after)).testModules c
    = (d.withMembers (before ++ after)).testModules c := by
  simp [testModules, withMembers, member_unread hversion hname]

theorem testObligation?_unread : (d.withMembers (before ++ m :: after)).testObligation? c
    = (d.withMembers (before ++ after)).testObligation? c := by
  rw [testObligation?, testObligation?, testModules_unread hversion hname,
    orderedVersions_unread hversion]
  rfl

theorem latestModule?_unread (hafter : ∃ m' ∈ after, m'.name = c.latestName) :
    (d.withMembers (before ++ m :: after)).latestModule? c
      = (d.withMembers (before ++ after)).latestModule? c := by
  -- What stands before the later member of the name makes no difference to the last one.
  obtain ⟨m', hm', hname'⟩ := hafter
  have hlatest' : member c m' = .latest :=
    member_eq_latest_iff.2 ⟨by rwa [hname', ← hname], hname'⟩
  have hne : after.filter (fun m => member c m = .latest) ≠ [] :=
    List.ne_nil_of_mem (List.mem_filter.2 ⟨hm', by simpa using hlatest'⟩)
  have hlast : ∀ ms : List ModuleDecl, (d.withMembers (ms ++ after)).latestModule? c
      = (after.filter fun m => member c m = .latest).getLast? := fun ms => by
    rw [latestModule?, withMembers, List.filter_append, List.getLast?_append_of_ne_nil _ hne]
  rw [hlast before, List.append_cons, hlast (before ++ [m])]

theorem findings_unread (hafter : ∃ m' ∈ after, m'.name = c.latestName) :
    (d.withMembers (before ++ m :: after)).findings c
      = (d.withMembers (before ++ after)).findings c := by
  have hversions : (d.withMembers (before ++ m :: after)).versionFindings c
      = (d.withMembers (before ++ after)).versionFindings c :=
    versionFindings_withMembers (d := d.withMembers (before ++ after)) (highest_unread hversion)
  simp only [findings, latestFindings, testFindings, memberFindings_unread hversion hname,
    latestModule?_unread hversion hname hafter, highest_unread hversion, hversions,
    orderedVersions_unread hversion, testObligation?_unread hversion hname]
  rfl

theorem parts_unread : (d.withMembers (before ++ m :: after)).parts c
    = (d.withMembers (before ++ after)).parts c := by
  have hparts : (d.withMembers (before ++ m :: after)).version c
      = (d.withMembers (before ++ after)).version c :=
    version_withMembers (d := d.withMembers (before ++ after)) (highest_unread hversion)
  simp only [parts, hparts, orderedVersions_unread hversion, testObligation?_unread hversion hname]
  rfl

/-- A container builds the same family without a member that has the name of the latest alias and is
followed by another one of that name. -/
theorem build_unread (hafter : ∃ m' ∈ after, m'.name = c.latestName) (f : Family) :
    (d.withMembers (before ++ m :: after)).build c = .ok f ↔
      (d.withMembers (before ++ after)).build c = .ok f := by
  rw [build_eq_ok_iff, build_eq_ok_iff, ← numbers_eq_range'_iff, ← numbers_eq_range'_iff, numbers,
    numbers, orderedVersions_unread hversion, findings_unread hversion hname hafter,
    parts_unread hversion hname]

end Unread

/-! ## The check of a container -/

/-- How the members with the name of the latest alias are checked in a container of `n` versions. -/
structure LatestCheckedExactly (d : FamilyDeclaration) (c : Config) (n : Nat) : Prop where
  /-- The alias is reported exactly if the last of them refers to something else than the highest
  version. -/
  reported : (∃ x ∈ d.buildDiagnostics c, x.rule = .latestNotHighest) ↔
    ∃ m, d.IsLatestModule c m ∧ ∃ a, m.RefersTo a ∧ versionNumber? a ≠ some n
  /-- In a container that builds the last of them points at the highest version exactly if each
  versioned type in it is an alias that ends with some version and the name of the type. -/
  built : ∀ f, d.build c = .ok f → f.versions.length = n ∧ ∀ m, d.IsLatestModule c m →
    (d.PointsAt c n m ↔ d.AliasesInto c m (isVersionName · = true))
  /-- The others are not read: the same family is built without them. -/
  unread : ∀ before m after, d.container.modules = before ++ m :: after →
    versionNumber? m.name = none → m.name = c.latestName →
    (∃ m' ∈ after, m'.name = c.latestName) →
      ∀ f, d.build c = .ok f ↔ (d.withMembers (before ++ after)).build c = .ok f

/-- The hand-written aliases of the latest version are checked exactly as `LatestCheckedExactly`
says. -/
theorem latest_checked_exactly (hn : d.Numbered n) : d.LatestCheckedExactly c n where
  reported := mem_buildDiagnostics_latest_iff hn
  built f hf := by
    obtain ⟨hhigh, -, -⟩ := (numbered_iff (c := c)).1 hn
    refine ⟨(highest_eq_length hf).symm.trans hhigh, fun m hm => pointsAt_iff fun a ha => ?_⟩
    by_contra hother
    have hnone : d.buildDiagnostics c = [] :=
      buildDiagnostics_eq_nil_iff.2 (Option.isSome_iff_exists.2 ⟨f, family?_eq_some_iff.2 hf⟩)
    obtain ⟨x, hx, -⟩ := (mem_buildDiagnostics_latest_iff hn).2 ⟨m, hm, a, ha, hother⟩
    rw [hnone] at hx
    cases hx
  unread before m after hmembers hversion hname hafter f := by
    rw [← build_unread hversion hname hafter f, ← hmembers]
    rfl

end FamilyDeclaration

/-! ## Two aliases of the latest version -/

/-- An alias of the latest version. -/
def writtenLatest (target : String) : ModuleDecl :=
  { ModuleDecl.bare "Latest" [] [] with aliasOf := some target }

/-- A container of two versions with an alias of each of them. -/
def rewrittenContainer : ModuleDecl :=
  { ModuleDecl.bare "Stable" [] [upgradingVersion "V1" (.ofPath "Latest" ["t"]),
      .bare "V2" [.bare "t"] [], writtenLatest "V1", writtenLatest "V2"] with
    attributes := ["versioned"] }

/-- The declaration of the family of the container. -/
def rewrittenDeclaration : FamilyDeclaration where
  container := rewrittenContainer
  parentPath := ["Account"]
  kind := .type
  strategy := .plain
  functorArities := []
  inTest := false
  parentTypes := []

def rewrittenUnit : CompilationUnit := ⟨"ledger", [.bare "Account" [] [rewrittenContainer]]⟩

theorem latest_checked_exactly_rewrittenDeclaration :
    rewrittenDeclaration.Numbered 2 ∧ rewrittenDeclaration.LatestCheckedExactly .standard 2 :=
  have hn : rewrittenDeclaration.Numbered 2 := ⟨by decide, List.Perm.refl _⟩
  ⟨hn, FamilyDeclaration.latest_checked_exactly hn⟩

/-- The container builds, although the first of its aliases points at the first version. -/
theorem earlier_latest_unread :
    rewrittenDeclaration ∈ rewrittenUnit.familyDeclarations .standard ∧
      ∃ f, rewrittenDeclaration.build .standard = .ok f ∧ f.versions.length = 2 ∧
        writtenLatest "V1" ∈ rewrittenDeclaration.container.modules ∧
        (writtenLatest "V1").name = Config.standard.latestName ∧
        ¬ rewrittenDeclaration.PointsAt .standard 2 (writtenLatest "V1") := by
  obtain ⟨f, hbuild⟩ := exists_build (d := rewrittenDeclaration) (c := .standard) (by cbv)
  have hlength : f.versions.length = 2 := by
    rw [← highest_eq_length hbuild]
    cbv
  have hmember : writtenLatest "V1" ∈ rewrittenDeclaration.container.modules :=
    List.mem_cons_of_mem _ (List.mem_cons_of_mem _ List.mem_cons_self)
  refine ⟨List.mem_singleton_self _, f, hbuild, hlength, hmember, rfl, fun hpoints => ?_⟩
  obtain ⟨a, ha, hnumber⟩ := hpoints.1 "V1" rfl
  obtain rfl : "V1" = a := Option.some.inj ha
  exact absurd hnumber (by decide)

end SchemaVersioning
