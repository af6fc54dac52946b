import Mathlib
import SchemaVersioning.Proofs.Naming
import SchemaVersioning.Proofs.Numbering
import SchemaVersioning.Proofs.Outcome

/-!
# What upgrades convert

A container builds if each of its upgrade functions spells the own type of its version and the
latest one.  What these spellings name is decided by the index, which looks them up in the scope of
the version: the two agree exactly when nothing further in is meant (`reads_recorded_upgrades`).
-/

namespace SchemaVersioning

/-! ## Declared types -/

section Declared

variable {u : CompilationUnit} {c : Config}

theorem declares_of_place {p : Place} (hp : p ∈ u.places) {t : TypeDecl} (ht : t ∈ p.module.types) :
    (u.index c).types.Declares (p.path ++ [t.name]) := by
  refine ⟨_, mem_index_types.2 (Or.inr ⟨p, hp, List.mem_map_of_mem ht⟩), ?_⟩
  show (p.site c _).path ++ [t.name] = p.path ++ [t.name]
  rw [Place.path_site]

theorem declares_latest {d : FamilyDeclaration} (hd : d ∈ u.familyDeclarations c) {x : String}
    (hx : x ∈ d.typeNames c) :
    (u.index c).types.Declares (d.containerPath ++ [c.latestName, x]) := by
  refine ⟨_, mem_index_types.2 (Or.inl ⟨d, hd, List.mem_map_of_mem hx⟩), ?_⟩
  simp [FamilyDeclaration.latestPath]

/-- A version of a discovered container declares its types in its own module. -/
theorem declares_of_version {d : FamilyDeclaration} (hd : d ∈ u.familyDeclarations c) {k : Nat}
    {m : ModuleDecl} (hm : d.HasVersion k m) {x : String} (hx : ∃ t ∈ m.types, t.name = x) :
    (u.index c).types.Declares (d.versionPath m ++ [x]) := by
  obtain ⟨p, hp, hpd⟩ := mem_familyDeclarations.1 hd
  obtain ⟨t, ht, rfl⟩ := hx
  have hmem : m ∈ p.module.modules := by
    rw [← Place.container_of_declaration? hpd]
    exact hm.1
  have hdeclares := declares_of_place (c := c) (mem_places_of_member hp hmem) ht
  rwa [Place.path_eq, show Path.ofLine p.line = d.containerPath from
    (Place.containerPath_of_declaration? hpd).symm] at hdeclares

theorem types_within_concat (line : List ModuleDecl) (m : ModuleDecl) :
    (Enclosure.within c (line ++ [m])).types = m.types := by
  rw [Enclosure.within_concat]
  rfl

theorem declares_parent {d : FamilyDeclaration} (hd : d ∈ u.familyDeclarations c)
    {x : String} {t : TypeDecl} (ht : t ∈ d.parentTypes) (hx : t.name = x) :
    (u.index c).types.Declares (d.parentPath ++ [x]) := by
  obtain ⟨p, hp, hpd⟩ := mem_familyDeclarations.1 hd
  have htypes : d.parentTypes = (Enclosure.within c p.ancestors).types := by
    obtain ⟨_, _, rfl⟩ := Option.map_eq_some_iff.1 hpd
    rfl
  rw [htypes] at ht
  rcases List.eq_nil_or_concat p.ancestors with hnil | ⟨line, m, hline⟩
  · rw [hnil] at ht
    cases ht
  · rw [List.concat_eq_append] at hline
    rw [hline, types_within_concat] at ht
    have hparent : (⟨line, m⟩ : Place) ∈ u.places := by
      rw [mem_places, Place.line]
      exact (lineage_append.1 (by rw [← hline]; exact mem_places.1 hp)).1
    have hdeclares := declares_of_place (c := c) hparent ht
    rwa [hx, Place.path, Place.line, ← hline, ← Place.parentPath_of_declaration? hpd] at hdeclares

end Declared

/-! ## Spellings in the scope of a version -/

/-- A path that spells the end of a declared path is found if what it leaves out is around. -/
theorem lookup_of_suffix {table : Table} {p scope full before : Path} (hfull : full = before ++ p)
    (hscope : before <+: scope) (hdeclared : table.Declares full) :
    ∃ e, table.lookup p scope = some e := by
  obtain ⟨rest, rfl⟩ := hscope
  have hne : table.lookup p (before ++ rest) ≠ none := by
    refine Table.lookup_ne_none (i := before.length) (by simp) ?_
    rwa [List.take_left, ← hfull]
  exact Option.ne_none_iff_exists'.1 hne

/-- What a suffix of a longer path leaves out of it. -/
theorem exists_before_of_spells {p outer inner : Path} {fewest : Nat}
    (h : p.Spells (outer ++ inner) fewest) (hlength : inner.length ≤ fewest) :
    ∃ before, outer ++ inner = before ++ p ∧ before <+: outer := by
  obtain ⟨hfewest, before, hbefore⟩ := h
  refine ⟨before, hbefore.symm, ?_⟩
  have hle : before.length ≤ outer.length := by
    have := congrArg List.length hbefore
    simp only [List.length_append] at this
    omega
  exact List.prefix_of_prefix_length_le ⟨p, hbefore⟩ (List.prefix_append outer inner) hle

/-! ## Versions of a built family -/

section Versions

variable {d : FamilyDeclaration} {c : Config} {f : Family}

theorem exists_of_mem_versions (h : d.build c = .ok f) {v : SchemaVersion} (hv : v ∈ f.versions) :
    ∃ k m, d.HasVersion k m ∧ v = d.version c k m := by
  rw [parts_of_build h] at hv
  obtain ⟨⟨k, m⟩, hm, rfl⟩ := List.mem_map.1 hv
  exact ⟨k, m, FamilyDeclaration.mem_orderedVersions.1 hm, rfl⟩

theorem lookup_filterMap {α : Type} {g : String → Option α} {x : String} {a : α}
    {names : List String} (hx : x ∈ names) (ha : g x = some a) :
    (names.filterMap fun y => (g y).map (y, ·)).lookup x = some a := by
  induction names with
  | nil => cases hx
  | cons y names ih =>
    by_cases hxy : x = y
    · subst hxy
      rw [List.filterMap_cons_some (by rw [ha]; rfl), List.lookup_cons_self]
    · have hmem : x ∈ names := (List.mem_cons.1 hx).resolve_left hxy
      cases hy : g y with
      | none =>
        rw [List.filterMap_cons_none (by rw [hy]; rfl)]
        exact ih hmem
      | some b =>
        rw [List.filterMap_cons_some (by rw [hy]; rfl), List.lookup_cons, beq_false_of_ne hxy]
        exact ih hmem

/-- Each version below the highest records an upgrade for each type, as the container declares it:
its parameter spells the own type, and its result the latest one. -/
theorem exists_upgrade (h : d.build c = .ok f) {v : SchemaVersion} (hv : v ∈ f.older) {x : String}
    (hx : x ∈ f.typeNames) :
    ∃ m upgrade, d.HasVersion v.number m ∧ v.modulePath = d.versionPath m ∧
      v.upgrades.lookup x = some upgrade ∧
      upgrade.parameter.path.Spells (d.containerPath ++ [v.name, x]) 1 ∧
      d.NamesLatest c f.versions.length x upgrade.returns.path := by
  have hsound : d.Sound c (d.highest c) := by
    obtain ⟨hnumbered, hfindings, -⟩ := FamilyDeclaration.build_eq_ok_iff.1 h
    exact FamilyDeclaration.sound_iff.2 ⟨hnumbered, hfindings⟩
  have hlt := number_lt_of_mem_older hv
  obtain ⟨k, m, hm, rfl⟩ := exists_of_mem_versions h (List.dropLast_subset _ hv)
  rw [typeNames_of_build h] at hx
  rw [← highest_eq_length h] at hlt ⊢
  obtain ⟨value, hvalue, ⟨e, hparams, hown⟩, hlatest⟩ := hsound.upgrades k m hm hlt x hx
  refine ⟨m, ⟨value.name, x, e, value.returns, value.location⟩, hm, rfl, ?_, hown, hlatest⟩
  have hupgrade : FamilyDeclaration.upgrade? c m x
      = some ⟨value.name, x, e, value.returns, value.location⟩ := by
    rw [FamilyDeclaration.upgrade?, show FamilyDeclaration.upgradeValue? c m x = some value from hvalue]
    simp [hparams]
  have hne : k ≠ d.highest c := Nat.ne_of_lt hlt
  simp only [FamilyDeclaration.version, if_neg hne]
  exact lookup_filterMap (List.mem_eraseDups.2 hx) hupgrade

end Versions

/-! ## What the index makes of an upgrade -/

/-- The type of a version of a family, as a resolution. -/
def Family.versionType (f : Family) (v : SchemaVersion) (x : String) : Resolution :=
  ⟨.version f.name v.number, v.modulePath ++ [x]⟩

/-- The latest type of a family, as a resolution. -/
def Family.latestType (f : Family) (c : Config) (x : String) : Resolution :=
  ⟨.latest f.name, f.containerPath ++ [c.latestName, x]⟩

namespace Index

variable (index : Index) (f : Family) (v : SchemaVersion) (x : String)

/-- In the scope of a version a parameter resolves to the own type. -/
def ConvertsFrom (p : Path) : Prop :=
  index.resolvePath false p v.modulePath [] = f.versionType v x

/-- In the scope of a version a result resolves to the latest type or to that of the highest
version. -/
def ConvertsTo (p : Path) : Prop :=
  index.resolvePath false p v.modulePath [] = f.latestType index.config x ∨
    index.resolvePath false p v.modulePath [] = f.versionType f.latest x

/-- In the scope of a version a parameter names the own type. -/
def MeansOwn (p : Path) : Prop :=
  ∃ τ e, index.Names ⟨p, v.modulePath, []⟩ τ e ∧ e.resolution = f.versionType v x

/-- In the scope of a version a result reaches the latest type or names that of the highest
version. -/
def MeansLatest (p : Path) : Prop :=
  (∃ e, index.Reaches ⟨p, v.modulePath, []⟩ e ∧ e.resolution = f.latestType index.config x) ∨
    ∃ τ e, index.Names ⟨p, v.modulePath, []⟩ τ e ∧ e.resolution = f.versionType f.latest x

/-- When the index agrees with a family on what an upgrade of a version converts: exactly when the
written paths mean the own type and the latest one.  If the version modules have plain names, the
paths are declared in scope and can only mean the innermost declarations. -/
structure ReadsUpgrade (upgrade : UpgradeFunction) : Prop where
  parameter : index.ConvertsFrom f v x upgrade.parameter.path ↔
    index.MeansOwn f v x upgrade.parameter.path
  result : index.ConvertsTo f v x upgrade.returns.path ↔
    index.MeansLatest f v x upgrade.returns.path
  parameterInScope : v.modulePath = f.containerPath ++ [v.name] →
    ∃ e, index.types.lookup upgrade.parameter.path v.modulePath = some e ∧
      (index.ConvertsFrom f v x upgrade.parameter.path ↔
        index.config.isBuiltin upgrade.parameter.path = false ∧ e.resolution = f.versionType v x)
  resultInScope : f.latest.modulePath = f.containerPath ++ [f.latest.name] →
    ∃ e, index.types.lookup upgrade.returns.path v.modulePath = some e ∧
      (index.ConvertsTo f v x upgrade.returns.path ↔
        index.config.isBuiltin upgrade.returns.path = false ∧
          (index.LeadsTo e (f.latestType index.config x) ∨
            e.resolution = f.versionType f.latest x))

end Index

section Upgrades

variable {u : CompilationUnit} {c : Config} {d : FamilyDeclaration} {f : Family}
  {v : SchemaVersion} {x : String}

theorem declares_versionType (hd : d ∈ u.familyDeclarations c) (h : d.build c = .ok f)
    (hv : v ∈ f.versions) (hx : x ∈ f.typeNames) :
    (u.index c).types.Declares (v.modulePath ++ [x]) := by
  obtain ⟨hnumbered, hfindings, -⟩ := FamilyDeclaration.build_eq_ok_iff.1 h
  have hsound := FamilyDeclaration.sound_iff.2 ⟨hnumbered, hfindings⟩
  obtain ⟨k, m, hm, rfl⟩ := exists_of_mem_versions h hv
  rw [typeNames_of_build h] at hx
  exact declares_of_version hd hm (hsound.types k m hm x hx)

theorem declares_latestType (hd : d ∈ u.familyDeclarations c) (h : d.build c = .ok f)
    (hx : x ∈ f.typeNames) :
    (u.index c).types.Declares (f.containerPath ++ [c.latestName, x]) := by
  rw [typeNames_of_build h] at hx
  rw [containerPath_of_build h]
  exact declares_latest hd hx

/-- A parameter that spells the own type is declared in scope. -/
theorem exists_lookup_own (hd : d ∈ u.familyDeclarations c) (h : d.build c = .ok f)
    (hv : v ∈ f.versions) (hx : x ∈ f.typeNames) {p : Path}
    (hp : p.Spells (d.containerPath ++ [v.name, x]) 1)
    (hname : v.modulePath = f.containerPath ++ [v.name]) :
    ∃ e, (u.index c).types.lookup p v.modulePath = some e := by
  have hfull : d.containerPath ++ [v.name, x] = v.modulePath ++ [x] := by
    rw [hname, containerPath_of_build h]
    simp
  rw [hfull] at hp
  obtain ⟨before, hbefore, hbegins⟩ := exists_before_of_spells hp (Nat.le_refl 1)
  exact lookup_of_suffix hbefore hbegins (declares_versionType hd h hv hx)

/-- A result that spells the latest type is declared in scope. -/
theorem exists_lookup_latest (hd : d ∈ u.familyDeclarations c) (h : d.build c = .ok f)
    {scope : Path} (hscope : d.containerPath <+: scope) (hx : x ∈ f.typeNames) {p : Path}
    (hp : d.NamesLatest c f.versions.length x p)
    (hname : f.latest.modulePath = f.containerPath ++ [f.latest.name]) :
    ∃ e, (u.index c).types.lookup p scope = some e := by
  rcases hp with hp | hp | ⟨-, ⟨t, e, ht, -, -⟩, hp⟩
  · obtain ⟨before, hbefore, hbegins⟩ := exists_before_of_spells hp (Nat.le_refl 2)
    refine lookup_of_suffix hbefore (hbegins.trans hscope) ?_
    rw [← containerPath_of_build h]
    exact declares_latestType hd h hx
  · obtain ⟨before, hbefore, hbegins⟩ := exists_before_of_spells hp (Nat.le_refl 2)
    refine lookup_of_suffix hbefore (hbegins.trans hscope) ?_
    have hdeclares := declares_versionType hd h (latest_mem f) hx
    rw [hname, SchemaVersion.name, latest_number, containerPath_of_build h] at hdeclares
    simpa using hdeclares
  · obtain ⟨before, hbefore, hbegins⟩ := exists_before_of_spells hp (Nat.le_succ 1)
    have hcontainer : d.parentPath <+: d.containerPath := List.prefix_append _ _
    exact lookup_of_suffix hbefore (hbegins.trans (hcontainer.trans hscope))
      (declares_parent hd (List.mem_of_find?_eq_some ht) (by simpa using List.find?_some ht))

/-- Each version below the highest records an upgrade for each type, and the index agrees with the
family on what it converts exactly when the written paths mean the own type and the latest one. -/
theorem reads_recorded_upgrades (hd : d ∈ u.familyDeclarations c) (h : d.build c = .ok f)
    (hv : v ∈ f.older) (hx : x ∈ f.typeNames) :
    ∃ upgrade, v.upgrades.lookup x = some upgrade ∧ (u.index c).ReadsUpgrade f v x upgrade := by
  have hmem : v ∈ f.versions := List.dropLast_subset _ hv
  obtain ⟨m, upgrade, hm, hpath, hupgrade, hown, hlatest⟩ := exists_upgrade h hv hx
  have hfrom : (u.index c).ConvertsFrom f v x upgrade.parameter.path ↔
      (u.index c).MeansOwn f v x upgrade.parameter.path :=
    Index.resolve_eq_version_iff (σ := ⟨upgrade.parameter.path, v.modulePath, []⟩)
      (declares_versionType hd h hmem hx)
  have hto : (u.index c).ConvertsTo f v x upgrade.returns.path ↔
      (u.index c).MeansLatest f v x upgrade.returns.path :=
    or_congr
      (Index.resolve_eq_latest_iff (declares_latestType hd h hx)
        ⟨upgrade.returns.path, v.modulePath, []⟩)
      (Index.resolve_eq_version_iff (σ := ⟨upgrade.returns.path, v.modulePath, []⟩)
        (declares_versionType hd h (latest_mem f) hx))
  refine ⟨upgrade, hupgrade, hfrom, hto, fun hname => ?_, fun hname => ?_⟩
  · obtain ⟨e, he⟩ := exists_lookup_own hd h hmem hx hown hname
    exact ⟨e, he, hfrom.trans (Index.exists_names_iff_of_lookup he)⟩
  · have hscope : d.containerPath <+: v.modulePath := by
      rw [hpath]
      exact List.prefix_append _ _
    obtain ⟨e, he⟩ := exists_lookup_latest hd h hscope hx hlatest hname
    refine ⟨e, he, hto.trans ?_⟩
    rw [Index.MeansLatest, Index.reaches_iff_of_lookup he, Index.exists_names_iff_of_lookup he]
    exact and_or_left.symm

end Upgrades

/-! ## A family of two versions -/

/-- A first version with an upgrade to the latest one and some members. -/
def upgradedVersion (inner : List ModuleDecl) : ModuleDecl :=
  { ModuleDecl.bare "V1" [.bare "t"] inner with
    values := [⟨"to_latest", [.ofPath "t" []], .ofPath "Latest" ["t"], [], none⟩] }

/-- A container of two versions, the first of which has some members. -/
def upgradedDeclaration (inner : List ModuleDecl) : FamilyDeclaration where
  container := { ModuleDecl.bare "Stable" [] [upgradedVersion inner, .bare "V2" [.bare "t"] []] with
    attributes := ["versioned"] }
  parentPath := ["Account"]
  kind := .type
  strategy := .plain
  functorArities := []
  inTest := false
  parentTypes := []

/-- The unit around `upgradedDeclaration`. -/
def upgradedUnit (inner : List ModuleDecl) : CompilationUnit where
  name := "ledger"
  modules := [.bare "Account" [] [(upgradedDeclaration inner).container]]

/-- The first version of the family of `upgradedDeclaration`. -/
def firstVersion (inner : List ModuleDecl) : SchemaVersion :=
  (upgradedDeclaration inner).version .standard 1 (upgradedVersion inner)

theorem exists_upgraded_family (inner : List ModuleDecl) :
    ∃ f, (upgradedDeclaration inner).build .standard = .ok f ∧ firstVersion inner ∈ f.older ∧
      "t" ∈ f.typeNames := by
  have hsome : ((upgradedDeclaration inner).family? .standard).isSome = true := by cbv
  obtain ⟨f, hf⟩ := Option.isSome_iff_exists.1 hsome
  have hbuild := family?_eq_some_iff.1 hf
  have holder : ((upgradedDeclaration inner).parts .standard).versions.dropLast
      = [firstVersion inner] := by cbv
  refine ⟨f, hbuild, ?_, ?_⟩
  · rw [Family.older, parts_of_build hbuild, holder]
    exact List.mem_singleton_self _
  · rw [typeNames_of_build hbuild]
    exact List.mem_singleton_self _

theorem reads_recorded_upgrades_upgraded_family :
    ∃ f, upgradedDeclaration [] ∈ (upgradedUnit []).familyDeclarations .standard ∧
      (upgradedDeclaration []).build .standard = .ok f ∧ firstVersion [] ∈ f.older ∧
      "t" ∈ f.typeNames ∧ ∃ upgrade, (firstVersion []).upgrades.lookup "t" = some upgrade ∧
        ((upgradedUnit []).index .standard).ReadsUpgrade f (firstVersion []) "t" upgrade := by
  obtain ⟨f, hbuild, holder, hnames⟩ := exists_upgraded_family []
  have hd : upgradedDeclaration [] ∈ (upgradedUnit []).familyDeclarations .standard :=
    List.mem_singleton_self _
  exact ⟨f, hd, hbuild, holder, hnames, reads_recorded_upgrades hd hbuild holder hnames⟩

/-- A member of a version that is named like the latest alias captures the result of its upgrade: the
container builds, but the index does not resolve the result to the latest type. -/
theorem inner_latest_captures_upgrade :
    ∃ f, (upgradedDeclaration [.bare "Latest" [.bare "t"] []]).build .standard = .ok f ∧
      firstVersion [.bare "Latest" [.bare "t"] []] ∈ f.older ∧ "t" ∈ f.typeNames ∧
      ∃ upgrade, (firstVersion [.bare "Latest" [.bare "t"] []]).upgrades.lookup "t" = some upgrade ∧
        ¬ ((upgradedUnit [.bare "Latest" [.bare "t"] []]).index .standard).ConvertsTo f
          (firstVersion [.bare "Latest" [.bare "t"] []]) "t" upgrade.returns.path := by
  obtain ⟨f, hbuild, holder, hnames⟩ := exists_upgraded_family [.bare "Latest" [.bare "t"] []]
  refine ⟨f, hbuild, holder, hnames, ⟨"to_latest", "t", .ofPath "t" [], .ofPath "Latest" ["t"], none⟩,
    by cbv, ?_⟩
  have hresolve : ((upgradedUnit [.bare "Latest" [.bare "t"] []]).index .standard).resolvePath false
      ["Latest", "t"] ["Account", "Stable", "V1"] []
        = ⟨.version "Account" 1, ["Account", "Stable", "V1", "Latest", "t"]⟩ := by
    decide +kernel
  have hpath : (firstVersion [.bare "Latest" [.bare "t"] []]).modulePath
      = ["Account", "Stable", "V1"] := rfl
  have hlatest : f.latest.number = 2 := by
    rw [latest_number, ← highest_eq_length hbuild]
    cbv
  rintro (h | h)
  · cases hresolve.symm.trans h
  · have hnumber := congrArg (fun r => r.standing.number?) (hresolve.symm.trans h)
    simp [Family.versionType, hlatest, Standing.number?] at hnumber

end SchemaVersioning
