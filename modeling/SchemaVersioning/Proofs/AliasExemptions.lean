import SchemaVersioning.Proofs.EnclosingContexts
import SchemaVersioning.Proofs.Grounds
import SchemaVersioning.Proofs.StableUses

/-!
# Exemptions of latest aliases

Which versions the alias of a family's latest version may name.  A family goes by the name of the
module around its container, and the exemption goes by that name: in the alias of a container, a
reference to a version of any other container is reported exactly if the two families have different
names (`exempted_by_name_exactly`).  Containers side by side in one module share their name, so each
alias of theirs may name the versions of all of them.  Apart from names with dots, no others share it
but an outermost container and those in it (`name_eq_iff`).
-/

namespace SchemaVersioning

/-! ## Names of families -/

/-- The path whose components make up the name of a family: that of the module around its container,
or the container itself where there is no module around it. -/
def FamilyDeclaration.namePath (d : FamilyDeclaration) : Path :=
  if d.parentPath.isEmpty then [d.container.name] else d.parentPath

section Names

variable {u : CompilationUnit} {c : Config} {C D : FamilyDeclaration}

theorem name_eq_dotted (d : FamilyDeclaration) : d.name = d.namePath.dotted := by
  unfold FamilyDeclaration.name FamilyDeclaration.namePath
  split
  · exact String.intercalate_singleton.symm
  · rfl

theorem namePath_ne_nil (d : FamilyDeclaration) : d.namePath ≠ [] := by
  unfold FamilyDeclaration.namePath
  split
  · exact List.cons_ne_nil _ _
  · next h => simpa using h

/-- The components of the name of a family are names of modules. -/
theorem exists_place_of_mem_namePath (hD : D ∈ u.familyDeclarations c) {a : String}
    (ha : a ∈ D.namePath) : ∃ p ∈ u.places, p.module.name = a := by
  obtain ⟨P, hP, hPD⟩ := mem_familyDeclarations.1 hD
  apply mem_path_of_mem_places hP
  rw [← Place.containerPath_of_declaration? hPD]
  unfold FamilyDeclaration.namePath at ha
  split at ha
  · exact List.mem_append_right _ ha
  · exact List.mem_append_left _ ha

/-- Without dots in the names of modules, the name of a family spells out its path. -/
theorem name_eq_iff (hdots : ∀ p ∈ u.places, '.' ∉ p.module.name.toList)
    (hD : D ∈ u.familyDeclarations c) (hC : C ∈ u.familyDeclarations c) :
    D.name = C.name ↔ D.namePath = C.namePath := by
  have hplain : ∀ d ∈ u.familyDeclarations c, ∀ a ∈ d.namePath, '.' ∉ a.toList := by
    intro d hd a ha
    obtain ⟨p, hp, rfl⟩ := exists_place_of_mem_namePath hd ha
    exact hdots p hp
  rw [name_eq_dotted, name_eq_dotted]
  constructor
  · intro h
    rw [← Path.ofDotted_dotted (namePath_ne_nil D) (hplain D hD), h,
      Path.ofDotted_dotted (namePath_ne_nil C) (hplain C hC)]
  · exact congrArg Path.dotted

theorem name_eq_of_parentPath_eq (hparent : C.parentPath ≠ [])
    (h : D.parentPath = C.parentPath) : D.name = C.name := by
  have hne : C.parentPath.isEmpty = false := by simpa using hparent
  unfold FamilyDeclaration.name
  rw [h, hne]
  rfl

end Names

/-! ## Written in an alias -/

/-- A module is the latest alias of a container or lies in it, and the innermost version or alias
around what it holds is that alias. -/
structure Place.LiesInLatest (M : Place) (u : CompilationUnit) (c : Config)
    (C : FamilyDeclaration) : Prop where
  place : M ∈ u.places
  untested : ∀ n ∈ M.line, c.isTest n = false
  latest : ∃ (P : Place) (l : ModuleDecl), P.declaration? c = some C ∧
    versionNumber? l.name = none ∧ l.name = c.latestName ∧ P.line ++ [l] <+: M.line ∧
      ∀ further n, further ++ [n] <+: M.line → P.line.length < further.length →
        ∀ x, ¬ Tags c further n x

section Aliases

variable {u : CompilationUnit} {c : Config} {M : Place} {C : FamilyDeclaration}

theorem Place.LiesInLatest.encloses (h : M.LiesInLatest u c C) :
    Encloses c M.line (.latestAlias C.name) := by
  obtain ⟨P, l, hP, hnumber, hname, hbegins, hinnermost⟩ := h.latest
  apply Encloses.member h.untested hbegins _ hinnermost
  exact .latest rfl hP hnumber hname

theorem Place.LiesInLatest.mem_familyDeclarations (h : M.LiesInLatest u c C) :
    C ∈ u.familyDeclarations c := by
  obtain ⟨P, l, hP, -, -, hbegins, -⟩ := h.latest
  obtain ⟨after, hline⟩ := hbegins
  have hlineage := mem_places.1 h.place
  rw [← hline, List.append_assoc] at hlineage
  exact SchemaVersioning.mem_familyDeclarations.2
    ⟨P, mem_places.2 (lineage_append.1 hlineage).1, hP⟩

theorem Place.LiesInLatest.context (hu : u.DistinctSiblings) (h : M.LiesInLatest u c C) :
    (M.site c (u.familyDeclarations c)).context = .latestAlias C.name :=
  (within_eq_iff hu (mem_places.1 h.place)).2 h.encloses

end Aliases

/-! ## What is named -/

/-- A reference resolves to what is at a path, and not to a type that is taken for built in. -/
def Index.ResolvesTo (index : Index) (r : Reference) (q : Path) : Prop :=
  (index.resolve r).target = q ∧ (r.isModule = false → (index.resolve r).standing ≠ .builtin)

section Standings

variable {u : CompilationUnit} {c : Config} {M : Place} {d : FamilyDeclaration} {k : Nat}
  {r : Reference} {q : Path}

/-- What is in force at the target of a reference is what the reference stands for. -/
theorem standing_of_resolvesTo (h : (u.index c).ResolvesTo r q) {e : Declared}
    (he : ((u.index c).table r.isModule).find? q = some e) :
    ((u.index c).resolve r).standing = e.standing := by
  obtain ⟨rfl, hbuiltin⟩ := h
  exact (Index.grounds_resolve _ r).standing_of_find? hbuiltin he

theorem standing_of_version (hu : u.DistinctSiblings) (hmodule : r.isModule = true)
    (hM : M.LiesIn u c d k []) (h : (u.index c).ResolvesTo r M.path) :
    ((u.index c).resolve r).standing = .version d.name k := by
  apply standing_of_resolvesTo h (e := ⟨M.path, .version d.name k, [], none⟩)
  rw [hmodule]
  exact hM.find?_modules hu

/-- A type stands for a version exactly if the module around it lies in that version. -/
theorem standing_eq_version_iff_encloses (hu : u.DistinctSiblings) (hmodule : r.isModule = false)
    (hM : M ∈ u.places) {t : TypeDecl} (ht : t ∈ M.module.types)
    (h : (u.index c).ResolvesTo r (M.path ++ [t.name])) {f : String} {j : Nat} :
    ((u.index c).resolve r).standing = .version f j ↔ Encloses c M.line (.version f j) := by
  obtain ⟨e, t', hfind, hstanding⟩ := find?_type (c := c) hu hM ht
  have htable : ((u.index c).table r.isModule).find? (M.path ++ [t.name]) = some e := by
    rw [hmodule]
    exact hfind
  rw [standing_of_resolvesTo h htable, hstanding, standingOf_eq_version_iff,
    within_eq_iff hu (mem_places.1 hM)]

theorem Place.BelongsTo.encloses (hu : u.DistinctSiblings) (h : M.BelongsTo u c d k) :
    Encloses c M.line (.version d.name k) :=
  (within_eq_iff hu (mem_places.1 h.place)).1 h.context

theorem standing_of_undeclared (h : (u.index c).ResolvesTo r q)
    (hnowhere : ¬ ((u.index c).table r.isModule).Declares q) {f : String} {j : Nat} :
    ((u.index c).resolve r).standing = .version f j ↔ c.ShowsVersion q f j := by
  obtain ⟨rfl, hbuiltin⟩ := h
  have hshape : ((u.index c).resolve r).standing
      = c.standingByShape [] ((u.index c).resolve r).target :=
    (Index.grounds_resolve _ r).standing_of_undeclared hbuiltin hnowhere
  rw [hshape]
  exact Config.standingByShape_eq_version_iff

end Standings

/-! ## Reports -/

/-- In the alias of a family, all versions are reported but those of families of its name. -/
theorem leak_isSome_iff_of_alias {index : Index} {r : Reference} {own : String}
    (h : r.context = .latestAlias own) :
    (index.versionLeak? r).isSome ↔
      ∃ f k, (index.resolve r).standing = .version f k ∧ f ≠ own := by
  have hexempt : r.context.isExempt = false := by rw [h]; rfl
  have hcontext : ∀ f, r.context ≠ .latestAlias f ↔ f ≠ own := fun f => by simp [h, eq_comm]
  rw [leak_isSome_iff hexempt]
  simp only [hcontext]
  rfl

/-- When a reference is reported that is written in the latest alias of a container. -/
structure ExemptedByName (u : CompilationUnit) (c : Config) (C : FamilyDeclaration)
    (r : Reference) : Prop where
  /-- It is a reference of the unit, in the context of that alias. -/
  written : r ∈ (u.index c).references ∧ r.context = .latestAlias C.name
  /-- A version module of a container is reported exactly if the family has another name. -/
  module : r.isModule = true → ∀ (M : Place) (D : FamilyDeclaration) (k : Nat),
    M.LiesIn u c D k [] → (u.index c).ResolvesTo r M.path →
      (((u.index c).versionLeak? r).isSome ↔ D.name ≠ C.name)
  /-- So is a type in a version of a container. -/
  type : r.isModule = false → ∀ (M : Place) (D : FamilyDeclaration) (k : Nat),
    M.BelongsTo u c D k → ∀ t ∈ M.module.types, (u.index c).ResolvesTo r (M.path ++ [t.name]) →
      (((u.index c).versionLeak? r).isSome ↔ D.name ≠ C.name)
  /-- Of all types, in tests or not, those are reported that lie in a version of another name. -/
  anyType : r.isModule = false → ∀ M ∈ u.places, ∀ t ∈ M.module.types,
    (u.index c).ResolvesTo r (M.path ++ [t.name]) →
      (((u.index c).versionLeak? r).isSome ↔
        ∃ f k, Encloses c M.line (.version f k) ∧ f ≠ C.name)
  /-- What is declared nowhere, as no version module in a test is, is reported by its shape. -/
  undeclared : ∀ q, ¬ ((u.index c).table r.isModule).Declares q → (u.index c).ResolvesTo r q →
    (((u.index c).versionLeak? r).isSome ↔ ∃ f k, c.ShowsVersion q f k ∧ f ≠ C.name)
  /-- Containers side by side in a module have the same name, that of the module. -/
  siblings : ∀ D : FamilyDeclaration, C.parentPath ≠ [] → D.parentPath = C.parentPath →
    D.name = C.name
  /-- Where no module name has a dot, only families that are called by one path have one name. -/
  named : (∀ p ∈ u.places, '.' ∉ p.module.name.toList) → ∀ D ∈ u.familyDeclarations c,
    (D.name = C.name ↔ D.namePath = C.namePath)

/-- References in the latest alias of a container are reported exactly as `ExemptedByName` says.
Arguments of a functor that the alias applies have the context around the alias and not its own. -/
theorem exempted_by_name_exactly {u : CompilationUnit} {c : Config} (hu : u.DistinctSiblings)
    {M : Place} {C : FamilyDeclaration} (hM : M.LiesInLatest u c C) {r : Reference}
    (hr : r ∈ (M.site c (u.familyDeclarations c)).references)
    (hinside : r.context = (M.site c (u.familyDeclarations c)).context) :
    ExemptedByName u c C r := by
  have hcontext : r.context = .latestAlias C.name := hinside.trans (hM.context hu)
  have hreported : ∀ {f : String} {k : Nat}, ((u.index c).resolve r).standing = .version f k →
      (((u.index c).versionLeak? r).isSome ↔ f ≠ C.name) := by
    intro f k hstanding
    rw [leak_isSome_iff_of_alias hcontext, hstanding]
    simp
  refine ⟨⟨mem_index_references.2 ⟨M, hM.place, hr⟩, hcontext⟩, ?_, ?_, ?_, ?_, ?_, ?_⟩
  · intro hmodule N D k hN hresolves
    exact hreported (standing_of_version hu hmodule hN hresolves)
  · intro htype N D k hN t ht hresolves
    apply hreported (k := k)
    rw [standing_eq_version_iff_encloses hu htype hN.place ht hresolves]
    exact hN.encloses hu
  · intro htype N hN t ht hresolves
    rw [leak_isSome_iff_of_alias hcontext]
    simp only [standing_eq_version_iff_encloses hu htype hN ht hresolves]
  · intro q hnowhere hresolves
    rw [leak_isSome_iff_of_alias hcontext]
    simp only [standing_of_undeclared hresolves hnowhere]
  · intro D hparent h
    exact name_eq_of_parentPath_eq hparent h
  · intro hdots D hD
    exact name_eq_iff hdots hD hM.mem_familyDeclarations

/-! ## Containers side by side -/

/-- A version with one type. -/
def soleVersion : ModuleDecl := .bare "V1" [.bare "t"] []

/-- A container with one version and some more members. -/
def soleContainer (name : String) (more : List ModuleDecl) : ModuleDecl :=
  { ModuleDecl.bare name [] (soleVersion :: more) with attributes := ["versioned"] }

/-- A hand-written alias with types of two other containers. -/
def crossingLatest : ModuleDecl :=
  .bare "Latest"
    [{ TypeDecl.bare "old" with shape := .synonym (.ofPath "Archive" ["V1", "t"]) },
      { TypeDecl.bare "order" with shape := .synonym (.ofPath "Order" ["Stable", "V1", "t"]) }] []

/-- The module around two containers. -/
def crossingAccount : ModuleDecl :=
  .bare "Account" [] [soleContainer "Stable" [crossingLatest], soleContainer "Archive" []]

/-- A unit with two containers side by side and one elsewhere. -/
def crossingUnit : CompilationUnit :=
  ⟨"ledger", [crossingAccount, .bare "Order" [] [soleContainer "Stable" []]]⟩

/-- The declaration of a family in the unit. -/
def crossingDeclaration (parent name : String) (more : List ModuleDecl) : FamilyDeclaration where
  container := soleContainer name more
  parentPath := [parent]
  kind := .type
  strategy := .plain
  functorArities := []
  inTest := false
  parentTypes := []

/-- The place of the alias. -/
def crossingPlace : Place :=
  ⟨[crossingAccount, soleContainer "Stable" [crossingLatest]], crossingLatest⟩

/-- A use in the alias. -/
def crossingReference (name first : String) (rest : List String) : Reference where
  path := first :: rest
  scope := ["Account", "Stable", "Latest"]
  owner := "Account.Stable.Latest." ++ name
  context := .latestAlias "Account"
  definition := true
  exempt := false
  isModule := false
  location := none

theorem crossingPlace_liesInLatest :
    crossingPlace.LiesInLatest crossingUnit .standard
      (crossingDeclaration "Account" "Stable" [crossingLatest]) where
  place := mem_places.2 ⟨List.mem_cons_self, List.mem_cons_self,
    List.mem_cons_of_mem _ List.mem_cons_self, trivial⟩
  untested := by decide
  latest := by
    refine ⟨⟨[crossingAccount], soleContainer "Stable" [crossingLatest]⟩, crossingLatest, rfl,
      by decide, by decide, List.prefix_refl _, fun further n hbegins hlonger => ?_⟩
    have hlength := hbegins.length_le
    simp only [List.length_append, List.length_cons, List.length_nil, Place.line, crossingPlace]
      at hlength hlonger
    omega

theorem exempted_by_name_exactly_crossingUnit :
    crossingUnit.DistinctSiblings ∧
      crossingPlace.LiesInLatest crossingUnit .standard
        (crossingDeclaration "Account" "Stable" [crossingLatest]) ∧
      crossingReference "order" "Order" ["Stable", "V1", "t"] ∈ (crossingPlace.site .standard
        (crossingUnit.familyDeclarations .standard)).references ∧
      (crossingReference "order" "Order" ["Stable", "V1", "t"]).context
        = (crossingPlace.site .standard (crossingUnit.familyDeclarations .standard)).context ∧
      ExemptedByName crossingUnit .standard
        (crossingDeclaration "Account" "Stable" [crossingLatest])
        (crossingReference "order" "Order" ["Stable", "V1", "t"]) ∧
      (((crossingUnit.index .standard).versionLeak?
        (crossingReference "order" "Order" ["Stable", "V1", "t"])).isSome = true) := by
  have hu : crossingUnit.DistinctSiblings := by decide
  have hr : crossingReference "order" "Order" ["Stable", "V1", "t"] ∈ (crossingPlace.site .standard
      (crossingUnit.familyDeclarations .standard)).references := by decide +kernel
  have hinside : (crossingReference "order" "Order" ["Stable", "V1", "t"]).context
      = (crossingPlace.site .standard (crossingUnit.familyDeclarations .standard)).context := by
    decide +kernel
  exact ⟨hu, crossingPlace_liesInLatest, hr, hinside,
    exempted_by_name_exactly hu crossingPlace_liesInLatest hr hinside, by decide +kernel⟩

/-! ## A version of the container beside -/

/-- The place of the version in the container beside that of the alias. -/
def archivePlace : Place := ⟨[crossingAccount, soleContainer "Archive" []], soleVersion⟩

theorem crossingUnit_familyDeclarations : crossingUnit.familyDeclarations .standard =
    [crossingDeclaration "Account" "Stable" [crossingLatest],
      crossingDeclaration "Account" "Archive" [], crossingDeclaration "Order" "Stable" []] := rfl

theorem archivePlace_belongsTo :
    archivePlace.BelongsTo crossingUnit .standard (crossingDeclaration "Account" "Archive" []) 1
    where
  place := mem_places.2 ⟨List.mem_cons_self, List.mem_cons_of_mem _ List.mem_cons_self,
    List.mem_cons_self, trivial⟩
  untested := by decide
  container := List.mem_cons_of_mem _ List.mem_cons_self
  version := ⟨"V1", by decide, List.prefix_refl _⟩
  innermost e he := by
    rw [crossingUnit_familyDeclarations] at he
    simp only [List.mem_cons, List.not_mem_nil, or_false] at he
    rcases he with rfl | rfl | rfl <;> decide

/-- The alias of one container names a version of the container beside it, and nothing of that is
reported: both families go by the name of the module around them. -/
theorem sibling_version_unreported :
    crossingUnit.DistinctSiblings ∧
      crossingPlace.LiesInLatest crossingUnit .standard
        (crossingDeclaration "Account" "Stable" [crossingLatest]) ∧
      crossingReference "old" "Archive" ["V1", "t"] ∈ (crossingPlace.site .standard
        (crossingUnit.familyDeclarations .standard)).references ∧
      (crossingReference "old" "Archive" ["V1", "t"]).context = (crossingPlace.site .standard
        (crossingUnit.familyDeclarations .standard)).context ∧
      archivePlace.BelongsTo crossingUnit .standard (crossingDeclaration "Account" "Archive" []) 1 ∧
      (crossingDeclaration "Account" "Archive" []).containerPath
        ≠ (crossingDeclaration "Account" "Stable" [crossingLatest]).containerPath ∧
      (crossingUnit.index .standard).ResolvesTo (crossingReference "old" "Archive" ["V1", "t"])
        (archivePlace.path ++ ["t"]) ∧
      (crossingUnit.index .standard).versionLeak? (crossingReference "old" "Archive" ["V1", "t"])
        = none :=
  ⟨by decide, crossingPlace_liesInLatest, by decide +kernel, by decide +kernel,
    archivePlace_belongsTo, by decide, ⟨by decide +kernel, fun _ => by decide +kernel⟩,
    by decide +kernel⟩

end SchemaVersioning
