import SchemaVersioning.Proofs.CompletedIndexes
import SchemaVersioning.Proofs.CompletedUnits
import SchemaVersioning.Proofs.Scoping
import SchemaVersioning.Proofs.TestModules

/-!
# Generated alias modules in force

A completed unit has the references of the unit and those of its generated alias modules.  The
former keep their rulings if they are settled, the latter break no rule if the highest version has
the name that they use.  So a completed unit passes exactly if the other references break no rule
(`completed_exactly`).
-/

namespace SchemaVersioning

/-! ## Places of generated alias modules -/

/-- No member of a container has the name of the latest alias. -/
def CompilationUnit.Unaliased (u : CompilationUnit) (c : Config) : Prop :=
  ∀ d ∈ u.familyDeclarations c, ∀ m ∈ d.container.modules, m.name ≠ c.latestName

section Generated

variable {u : CompilationUnit} {c : Config}

theorem exists_of_mem_added (hu : u.DistinctSiblings) {p l : Place} (hp : p ∈ u.places)
    (hl : l ∈ p.added (latestsAt (u.generation c))) : ∃ d f,
      p.declaration? c = some d ∧ d.build c = .ok f ∧ l = ⟨p.line, f.latestModule c⟩ := by
  obtain ⟨m, hm, rfl⟩ := List.mem_map.1 hl
  obtain ⟨d, hd, f, hbuild, hpath, rfl⟩ := exists_of_mem_latestsAt hm
  obtain ⟨q, hq, hqd⟩ := mem_familyDeclarations.1 hd
  obtain rfl := hu.eq_of_path_eq hq hp
    ((Place.containerPath_of_declaration? hqd).symm.trans hpath)
  exact ⟨d, f, hqd, hbuild, rfl⟩

theorem exists_of_mem_latestPlaces (hu : u.DistinctSiblings) {l : Place}
    (hl : l ∈ u.latestPlaces (u.generation c)) : ∃ p ∈ u.places, ∃ d f,
      p.declaration? c = some d ∧ d.build c = .ok f ∧ l = ⟨p.line, f.latestModule c⟩ := by
  obtain ⟨p, hp, hl⟩ := List.mem_flatMap.1 hl
  exact ⟨p, hp, exists_of_mem_added hu hp hl⟩

theorem path_latestPlace {p : Place} {d : FamilyDeclaration} (hd : p.declaration? c = some d)
    (f : Family) : (Place.mk p.line (f.latestModule c)).path = d.latestPath c := by
  rw [Place.path_eq, FamilyDeclaration.latestPath, Place.containerPath_of_declaration? hd]
  rfl

/-- In a unit without hand-written aliases nothing lies at or below a latest alias. -/
theorem not_latestPath_isPrefix (hu : u.DistinctSiblings) (hfresh : u.Unaliased c)
    {d : FamilyDeclaration} (hd : d ∈ u.familyDeclarations c) {q : Place} (hq : q ∈ u.places) :
    ¬ d.latestPath c <+: q.path := by
  intro hbelow
  obtain ⟨p, hp, hpd⟩ := mem_familyDeclarations.1 hd
  rw [FamilyDeclaration.latestPath, Place.containerPath_of_declaration? hpd] at hbelow
  -- The module of the name would be a member of the container.
  obtain ⟨rest, hrest⟩ := line_isPrefix_of_path hu hp hq ((List.prefix_append _ _).trans hbelow)
  rw [Place.path, Place.path, ← hrest, ofLine_append, List.prefix_append_right_inj] at hbelow
  have hlineage := mem_places.1 hq
  rw [← hrest, lineage_append] at hlineage
  cases rest with
  | nil => simp at hbelow
  | cons m rest =>
    have hname : m.name = c.latestName := (List.cons_prefix_cons.1 hbelow).1.symm
    refine hfresh d hd m ?_ hname
    rw [Place.container_of_declaration? hpd, ← membersBelow_concat u.modules p.ancestors p.module]
    exact hlineage.2.1

theorem eq_of_latestPath_eq (hu : u.DistinctSiblings) {d d' : FamilyDeclaration}
    (hd : d ∈ u.familyDeclarations c) (hd' : d' ∈ u.familyDeclarations c)
    (h : d.latestPath c = d'.latestPath c) : d = d' :=
  hu.eq_of_containerPath_eq hd hd' (List.append_inj' h rfl).1

/-- One place at most stands at a path of a completed unit. -/
theorem distinctPlaces_completed (hu : u.DistinctSiblings) (hfresh : u.Unaliased c) :
    DistinctPlaces (u.places ++ u.latestPlaces (u.generation c)) := by
  have hapart : ∀ p ∈ u.places, ∀ l ∈ u.latestPlaces (u.generation c), p.path ≠ l.path := by
    rintro p hp l hl hpath
    obtain ⟨q, hq, d, f, hd, -, rfl⟩ := exists_of_mem_latestPlaces hu hl
    rw [path_latestPlace hd] at hpath
    exact not_latestPath_isPrefix hu hfresh (mem_familyDeclarations.2 ⟨q, hq, hd⟩) hp
      (hpath ▸ List.prefix_rfl)
  intro p hp q hq hpath
  rcases List.mem_append.1 hp with hp | hp <;> rcases List.mem_append.1 hq with hq | hq
  · exact hu.distinctPlaces p hp q hq hpath
  · exact absurd hpath (hapart p hp q hq)
  · exact absurd hpath.symm (hapart q hq p hp)
  · obtain ⟨a, ha, d, f, hd, hf, rfl⟩ := exists_of_mem_latestPlaces hu hp
    obtain ⟨b, hb, d', f', hd', hf', rfl⟩ := exists_of_mem_latestPlaces hu hq
    rw [path_latestPlace hd, path_latestPlace hd'] at hpath
    obtain rfl := eq_of_latestPath_eq hu (mem_familyDeclarations.2 ⟨a, ha, hd⟩)
      (mem_familyDeclarations.2 ⟨b, hb, hd'⟩) hpath
    obtain rfl := Except.ok.inj (hf.symm.trans hf')
    obtain rfl := hu.eq_of_path_eq ha hb ((Place.containerPath_of_declaration? hd).symm.trans
      (Place.containerPath_of_declaration? hd'))
    rfl

/-! ## What generated alias modules declare -/

theorem declaration?_latestPlace (ancestors : List ModuleDecl) (f : Family) :
    (Place.mk ancestors (f.latestModule c)).declaration? c = none := rfl

/-- Generated alias modules declare no families. -/
theorem declarationsAt_completed (hu : u.DistinctSiblings) :
    declarationsAt c (u.places ++ u.latestPlaces (u.generation c)) = u.familyDeclarations c := by
  rw [familyDeclarations_eq, declarationsAt, List.filterMap_append]
  refine (congrArg _ (List.filterMap_eq_nil_iff.2 fun l hl => ?_)).trans (List.append_nil _)
  obtain ⟨p, -, d, f, -, -, rfl⟩ := exists_of_mem_latestPlaces hu hl
  exact declaration?_latestPlace p.line f

/-- The context inside a generated alias module. -/
theorem within_latestModule (hu : u.DistinctSiblings) {p : Place} {d : FamilyDeclaration}
    (hp : p ∈ u.places) (hd : p.declaration? .standard = some d) (f : Family) :
    Context.within .standard (u.familyDeclarations .standard) (p.line ++ [f.latestModule .standard])
      = if d.inTest then .test else .latestAlias d.name := by
  rw [Place.inTest_of_declaration? hd]
  cases htest : p.line.any Config.standard.isTest with
  | true =>
    rw [if_pos rfl, within_eq_test_iff, List.any_append, htest]
    rfl
  | false =>
    have hmem := mem_familyDeclarations.2 ⟨p, hp, hd⟩
    have houter : ¬ (Context.within .standard (u.familyDeclarations .standard) p.line = .test ∨
        Config.standard.isTest (f.latestModule .standard) = true) := by
      rw [within_eq_test_iff, htest]
      rintro (h | h) <;> cases h
    have hpath : d.containerPath = Path.ofLine p.line := Place.containerPath_of_declaration? hd
    rw [Context.within_concat, Context.enter, if_neg houter, ← hpath, containerAt?_eq hu hmem]
    simp only [Context.enterMember, versionNumber?_latestModule]
    rfl

/-- A type of a generated alias module regenerates a latest type. -/
theorem regenerates_of_mem_declaredTypes (hu : u.DistinctSiblings) {p : Place}
    {d : FamilyDeclaration} {f : Family} (hp : p ∈ u.places)
    (hd : p.declaration? .standard = some d) (hbuild : d.build .standard = .ok f) {e' : Declared}
    (he : e' ∈ (Place.mk p.line (f.latestModule .standard)).declaredTypes .standard
      (u.familyDeclarations .standard)) :
    ∃ e ∈ d.declaredLatestTypes .standard, Index.Regenerates d e e' := by
  obtain ⟨t, ht, rfl⟩ := List.mem_map.1 he
  obtain ⟨x, hx, rfl, -⟩ := alias_of_mem_latestModule hbuild ht
  refine ⟨_, List.mem_map_of_mem hx, ?_, ?_⟩
  · show Site.path _ ++ [x] = d.latestPath .standard ++ [x]
    rw [Place.path_site, path_latestPlace hd]
  · show Site.standingOf (Context.within .standard _ (p.line ++ [_])) _ = _
    rw [within_latestModule hu hp hd]
    cases d.inTest <;> rfl

theorem declaredVersion_latestPlace (ancestors : List ModuleDecl) (f : Family)
    (ds : List FamilyDeclaration) :
    (Place.mk ancestors (f.latestModule .standard)).declaredVersion .standard ds = [] := by
  have hnumber : versionNumber? ((Place.mk ancestors (f.latestModule .standard)).site .standard
      ds).module.name = none := versionNumber?_latestModule
  rw [Place.declaredVersion, Site.declaredVersion, hnumber]
  split
  · rfl
  · cases containerAt? ds _ <;> rfl

/-- The latest types of a container are in force until its alias module is generated. -/
theorem find?_latestType (hu : u.DistinctSiblings) (hfresh : u.Unaliased c) {d : FamilyDeclaration}
    (hd : d ∈ u.familyDeclarations c) {e : Declared} (he : e ∈ d.declaredLatestTypes c) :
    ∃ e₀ ∈ d.declaredLatestTypes c, (u.index c).types.find? e.path = some e₀ := by
  have hdeclares : (u.index c).types.Declares e.path :=
    ⟨e, mem_index_types.2 (Or.inl ⟨d, hd, he⟩), rfl⟩
  obtain ⟨e₀, he₀⟩ := Option.isSome_iff_exists.1 (Table.declares_iff.1 hdeclares)
  have hpath := Table.path_of_find? he₀
  obtain ⟨x, -, rfl⟩ := List.mem_map.1 he
  refine ⟨e₀, ?_, he₀⟩
  rcases mem_index_types.1 (List.mem_of_find?_eq_some he₀) with ⟨d', hd', he'⟩ | ⟨q, hq, hq'⟩
  · obtain ⟨x', -, rfl⟩ := List.mem_map.1 he'
    obtain rfl := eq_of_latestPath_eq hu hd' hd (List.append_inj' hpath rfl).1
    exact he'
  · obtain ⟨t, -, rfl⟩ := List.mem_map.1 hq'
    have hsite : (q.site c (u.familyDeclarations c)).path = d.latestPath c :=
      (List.append_inj' hpath rfl).1
    rw [Place.path_site] at hsite
    exact absurd (hsite ▸ List.prefix_rfl) (not_latestPath_isPrefix hu hfresh hd hq)

/-- The index of a unit with its generated alias modules. -/
def CompilationUnit.completedIndex (u : CompilationUnit) (c : Config) : Index :=
  Index.ofPlaces c (u.places ++ u.latestPlaces (u.generation c))

theorem completedIndex_eq (hu : u.DistinctSiblings) : u.completedIndex .standard =
    { u.index .standard with
      types := ((u.latestPlaces (u.generation .standard)).flatMap
          (·.declaredTypes .standard (u.familyDeclarations .standard))).reverse
        ++ (u.index .standard).types
      moduleAliases := ((u.latestPlaces (u.generation .standard)).flatMap
          (·.declaredAlias .standard (u.familyDeclarations .standard))).reverse
        ++ (u.index .standard).moduleAliases
      references := (u.index .standard).references
        ++ (u.latestPlaces (u.generation .standard)).flatMap
          (·.references .standard (u.familyDeclarations .standard)) } := by
  have hnone : ∀ {β : Type} {g : Place → List β},
      (∀ p f, g (Place.mk p (Family.latestModule f .standard)) = []) →
        (u.latestPlaces (u.generation .standard)).flatMap g = [] := by
    intro β g hg
    refine List.flatMap_eq_nil_iff.2 fun l hl => ?_
    obtain ⟨p, -, d, f, -, -, rfl⟩ := exists_of_mem_latestPlaces hu hl
    exact hg p.line f
  have hds : declarationsAt .standard u.places = u.familyDeclarations .standard :=
    (familyDeclarations_eq u .standard).symm
  have hlatest := hnone (g := Place.declaredLatest .standard) fun _ _ => rfl
  have hlatestTypes := hnone (g := Place.declaredLatestTypes .standard) fun _ _ => rfl
  have hversion := hnone (g := Place.declaredVersion .standard (u.familyDeclarations .standard))
    fun line f => declaredVersion_latestPlace line f _
  simp only [CompilationUnit.completedIndex, index_eq_ofPlaces, Index.ofPlaces,
    declarationsAt_completed hu, hds, List.flatMap_append, hlatest, hlatestTypes, hversion,
    List.append_nil, List.reverse_append, List.append_assoc]

/-- The generated alias modules add nothing to an index but their types and themselves. -/
theorem completedBy_completedIndex (hu : u.DistinctSiblings) (hfresh : u.Unaliased .standard) :
    (u.index .standard).CompletedBy (u.completedIndex .standard) := by
  rw [completedIndex_eq hu]
  refine ⟨rfl, rfl, fun q hq => ?_, fun q => ?_⟩
  · have hnone : Table.find? ((u.latestPlaces (u.generation .standard)).flatMap
        (·.declaredAlias .standard (u.familyDeclarations .standard))).reverse q = none := by
      refine List.find?_eq_none.2 fun e he hpath => ?_
      obtain ⟨l, hl, he⟩ := List.mem_flatMap.1 (List.mem_reverse.1 he)
      obtain ⟨p, hp, d, f, hd, -, rfl⟩ := exists_of_mem_latestPlaces hu hl
      obtain ⟨hbelow, hlength⟩ := liesBelow_declaredAlias _ e he
      refine hq d (mem_familyDeclarations.2 ⟨p, hp, hd⟩) ?_
      rw [← of_decide_eq_true hpath, ← hbelow.eq_of_length hlength.symm, path_latestPlace hd]
      rfl
    show Table.find? (_ ++ _) q = _
    rw [Table.find?, List.find?_append]
    exact (congrArg (Option.or · _) hnone).trans rfl
  · show Table.find? (_ ++ _) q = _ ∨ ∃ d ∈ u.familyDeclarations .standard, ∃ e ∈ _, _ ∧ ∃ e',
      Table.find? (_ ++ _) q = _ ∧ _
    rw [Table.find?, List.find?_append]
    cases hnew : List.find? (fun e => e.path = q) ((u.latestPlaces (u.generation .standard)).flatMap
        (·.declaredTypes .standard (u.familyDeclarations .standard))).reverse with
    | none => exact Or.inl rfl
    | some e' =>
      obtain ⟨l, hl, he⟩ := List.mem_flatMap.1 (List.mem_reverse.1 (List.mem_of_find?_eq_some hnew))
      obtain ⟨p, hp, d, f, hd, hbuild, rfl⟩ := exists_of_mem_latestPlaces hu hl
      obtain ⟨e, he, hregenerates⟩ := regenerates_of_mem_declaredTypes hu hp hd hbuild he
      have hmem := mem_familyDeclarations.2 ⟨p, hp, hd⟩
      obtain ⟨e₀, he₀, hfind⟩ := find?_latestType hu hfresh hmem he
      have hpath : e.path = q := hregenerates.1.symm.trans (Table.path_of_find? hnew)
      rw [hpath] at hfind
      refine Or.inr ⟨d, hmem, e₀, he₀, hfind, e', rfl, ?_, hregenerates.2⟩
      exact (Table.path_of_find? hnew).trans (Table.path_of_find? hfind).symm

end Generated

/-! ## References of generated alias modules -/

/-- The container lies in a test, or its highest version is declared under the name that is written
for it and is no test. -/
def FamilyDeclaration.NamesHighest (d : FamilyDeclaration) (c : Config) : Prop :=
  d.inTest = true ∨
    ∃ m ∈ d.container.modules, m.name = versionName (d.highest c) ∧ c.isTest m = false

/-- The rules have nothing to say of a version that an alias of the latest one names. -/
theorem Index.ruling_of_own_version {index : Index} {r : Reference} {f : String} {k : Nat}
    (hcontext : r.context = .latestAlias f)
    (hstanding : (index.resolve r).standing = .version f k) : index.ruling r = .silent := by
  have hdefined : r.definedVersion? = none := by rw [Reference.definedVersion?, hcontext]
  have hleak : index.versionLeak? r = none := by
    rw [← Option.not_isSome_iff_eq_none, versionLeak?_isSome_iff]
    rintro ⟨f', k', hstanding', hname⟩
    obtain ⟨rfl, -⟩ := Standing.version.inj (hstanding.symm.trans hstanding')
    simp [hcontext, Context.mayName] at hname
  have hinterruption : (index.resolve r).interruption? = none := by
    rw [Resolution.interruption?, hstanding]
    rfl
  simp [Index.ruling, unstableUse?, leakInterruption?, Ruling.silent, hdefined, hleak,
    hinterruption]

section References

variable {u : CompilationUnit} {p : Place} {d : FamilyDeclaration} {f : Family}

/-- The target of an alias that is no functor body is written in the context of the module. -/
theorem Site.context_of_mem_aliasReferences {s : Site} {r : Reference}
    (hr : r ∈ s.aliasReferences) (hbody : ∀ arity, s.context ≠ .functorBody arity) :
    r.context = s.context := by
  rw [Site.aliasReferences, Option.mem_toList, Option.map_eq_some_iff] at hr
  obtain ⟨target, -, rfl⟩ := hr
  cases hcontext : s.context with
  | functorBody arity => exact absurd hcontext (hbody arity)
  | _ => rfl

/-- The module names the highest version where the container is, and its types name those of that
version inside it. -/
theorem mem_references_latestPlace (hu : u.DistinctSiblings) (hp : p ∈ u.places)
    (hd : p.declaration? .standard = some d) (hbuild : d.build .standard = .ok f) {r : Reference}
    (hr : r ∈ (Place.mk p.line (f.latestModule .standard)).references .standard
      (u.familyDeclarations .standard)) :
    r.context = (if d.inTest then .test else .latestAlias d.name) ∧
      (r.isModule = true ∧ r.path = [versionName (d.highest .standard)] ∧
          r.scope = d.containerPath ∨
        ∃ x ∈ d.typeNames .standard, r.isModule = false ∧
          r.path = [versionName (d.highest .standard), x] ∧ r.scope = d.latestPath .standard) := by
  have hcontext := within_latestModule hu hp hd f
  have hbody : ∀ arity, Context.within .standard (u.familyDeclarations .standard)
      (p.line ++ [f.latestModule .standard]) ≠ .functorBody arity := by
    rw [hcontext]
    cases d.inTest <;> exact fun _ => Context.noConfusion
  rw [Place.references, Site.references] at hr
  simp only [List.mem_append, List.mem_flatMap] at hr
  rcases hr with (((hr | hr) | ⟨a, ha, -⟩) | ⟨t, ht, hr⟩) | ⟨v, hv, -⟩
  · cases hr
  · have halias := Site.context_of_mem_aliasReferences hr hbody
    obtain rfl := List.mem_singleton.1 hr
    exact ⟨halias.trans hcontext, Or.inl ⟨rfl, ofDotted_latest_name hbuild,
      (Place.containerPath_of_declaration? hd).symm⟩⟩
  · cases ha
  · obtain ⟨x, hx, rfl, halias⟩ := alias_of_mem_latestModule hbuild ht
    have hexprs : (f.latestAlias x).typeExprs
        = [.ofPath (versionName (d.highest .standard)) [x]] := by
      rw [TypeDecl.typeExprs, halias]
      rfl
    rw [Site.typeReferences, hexprs] at hr
    simp only [TypeExpr.ofPath, TypeExpr.ofHead, Site.exprReferencesAll, Site.exprReferences,
      List.append_nil, List.mem_singleton] at hr
    subst hr
    refine ⟨hcontext, Or.inr ⟨x, hx, rfl, rfl, ?_⟩⟩
    show Site.path _ = _
    rw [Place.path_site, path_latestPlace hd]
  · cases hv

theorem ne_path_of_mem_latestTypes {d : FamilyDeclaration} {e : Declared}
    (he : e ∈ d.declaredLatestTypes .standard) (before : Path) (n : Nat) (x : String) :
    e.path ≠ before ++ [versionName n] ++ [x] := by
  intro hpath
  obtain ⟨y, -, rfl⟩ := List.mem_map.1 he
  have hnames := (List.append_inj' (List.append_inj' hpath rfl).1 rfl).2
  have hname : Config.standard.latestName = versionName n := (List.cons.inj hnames).1
  have hnone : versionNumber? Config.standard.latestName = none := by decide
  rw [hname, versionNumber?_versionName] at hnone
  cases hnone

theorem Index.standing_of_lookup {index : Index} {isModule : Bool} {q scope : Path}
    {visiting : List Path} {e : Declared} (hlooked : index.IsLookedUp isModule q)
    (hlookup : (index.table isModule).lookup q scope = some e) (hplain : e.standing ≠ .plain) :
    (index.resolvePath isModule q scope visiting).standing = e.standing := by
  rw [resolvePath_of_lookup hlooked hlookup, declaredResolution, plainTarget?_eq_none hplain]
  rfl

section Named

variable (hu : u.DistinctSiblings) (hfresh : u.Unaliased .standard) (hp : p ∈ u.places)
  (hd : p.declaration? .standard = some d) (hbuild : d.build .standard = .ok f)
  {m : ModuleDecl} (hm : m ∈ d.container.modules)
  (hname : m.name = versionName (d.highest .standard))
  (htest : (p.line ++ [m]).any Config.standard.isTest = false)

include hu hp hd hm hname htest

/-- The highest version is in force where the container is. -/
theorem find?_highest : (u.index .standard).modules.find?
    (d.containerPath ++ [versionName (d.highest .standard)])
      = some ⟨d.containerPath ++ [versionName (d.highest .standard)],
        .version d.name (d.highest .standard), [], none⟩ := by
  have hpath : d.containerPath = Path.ofLine p.line := Place.containerPath_of_declaration? hd
  rw [Place.container_of_declaration? hd] at hm
  have hfind := find?_version hu (mem_places_of_member hp hm) (mem_familyDeclarations.2 ⟨p, hp, hd⟩)
    hpath (by rw [hname, versionNumber?_versionName]) htest
  rwa [Place.path_eq, show Path.ofLine _ = d.containerPath from hpath.symm,
    show ModuleDecl.name _ = versionName (d.highest .standard) from hname] at hfind

include hbuild

/-- The types of the highest version are in force in it. -/
theorem exists_find?_highestType {x : String} (hx : x ∈ d.typeNames .standard) :
    ∃ e, (u.index .standard).types.find?
        (d.containerPath ++ [versionName (d.highest .standard)] ++ [x]) = some e ∧
      e.standing = .version d.name (d.highest .standard) := by
  have hpath : d.containerPath = Path.ofLine p.line := Place.containerPath_of_declaration? hd
  have hnumber : versionNumber? m.name = some (d.highest .standard) := by
    rw [hname, versionNumber?_versionName]
  obtain ⟨hn, hfindings, -⟩ := FamilyDeclaration.build_eq_ok_iff.1 hbuild
  have hsound := FamilyDeclaration.sound_iff.2 ⟨hn, hfindings⟩
  obtain ⟨t, ht, rfl⟩ := hsound.types _ m ⟨hm, hnumber⟩ x hx
  rw [Place.container_of_declaration? hd] at hm
  obtain ⟨e, t', hfind, hstanding⟩ := find?_type (c := .standard) hu
    (mem_places_of_member hp hm) ht
  have hcontext : Context.within .standard (u.familyDeclarations .standard) (p.line ++ [m])
      = .version d.name (d.highest .standard) :=
    within_version htest (hpath ▸ containerAt?_eq hu (mem_familyDeclarations.2 ⟨p, hp, hd⟩)) hnumber
  rw [Place.path_eq, show Path.ofLine _ = d.containerPath from hpath.symm,
    show ModuleDecl.name _ = versionName (d.highest .standard) from hname] at hfind
  exact ⟨e, hfind, hstanding.trans (congrArg (Site.standingOf · t') hcontext)⟩

include hfresh

/-- The types of the highest version stay in force beside those of the alias module. -/
theorem exists_find?_completed {x : String} (hx : x ∈ d.typeNames .standard) :
    ∃ e, (u.completedIndex .standard).types.find?
        (d.containerPath ++ [versionName (d.highest .standard), x]) = some e ∧
      e.standing = .version d.name (d.highest .standard) := by
  obtain ⟨e, hfind, hstanding⟩ := exists_find?_highestType hu hp hd hbuild hm hname htest hx
  rw [List.append_assoc] at hfind
  refine ⟨e, ?_, hstanding⟩
  rcases (completedBy_completedIndex hu hfresh).types
    (d.containerPath ++ [versionName (d.highest .standard), x]) with hsame | ⟨d', -, e', he', hI, -⟩
  · exact hsame.trans hfind
  · refine absurd (Table.path_of_find? hI) ?_
    rw [List.append_cons]
    exact ne_path_of_mem_latestTypes he' d.containerPath _ x

omit hbuild hm hname htest in
theorem not_declares_below_latest (x : String) : ¬ (u.completedIndex .standard).types.Declares
    (d.latestPath .standard ++ [versionName (d.highest .standard), x]) := by
  have hmem := mem_familyDeclarations.2 ⟨p, hp, hd⟩
  rw [Table.not_declares_iff]
  have hnone : (u.index .standard).types.find?
      (d.latestPath .standard ++ [versionName (d.highest .standard), x]) = none := by
    rw [← Table.not_declares_iff]
    rintro ⟨e, he, hpath⟩
    rw [List.append_cons] at hpath
    rcases mem_index_types.1 he with ⟨d', -, he'⟩ | ⟨q, hq, hq'⟩
    · exact ne_path_of_mem_latestTypes he' _ _ x hpath
    · obtain ⟨t, -, rfl⟩ := List.mem_map.1 hq'
      have hsite := (List.append_inj' hpath rfl).1
      rw [Place.path_site] at hsite
      exact not_latestPath_isPrefix hu hfresh hmem hq (hsite ▸ List.prefix_append _ _)
  rcases (completedBy_completedIndex hu hfresh).types
    (d.latestPath .standard ++ [versionName (d.highest .standard), x]) with
    hsame | ⟨d', -, e', he', hI, -⟩
  · exact hsame.trans hnone
  · cases hI.symm.trans hnone

omit hbuild in
/-- Where the container is, the name of the highest version means that version. -/
theorem standing_generatedModule : ((u.completedIndex .standard).resolvePath true
    [versionName (d.highest .standard)] d.containerPath []).standing
      = .version d.name (d.highest .standard) := by
  have hfind := find?_highest hu hp hd hm hname htest
  rw [← (completedBy_completedIndex hu hfresh).modules] at hfind
  have hlookup : (u.completedIndex .standard).modules.lookup
      [versionName (d.highest .standard)] d.containerPath = _ :=
    Index.lookup_of_innermost (Nat.le_refl _) (by rw [List.take_length]; exact hfind)
      fun _ hj _ => hj
  exact Index.standing_of_lookup (Or.inl rfl) hlookup Standing.noConfusion

/-- In the alias module, the types of the highest version are those of the version. -/
theorem standing_generatedType {x : String} (hx : x ∈ d.typeNames .standard) :
    ((u.completedIndex .standard).resolvePath false [versionName (d.highest .standard), x]
      (d.latestPath .standard) []).standing = .version d.name (d.highest .standard) := by
  obtain ⟨e, hfind, hstanding⟩ := exists_find?_completed hu hfresh hp hd hbuild hm hname htest hx
  have hlength : (d.latestPath .standard).length = d.containerPath.length + 1 :=
    List.length_append
  have htake : (d.latestPath .standard).take d.containerPath.length = d.containerPath :=
    List.take_left
  have hinnermost : ∀ j ≤ (d.latestPath .standard).length,
      (u.completedIndex .standard).types.Declares ((d.latestPath .standard).take j
        ++ [versionName (d.highest .standard), x]) → j ≤ d.containerPath.length := by
    intro j hj hdeclares
    -- Nothing is declared in the alias module itself, so the container is asked next.
    by_contra hlt
    obtain rfl : j = (d.latestPath .standard).length := by omega
    rw [List.take_length] at hdeclares
    exact not_declares_below_latest hu hfresh hp hd x hdeclares
  have hlookup : (u.completedIndex .standard).types.lookup
      [versionName (d.highest .standard), x] (d.latestPath .standard) = some e :=
    Index.lookup_of_innermost (by omega) (by rw [htake]; exact hfind) hinnermost
  rw [← hstanding]
  exact Index.standing_of_lookup (Or.inr rfl) hlookup (by simp [hstanding])

end Named

/-- The rules have nothing to say of the references of an alias module that is generated for a
container whose highest version has the name that they use. -/
theorem silent_of_namesHighest (hu : u.DistinctSiblings) (hfresh : u.Unaliased .standard)
    (hp : p ∈ u.places) (hd : p.declaration? .standard = some d)
    (hbuild : d.build .standard = .ok f) (hnames : d.NamesHighest .standard) {r : Reference}
    (hr : r ∈ (Place.mk p.line (f.latestModule .standard)).references .standard
      (u.familyDeclarations .standard)) :
    (u.completedIndex .standard).ruling r = .silent := by
  obtain ⟨hcontext, hreads⟩ := mem_references_latestPlace hu hp hd hbuild hr
  cases houter : d.inTest with
  | true =>
    rw [houter, if_pos rfl] at hcontext
    exact Index.ruling_of_test _ hcontext
  | false =>
    rw [houter, if_neg Bool.false_ne_true] at hcontext
    obtain ⟨m, hm, hname, hm'⟩ := hnames.resolve_left (by simp [houter])
    have htest : (p.line ++ [m]).any Config.standard.isTest = false := by
      rw [List.any_append, ← Place.inTest_of_declaration? hd, houter]
      simpa using hm'
    suffices hstanding : ((u.completedIndex .standard).resolve r).standing
        = .version d.name (d.highest .standard) from Index.ruling_of_own_version hcontext hstanding
    rcases hreads with ⟨hmodule, hpath, hscope⟩ | ⟨x, hx, hmodule, hpath, hscope⟩
    · rw [Index.resolve, hmodule, hpath, hscope]
      exact standing_generatedModule hu hfresh hp hd hm hname htest
    · rw [Index.resolve, hmodule, hpath, hscope]
      exact standing_generatedType hu hfresh hp hd hbuild hm hname htest hx

end References

/-! ## Completed units that pass -/

/-- The references of the alias modules that are generated for a place. -/
def CompilationUnit.generatedAt (u : CompilationUnit) (gs : List GeneratedFamily) (p : Place) :
    List Reference :=
  (p.added (latestsAt gs)).flatMap (·.references .standard (u.familyDeclarations .standard))

section Analysis

variable {u : CompilationUnit}

/-- The references of a completed unit are its own and the generated ones. -/
theorem perm_references_completed (hu : u.DistinctSiblings) (hfresh : u.Unaliased .standard) :
    ((u.completed (u.generation .standard)).index .standard).references.Perm
      ((u.index .standard).references
        ++ u.places.flatMap (u.generatedAt (u.generation .standard))) := by
  have hperm := (perm_references_of_perm (distinctPlaces_completed hu hfresh)
    (perm_outline_completed u .standard) .standard).symm
  rw [index_eq_ofPlaces (u.completed _)]
  refine hperm.trans (List.Perm.of_eq ?_)
  show (u.completedIndex .standard).references = _
  rw [completedIndex_eq hu]
  exact congrArg ((u.index .standard).references ++ ·) List.flatMap_assoc

theorem ruling_completed (hu : u.DistinctSiblings) (hfresh : u.Unaliased .standard)
    (r : Reference) : ((u.completed (u.generation .standard)).index .standard).ruling r
      = (u.completedIndex .standard).ruling r := by
  rw [index_eq_ofPlaces (u.completed _)]
  exact ruling_of_perm (distinctPlaces_completed hu hfresh) (perm_outline_completed u .standard)
    .standard r

/-- The walk over a completed unit is interrupted exactly as that over the unit. -/
theorem indexInterruption?_completed (hu : u.DistinctSiblings) (hfresh : u.Unaliased .standard)
    (h : u.indexInterruption? .standard = none) :
    (u.completed (u.generation .standard)).indexInterruption? .standard = none := by
  have hds : declarationsAt .standard u.places = u.familyDeclarations .standard :=
    (familyDeclarations_eq u .standard).symm
  rw [indexInterruption?_eq, List.findSome?_eq_none_iff] at h
  rw [indexInterruption?_eq, ← interruption?_of_perm (distinctPlaces_completed hu hfresh)
    (perm_outline_completed u .standard), List.findSome?_eq_none_iff]
  intro p hp
  rw [Place.interruption?, declarationsAt_completed hu]
  rcases List.mem_append.1 hp with hp | hp
  · rw [← hds]
    exact h p hp
  · obtain ⟨q, -, d, f, -, -, rfl⟩ := exists_of_mem_latestPlaces hu hp
    have hname : overlongVersion? (f.latestModule .standard).name = none := by
      show overlongVersion? Config.standard.latestName = none
      decide
    rw [Site.interruption?]
    split
    · rfl
    · exact congrArg (Option.map Interruption.overlongVersion) hname

/-- A reference that breaks no rule breaks none in the completed unit, if it is settled. -/
theorem ruling_completed_of_settled (hu : u.DistinctSiblings) (hfresh : u.Unaliased .standard)
    {q : Reference} (hsilent : (u.index .standard).ruling q = .silent)
    (hsettled : ¬ (u.index .standard).Unsettled q.isModule q.spelling) :
    ((u.completed (u.generation .standard)).index .standard).ruling q = .silent := by
  rw [ruling_completed hu hfresh, (completedBy_completedIndex hu hfresh).ruling hsettled]
  exact hsilent

/-- Nor does a generated reference, if the highest version has the name that it uses. -/
theorem ruling_completed_of_namesHighest (hu : u.DistinctSiblings) (hfresh : u.Unaliased .standard)
    {p : Place} {d : FamilyDeclaration} (hp : p ∈ u.places) (hd : p.declaration? .standard = some d)
    (hnames : d.NamesHighest .standard) {q : Reference}
    (hq : q ∈ u.generatedAt (u.generation .standard) p) :
    ((u.completed (u.generation .standard)).index .standard).ruling q = .silent := by
  obtain ⟨l, hl, hq⟩ := List.mem_flatMap.1 hq
  obtain ⟨d', f, hd', hbuild, rfl⟩ := exists_of_mem_added hu hp hl
  obtain rfl := Option.some.inj (hd'.symm.trans hd)
  rw [ruling_completed hu hfresh]
  exact silent_of_namesHighest hu hfresh hp hd hbuild hnames hq

/-- The declarations of a completed unit are in order as those of the unit are. -/
theorem declarations_completed (hu : u.DistinctSiblings)
    (h : ∀ d ∈ u.familyDeclarations .standard, d.interruption? .standard = none ∧
      (∃ f, d.build .standard = .ok f) ∧ d.parameterized? = none) :
    ∀ d ∈ (u.completed (u.generation .standard)).familyDeclarations .standard,
      d.interruption? .standard = none ∧ (∃ f, d.build .standard = .ok f) ∧
        d.parameterized? = none := by
  intro e he
  rw [familyDeclarations_completed] at he
  obtain ⟨d, hd, rfl⟩ := List.mem_map.1 he
  obtain ⟨hread, ⟨f, hbuild⟩, hparameterized⟩ := h d hd
  exact ⟨interruption?_completed hu hd hbuild hread, ⟨f, build_completed hu hd hbuild⟩,
    hparameterized⟩

/-- A completed unit passes exactly if neither an unsettled reference breaks a rule nor one that is
generated for a container whose highest version has another name than the reference uses. -/
theorem passes_completed_iff (hu : u.DistinctSiblings) (hfresh : u.Unaliased .standard)
    (hpasses : ∃ r, u.analyzed .standard = .ok r ∧ r.passed = true) :
    (∃ s, (u.completed (u.generation .standard)).analyzed .standard = .ok s ∧ s.passed = true) ↔
      (∀ q ∈ (u.index .standard).references, (u.index .standard).Unsettled q.isModule q.spelling →
        ((u.completed (u.generation .standard)).index .standard).ruling q = .silent) ∧
      ∀ p ∈ u.places, ∀ d, p.declaration? .standard = some d → ¬ d.NamesHighest .standard →
        ∀ q ∈ u.generatedAt (u.generation .standard) p,
          ((u.completed (u.generation .standard)).index .standard).ruling q = .silent := by
  obtain ⟨hdeclarations, hindex, hsilent⟩ := passes_iff.1 hpasses
  have hmem := fun q => (perm_references_completed hu hfresh).mem_iff (a := q)
  rw [passes_iff, and_iff_right (declarations_completed hu hdeclarations),
    and_iff_right (indexInterruption?_completed hu hfresh hindex), Index.rulings]
  simp only [List.forall_mem_map, hmem, List.mem_append, List.mem_flatMap]
  constructor
  · intro h
    exact ⟨fun q hq _ => h q (Or.inl hq), fun p hp _ _ _ q hq => h q (Or.inr ⟨p, hp, hq⟩)⟩
  · rintro ⟨hwritten, hnew⟩ q (hq | ⟨p, hp, hq⟩)
    · by_cases hsettled : (u.index .standard).Unsettled q.isModule q.spelling
      · exact hwritten q hq hsettled
      · exact ruling_completed_of_settled hu hfresh (hsilent _ (List.mem_map_of_mem hq)) hsettled
    · obtain ⟨l, hl, -⟩ := List.mem_flatMap.1 hq
      obtain ⟨d, -, hd, -, -⟩ := exists_of_mem_added hu hp hl
      by_cases hnames : d.NamesHighest .standard
      · exact ruling_completed_of_namesHighest hu hfresh hp hd hnames hq
      · exact hnew p hp d hd hnames q hq

/-- An analysis of a completed unit gives the families of the unit, and if it passes the same
generated declarations. -/
theorem result_completed (hu : u.DistinctSiblings)
    (hbuilds : ∀ d ∈ u.familyDeclarations .standard, ∃ f, d.build .standard = .ok f)
    {s : CompilationResult}
    (hs : (u.completed (u.generation .standard)).analyzed .standard = .ok s) :
    s.families = (u.analyze .standard).families ∧
      (s.passed = true → s.generated = u.generation .standard) := by
  have hfamilies := families_completed hu hbuilds
  obtain ⟨-, rfl⟩ := analyzed_eq_ok_iff.1 hs
  refine ⟨hfamilies, fun hp => ?_⟩
  rw [generated_of_passed hp, hfamilies]
  rfl

end Analysis

/-- A unit that passes compared with the unit that has each generated alias module in its
container. -/
structure CompletedExactly (u : CompilationUnit) (r : CompilationResult) (v : CompilationUnit) :
    Prop where
  /-- An analysis of the completed unit gives the same families, and if it passes the same generated
  declarations. -/
  result : ∀ s, v.analyzed .standard = .ok s →
    s.families = r.families ∧ (s.passed = true → s.generated = r.generated)
  /-- Its references are those of the unit and those of the generated modules. -/
  references : (v.index .standard).references.Perm
    ((u.index .standard).references ++ u.places.flatMap (u.generatedAt r.generated))
  /-- A reference breaks no rule unless it comes to what a generated module declares anew. -/
  kept : ∀ q ∈ (u.index .standard).references,
    ¬ (u.index .standard).Unsettled q.isModule q.spelling → (v.index .standard).ruling q = .silent
  /-- Nor does a generated one, if the highest version is declared under the name that it uses. -/
  own : ∀ p ∈ u.places, ∀ d, p.declaration? .standard = some d → d.NamesHighest .standard →
    ∀ q ∈ u.generatedAt r.generated p, (v.index .standard).ruling q = .silent
  /-- The completed unit passes exactly if none of the others does. -/
  passes : (∃ s, v.analyzed .standard = .ok s ∧ s.passed = true) ↔
    (∀ q ∈ (u.index .standard).references,
      (u.index .standard).Unsettled q.isModule q.spelling →
        (v.index .standard).ruling q = .silent) ∧
    ∀ p ∈ u.places, ∀ d, p.declaration? .standard = some d → ¬ d.NamesHighest .standard →
      ∀ q ∈ u.generatedAt r.generated p, (v.index .standard).ruling q = .silent
  /-- So it passes with the same families and the same generated declarations if there are no
  others. -/
  settled : (∀ q ∈ (u.index .standard).references,
      ¬ (u.index .standard).Unsettled q.isModule q.spelling) →
    (∀ d ∈ u.familyDeclarations .standard, d.NamesHighest .standard) →
      ∃ s, v.analyzed .standard = .ok s ∧ s.passed = true ∧ s.families = r.families ∧
        s.generated = r.generated

/-- Generated declarations are put into their containers: of a unit that passes, in which siblings
have distinct names and no member of a container has the name of the latest alias, the completed
unit is described by `CompletedExactly`. -/
theorem completed_exactly {u : CompilationUnit} {r : CompilationResult}
    (hu : u.DistinctSiblings) (hr : u.analyzed .standard = .ok r) (hpassed : r.passed = true)
    (hfresh : u.Unaliased .standard) : CompletedExactly u r (u.completed r.generated) := by
  obtain ⟨hdeclarations, -, hsilent⟩ := passes_iff.1 ⟨r, hr, hpassed⟩
  have hpasses := passes_completed_iff hu hfresh ⟨r, hr, hpassed⟩
  obtain ⟨-, rfl⟩ := analyzed_eq_ok_iff.1 hr
  have hgenerated : (u.analyze .standard).generated = u.generation .standard :=
    generated_of_passed hpassed
  have hresult := fun s (hs : (u.completed (u.generation .standard)).analyzed .standard = .ok s) =>
    result_completed hu (fun d hd => (hdeclarations d hd).2.1) hs
  constructor <;> rw [hgenerated]
  case result => exact hresult
  case references => exact perm_references_completed hu hfresh
  case kept =>
    exact fun q hq => ruling_completed_of_settled hu hfresh (hsilent _ (List.mem_map_of_mem hq))
  case own =>
    exact fun p hp d hd hnames q => ruling_completed_of_namesHighest hu hfresh hp hd hnames
  case passes => exact hpasses
  case settled =>
    intro hsettled hnames
    obtain ⟨s, hs, hspassed⟩ := hpasses.2 ⟨fun q hq h => absurd h (hsettled q hq),
      fun p hp d hd h => absurd (hnames d (mem_familyDeclarations.2 ⟨p, hp, hd⟩)) h⟩
    exact ⟨s, hs, hspassed, (hresult s hs).1, (hresult s hs).2 hspassed⟩

/-- A version that declares a type of its own beside the versioned one. -/
def helpedContainer : ModuleDecl :=
  { ModuleDecl.bare "Stable" [] [.bare "V1" [.bare "t", .bare "helper"] []] with
    attributes := ["versioned"] }

/-- A unit in which a value returns a type below the latest alias. -/
def helpedUnit (x : String) : CompilationUnit where
  name := "ledger"
  modules := [.bare "Account" [] [helpedContainer],
    { ModuleDecl.bare "App" [] [] with
      values := [⟨"load", [], .ofPath "Account" ["Stable", "Latest", x], [], none⟩] }]

theorem completed_exactly_helpedUnit :
    (helpedUnit "t").DistinctSiblings ∧
      (helpedUnit "t").analyzed .standard = .ok ((helpedUnit "t").analyze .standard) ∧
      ((helpedUnit "t").analyze .standard).passed = true ∧
      (helpedUnit "t").Unaliased .standard ∧
      CompletedExactly (helpedUnit "t") ((helpedUnit "t").analyze .standard)
        ((helpedUnit "t").completed ((helpedUnit "t").analyze .standard).generated) :=
  have hu : (helpedUnit "t").DistinctSiblings := by decide
  have hanalyzed := analyzed_eq (by decide) (by decide) (by decide +kernel)
  have hpassed : ((helpedUnit "t").analyze .standard).passed = true := by decide +kernel
  have hfresh : (helpedUnit "t").Unaliased .standard := by
    unfold CompilationUnit.Unaliased
    decide +kernel
  ⟨hu, hanalyzed, hpassed, hfresh, completed_exactly hu hanalyzed hpassed hfresh⟩

/-- The generated alias module makes the type beside the versioned one a leak of the version, which
the reference does not name, and the report advises the path that is written. -/
theorem generated_alias_leaks :
    (helpedUnit "helper").DistinctSiblings ∧
      (helpedUnit "helper").analyzed .standard = .ok ((helpedUnit "helper").analyze .standard) ∧
      ((helpedUnit "helper").analyze .standard).passed = true ∧
      (helpedUnit "helper").Unaliased .standard ∧
      (¬ ∃ s, ((helpedUnit "helper").completed
          ((helpedUnit "helper").analyze .standard).generated).analyzed .standard = .ok s ∧
        s.passed = true) ∧
      (((helpedUnit "helper").completed
          ((helpedUnit "helper").analyze .standard).generated).analyze .standard).diagnostics.map
        (fun d => (d.rule, d.subject, d.suggestion))
        = [(Rule.specificVersionLeak, "App.load",
            some "Use 'Account.Stable.Latest.helper' instead")] := by
  refine ⟨by decide, analyzed_eq (by decide) (by decide) (by decide +kernel), by decide +kernel,
    ?_, ?_, by decide +kernel⟩
  · unfold CompilationUnit.Unaliased
    decide +kernel
  · rintro ⟨s, hs, hpassed⟩
    obtain ⟨-, rfl⟩ := analyzed_eq_ok_iff.1 hs
    exact absurd hpassed (by decide +kernel)

end SchemaVersioning
