import SchemaVersioning.Proofs.IllegibleContainers
import SchemaVersioning.Proofs.Resolution

/-!
# References of legible units

Work on a legible unit with named modules is interrupted at most by telling the arity of a functor
(`interruption?_eq_of_legible`): no container is illegible, and a resolution leads from the legible
path of a reference through legible aliases to a legible name, whichever aliases are followed
(`legible_resolvePath`).
-/

namespace SchemaVersioning

/-! ## Legible paths -/

/-- No component is a version name with too many digits. -/
def Path.Legible (p : Path) : Prop := ∀ a ∈ p, SchemaVersioning.overlongVersion? a = none

theorem Path.Legible.overlongVersion? {p : Path} (h : p.Legible) : p.overlongVersion? = none := by
  rw [Path.overlongVersion?]
  cases hfind : p.find? isVersionName with
  | none => rfl
  | some a => exact h a (List.mem_of_find?_eq_some hfind)

/-- Only the first version of a path matters. -/
theorem overlongVersion?_append {p : Path} (h : p.Legible) {a : String} (ha : a ∈ p)
    (hversion : isVersionName a = true) (q : Path) : (p ++ q).overlongVersion? = none := by
  have hsome : (p.find? isVersionName).isSome := List.find?_isSome.2 ⟨a, ha, hversion⟩
  obtain ⟨b, hb⟩ := Option.isSome_iff_exists.1 hsome
  rw [Path.overlongVersion?, List.find?_append, hb]
  exact h b (List.mem_of_find?_eq_some hb)

theorem overlong?_standingByShape {p : Path} (h : p.Legible) (c : Config) (before : Path) :
    (c.standingByShape before p).overlong? = none := by
  induction p generalizing before with
  | nil => rfl
  | cons a p ih =>
    cases p with
    | nil => rfl
    | cons b rest =>
      have hrest : Path.Legible (b :: rest) := fun e he => h e (List.mem_cons_of_mem _ he)
      have hb : overlongVersion? b = none := hrest b List.mem_cons_self
      rw [Config.standingByShape, hb]
      split
      · exact ih hrest _
      · cases versionNumber? b with
        | some number => rfl
        | none =>
          dsimp only
          split
          · rfl
          · exact ih hrest _

/-! ## Legible resolutions -/

/-- The resolution can be reported: it is no overlong version, and if it is a version, the first
version of its target can be read. -/
structure Resolution.Legible (r : Resolution) : Prop where
  standing : r.standing.overlong? = none
  target : ∀ f k, r.standing = .version f k → r.target.overlongVersion? = none

/-- The declared names of an index can be reported, and their aliases can be followed. -/
structure Index.Legible (index : Index) : Prop where
  types : ∀ d ∈ index.types, d.resolution.Legible
  modules : ∀ d ∈ index.modules, d.resolution.Legible
  typeAliases : ∀ d ∈ index.types, ∀ e, d.alias? = some e → e.path.Legible
  moduleAliases : ∀ d ∈ index.moduleAliases, ∀ e, d.alias? = some e → e.path.Legible

theorem mem_of_plainTarget? {d : Declared} {target : Path} (h : d.plainTarget? = some target) :
    ∃ e, d.alias? = some e ∧ e.path = target := by
  unfold Declared.plainTarget? at h
  split at h
  · next e _ he =>
    split at h
    · cases h
    · exact ⟨e, he, Option.some.inj h⟩
  · cases h

theorem alias_of_aliasStep? {index : Index} {isModule : Bool} {p scope target rest : Path}
    {visiting : List Path} {d : Declared}
    (h : index.aliasStep? isModule p scope visiting = some (d, target, rest)) :
    ∃ e i, d.alias? = some e ∧ e.path = target ∧ p.drop i = rest := by
  obtain ⟨i, -, hi⟩ := List.exists_of_findSome?_eq_some h
  split at hi
  · cases hi
  · next e _ =>
    split at hi
    · cases hi
    · next f hf =>
      split at hi
      · cases hi
      · obtain ⟨rfl, htarget, hrest⟩ : e = d ∧ f.path = target ∧ p.drop i = rest := by
          simpa using hi
        exact ⟨f, i, hf, htarget, hrest⟩

theorem Index.Legible.of_lookup {index : Index} (hindex : index.Legible) {isModule : Bool}
    {p scope : Path} {d : Declared}
    (h : (if isModule then index.modules else index.types).lookup p scope = some d) :
    d.resolution.Legible := by
  cases isModule with
  | true => exact hindex.modules d (Table.mem_of_lookup h)
  | false => exact hindex.types d (Table.mem_of_lookup h)

/-- Whatever aliases are followed, a legible path has a legible resolution. -/
theorem Index.Legible.resolvePath {index : Index} (hindex : index.Legible) (isModule : Bool)
    (p scope : Path) (visiting : List Path) (hp : p.Legible) :
    (index.resolvePath isModule p scope visiting).Legible := by
  fun_induction index.resolvePath isModule p scope visiting with
  | case1 isModule p scope visiting hbuiltin => exact ⟨rfl, fun f k h => nomatch h⟩
  | case2 isModule p scope visiting hbuiltin d hd hplain => exact hindex.of_lookup hd
  | case3 isModule p scope visiting hbuiltin d hd target hplain hv => exact hindex.of_lookup hd
  | case4 isModule p scope visiting hbuiltin d hd target hplain hv resolution hlatest ih =>
    obtain ⟨e, he, rfl⟩ := mem_of_plainTarget? hplain
    obtain rfl : isModule = false := by simpa using fun hm => hv (Or.inl hm)
    exact ih (hindex.typeAliases d (Table.mem_of_lookup hd) e he)
  | case5 isModule p scope visiting hbuiltin d hd target hplain hv resolution hlatest ih =>
    exact hindex.of_lookup hd
  | case6 isModule p scope visiting hbuiltin hd d target rest hstep ih =>
    obtain ⟨e, i, he, rfl, rfl⟩ := alias_of_aliasStep? hstep
    refine ih fun a ha => ?_
    rcases List.mem_append.1 ha with ha | ha
    · exact hindex.moduleAliases d (index.mem_of_aliasStep? hstep).1 e he a ha
    · exact hp a (List.mem_of_mem_drop ha)
  | case7 isModule p scope visiting hbuiltin hd hstep =>
    exact ⟨overlong?_standingByShape hp _ _, fun f k _ => hp.overlongVersion?⟩

/-! ## Contexts of versions -/

theorem enter_eq_version {c : Config} {ds : List FamilyDeclaration} {outer : Context} {parent : Path}
    {m : ModuleDecl} {f : String} {k : Nat} (h : outer.enter c ds parent m = .version f k) :
    outer = .version f k ∨ ∃ d, containerAt? ds parent = some d ∧ d.name = f ∧
      versionNumber? m.name = some k := by
  have hinherit : outer.inherit m = .version f k → outer = .version f k := by
    intro hi
    unfold Context.inherit at hi
    split at hi
    · exact hi
    · exact hi
    · split at hi
      · cases hi
      · exact hi
  unfold Context.enter at h
  split at h
  · cases h
  · split at h
    · next d hd =>
      unfold Context.enterMember at h
      split at h
      · next number hnumber =>
        obtain ⟨rfl, rfl⟩ := Context.version.inj h
        exact Or.inr ⟨d, hd, rfl, hnumber⟩
      · split at h
        · cases h
        · exact Or.inl (hinherit h)
    · exact Or.inl (hinherit h)

/-- A line of modules leads into a version through a module of that version. -/
theorem exists_version_of_within {c : Config} {ds : List FamilyDeclaration}
    {line : List ModuleDecl} {f : String} {k : Nat} (h : Context.within c ds line = .version f k) :
    ∃ m ∈ line, versionNumber? m.name = some k := by
  induction line using List.reverseRecOn with
  | nil => cases h
  | append_singleton line m ih =>
    rw [Context.within_concat] at h
    rcases enter_eq_version h with houter | ⟨d, -, -, hnumber⟩
    · obtain ⟨n, hn, hversion⟩ := ih houter
      exact ⟨n, List.mem_append_left _ hn, hversion⟩
    · exact ⟨m, List.mem_append_right _ (List.mem_singleton_self m), hnumber⟩

/-! ## Legible indexes -/

section Units

variable {u : CompilationUnit} {c : Config}

theorem CompilationUnit.Legible.path (hu : u.Legible) {p : Place} (hp : p ∈ u.places) :
    p.path.Legible := fun _ ha => hu.of_mem_path hp ha

/-- A type that is declared in a version can be reported, whatever its own name is. -/
theorem legible_declaredTypes (hu : u.Legible) {p : Place} (hp : p ∈ u.places) {d : Declared}
    (hd : d ∈ (p.site c (u.familyDeclarations c)).declaredTypes) : d.resolution.Legible := by
  obtain ⟨t, ht, rfl⟩ := List.mem_map.1 hd
  have hcontext : (p.site c (u.familyDeclarations c)).context
      = Context.within c (u.familyDeclarations c) p.line := rfl
  refine ⟨?_, fun f k h => ?_⟩
  · simp only [Declared.resolution, Site.standingOf]
    split <;> try rfl
    split <;> rfl
  · -- The standing is that of the context, so a module around the type is a version.
    have hversion : Context.within c (u.familyDeclarations c) p.line = .version f k := by
      simp only [Declared.resolution, Site.standingOf, hcontext] at h
      split at h
      · cases h
      · next family number heq =>
        obtain ⟨rfl, rfl⟩ := Standing.version.inj h
        exact heq
      · cases h
      · split at h <;> cases h
    obtain ⟨m, hm, hnumber⟩ := exists_version_of_within hversion
    have hname : isVersionName m.name = true := by simp [isVersionName, hnumber]
    show ((p.site c (u.familyDeclarations c)).path ++ [t.name]).overlongVersion? = none
    rw [Place.path_site]
    exact overlongVersion?_append (hu.path hp) (List.mem_map_of_mem hm) hname _

theorem legible_index (hu : u.Legible) : (u.index c).Legible where
  types d hd := by
    rcases mem_index_types.1 hd with ⟨e, -, hd⟩ | ⟨p, hp, hd⟩
    · obtain ⟨x, -, rfl⟩ := List.mem_map.1 hd
      exact ⟨rfl, fun f k h => nomatch h⟩
    · exact legible_declaredTypes hu hp hd
  modules d hd := by
    rcases mem_index_modules.1 hd with ⟨e, -, rfl⟩ | ⟨p, hp, hd⟩
    · exact ⟨rfl, fun f k h => nomatch h⟩
    · unfold Site.declaredVersion at hd
      split at hd
      · cases hd
      · split at hd
        · obtain rfl := List.mem_singleton.1 hd
          refine ⟨rfl, fun f k _ => ?_⟩
          show (p.site c (u.familyDeclarations c)).path.overlongVersion? = none
          rw [Place.path_site]
          exact (hu.path hp).overlongVersion?
        · cases hd
  typeAliases d hd e he := by
    rcases mem_index_types.1 hd with ⟨f, -, hd⟩ | ⟨p, hp, hd⟩
    · obtain ⟨x, -, rfl⟩ := List.mem_map.1 hd
      cases he
    · obtain ⟨t, ht, rfl⟩ := List.mem_map.1 hd
      exact (hu p hp).2 _ (path_mem_mentioned_of_alias ht he)
  moduleAliases d hd e he := by
    obtain ⟨p, hp, hd⟩ := mem_index_moduleAliases.1 hd
    obtain ⟨target, htarget, rfl⟩ := Option.map_eq_some_iff.1 (Option.mem_toList.1 hd)
    obtain rfl := Option.some.inj he
    exact (hu p hp).2 _ (ofDotted_mem_mentioned_of_aliasOf htarget)

/-! ## No interruptions -/

theorem legible_resolve (hu : u.Legible) {r : Reference} (hr : r ∈ (u.index c).references) :
    r.path.Legible ∧ ((u.index c).resolve r).Legible := by
  obtain ⟨p, hp, hr⟩ := mem_index_references.1 hr
  have hpath : r.path.Legible := (hu p hp).2 _ (path_mem_mentioned hr)
  exact ⟨hpath, (legible_index hu).resolvePath _ _ _ _ hpath⟩

theorem resolution_interruption?_eq_none {r : Resolution} (h : r.Legible) :
    r.interruption? = none := by
  rw [Resolution.interruption?, h.standing]
  rfl

theorem leakInterruption?_eq_none (hu : u.Legible) {r : Reference}
    (hr : r ∈ (u.index c).references) : (u.index c).leakInterruption? r = none := by
  obtain ⟨hpath, hresolution⟩ := legible_resolve hu hr
  unfold Index.leakInterruption?
  split
  · rfl
  · dsimp only
    rw [resolution_interruption?_eq_none hresolution, Option.none_or]
    split
    · rfl
    · next hleak =>
      -- Only a version is reported, and then the path that is shown can be read.
      have hshown : (r.versionedPath ((u.index c).resolve r).target).overlongVersion? = none := by
        unfold Reference.versionedPath
        split
        · exact hpath.overlongVersion?
        · rw [← Option.not_isSome, Bool.not_eq_true', Bool.not_eq_false,
            Index.versionLeak?_isSome_iff] at hleak
          obtain ⟨f, k, hstanding, -⟩ := hleak
          exact hresolution.target f k hstanding
      rw [hshown]
      rfl

/-- A check of a legible unit is interrupted at most by telling an arity. -/
theorem checkInterruption?_eq (hu : u.Legible) : u.checkInterruption? c
    = functorInterruption? (u.index c).declarations (u.families c) := by
  have hindex : u.indexInterruption? c = none := by
    refine List.findSome?_eq_none_iff.2 fun s hs => ?_
    obtain ⟨p, hp, rfl⟩ := mem_sites.1 hs
    unfold Site.interruption?
    split
    · rfl
    · rw [show (p.site c (u.familyDeclarations c)).module = p.module from rfl, (hu p hp).1]
      rfl
  have huse : (u.index c).useInterruption? = none := by
    refine List.findSome?_eq_none_iff.2 fun r hr => ?_
    split
    · rfl
    · exact resolution_interruption?_eq_none (legible_resolve hu hr).2
  have hleak : (u.index c).references.findSome? (u.index c).leakInterruption? = none :=
    List.findSome?_eq_none_iff.2 fun r hr => leakInterruption?_eq_none hu hr
  rw [CompilationUnit.checkInterruption?, hindex, Index.interruption?, huse,
    Index.leaksInterruption?, hleak, Option.none_or, Option.none_or, Option.or_none]

theorem not_illegible_of_legible (hu : u.Legible) {d : FamilyDeclaration}
    (hd : d ∈ u.familyDeclarations c) : ¬ d.Illegible c := by
  obtain ⟨p, hp, hpd⟩ := mem_familyDeclarations.1 hd
  have hmember : ∀ m ∈ d.container.modules, overlongVersion? m.name = none ∧
      ∀ q ∈ m.mentioned, q.Legible := by
    intro m hm
    rw [Place.container_of_declaration? hpd] at hm
    exact hu _ (mem_places_of_member hp hm)
  rintro (⟨m, hm, ho⟩ | ⟨n, -, ⟨m, hm, h⟩ | ⟨k, m, hm, -, x, -, v, hv, -, -, a, ha, ho⟩⟩)
  · exact ho (hmember m hm).1
  · have hmem : m ∈ d.container.modules := List.mem_of_mem_filter (List.mem_of_getLast? hm)
    rcases h with ⟨target, a, htarget, ha, ho⟩ | ⟨t, ht, e, he, a, ha, ho⟩
    · exact ho ((hmember m hmem).2 _ (ofDotted_mem_mentioned_of_aliasOf htarget) a
        (List.mem_of_getLast? ha))
    · exact ho ((hmember m hmem).2 _ (path_mem_mentioned_of_alias ht he) a ha)
  · exact ho ((hmember m hm.1).2 _ (returns_mem_mentioned (List.mem_of_find?_eq_some hv)) a
      (List.mem_of_find?_eq_some ha))

/-- Work on a legible unit with named modules is interrupted at most by telling an arity. -/
theorem interruption?_eq_of_legible (hw : u.WellNamed) (hu : u.Legible) : u.interruption? c
    = functorInterruption? (u.index c).declarations (u.families c) := by
  have hbuild : u.buildInterruption? c = none := by
    refine List.findSome?_eq_none_iff.2 fun d hd => ?_
    rw [← Option.not_isSome_iff_eq_none, FamilyDeclaration.interruption?_isSome_iff
      (FamilyDeclaration.name_ne_empty hw hd)]
    exact not_illegible_of_legible hu hd
  rw [CompilationUnit.interruption?, hbuild, checkInterruption?_eq hu, Option.none_or]

end Units

end SchemaVersioning
