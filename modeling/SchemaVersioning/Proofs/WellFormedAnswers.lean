import SchemaVersioning.Proofs.EnclosingContexts
import SchemaVersioning.Proofs.Suggestions

/-!
# Well-formed answers

What is told of a name or of a context fits together: it has a version number exactly if it is of
the kind of versions, a family exactly if it is of a kind that has one, and the number is that of a
module on its path.  Entering a module keeps this (`Context.FitsPath.enter`), so it holds in every
module that the walk visits, for all that such a module adds to the tables, and for whatever is
resolved from them (`answers_well_formed`).
-/

namespace SchemaVersioning

/-! ## What fits a path -/

/-- Some component of a path is the name of a version. -/
def Path.NamesVersion (p : Path) (k : Nat) : Prop := ∃ a ∈ p, versionNumber? a = some k

theorem Path.NamesVersion.of_subset {p q : Path} {k : Nat} (h : p.NamesVersion k) (hpq : p ⊆ q) :
    q.NamesVersion k := by
  obtain ⟨a, ha, hk⟩ := h
  exact ⟨a, hpq ha, hk⟩

/-- What is told of a name at a path fits together, and its number is that of a component. -/
structure Standing.FitsPath (s : Standing) (p : Path) : Prop where
  number : s.number?.isSome ↔ s.kindName = "version"
  family : s.family?.isSome ↔ s.kindName = "version" ∨ s.kindName = "latest"
  named : ∀ k, s.number? = some k → p.NamesVersion k

/-- What is told of a context inside a path fits together, and its number is that of a component. -/
structure Context.FitsPath (context : Context) (p : Path) : Prop where
  number : context.number?.isSome ↔ context.kindName = "inside_version"
  family : context.family?.isSome ↔
    context.kindName = "inside_version" ∨ context.kindName = "inside_latest_alias"
  named : ∀ k, context.number? = some k → p.NamesVersion k

theorem Standing.isSome_number?_iff {s : Standing} :
    s.number?.isSome ↔ s.kindName = "version" := by
  cases s <;> simp [number?, kindName]

theorem Standing.isSome_family?_iff {s : Standing} :
    s.family?.isSome ↔ s.kindName = "version" ∨ s.kindName = "latest" := by
  cases s <;> simp [family?, kindName]

theorem Standing.number?_eq_some_iff {s : Standing} {k : Nat} :
    s.number? = some k ↔ ∃ f, s = .version f k := by
  cases s <;> simp [number?]

theorem Standing.fitsPath_of_named {s : Standing} {p : Path}
    (h : ∀ k, s.number? = some k → p.NamesVersion k) : s.FitsPath p :=
  ⟨isSome_number?_iff, isSome_family?_iff, h⟩

theorem Context.isSome_number?_iff {context : Context} :
    context.number?.isSome ↔ context.kindName = "inside_version" := by
  cases context <;> simp [number?, kindName]

theorem Context.isSome_family?_iff {context : Context} : context.family?.isSome ↔
    context.kindName = "inside_version" ∨ context.kindName = "inside_latest_alias" := by
  cases context <;> simp [family?, kindName]

theorem Context.number?_eq_some_iff {context : Context} {k : Nat} :
    context.number? = some k ↔ ∃ f, context = .version f k := by
  cases context <;> simp [number?]

theorem Context.fitsPath_of_named {context : Context} {p : Path}
    (h : ∀ k, context.number? = some k → p.NamesVersion k) : context.FitsPath p :=
  ⟨isSome_number?_iff, isSome_family?_iff, h⟩

/-- A name that is not of a version fits every path. -/
theorem Standing.fitsPath_of_unnumbered {s : Standing} (h : s.number? = none) (p : Path) :
    s.FitsPath p := by
  apply fitsPath_of_named
  intro k hk
  cases h.symm.trans hk

/-! ## The walk -/

section Walk

variable {c : Config} {ds : List FamilyDeclaration} {outer : Context} {parent : Path}

/-- Inside a module the context has the number of that module, or it is the number from outside. -/
theorem Context.FitsPath.enter (h : outer.FitsPath parent) (c : Config)
    (ds : List FamilyDeclaration) (m : ModuleDecl) :
    (outer.enter c ds parent m).FitsPath (parent ++ [m.name]) := by
  apply Context.fitsPath_of_named
  intro k hk
  obtain ⟨f, hversion⟩ := Context.number?_eq_some_iff.1 hk
  rcases enter_eq_version hversion with houter | ⟨d, -, -, hnumber⟩
  · apply (h.named k (Context.number?_eq_some_iff.2 ⟨f, houter⟩)).of_subset
    exact List.subset_append_left parent [m.name]
  · exact ⟨m.name, List.mem_append_right _ (List.mem_singleton_self _), hnumber⟩

/-- The contexts outside and inside of a visited module fit the paths there. -/
structure Site.FitsPaths (s : Site) : Prop where
  outer : s.outer.FitsPath s.parent
  context : s.context.FitsPath s.path

mutual

/-- A walk that begins in a context that fits comes by modules whose contexts fit. -/
theorem Context.FitsPath.ofModule :
    ∀ (m : ModuleDecl) {outer : Context} {parent : Path}, outer.FitsPath parent →
      ∀ s ∈ Site.ofModule c ds parent outer m, s.FitsPaths
  | ⟨name, types, values, modules, attributes, codec, aliasOf, functor, arguments, location⟩,
    outer, parent, h, s, hs => by
    have hinside := h.enter c ds
      ⟨name, types, values, modules, attributes, codec, aliasOf, functor, arguments, location⟩
    rw [Site.ofModule, List.mem_cons] at hs
    rcases hs with rfl | hs
    · exact ⟨h, hinside⟩
    · exact Context.FitsPath.ofModules modules hinside s hs

theorem Context.FitsPath.ofModules :
    ∀ (ms : List ModuleDecl) {outer : Context} {parent : Path}, outer.FitsPath parent →
      ∀ s ∈ Site.ofModules c ds parent outer ms, s.FitsPaths
  | [], _, _, _, s, hs => by
    rw [Site.ofModules] at hs
    cases hs
  | m :: rest, outer, parent, h, s, hs => by
    rw [Site.ofModules, List.mem_append] at hs
    rcases hs with hs | hs
    · exact Context.FitsPath.ofModule m h s hs
    · exact Context.FitsPath.ofModules rest h s hs

end

end Walk

/-! ## What a visited module adds -/

section Declarations

variable {s : Site} {e : Declared} {c : Config}

/-- The family and the number of a type are those of the context in which it is declared. -/
theorem fields_standingOf (context : Context) (t : TypeDecl) :
    (Site.standingOf context t).family? = context.family? ∧
      (Site.standingOf context t).number? = context.number? := by
  cases context with
  | functorBody _ | ordinary =>
    cases ht : t.isUnversioned <;> simp only [Site.standingOf, ht] <;> exact ⟨rfl, rfl⟩
  | _ => exact ⟨rfl, rfl⟩

theorem fitsPath_of_mem_declaredTypes (hs : s.FitsPaths) (he : e ∈ s.declaredTypes) :
    e.standing.FitsPath e.path := by
  obtain ⟨t, -, rfl⟩ := List.mem_map.1 he
  apply Standing.fitsPath_of_named
  intro k hk
  rw [(fields_standingOf s.context t).2] at hk
  exact (hs.context.named k hk).of_subset (List.subset_append_left s.path [t.name])

theorem fitsPath_of_mem_declaredVersion {ds : List FamilyDeclaration}
    (he : e ∈ s.declaredVersion ds) : e.standing.FitsPath e.path := by
  unfold Site.declaredVersion at he
  split at he
  · cases he
  · split at he
    · next d number _ hnumber =>
      obtain rfl := List.mem_singleton.1 he
      apply Standing.fitsPath_of_named
      intro k hk
      obtain rfl := Option.some.inj hk
      exact ⟨s.module.name, List.mem_append_right _ (List.mem_singleton_self _), hnumber⟩
    · cases he

theorem fitsPath_of_mem_declaredAlias (he : e ∈ s.declaredAlias) : e.standing.FitsPath e.path := by
  obtain ⟨target, -, rfl⟩ := Option.map_eq_some_iff.1 (Option.mem_toList.1 he)
  exact Standing.fitsPath_of_unnumbered rfl _

theorem fitsPath_of_mem_declaredLatestTypes {d : FamilyDeclaration}
    (he : e ∈ d.declaredLatestTypes c) : e.standing.FitsPath e.path := by
  obtain ⟨x, -, rfl⟩ := List.mem_map.1 he
  exact Standing.fitsPath_of_unnumbered rfl _

/-- A reference is written in the context inside or outside of the module, or in that of a test. -/
theorem fitsPath_of_mem_references {r : Reference} (hs : s.FitsPaths) (hr : r ∈ s.references) :
    r.context.FitsPath s.path := by
  have houter : s.outer.FitsPath s.path := by
    apply Context.fitsPath_of_named
    intro k hk
    exact (hs.outer.named k hk).of_subset (List.subset_append_left s.parent [s.module.name])
  rw [references_eq] at hr
  obtain ⟨w, -, rfl⟩ := List.mem_map.1 hr
  cases w with
  | use => exact hs.context
  | argument target =>
    show (if s.context = .test then Context.test else s.outer).FitsPath s.path
    by_cases htest : s.context = .test
    · rw [if_pos htest, ← htest]
      exact hs.context
    · rw [if_neg htest]
      exact houter
  | aliasTarget target =>
    rcases s.context_aliasTarget target with ⟨_, -, halias⟩ | ⟨-, halias⟩
    · rw [halias]
      exact houter
    · rw [halias]
      exact hs.context

end Declarations

/-! ## Tables -/

/-- Each path of a table leads to an entry of that path, which fits it. -/
def Table.WellFormed (table : Table) : Prop :=
  ∀ p e, table.find? p = some e → e.path = p ∧ e.standing.FitsPath p

theorem Table.wellFormed_of_forall {table : Table} (h : ∀ e ∈ table, e.standing.FitsPath e.path) :
    table.WellFormed := by
  intro p e hfind
  obtain rfl := Table.path_of_find? hfind
  exact ⟨rfl, h e (List.mem_of_find?_eq_some hfind)⟩

/-- The tables of an index are well formed. -/
structure Index.WellFormed (index : Index) : Prop where
  types : index.types.WellFormed
  modules : index.modules.WellFormed
  moduleAliases : index.moduleAliases.WellFormed

section Units

variable (u : CompilationUnit) (c : Config)

theorem site_fitsPaths {p : Place} (hp : p ∈ u.places) :
    (p.site c (u.familyDeclarations c)).FitsPaths := by
  have htop : Context.ordinary.FitsPath [] := by
    apply Context.fitsPath_of_named
    rintro k ⟨⟩
  exact Context.FitsPath.ofModules u.modules htop _ (mem_sites.2 ⟨p, hp, rfl⟩)

theorem index_wellFormed : (u.index c).WellFormed where
  types := by
    apply Table.wellFormed_of_forall
    intro e he
    rcases mem_index_types.1 he with ⟨d, -, hd⟩ | ⟨p, hp, hpe⟩
    · exact fitsPath_of_mem_declaredLatestTypes hd
    · exact fitsPath_of_mem_declaredTypes (site_fitsPaths u c hp) hpe
  modules := by
    apply Table.wellFormed_of_forall
    intro e he
    rcases mem_index_modules.1 he with ⟨d, -, rfl⟩ | ⟨p, -, hpe⟩
    · exact Standing.fitsPath_of_unnumbered rfl _
    · exact fitsPath_of_mem_declaredVersion hpe
  moduleAliases := by
    apply Table.wellFormed_of_forall
    intro e he
    obtain ⟨p, -, hpe⟩ := mem_index_moduleAliases.1 he
    exact fitsPath_of_mem_declaredAlias hpe

end Units

/-! ## Resolutions -/

/-- What is read off a path that is declared nowhere fits the path. -/
theorem fitsPath_standingByShape (c : Config) (p : Path) : (c.standingByShape [] p).FitsPath p := by
  apply Standing.fitsPath_of_named
  intro k hk
  obtain ⟨f, hversion⟩ := Standing.number?_eq_some_iff.1 hk
  exact exists_component_of_shows (Config.standingByShape_eq_version_iff.1 hversion)

namespace Index

variable {index : Index}

theorem WellFormed.table (h : index.WellFormed) (isModule : Bool) :
    (index.table isModule).WellFormed := by
  cases isModule with
  | true => exact h.modules
  | false => exact h.types

/-- Whatever rests on well-formed tables fits the path that it leads to. -/
theorem WellFormed.of_grounds (h : index.WellFormed) {isModule : Bool} {res : Resolution}
    (hres : index.Grounds isModule res) : res.standing.FitsPath res.target := by
  cases hres with
  | builtin => exact Standing.fitsPath_of_unnumbered rfl _
  | declared hforce => exact (h.table isModule _ _ hforce).2
  | undeclared => exact fitsPath_standingByShape _ _

end Index

/-! ## Diagnostics -/

/-- What a reference names, in the words of a report. -/
def Reference.noun (r : Reference) : String := if r.isModule then "module" else "type"

/-- The report of a leak names a family and a version, and its suggestion rewrites a component that
is the name of a version. -/
structure Index.NamesLeak (index : Index) (r : Reference) (x : Diagnostic) (f : String) (k : Nat) :
    Prop where
  family : (index.resolve r).standing.family? = some f
  number : (index.resolve r).standing.number? = some k
  message : x.message = s!"{r.noun} '{r.path.dotted}' names version V{k} of '{f}' in "
    ++ r.context.phrase
  rewritten : ∃ before v after,
    (r.versionedPath (index.resolve r).target).FirstVersion before v after ∧
      x.suggestion = some s!"Use '{(before ++ index.config.latestName :: after).dotted}' instead"

/-- The report of an unstable type names the family and the version that it is used in. -/
structure Index.NamesUse (index : Index) (r : Reference) (x : Diagnostic) (f : String) (k : Nat) :
    Prop where
  family : r.context.family? = some f
  number : r.context.number? = some k
  message : x.message = s!"'{r.path.dotted}' used in {f}.V{k} "
    ++ (index.resolve r).standing.instability

section Diagnostics

variable {u : CompilationUnit} {c : Config} {r : Reference} {x : Diagnostic}

theorem exists_namesLeak (h : (u.index c).versionLeak? r = some x) :
    ∃ f k, (u.index c).NamesLeak r x f k := by
  unfold Index.versionLeak? at h
  dsimp only at h
  split at h
  · next f k hstanding =>
    split at h
    · cases h
    · obtain rfl := Option.some.inj h
      obtain ⟨before, v, after, hfirst⟩ := exists_firstVersion (any_versionedPath hstanding)
      refine ⟨f, k, by rw [hstanding]; rfl, by rw [hstanding]; rfl, rfl, before, v, after, ?_⟩
      refine ⟨hfirst, ?_⟩
      rw [hfirst.toLatest]
  · cases h

theorem exists_namesUse {index : Index} (h : index.unstableUse? r = some x) :
    ∃ f k, index.NamesUse r x f k := by
  unfold Index.unstableUse? at h
  split at h
  · cases h
  · next f k hversion =>
    have hcontext : r.context = .version f k := (definedVersion?_eq_some_iff.1 hversion).1
    dsimp only at h
    split at h
    · cases h
    · obtain rfl := Option.some.inj h
      exact ⟨f, k, by rw [hcontext]; rfl, by rw [hcontext]; rfl, rfl⟩

end Diagnostics

/-- Everything that is answered from the index of a unit is well formed. -/
structure CompilationUnit.AnswersWellFormed (u : CompilationUnit) (c : Config) : Prop where
  /-- The tables lead each path to an entry of that path, and what the entry tells of it fits. -/
  tables : (u.index c).WellFormed
  /-- What is told of a path that is resolved in a scope fits the path that it leads to. -/
  resolutions : ∀ (isModule : Bool) (p scope : Path),
    ((u.index c).resolvePath isModule p scope []).standing.FitsPath
      ((u.index c).resolvePath isModule p scope []).target
  /-- The context of a reference fits the path of the module that it is written in. -/
  contexts : ∀ r ∈ (u.index c).references, ∃ M ∈ u.places,
    r ∈ (M.site c (u.familyDeclarations c)).references ∧ r.context.FitsPath M.path
  /-- The reports of leaks come from references, and each names a family and a version. -/
  leaks : ∀ x ∈ (u.index c).versionLeaks, ∃ r ∈ (u.index c).references,
    ∃ f k, (u.index c).NamesLeak r x f k
  /-- So do the reports of unstable types. -/
  uses : ∀ x ∈ (u.index c).unstableUses, ∃ r ∈ (u.index c).references,
    ∃ f k, (u.index c).NamesUse r x f k

theorem answers_well_formed (u : CompilationUnit) (c : Config) : u.AnswersWellFormed c where
  tables := index_wellFormed u c
  resolutions _ _ _ := (index_wellFormed u c).of_grounds Index.grounds_resolvePath
  contexts r hr := by
    obtain ⟨M, hM, hwritten⟩ := mem_index_references.1 hr
    have hfits := fitsPath_of_mem_references (site_fitsPaths u c hM) hwritten
    rw [Place.path_site] at hfits
    exact ⟨M, hM, hwritten, hfits⟩
  leaks x hx := by
    obtain ⟨r, hr, hleak⟩ := List.mem_filterMap.1 hx
    exact ⟨r, hr, exists_namesLeak hleak⟩
  uses x hx := by
    obtain ⟨r, hr, huse⟩ := List.mem_filterMap.1 hx
    exact ⟨r, hr, exists_namesUse huse⟩

end SchemaVersioning
