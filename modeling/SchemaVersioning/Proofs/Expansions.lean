import Mathlib.Data.List.Dedup
import Mathlib.Data.List.Perm.Subperm
import SchemaVersioning.Proofs.Naming

/-!
# Expansions of aliases

A resolution that expands an alias goes on inside of the expansion, so expansions nest.  With a
budget for nested expansions the recursion ends by itself, whatever it does; it has no result if it
needs more expansions than the budget allows (`resolveWithin`).  No alias is expanded inside of its
own expansion, so as many expansions as there are paths of aliases are enough, however the aliases
refer to one another and however long the paths grow (`resolutions_end`).
-/

namespace SchemaVersioning

/-- What a path names that is declared as an alias of what has been resolved. -/
def Declared.resolutionThrough (d : Declared) (target : Resolution) : Resolution :=
  if target.standing.isLatest || target.standing.overlong?.isSome then target else d.resolution

namespace Index

/-! ## Paths of aliases -/

/-- A path is that of a plain alias of a type, or of a module alias. -/
def IsAlias (index : Index) (q : Path) : Prop :=
  ((index.types.find? q).bind Declared.plainTarget?).isSome ∨
    ((index.moduleAliases.find? q).bind Declared.alias?).isSome

instance (index : Index) : DecidablePred index.IsAlias := fun _ => instDecidableOr

/-- The distinct paths of aliases of an index. -/
def aliasPaths (index : Index) : List Path :=
  ((index.types ++ index.moduleAliases).map (·.path)).dedup.filter index.IsAlias

/-! ## Resolution with a budget -/

/-- What a path names in a scope while some aliases are being followed, found with so many nested
expansions of aliases at most, and the paths of the aliases that are expanded, from the outermost
on. -/
def resolveWithin (index : Index) (budget : Nat) (isModule : Bool) (p scope : Path)
    (visiting : List Path) : Option (Resolution × List Path) :=
  if !isModule && index.config.isBuiltin p then some (⟨.builtin, p⟩, [])
  else
    match (index.table isModule).lookup p scope with
    | some d =>
      match d.plainTarget? with
      | none => some (d.resolution, [])
      | some target =>
        if isModule || visiting.contains d.path then some (d.resolution, [])
        else
          match budget with
          | 0 => none
          | budget + 1 =>
            (index.resolveWithin budget false target d.scope (d.path :: visiting)).map
              fun (resolution, trail) => (d.resolutionThrough resolution, d.path :: trail)
    | none =>
      match index.aliasStep? isModule p scope visiting with
      | some (d, target, rest) =>
        match budget with
        | 0 => none
        | budget + 1 =>
          (index.resolveWithin budget isModule (target ++ rest) d.scope (d.path :: visiting)).map
            fun (resolution, trail) => (resolution, d.path :: trail)
      | none => some (⟨index.config.standingByShape [] p, p⟩, [])

variable {index : Index} {isModule : Bool} {p scope : Path} {visiting : List Path}

/-! ## The paths of aliases -/

/-- A path that has something in force is declared. -/
theorem mem_paths_of_bind_find? {table : Table} {α : Type} {f : Declared → Option α} {q : Path}
    (h : ((table.find? q).bind f).isSome) : q ∈ table.map (·.path) := by
  obtain ⟨d, hd, hpath⟩ := Table.declares_iff.2 (Option.isSome_of_isSome_bind h)
  exact List.mem_map.2 ⟨d, hd, hpath⟩

theorem mem_aliasPaths {q : Path} : q ∈ index.aliasPaths ↔ index.IsAlias q := by
  rw [aliasPaths, List.mem_filter, List.mem_dedup, decide_eq_true_eq, and_iff_right_iff_imp,
    List.map_append, List.mem_append]
  exact Or.imp mem_paths_of_bind_find? mem_paths_of_bind_find?

theorem nodup_aliasPaths : index.aliasPaths.Nodup := (List.nodup_dedup _).filter _

theorem isAlias_of_lookup {d : Declared} {target : Path} (h : index.types.lookup p scope = some d)
    (hplain : d.plainTarget? = some target) : index.IsAlias d.path := by
  refine Or.inl ?_
  rw [(Table.lookup_eq_some_iff.1 h).2, Option.bind_some, hplain]
  rfl

theorem isAlias_of_aliasStep? {d : Declared} {target rest : Path}
    (h : index.aliasStep? isModule p scope visiting = some (d, target, rest)) :
    index.IsAlias d.path := by
  obtain ⟨i, -, hi⟩ := List.exists_of_findSome?_eq_some
    ((@aliasStep?_eq index isModule ⟨p, scope, visiting⟩).symm.trans h)
  obtain ⟨e, ⟨hd, he, -⟩, -⟩ := aliasAt?_eq_some_iff.1 hi
  refine Or.inr ?_
  rw [(Table.lookup_eq_some_iff.1 hd).2, Option.bind_some, he]
  rfl

/-! ## Nested expansions -/

/-- A resolution makes just these expansions, inside one another, and has no result within a budget
for fewer. -/
def Expands (index : Index) (isModule : Bool) (p scope : Path) (visiting : List Path)
    (r : Resolution) (trail : List Path) : Prop :=
  ∀ budget, index.resolveWithin budget isModule p scope visiting
    = if trail.length ≤ budget then some (r, trail) else none

namespace Expands

variable {r : Resolution} {trail : List Path}

theorem of_eq (h : ∀ budget, index.resolveWithin budget isModule p scope visiting = some (r, [])) :
    index.Expands isModule p scope visiting r [] := fun budget => h budget

/-- A resolution that goes on inside of the expansion of an alias makes one expansion more. -/
theorem cons {isModule' : Bool} {p' scope' : Path} {visiting' : List Path} {q : Path}
    {f : Resolution → Resolution} (h : index.Expands isModule' p' scope' visiting' r trail)
    (hstep : ∀ budget, index.resolveWithin budget isModule p scope visiting =
      match budget with
      | 0 => none
      | budget + 1 => (index.resolveWithin budget isModule' p' scope' visiting').map
          fun (r, trail) => (f r, q :: trail)) :
    index.Expands isModule p scope visiting (f r) (q :: trail) := by
  intro budget
  rw [hstep]
  cases budget with
  | zero => rfl
  | succ budget =>
    simp only [h budget, List.length_cons, Nat.add_le_add_iff_right]
    split <;> rfl

end Expands

/-- Aliases that are expanded inside of one another while some are being followed: none of them is
being followed, and none is expanded twice. -/
def Unfollowed (index : Index) (visiting trail : List Path) : Prop :=
  trail.Nodup ∧ ∀ q ∈ trail, index.IsAlias q ∧ q ∉ visiting

namespace Unfollowed

theorem nil : index.Unfollowed visiting [] := ⟨List.nodup_nil, by simp⟩

/-- What is expanded inside of an alias comes after that alias, which is not being followed. -/
theorem cons {q : Path} {trail : List Path} (halias : index.IsAlias q) (hq : q ∉ visiting)
    (h : index.Unfollowed (q :: visiting) trail) : index.Unfollowed visiting (q :: trail) := by
  obtain ⟨hnodup, htrail⟩ := h
  refine ⟨List.nodup_cons.2 ⟨fun hmem => (htrail q hmem).2 (List.mem_cons_self ..), hnodup⟩, ?_⟩
  rintro s (_ | ⟨_, hs⟩)
  · exact ⟨halias, hq⟩
  · exact ⟨(htrail s hs).1, fun hmem => (htrail s hs).2 (List.mem_cons_of_mem q hmem)⟩

theorem cons_of_plainTarget {d : Declared} {target : Path} {trail : List Path}
    (hd : (index.table isModule).lookup p scope = some d) (hplain : d.plainTarget? = some target)
    (hv : ¬ (isModule = true ∨ d.path ∈ visiting))
    (h : index.Unfollowed (d.path :: visiting) trail) :
    index.Unfollowed visiting (d.path :: trail) := by
  obtain ⟨hmodule, hvisiting⟩ := not_or.1 hv
  obtain rfl : isModule = false := by simpa using hmodule
  exact h.cons (isAlias_of_lookup hd hplain) hvisiting

theorem cons_of_aliasStep {d : Declared} {target rest : Path} {trail : List Path}
    (hstep : index.aliasStep? isModule p scope visiting = some (d, target, rest))
    (h : index.Unfollowed (d.path :: visiting) trail) :
    index.Unfollowed visiting (d.path :: trail) :=
  h.cons (isAlias_of_aliasStep? hstep) (index.mem_of_aliasStep? hstep).2

end Unfollowed

section Steps

variable {d : Declared} {target rest : Path} {budget : Nat}

theorem resolveWithin_of_builtin (h : (!isModule && index.config.isBuiltin p) = true) :
    index.resolveWithin budget isModule p scope visiting = some (⟨.builtin, p⟩, []) := by
  rw [resolveWithin.eq_def, if_pos h]

/-- A declaration is what is named if it is no alias, or is one that is not expanded. -/
theorem resolveWithin_of_lookup (h : ¬ (!isModule && index.config.isBuiltin p) = true)
    (hd : (index.table isModule).lookup p scope = some d)
    (hstay : ∀ target, d.plainTarget? = some target → isModule = true ∨ d.path ∈ visiting) :
    index.resolveWithin budget isModule p scope visiting = some (d.resolution, []) := by
  rw [resolveWithin.eq_def, if_neg h, hd]
  dsimp only
  split
  · rfl
  · next target htarget => rw [if_pos (by simpa using hstay target htarget)]

/-- The expansion of a plain alias. -/
theorem resolveWithin_of_plainTarget (h : ¬ (!isModule && index.config.isBuiltin p) = true)
    (hd : (index.table isModule).lookup p scope = some d) (hplain : d.plainTarget? = some target)
    (hv : ¬ (isModule = true ∨ d.path ∈ visiting)) :
    index.resolveWithin budget isModule p scope visiting =
      match budget with
      | 0 => none
      | budget + 1 =>
        (index.resolveWithin budget false target d.scope (d.path :: visiting)).map
          fun (resolution, trail) => (d.resolutionThrough resolution, d.path :: trail) := by
  rw [resolveWithin.eq_def, if_neg h, hd]
  dsimp only
  rw [hplain]
  dsimp only
  rw [if_neg (by simpa using hv)]

/-- The expansion of a module alias. -/
theorem resolveWithin_of_aliasStep (h : ¬ (!isModule && index.config.isBuiltin p) = true)
    (hd : (index.table isModule).lookup p scope = none)
    (hstep : index.aliasStep? isModule p scope visiting = some (d, target, rest)) :
    index.resolveWithin budget isModule p scope visiting =
      match budget with
      | 0 => none
      | budget + 1 =>
        (index.resolveWithin budget isModule (target ++ rest) d.scope (d.path :: visiting)).map
          fun (resolution, trail) => (resolution, d.path :: trail) := by
  rw [resolveWithin.eq_def, if_neg h, hd]
  dsimp only
  rw [hstep]

theorem resolveWithin_of_unknown (h : ¬ (!isModule && index.config.isBuiltin p) = true)
    (hd : (index.table isModule).lookup p scope = none)
    (hstep : index.aliasStep? isModule p scope visiting = none) :
    index.resolveWithin budget isModule p scope visiting
      = some (⟨index.config.standingByShape [] p, p⟩, []) := by
  rw [resolveWithin.eq_def, if_neg h, hd]
  dsimp only
  rw [hstep]

end Steps

/-- Every resolution ends after some nested expansions.  They are of aliases that are not being
followed, each of them expanded once. -/
theorem exists_expands (index : Index) (isModule : Bool) (p scope : Path) (visiting : List Path) :
    ∃ trail, index.Expands isModule p scope visiting (index.resolvePath isModule p scope visiting)
      trail ∧ index.Unfollowed visiting trail := by
  fun_induction index.resolvePath isModule p scope visiting with
  | case1 isModule p scope visiting hbuiltin =>
    exact ⟨[], .of_eq fun _ => resolveWithin_of_builtin hbuiltin, .nil⟩
  | case2 isModule p scope visiting hbuiltin d hd hplain =>
    have hstay : ∀ target, d.plainTarget? = some target → isModule = true ∨ d.path ∈ visiting := by
      simp [hplain]
    exact ⟨[], .of_eq fun _ => resolveWithin_of_lookup hbuiltin hd hstay, .nil⟩
  | case3 isModule p scope visiting hbuiltin d hd target hplain hv =>
    exact ⟨[], .of_eq fun _ => resolveWithin_of_lookup hbuiltin hd fun _ _ => hv, .nil⟩
  | case4 isModule p scope visiting hbuiltin d hd target hplain hv resolution hlatest ih =>
    obtain ⟨trail, hexpands, htrail⟩ := ih
    have hcons := hexpands.cons (f := d.resolutionThrough) fun budget =>
      resolveWithin_of_plainTarget hbuiltin hd hplain hv
    rw [Declared.resolutionThrough, if_pos hlatest] at hcons
    exact ⟨d.path :: trail, hcons, htrail.cons_of_plainTarget hd hplain hv⟩
  | case5 isModule p scope visiting hbuiltin d hd target hplain hv resolution hlatest ih =>
    obtain ⟨trail, hexpands, htrail⟩ := ih
    have hcons := hexpands.cons (f := d.resolutionThrough) fun budget =>
      resolveWithin_of_plainTarget hbuiltin hd hplain hv
    rw [Declared.resolutionThrough, if_neg hlatest] at hcons
    exact ⟨d.path :: trail, hcons, htrail.cons_of_plainTarget hd hplain hv⟩
  | case6 isModule p scope visiting hbuiltin hd d target rest hstep ih =>
    obtain ⟨trail, hexpands, htrail⟩ := ih
    exact ⟨d.path :: trail,
      hexpands.cons (f := id) fun budget => resolveWithin_of_aliasStep hbuiltin hd hstep,
      htrail.cons_of_aliasStep hstep⟩
  | case7 isModule p scope visiting hbuiltin hd hstep =>
    exact ⟨[], .of_eq fun _ => resolveWithin_of_unknown hbuiltin hd hstep, .nil⟩

/-- Every resolution ends, whatever the declarations.  It expands aliases inside of one another,
none of them twice, so there are no more such expansions than distinct paths of aliases. -/
theorem resolutions_end (index : Index) (isModule : Bool) (p scope : Path) :
    index.aliasPaths.Nodup ∧ (∀ q, q ∈ index.aliasPaths ↔ index.IsAlias q) ∧
    ∃ trail : List Path,
      (∀ budget, index.resolveWithin budget isModule p scope []
        = if trail.length ≤ budget then some (index.resolvePath isModule p scope [], trail)
          else none) ∧
      trail.Nodup ∧ (∀ q ∈ trail, index.IsAlias q) ∧ trail.length ≤ index.aliasPaths.length := by
  refine ⟨index.nodup_aliasPaths, fun _ => mem_aliasPaths, ?_⟩
  obtain ⟨trail, hexpands, hnodup, htrail⟩ := index.exists_expands isModule p scope []
  have hsub : trail ⊆ index.aliasPaths := fun q hq => mem_aliasPaths.2 (htrail q hq).1
  exact ⟨trail, hexpands, hnodup, fun q hq => (htrail q hq).1,
    (List.subperm_of_subset hnodup hsub).length_le⟩

end Index

end SchemaVersioning
