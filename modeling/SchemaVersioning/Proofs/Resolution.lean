import SchemaVersioning.Rule.VersionLeaks

/-!
# Steps of a resolution

One equation for each way in which the resolution of a path goes on: it is built in, it is declared,
it begins with a module alias, or it is declared nowhere.
-/

namespace SchemaVersioning

namespace Index

variable {index : Index}

/-- The table in which a path is looked up. -/
def table (index : Index) (isModule : Bool) : Table :=
  if isModule then index.modules else index.types

/-- Whether a path is looked up at all: types that are built in are not. -/
def IsLookedUp (index : Index) (isModule : Bool) (p : Path) : Prop :=
  isModule = true ∨ index.config.isBuiltin p = false

theorem isLookedUp_iff {isModule : Bool} {p : Path} : index.IsLookedUp isModule p ↔
    ¬ (!isModule && index.config.isBuiltin p) = true := by
  cases isModule <;> simp [IsLookedUp]

section Steps

variable {isModule : Bool} {p scope : Path} {visiting : List Path}

theorem resolvePath_of_builtin (h : index.config.isBuiltin p = true) :
    index.resolvePath false p scope visiting = ⟨.builtin, p⟩ := by
  rw [resolvePath, if_pos (by simpa using h)]

/-- What a declaration gives that a path names. -/
def declaredResolution (index : Index) (isModule : Bool) (visiting : List Path) (d : Declared) :
    Resolution :=
  match d.plainTarget? with
  | none => d.resolution
  | some target =>
    if isModule || visiting.contains d.path then d.resolution
    else
      let resolution := index.resolvePath false target d.scope (d.path :: visiting)
      if resolution.standing.isLatest || resolution.standing.overlong?.isSome then resolution
      else d.resolution

theorem resolvePath_of_lookup {d : Declared} (hp : index.IsLookedUp isModule p)
    (h : (index.table isModule).lookup p scope = some d) :
    index.resolvePath isModule p scope visiting = index.declaredResolution isModule visiting d := by
  rw [resolvePath, if_neg (isLookedUp_iff.1 hp), declaredResolution]
  split
  · next e he =>
    obtain rfl : e = d := Option.some.inj (he.symm.trans h)
    cases e.plainTarget? with
    | none => rfl
    | some target => simp
  · next he => cases he.symm.trans h

theorem resolvePath_of_aliasStep {d : Declared} {target rest : Path}
    (hp : index.IsLookedUp isModule p) (h : (index.table isModule).lookup p scope = none)
    (ha : index.aliasStep? isModule p scope visiting = some (d, target, rest)) :
    index.resolvePath isModule p scope visiting
      = index.resolvePath isModule (target ++ rest) d.scope (d.path :: visiting) := by
  rw [resolvePath, if_neg (isLookedUp_iff.1 hp)]
  split
  · next he => cases he.symm.trans h
  · split
    · next hstep =>
      obtain ⟨rfl, rfl, rfl⟩ := by simpa using hstep.symm.trans ha
      rfl
    · next hstep => cases hstep.symm.trans ha

theorem resolvePath_of_unknown (hp : index.IsLookedUp isModule p)
    (h : (index.table isModule).lookup p scope = none)
    (ha : index.aliasStep? isModule p scope visiting = none) :
    index.resolvePath isModule p scope visiting = ⟨index.config.standingByShape [] p, p⟩ := by
  rw [resolvePath, if_neg (isLookedUp_iff.1 hp)]
  split
  · next he => cases he.symm.trans h
  · split
    · next hstep => cases hstep.symm.trans ha
    · rfl

end Steps

/-- A reference leaks a version if it names one that its context may not name. -/
theorem versionLeak?_isSome_iff {r : Reference} : (index.versionLeak? r).isSome ↔
    ∃ f k, (index.resolve r).standing = .version f k ∧ r.context.mayName f = false := by
  unfold versionLeak?
  dsimp only
  split
  · next f k hstanding =>
    simp only [hstanding, Standing.version.injEq]
    split
    · next hname => simp [hname]
    · next hname => simpa using hname
  · next hother =>
    simp only [Option.isSome_none, Bool.false_eq_true, false_iff]
    rintro ⟨f, k, hstanding, -⟩
    exact hother f k hstanding

end Index

end SchemaVersioning
