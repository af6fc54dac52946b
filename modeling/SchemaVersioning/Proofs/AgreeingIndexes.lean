import SchemaVersioning.Proofs.LegibleReferences
import SchemaVersioning.Proofs.Naming
import SchemaVersioning.Proofs.ShippedVersions

/-!
# Agreeing indexes

Two indexes agree on some questions if they declare the same wherever one of these is looked up and
no alias leads out of them.  Then each of these questions has one resolution in both
(`AgreesOn.resolvePath`), and the rules say the same of a reference that asks one
(`AgreesOn.ruling`).
-/

namespace SchemaVersioning

/-! ## Rulings -/

/-- What the rules say of a reference: the diagnostics of a use and of a leak, and the interruptions
by looking for them. -/
structure Ruling where
  use : Option Diagnostic
  leak : Option Diagnostic
  useInterruption : Option Interruption
  leakInterruption : Option Interruption

/-- The rules have nothing to say. -/
def Ruling.silent : Ruling := ⟨none, none, none, none⟩

namespace Index

/-- What the rules say of a reference. -/
def ruling (index : Index) (r : Reference) : Ruling where
  use := index.unstableUse? r
  leak := index.versionLeak? r
  useInterruption := if r.definedVersion?.isNone then none else (index.resolve r).interruption?
  leakInterruption := index.leakInterruption? r

def rulings (index : Index) : List Ruling := index.references.map index.ruling

variable (index : Index)

theorem unstableUses_eq : index.unstableUses = index.rulings.filterMap (·.use) := by
  rw [rulings, List.filterMap_map]
  rfl

theorem versionLeaks_eq : index.versionLeaks = index.rulings.filterMap (·.leak) := by
  rw [rulings, List.filterMap_map]
  rfl

theorem interruption?_eq (families : List Family) : index.interruption? families =
    (index.rulings.findSome? (·.useInterruption)).or
      ((functorInterruption? index.declarations families).or
        (index.rulings.findSome? (·.leakInterruption))) := by
  rw [rulings, List.findSome?_map, List.findSome?_map]
  rfl

/-- The rules have nothing to say of a reference in a test. -/
theorem ruling_of_test {r : Reference} (h : r.context = .test) : index.ruling r = .silent := by
  obtain ⟨huse, hleak⟩ := @unreported_of_test index r h
  have hversion : r.definedVersion? = none :=
    Option.eq_none_iff_forall_ne_some.2 fun v hv => by
      simp [definedVersion?_eq_some_iff, h] at hv
  simp [ruling, Ruling.silent, huse, hleak, hversion, leakInterruption?, h, Context.isExempt]

end Index

/-! ## Agreement -/

/-- What a path means in a scope depends on the paths at which it is looked up. -/
theorem lookup_congr {table table' : Table} {p scope : Path}
    (h : ∀ i ≤ scope.length, table.find? (scope.take i ++ p) = table'.find? (scope.take i ++ p)) :
    table.lookup p scope = table'.lookup p scope := by
  have hmap : (enclosingScopes scope).map (fun s => table.find? (s ++ p))
      = (enclosingScopes scope).map fun s => table'.find? (s ++ p) := by
    refine List.map_congr_left fun s hs => ?_
    obtain ⟨i, hi, rfl⟩ := List.mem_map.1 hs
    rw [List.mem_reverse, List.mem_range] at hi
    exact h i (Nat.le_of_lt_succ hi)
  simpa [Table.lookup, List.findSome?_map] using congrArg (List.findSome? id) hmap

namespace Index

/-- Two indexes declare the same wherever a path in a scope is looked up that is among some
questions, and these questions are closed under following the aliases of the first index. -/
structure AgreesOn (I J : Index) (asked : Path → Path → Prop) : Prop where
  config : J.config = I.config
  lookup : ∀ {isModule p scope}, asked p scope →
    (J.table isModule).lookup p scope = (I.table isModule).lookup p scope
  aliases : ∀ {p scope} (i : Nat), asked p scope →
    J.moduleAliases.lookup (p.take i) scope = I.moduleAliases.lookup (p.take i) scope
  typeAlias : ∀ {p scope d target}, asked p scope → I.types.lookup p scope = some d →
    d.plainTarget? = some target → asked target d.scope
  moduleAlias : ∀ {p scope i d e}, asked p scope →
    I.moduleAliases.lookup (p.take i) scope = some d → d.alias? = some e →
      asked (e.path ++ p.drop i) d.scope

namespace AgreesOn

variable {I J : Index} {asked : Path → Path → Prop} {p scope : Path} {visiting : List Path}
  {isModule : Bool}

theorem isLookedUp (h : I.AgreesOn J asked) (hp : I.IsLookedUp isModule p) :
    J.IsLookedUp isModule p := by
  unfold IsLookedUp at hp ⊢
  rwa [h.config]

theorem aliasStep? (h : I.AgreesOn J asked) (hasked : asked p scope) :
    J.aliasStep? isModule p scope visiting = I.aliasStep? isModule p scope visiting := by
  simp only [Index.aliasStep?, h.aliases _ hasked]

theorem asked_of_aliasStep? (h : I.AgreesOn J asked) (hasked : asked p scope) {d : Declared}
    {target rest : Path}
    (hstep : I.aliasStep? isModule p scope visiting = some (d, target, rest)) :
    asked (target ++ rest) d.scope := by
  obtain ⟨i, -, -, hat, -⟩ := findSome?_reverse_range'_eq_some_iff.1
    ((@aliasStep?_eq I isModule ⟨p, scope, visiting⟩).symm.trans hstep)
  obtain ⟨e, ⟨hlookup, he, -⟩, rfl, rfl⟩ := aliasAt?_eq_some_iff.1 hat
  exact h.moduleAlias hasked hlookup he

theorem resolvePath_of_lookup (h : I.AgreesOn J asked) (hasked : asked p scope)
    (hp : I.IsLookedUp isModule p) {d : Declared}
    (hd : (I.table isModule).lookup p scope = some d) :
    J.resolvePath isModule p scope visiting = J.declaredResolution isModule visiting d :=
  Index.resolvePath_of_lookup (h.isLookedUp hp) ((h.lookup hasked).trans hd)

/-- Indexes that agree on a question resolve it alike. -/
theorem resolvePath (h : I.AgreesOn J asked) (hasked : asked p scope) :
    J.resolvePath isModule p scope visiting = I.resolvePath isModule p scope visiting := by
  fun_induction I.resolvePath isModule p scope visiting with
  | case1 isModule p scope visiting hbuiltin =>
    obtain ⟨hmodule, hbuiltin⟩ := Bool.and_eq_true_iff.1 hbuiltin
    obtain rfl : isModule = false := by simpa using hmodule
    exact resolvePath_of_builtin (h.config ▸ hbuiltin)
  | case2 isModule p scope visiting hbuiltin d hd hplain =>
    rw [h.resolvePath_of_lookup hasked (isLookedUp_iff.2 hbuiltin) hd, declaredResolution, hplain]
  | case3 isModule p scope visiting hbuiltin d hd target hplain hv =>
    rw [h.resolvePath_of_lookup hasked (isLookedUp_iff.2 hbuiltin) hd, declaredResolution, hplain]
    exact if_pos (by simpa using hv)
  | case4 isModule p scope visiting hbuiltin d hd target hplain hv resolution hlatest ih =>
    obtain rfl : isModule = false := by simpa using fun hm => hv (Or.inl hm)
    rw [h.resolvePath_of_lookup hasked (isLookedUp_iff.2 hbuiltin) hd, declaredResolution, hplain]
    dsimp only
    rw [ih (h.typeAlias hasked hd hplain), if_neg (by simpa using hv), if_pos hlatest]
  | case5 isModule p scope visiting hbuiltin d hd target hplain hv resolution hlatest ih =>
    obtain rfl : isModule = false := by simpa using fun hm => hv (Or.inl hm)
    rw [h.resolvePath_of_lookup hasked (isLookedUp_iff.2 hbuiltin) hd, declaredResolution, hplain]
    dsimp only
    rw [ih (h.typeAlias hasked hd hplain), if_neg (by simpa using hv), if_neg hlatest]
  | case6 isModule p scope visiting hbuiltin hd d target rest hstep ih =>
    rw [resolvePath_of_aliasStep (h.isLookedUp (isLookedUp_iff.2 hbuiltin))
      ((h.lookup hasked).trans hd) ((h.aliasStep? hasked).trans hstep)]
    exact ih (h.asked_of_aliasStep? hasked hstep)
  | case7 isModule p scope visiting hbuiltin hd hstep =>
    rw [resolvePath_of_unknown (h.isLookedUp (isLookedUp_iff.2 hbuiltin))
      ((h.lookup hasked).trans hd) ((h.aliasStep? hasked).trans hstep), h.config]

theorem resolve (h : I.AgreesOn J asked) {r : Reference} (hr : asked r.path r.scope) :
    J.resolve r = I.resolve r := h.resolvePath hr

/-- The rules say the same of a reference on which indexes agree. -/
theorem ruling (h : I.AgreesOn J asked) {r : Reference} (hr : asked r.path r.scope) :
    J.ruling r = I.ruling r := by
  simp only [Index.ruling, unstableUse?, leakInterruption?, versionLeak?, h.resolve hr, h.config]

end AgreesOn

end Index

end SchemaVersioning
