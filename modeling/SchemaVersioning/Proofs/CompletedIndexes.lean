import SchemaVersioning.Proofs.AgreeingIndexes

/-!
# Indexes with generated alias modules

Before the alias module of a container is generated, its types are declared, and a path below it
that is not one of them is judged by its shape.  The generated module is an alias of the highest
version, so it opens everything in that version.  A spelling that never comes to such a path
(`Unsettled`) resolves alike, and a reference with such a spelling keeps its ruling
(`CompletedBy.ruling`).
-/

namespace SchemaVersioning

namespace Index

/-! ## Unsettled spellings -/

/-- Following the aliases of a spelling, one comes to an undeclared path with a front part that
leads to the latest alias of a container, or to a latest type of a container in a test. -/
inductive Unsettled (I : Index) : Bool → Spelling → Prop
  | opened {isModule : Bool} {σ : Spelling} {d : FamilyDeclaration} {i j : Nat}
      (looked : I.IsLookedUp isModule σ.path) (undeclared : I.lookupSpelling isModule σ = none)
      (container : d ∈ I.declarations) (first : 1 ≤ i) (last : i ≤ aliasLimit isModule σ.path)
      (level : j ≤ σ.scope.length)
      (reaches : σ.scope.take j ++ σ.path.take i = d.latestPath I.config) :
      Unsettled I isModule σ
  | tested {σ : Spelling} {d : FamilyDeclaration} {e : Declared}
      (looked : I.IsLookedUp false σ.path) (declared : I.lookupSpelling false σ = some e)
      (container : d ∈ I.declarations) (inTest : d.inTest = true)
      (latest : e ∈ d.declaredLatestTypes I.config) : Unsettled I false σ
  | module {isModule : Bool} {σ τ : Spelling} (looked : I.IsLookedUp isModule σ.path)
      (undeclared : I.lookupSpelling isModule σ = none) (step : I.AliasStep isModule σ τ)
      (rest : Unsettled I isModule τ) : Unsettled I isModule σ
  | type {σ : Spelling} {a : Declared} {target : Path} (looked : I.IsLookedUp false σ.path)
      (declared : I.lookupSpelling false σ = some a) (plain : a.plainTarget? = some target)
      (unfollowed : a.path ∉ σ.followed)
      (rest : Unsettled I false ⟨target, a.scope, a.path :: σ.followed⟩) : Unsettled I false σ

/-! ## Completed indexes -/

/-- A latest type of a container, declared by the generated alias module: in a test it belongs to
that. -/
def Regenerates (d : FamilyDeclaration) (e e' : Declared) : Prop :=
  e'.path = e.path ∧ e'.standing = if d.inTest then .test else .latest d.name

/-- An index declares what another does, and the alias modules of its containers beside that. -/
structure CompletedBy (I K : Index) : Prop where
  config : K.config = I.config
  modules : K.modules = I.modules
  aliases : ∀ q, (∀ d ∈ I.declarations, q ≠ d.latestPath I.config) →
    K.moduleAliases.find? q = I.moduleAliases.find? q
  types : ∀ q, K.types.find? q = I.types.find? q ∨ ∃ d ∈ I.declarations,
    ∃ e ∈ d.declaredLatestTypes I.config, I.types.find? q = some e ∧
      ∃ e', K.types.find? q = some e' ∧ Regenerates d e e'

namespace CompletedBy

variable {I K : Index} {p scope : Path} {visiting : List Path} {isModule : Bool}

theorem isLookedUp (h : I.CompletedBy K) (hp : I.IsLookedUp isModule p) :
    K.IsLookedUp isModule p := by
  unfold IsLookedUp at hp ⊢
  rwa [h.config]

/-- A type is looked up alike, up to what the generated alias module says of it. -/
theorem lookup_types (h : I.CompletedBy K) (p scope : Path) :
    K.types.lookup p scope = I.types.lookup p scope ∨ ∃ d ∈ I.declarations,
      ∃ e ∈ d.declaredLatestTypes I.config, I.types.lookup p scope = some e ∧
        ∃ e', K.types.lookup p scope = some e' ∧ Regenerates d e e' := by
  unfold Table.lookup
  induction enclosingScopes scope with
  | nil => exact Or.inl rfl
  | cons s scopes ih =>
    rw [List.findSome?_cons, List.findSome?_cons]
    rcases h.types (s ++ p) with hsame | ⟨d, hd, e, he, hI, e', hK, hregenerates⟩
    · rw [hsame]
      cases I.types.find? (s ++ p) with
      | none => exact ih
      | some e => exact Or.inl rfl
    · rw [hI, hK]
      exact Or.inr ⟨d, hd, e, he, rfl, e', rfl, hregenerates⟩

theorem lookup_none (h : I.CompletedBy K) (hnone : (I.table isModule).lookup p scope = none) :
    (K.table isModule).lookup p scope = none := by
  cases isModule with
  | true => exact (congrArg (Table.lookup · p scope) h.modules).trans hnone
  | false =>
    rcases h.lookup_types p scope with hsame | ⟨d, -, e, -, hI, -⟩
    · exact hsame.trans hnone
    · cases hI.symm.trans hnone

theorem standing_of_mem_latestTypes {d : FamilyDeclaration} {c : Config} {e : Declared}
    (he : e ∈ d.declaredLatestTypes c) : e.standing = .latest d.name := by
  obtain ⟨x, -, rfl⟩ := List.mem_map.1 he
  rfl

/-- What is declared is declared alike, or is a latest type that stays one. -/
theorem lookup_some (h : I.CompletedBy K) {e : Declared}
    (hlooked : I.IsLookedUp isModule p)
    (hsettled : ¬ I.Unsettled isModule ⟨p, scope, visiting⟩)
    (he : (I.table isModule).lookup p scope = some e) :
    (K.table isModule).lookup p scope = some e ∨ ∃ e', (K.table isModule).lookup p scope = some e' ∧
      e'.resolution = e.resolution ∧ e.plainTarget? = none ∧ e'.plainTarget? = none := by
  cases isModule with
  | true => exact Or.inl ((congrArg (Table.lookup · p scope) h.modules).trans he)
  | false =>
    rcases h.lookup_types p scope with hsame | ⟨d, hd, a, ha, hI, e', hK, hpath, hstanding⟩
    · exact Or.inl (hsame.trans he)
    · obtain rfl : a = e := Option.some.inj (hI.symm.trans he)
      have htest : d.inTest = false := by
        by_contra htest
        exact hsettled (.tested hlooked he hd (by simpa using htest) ha)
      have hlatest := standing_of_mem_latestTypes ha
      rw [htest, if_neg Bool.false_ne_true] at hstanding
      refine Or.inr ⟨e', hK, ?_, plainTarget?_eq_none (by simp [hlatest]),
        plainTarget?_eq_none (by simp [hstanding])⟩
      rw [Declared.resolution, Declared.resolution, hpath, hstanding, hlatest]

/-- A path that is undeclared and does not lead below a latest alias goes through the same module
alias. -/
theorem aliasStep?_eq (h : I.CompletedBy K) (hlooked : I.IsLookedUp isModule p)
    (hsettled : ¬ I.Unsettled isModule ⟨p, scope, visiting⟩)
    (hnone : (I.table isModule).lookup p scope = none) :
    K.aliasStep? isModule p scope visiting = I.aliasStep? isModule p scope visiting := by
  have hlookup : ∀ i, 1 ≤ i → i ≤ aliasLimit isModule p →
      K.moduleAliases.lookup (p.take i) scope = I.moduleAliases.lookup (p.take i) scope :=
    fun i hlow hhigh => lookup_congr fun j hj => h.aliases _ fun d hd hq =>
      hsettled (.opened hlooked hnone hd hlow hhigh hj hq)
  have hmap : (List.range' 1 (aliasLimit isModule p)).reverse.map (K.aliasAt? ⟨p, scope, visiting⟩)
      = (List.range' 1 (aliasLimit isModule p)).reverse.map (I.aliasAt? ⟨p, scope, visiting⟩) := by
    refine List.map_congr_left fun i hi => ?_
    rw [List.mem_reverse, List.mem_range'_1] at hi
    rw [aliasAt?, aliasAt?, hlookup i hi.1 (by omega)]
  have hfirst := congrArg (List.findSome? id) hmap
  rw [List.findSome?_map, List.findSome?_map] at hfirst
  exact hfirst

theorem resolvePath_of_lookup (h : I.CompletedBy K) {e : Declared}
    (hlooked : I.IsLookedUp isModule p)
    (hsettled : ¬ I.Unsettled isModule ⟨p, scope, visiting⟩)
    (he : (I.table isModule).lookup p scope = some e) :
    K.resolvePath isModule p scope visiting = K.declaredResolution isModule visiting e := by
  rcases h.lookup_some hlooked hsettled he with hK | ⟨e', hK, hresolution, hplain, hplain'⟩
  · exact Index.resolvePath_of_lookup (h.isLookedUp hlooked) hK
  · rw [Index.resolvePath_of_lookup (h.isLookedUp hlooked) hK, declaredResolution, hplain',
      declaredResolution, hplain]
    exact hresolution

/-- A settled spelling resolves alike. -/
theorem resolvePath (h : I.CompletedBy K)
    (hsettled : ¬ I.Unsettled isModule ⟨p, scope, visiting⟩) :
    K.resolvePath isModule p scope visiting = I.resolvePath isModule p scope visiting := by
  fun_induction I.resolvePath isModule p scope visiting with
  | case1 isModule p scope visiting hbuiltin =>
    obtain ⟨hmodule, hbuiltin⟩ := Bool.and_eq_true_iff.1 hbuiltin
    obtain rfl : isModule = false := by simpa using hmodule
    exact resolvePath_of_builtin (h.config ▸ hbuiltin)
  | case2 isModule p scope visiting hbuiltin e he hplain =>
    rw [h.resolvePath_of_lookup (isLookedUp_iff.2 hbuiltin) hsettled he, declaredResolution, hplain]
  | case3 isModule p scope visiting hbuiltin e he target hplain hv =>
    rw [h.resolvePath_of_lookup (isLookedUp_iff.2 hbuiltin) hsettled he, declaredResolution, hplain]
    exact if_pos (by simpa using hv)
  | case4 isModule p scope visiting hbuiltin e he target hplain hv resolution hlatest ih =>
    obtain rfl : isModule = false := by simpa using fun hm => hv (Or.inl hm)
    have hunfollowed : e.path ∉ visiting := fun hmem => hv (Or.inr hmem)
    rw [h.resolvePath_of_lookup (isLookedUp_iff.2 hbuiltin) hsettled he, declaredResolution, hplain]
    dsimp only
    rw [ih fun hrest => hsettled (.type (isLookedUp_iff.2 hbuiltin) he hplain hunfollowed hrest),
      if_neg (by simpa using hv), if_pos hlatest]
  | case5 isModule p scope visiting hbuiltin e he target hplain hv resolution hlatest ih =>
    obtain rfl : isModule = false := by simpa using fun hm => hv (Or.inl hm)
    have hunfollowed : e.path ∉ visiting := fun hmem => hv (Or.inr hmem)
    rw [h.resolvePath_of_lookup (isLookedUp_iff.2 hbuiltin) hsettled he, declaredResolution, hplain]
    dsimp only
    rw [ih fun hrest => hsettled (.type (isLookedUp_iff.2 hbuiltin) he hplain hunfollowed hrest),
      if_neg (by simpa using hv), if_neg hlatest]
  | case6 isModule p scope visiting hbuiltin hnone d target rest hstep ih =>
    have hlooked := isLookedUp_iff.2 hbuiltin
    rw [resolvePath_of_aliasStep (h.isLookedUp hlooked) (h.lookup_none hnone)
      ((h.aliasStep?_eq hlooked hsettled hnone).trans hstep)]
    exact ih fun hrest => hsettled (.module hlooked hnone
      (aliasStep_iff.2 ⟨d, target, rest, hstep, rfl⟩) hrest)
  | case7 isModule p scope visiting hbuiltin hnone hstep =>
    have hlooked := isLookedUp_iff.2 hbuiltin
    rw [resolvePath_of_unknown (h.isLookedUp hlooked) (h.lookup_none hnone)
      ((h.aliasStep?_eq hlooked hsettled hnone).trans hstep), h.config]

/-- The rules say the same of a settled reference. -/
theorem ruling (h : I.CompletedBy K) {r : Reference}
    (hsettled : ¬ I.Unsettled r.isModule r.spelling) : K.ruling r = I.ruling r := by
  have hresolve : K.resolve r = I.resolve r := h.resolvePath hsettled
  simp only [Index.ruling, unstableUse?, leakInterruption?, versionLeak?, hresolve, h.config]

end CompletedBy

end Index

end SchemaVersioning
