import SchemaVersioning.Proofs.AgreeingIndexes
import SchemaVersioning.Proofs.RepeatedAliases
import SchemaVersioning.Proofs.StableUses

/-!
# Indexes with more unversioned types

Two indexes declare the same, except that some plain types of the first are unversioned in the
second (`Index.MarkedAs`).  A spelling that names one of these is unversioned.  A spelling that
names another plain alias, and reaches one of them, is cut off: an alias stands for its target only
if that is a latest type, so it becomes an ordinary type (`resolve_of_reaches_freed`).  All other
spellings resolve alike (`resolvePath_of_not_reaches`).
-/

namespace SchemaVersioning

/-- A declaration is the same, or it was plain and is unversioned. -/
structure Declared.MarkedAs (d d' : Declared) : Prop where
  path : d'.path = d.path
  scope : d'.scope = d.scope
  target : d'.alias?.map (·.path) = d.alias?.map (·.path)
  standing : d'.standing = d.standing ∨ d.standing = .plain ∧ d'.standing = .unversioned

theorem Declared.MarkedAs.refl (d : Declared) : d.MarkedAs d := ⟨rfl, rfl, rfl, Or.inl rfl⟩

/-- The target of a plain alias is that of its expression. -/
theorem plainTarget?_eq_of_standing {d d' : Declared} (h : d.MarkedAs d')
    (hstanding : d'.standing = d.standing) : d'.plainTarget? = d.plainTarget? := by
  have htarget := h.target
  unfold Declared.plainTarget?
  rw [hstanding]
  cases halias : d.alias? with
  | none =>
    rw [halias] at htarget
    rw [Option.map_eq_none_iff.1 htarget]
  | some e =>
    rw [halias] at htarget
    obtain ⟨e', he', hpath⟩ := Option.map_eq_some_iff.1 htarget
    have hpath : e'.path = e.path := hpath
    rw [he']
    cases d.standing with
    | plain => simp only [hpath]
    | _ => rfl

namespace Index

/-- An index declares what another one does, but some plain types are unversioned. -/
structure MarkedAs (I J : Index) : Prop where
  config : J.config = I.config
  modules : J.modules = I.modules
  moduleAliases : J.moduleAliases = I.moduleAliases
  undeclared : ∀ {q}, I.types.find? q = none → J.types.find? q = none
  declared : ∀ {q e}, I.types.find? q = some e → ∃ e', J.types.find? q = some e' ∧ e.MarkedAs e'

/-- A plain type of an index is unversioned in another one. -/
def Frees (I J : Index) (e : Declared) : Prop :=
  I.types.find? e.path = some e ∧ e.standing = .plain ∧
    ∃ e', J.types.find? e.path = some e' ∧ e'.standing = .unversioned

namespace MarkedAs

variable {I J : Index} {p scope : Path} {visiting : List Path} {isModule : Bool}
  {σ τ : Spelling} {a e : Declared}

theorem isLookedUp (h : I.MarkedAs J) (hp : I.IsLookedUp isModule p) :
    J.IsLookedUp isModule p := by
  unfold IsLookedUp at hp ⊢
  rwa [h.config]

theorem lookup_none (h : I.MarkedAs J) (hnone : (I.table isModule).lookup p scope = none) :
    (J.table isModule).lookup p scope = none := by
  cases isModule with
  | true => exact (congrArg (Table.lookup · p scope) h.modules).trans hnone
  | false =>
    refine List.findSome?_eq_none_iff.2 fun s hs => h.undeclared ?_
    exact List.findSome?_eq_none_iff.1 hnone s hs

/-- What is declared first from the inside out is declared first in both. -/
theorem lookup_some (h : I.MarkedAs J) (he : I.types.lookup p scope = some e) :
    ∃ e', J.types.lookup p scope = some e' ∧ e.MarkedAs e' := by
  unfold Table.lookup at he ⊢
  generalize enclosingScopes scope = scopes at he ⊢
  induction scopes with
  | nil => cases he
  | cons s scopes ih =>
    rw [List.findSome?_cons] at he ⊢
    cases hfind : I.types.find? (s ++ p) with
    | none =>
      rw [hfind] at he
      rw [h.undeclared hfind]
      exact ih he
    | some d =>
      rw [hfind] at he
      obtain ⟨e', he', hmarked⟩ := h.declared hfind
      rw [he']
      obtain rfl : d = e := Option.some.inj he
      exact ⟨e', rfl, hmarked⟩

/-- A type that is found is set free if it is plain here and unversioned there. -/
theorem frees_iff (he : I.types.lookup p scope = some e) {e' : Declared}
    (he' : J.types.lookup p scope = some e') (hmarked : e.MarkedAs e') :
    I.Frees J e ↔ e'.standing ≠ e.standing := by
  have hfind := (Table.lookup_eq_some_iff.1 he).2
  have hfind' := (Table.lookup_eq_some_iff.1 he').2
  rw [hmarked.path] at hfind'
  constructor
  · rintro ⟨-, hplain, a, ha, hfreed⟩ hsame
    obtain rfl : a = e' := Option.some.inj (ha.symm.trans hfind')
    exact absurd (hfreed.symm.trans (hsame.trans hplain)) (by decide)
  · intro hne
    obtain ⟨hplain, hfreed⟩ := hmarked.standing.resolve_left hne
    exact ⟨hfind, hplain, e', hfind', hfreed⟩

theorem aliasStep?_eq (h : I.MarkedAs J) :
    J.aliasStep? isModule p scope visiting = I.aliasStep? isModule p scope visiting := by
  rw [Index.aliasStep?, Index.aliasStep?, h.moduleAliases]

/-! ### Names -/

theorem rewrites (h : I.MarkedAs J) {trail : List Path} (hrewrites : I.Rewrites false σ trail τ) :
    J.Rewrites false σ trail τ := by
  induction hrewrites with
  | refl σ => exact .refl σ
  | step hnone hstep _ ih =>
    obtain ⟨d, target, rest, ha, hτ⟩ := aliasStep_iff.1 hstep
    exact .step (h.lookup_none hnone)
      (aliasStep_iff.2 ⟨d, target, rest, h.aliasStep?_eq.trans ha, hτ⟩) ih

/-- What a spelling names, it names in both. -/
theorem names (h : I.MarkedAs J) (hnames : I.Names σ τ a) :
    ∃ a', J.Names σ τ a' ∧ a.MarkedAs a' ∧ (I.Frees J a ↔ a'.standing ≠ a.standing) := by
  obtain ⟨trail, hrewrites, hbuiltin, hlookup⟩ := hnames
  obtain ⟨a', ha', hmarked⟩ := h.lookup_some hlookup
  refine ⟨a', ⟨trail, h.rewrites hrewrites, ?_, ha'⟩, hmarked, frees_iff hlookup ha' hmarked⟩
  rwa [h.config]

/-- A spelling that names a type set free is unversioned. -/
theorem resolve_of_names_freed (h : I.MarkedAs J) (hnames : I.Names σ τ a)
    (hfreed : I.Frees J a) : J.resolveSpelling false σ = ⟨.unversioned, a.path⟩ := by
  obtain ⟨a', hnames', hmarked, hfrees⟩ := h.names hnames
  have hstanding := (hmarked.standing.resolve_left (hfrees.1 hfreed)).2
  rw [resolve_of_names hnames', declaredResolution_of_ne_plain (by simp [hstanding]),
    Declared.resolution, hstanding, hmarked.path]

/-- A spelling that reaches a type set free names one, or it names a plain type and stands for
that. -/
theorem resolve_of_reaches_freed (h : I.MarkedAs J) (hreaches : I.Reaches σ e)
    (hfreed : I.Frees J e) : ∃ τ a, I.Names σ τ a ∧ a.standing = .plain ∧
      (I.Frees J a ∧ J.resolveSpelling false σ = ⟨.unversioned, a.path⟩ ∨
        ¬ I.Frees J a ∧ J.resolveSpelling false σ = ⟨.plain, a.path⟩) := by
  induction hreaches with
  | @names σ τ e hnames =>
    exact ⟨τ, e, hnames, hfreed.2.1, Or.inl ⟨hfreed, h.resolve_of_names_freed hnames hfreed⟩⟩
  | @follow σ τ a e target hnames hplain hunfollowed _ ih =>
    have hstanding : a.standing = .plain := standing_of_plainTarget? hplain
    refine ⟨τ, a, hnames, hstanding, ?_⟩
    by_cases ha : I.Frees J a
    · exact Or.inl ⟨ha, h.resolve_of_names_freed hnames ha⟩
    · -- The alias is still followed, but what it leads to is not a latest type.
      obtain ⟨a', hnames', hmarked, hfrees⟩ := h.names hnames
      have hsame : a'.standing = a.standing := not_not.1 fun hne => ha (hfrees.2 hne)
      have hplain' : a'.plainTarget? = some target :=
        (plainTarget?_eq_of_standing hmarked hsame).trans hplain
      have htarget : (J.resolvePath false target a'.scope (a'.path :: τ.followed)).standing = .plain
          ∨ (J.resolvePath false target a'.scope (a'.path :: τ.followed)).standing
            = .unversioned := by
        rw [hmarked.path, hmarked.scope]
        obtain ⟨-, b, -, -, ⟨-, hb⟩ | ⟨-, hb⟩⟩ := ih hfreed
        · exact Or.inr (congrArg Resolution.standing hb)
        · exact Or.inl (congrArg Resolution.standing hb)
      refine Or.inr ⟨ha, ?_⟩
      rw [resolve_of_names hnames', declaredResolution, hplain']
      have hresolution : a'.resolution = ⟨.plain, a.path⟩ := by
        rw [Declared.resolution, hsame, hstanding, hmarked.path]
      rcases htarget with htarget | htarget <;>
        simp [htarget, hresolution, Standing.isLatest, Standing.overlong?]

/-! ### What no freed type touches -/

/-- What is declared where a path is looked up, and not set free, stands for what it stood for. -/
theorem resolvePath_of_not_freed (h : I.MarkedAs J) (hlooked : I.IsLookedUp isModule p)
    (ha : (I.table isModule).lookup p scope = some a) (hkept : isModule = false → ¬ I.Frees J a) :
    J.resolvePath isModule p scope visiting = J.declaredResolution isModule visiting a := by
  cases isModule with
  | true =>
    have ha' : J.modules.lookup p scope = some a :=
      (congrArg (Table.lookup · p scope) h.modules).trans ha
    exact resolvePath_of_lookup (h.isLookedUp hlooked) ha'
  | false =>
    obtain ⟨a', ha', hmarked⟩ := h.lookup_some ha
    have hsame : a'.standing = a.standing :=
      not_not.1 fun hne => hkept rfl ((frees_iff ha ha' hmarked).2 hne)
    rw [resolvePath_of_lookup (h.isLookedUp hlooked) ha']
    simp only [declaredResolution, plainTarget?_eq_of_standing hmarked hsame, Declared.resolution,
      hsame, hmarked.path, hmarked.scope]

theorem isBuiltin_eq_false (h : I.IsLookedUp false p) : I.config.isBuiltin p = false :=
  h.resolve_left Bool.false_ne_true

theorem names_of_lookup (hlooked : I.IsLookedUp false p) (ha : I.types.lookup p scope = some a) :
    I.Names ⟨p, scope, visiting⟩ ⟨p, scope, visiting⟩ a := by
  have hlookup : I.lookupSpelling false ⟨p, scope, visiting⟩ = some a := ha
  exact (names_iff_of_lookup hlookup).2 ⟨rfl, isBuiltin_eq_false hlooked, rfl⟩

/-- What is named after the alias at the front is replaced is named before. -/
theorem names_of_step (hnone : I.lookupSpelling false σ = none)
    (hlooked : I.IsLookedUp false σ.path) {υ : Spelling} (hstep : I.AliasStep false σ υ)
    (hnames : I.Names υ τ a) : I.Names σ τ a := by
  obtain ⟨trail, hrewrites, hbuiltin, hlookup⟩ := hnames
  refine ⟨σ.path :: trail, .step hnone hstep hrewrites, ?_, hlookup⟩
  rw [List.cons_append]
  exact List.forall_mem_cons.2 ⟨isBuiltin_eq_false hlooked, hbuiltin⟩

theorem reaches_of_step (hnone : I.lookupSpelling false σ = none)
    (hlooked : I.IsLookedUp false σ.path) {υ : Spelling} (hstep : I.AliasStep false σ υ)
    (hreaches : I.Reaches υ e) : I.Reaches σ e := by
  cases hreaches with
  | names hnames => exact .names (names_of_step hnone hlooked hstep hnames)
  | follow hnames hplain hunfollowed hrest =>
    exact .follow (names_of_step hnone hlooked hstep hnames) hplain hunfollowed hrest

/-- A spelling that does not reach a type set free resolves alike. -/
theorem resolvePath_of_not_reaches (h : I.MarkedAs J)
    (hreach : isModule = false → ∀ e, I.Frees J e → ¬ I.Reaches ⟨p, scope, visiting⟩ e) :
    J.resolvePath isModule p scope visiting = I.resolvePath isModule p scope visiting := by
  -- What a spelling names is not set free, or the spelling would reach it.
  have hnot : ∀ {isModule p scope visiting a}, I.IsLookedUp isModule p →
      (I.table isModule).lookup p scope = some a →
      (isModule = false → ∀ e, I.Frees J e → ¬ I.Reaches ⟨p, scope, visiting⟩ e) →
      isModule = false → ¬ I.Frees J a := by
    rintro isModule p scope visiting a hlooked ha hreach rfl hfreed
    exact hreach rfl a hfreed (.names (names_of_lookup hlooked ha))
  fun_induction I.resolvePath isModule p scope visiting with
  | case1 isModule p scope visiting hbuiltin =>
    obtain ⟨hmodule, hbuiltin⟩ := Bool.and_eq_true_iff.1 hbuiltin
    obtain rfl : isModule = false := by simpa using hmodule
    exact resolvePath_of_builtin (h.config ▸ hbuiltin)
  | case2 isModule p scope visiting hbuiltin a ha hplain =>
    have hlooked := isLookedUp_iff.2 hbuiltin
    rw [h.resolvePath_of_not_freed hlooked ha (hnot hlooked ha hreach), declaredResolution, hplain]
  | case3 isModule p scope visiting hbuiltin a ha target hplain hv =>
    have hlooked := isLookedUp_iff.2 hbuiltin
    rw [h.resolvePath_of_not_freed hlooked ha (hnot hlooked ha hreach), declaredResolution, hplain]
    dsimp only
    rw [if_pos (by simpa using hv)]
  | case4 isModule p scope visiting hbuiltin a ha target hplain hv resolution hlatest ih =>
    obtain rfl : isModule = false := by simpa using fun hm => hv (Or.inl hm)
    have hlooked := isLookedUp_iff.2 hbuiltin
    have hunfollowed : a.path ∉ visiting := fun hmem => hv (Or.inr hmem)
    have hrest := ih fun _ e he hrest => hreach rfl e he
      (.follow (names_of_lookup hlooked ha) hplain hunfollowed hrest)
    rw [h.resolvePath_of_not_freed hlooked ha (hnot hlooked ha hreach), declaredResolution, hplain]
    dsimp only
    rw [hrest, if_neg (by simpa using hunfollowed), if_pos hlatest]
  | case5 isModule p scope visiting hbuiltin a ha target hplain hv resolution hlatest ih =>
    obtain rfl : isModule = false := by simpa using fun hm => hv (Or.inl hm)
    have hlooked := isLookedUp_iff.2 hbuiltin
    have hunfollowed : a.path ∉ visiting := fun hmem => hv (Or.inr hmem)
    have hrest := ih fun _ e he hrest => hreach rfl e he
      (.follow (names_of_lookup hlooked ha) hplain hunfollowed hrest)
    rw [h.resolvePath_of_not_freed hlooked ha (hnot hlooked ha hreach), declaredResolution, hplain]
    dsimp only
    rw [hrest, if_neg (by simpa using hunfollowed), if_neg hlatest]
  | case6 isModule p scope visiting hbuiltin hnone d target rest hstep ih =>
    have hlooked := isLookedUp_iff.2 hbuiltin
    rw [resolvePath_of_aliasStep (h.isLookedUp hlooked) (h.lookup_none hnone)
      (h.aliasStep?_eq.trans hstep)]
    refine ih fun hmodule e he hrest => ?_
    subst hmodule
    have hundeclared : I.lookupSpelling false ⟨p, scope, visiting⟩ = none := hnone
    exact hreach rfl e he (reaches_of_step hundeclared hlooked
      (aliasStep_iff.2 ⟨d, target, rest, hstep, rfl⟩) hrest)
  | case7 isModule p scope visiting hbuiltin hnone hstep =>
    have hlooked := isLookedUp_iff.2 hbuiltin
    rw [resolvePath_of_unknown (h.isLookedUp hlooked) (h.lookup_none hnone)
      (h.aliasStep?_eq.trans hstep), h.config]

end MarkedAs

/-! ## References -/

section References

variable {I J : Index} {σ τ υ : Spelling} {a b : Declared} {r : Reference}

theorem eq_of_rewrites {trail trail' : List Path} (h : I.Rewrites false σ trail τ)
    (ha : I.lookupSpelling false τ = some a) (h' : I.Rewrites false σ trail' υ)
    (hb : I.lookupSpelling false υ = some b) : a = b := by
  induction h generalizing trail' with
  | refl σ =>
    cases h' with
    | refl => exact Option.some.inj (ha.symm.trans hb)
    | step hnone => cases hnone.symm.trans ha
  | step hnone hstep _ ih =>
    cases h' with
    | refl => cases hnone.symm.trans hb
    | step _ hstep' hrest' =>
      obtain ⟨d, target, rest, hd, rfl⟩ := aliasStep_iff.1 hstep
      obtain ⟨d', target', rest', hd', rfl⟩ := aliasStep_iff.1 hstep'
      obtain ⟨rfl, rfl, rfl⟩ := by simpa using hd.symm.trans hd'
      exact ih ha hrest'

/-- A spelling names one type. -/
theorem Names.unique (h : I.Names σ τ a) (h' : I.Names σ υ b) : a = b := by
  obtain ⟨_, hrewrites, -, ha⟩ := h
  obtain ⟨_, hrewrites', -, hb⟩ := h'
  exact eq_of_rewrites hrewrites ha hrewrites' hb

/-- A plain type stands for itself, or for what it is an alias of. -/
theorem resolve_of_names_plain (h : I.Names σ τ a) (hplain : a.standing = .plain) :
    (I.resolveSpelling false σ).IsCarried ∨ I.resolveSpelling false σ = ⟨.plain, a.path⟩ := by
  have hself : a.resolution = ⟨.plain, a.path⟩ := by rw [Declared.resolution, hplain]
  rw [resolve_of_names h, declaredResolution]
  split
  · exact Or.inr hself
  · dsimp only
    split
    · exact Or.inr hself
    · split
      · next hcarried => exact Or.inl hcarried
      · exact Or.inr hself

/-- A reference to a type reaches one that is set free, but names a plain alias that is not. -/
def CutOff (I J : Index) (r : Reference) : Prop :=
  r.isModule = false ∧ ∃ τ a e, I.Names r.spelling τ a ∧ ¬ I.Frees J a ∧
    I.Reaches r.spelling e ∧ I.Frees J e

/-- What a reference resolves to in both indexes: the same, if it does not reach a type set free,
and otherwise an unversioned type or, if it is cut off, a plain one. -/
inductive ResolvesAlike (I J : Index) (r : Reference) : Prop
  | same (resolves : J.resolve r = I.resolve r) (reached : ¬ I.CutOff J r)
  | freed (resolves : (J.resolve r).standing = .unversioned) (reached : ¬ I.CutOff J r)
      (plain : (I.resolve r).IsCarried ∨ (I.resolve r).standing = .plain)
  | cutOff (resolves : (J.resolve r).standing = .plain) (reached : I.CutOff J r)
      (plain : (I.resolve r).IsCarried ∨ I.resolve r = J.resolve r)

theorem MarkedAs.resolvesAlike (h : I.MarkedAs J) (r : Reference) : I.ResolvesAlike J r := by
  by_cases hreach : r.isModule = false ∧ ∃ e, I.Frees J e ∧ I.Reaches r.spelling e
  · obtain ⟨hmodule, e, hfreed, hreaches⟩ := hreach
    obtain ⟨τ, a, hnames, hplain, hcases⟩ := h.resolve_of_reaches_freed hreaches hfreed
    have hI : I.resolve r = I.resolveSpelling false r.spelling := by rw [resolve, hmodule]; rfl
    have hJ : J.resolve r = J.resolveSpelling false r.spelling := by rw [resolve, hmodule]; rfl
    have hkept := resolve_of_names_plain hnames hplain
    rw [← hI] at hkept
    rw [← hJ] at hcases
    rcases hcases with ⟨ha, hresolves⟩ | ⟨ha, hresolves⟩
    · refine .freed (congrArg Resolution.standing hresolves) ?_
        (hkept.imp_right (congrArg Resolution.standing))
      rintro ⟨-, υ, b, -, hnames', hb, -⟩
      exact hb (hnames.unique hnames' ▸ ha)
    · exact .cutOff (congrArg Resolution.standing hresolves)
        ⟨hmodule, τ, a, e, hnames, ha, hreaches, hfreed⟩
        (hkept.imp_right (·.trans hresolves.symm))
  · refine .same (h.resolvePath_of_not_reaches fun hmodule e he hreaches => ?_) ?_
    · exact hreach ⟨hmodule, e, he, hreaches⟩
    · rintro ⟨hmodule, -, -, e, -, -, hreaches, he⟩
      exact hreach ⟨hmodule, e, he, hreaches⟩

/-- What is cut off was plain before, if it was not carried. -/
theorem ResolvesAlike.plain_of_cutOff (hresolves : (J.resolve r).standing = .plain)
    (h : (I.resolve r).IsCarried ∨ I.resolve r = J.resolve r) :
    (I.resolve r).IsCarried ∨ (I.resolve r).standing = .plain :=
  h.imp_right fun hsame => (congrArg Resolution.standing hsame).trans hresolves

/-! ## Rules -/

theorem unstableUse?_of_isStable (h : (I.resolve r).standing.isStable = true) :
    I.unstableUse? r = none := by
  unfold unstableUse?
  split
  · rfl
  · simp [h]

theorem unstableUse?_ne_none_iff : I.unstableUse? r ≠ none ↔
    r.definedVersion? ≠ none ∧ (I.resolve r).standing.isStable = false := by
  unfold unstableUse?
  cases r.definedVersion? with
  | none => simp
  | some v => cases h : (I.resolve r).standing.isStable <;> simp [h]

theorem isStable_iff_isLatest (h : (I.resolve r).IsCarried ∨ (I.resolve r).standing = .plain) :
    (I.resolve r).standing.isStable = true ↔ (I.resolve r).standing.isLatest = true := by
  unfold Resolution.IsCarried at h
  cases hstanding : (I.resolve r).standing <;>
    simp_all [Standing.isStable, Standing.isLatest, Standing.overlong?]

/-- A use is newly reported exactly if it counted as one of a latest type and is cut off. -/
theorem MarkedAs.newly_unstable_iff (h : I.MarkedAs J) :
    I.unstableUse? r = none ∧ J.unstableUse? r ≠ none ↔
      r.definedVersion? ≠ none ∧ (I.resolve r).standing.isLatest = true ∧ I.CutOff J r := by
  constructor
  · rintro ⟨hI, hJ⟩
    obtain ⟨hversion, hunstable⟩ := unstableUse?_ne_none_iff.1 hJ
    have hstable : (I.resolve r).standing.isStable = true := by
      by_contra hne
      exact unstableUse?_ne_none_iff.2 ⟨hversion, by simpa using hne⟩ hI
    cases h.resolvesAlike r with
    | same hresolves _ =>
      rw [hresolves] at hunstable
      cases hunstable.symm.trans hstable
    | freed hresolves _ _ => cases hunstable.symm.trans (congrArg Standing.isStable hresolves)
    | cutOff hresolves hcut hkept =>
      have hplain := ResolvesAlike.plain_of_cutOff hresolves hkept
      exact ⟨hversion, (isStable_iff_isLatest hplain).1 hstable, hcut⟩
  · rintro ⟨hversion, hlatest, hcut⟩
    cases h.resolvesAlike r with
    | same _ hnot => exact absurd hcut hnot
    | freed _ hnot _ => exact absurd hcut hnot
    | cutOff hresolves _ hkept =>
      have hplain := ResolvesAlike.plain_of_cutOff hresolves hkept
      refine ⟨unstableUse?_of_isStable ((isStable_iff_isLatest hplain).2 hlatest), ?_⟩
      exact unstableUse?_ne_none_iff.2 ⟨hversion, congrArg Standing.isStable hresolves⟩

theorem unstableUse?_congr (hresolves : J.resolve r = I.resolve r) (hconfig : J.config = I.config) :
    J.unstableUse? r = I.unstableUse? r := by
  unfold unstableUse?
  rw [hresolves, hconfig]

/-- A use that is reported in both is reported in the same words. -/
theorem MarkedAs.unstableUse?_eq (h : I.MarkedAs J) (hlegible : (I.resolve r).interruption? = none)
    (hI : I.unstableUse? r ≠ none) (hJ : J.unstableUse? r ≠ none) :
    J.unstableUse? r = I.unstableUse? r := by
  cases h.resolvesAlike r with
  | same hresolves _ => exact unstableUse?_congr hresolves h.config
  | freed hresolves _ _ =>
    exact absurd (unstableUse?_of_isStable (congrArg Standing.isStable hresolves)) hJ
  | cutOff _ _ hkept =>
    rcases hkept with hcarried | hsame
    · -- A latest type is not reported, and a version that is not read interrupts.
      rcases Bool.or_eq_true_iff.1 hcarried with hlatest | hoverlong
      · have hstable := (isStable_iff_isLatest (Or.inl hcarried)).2 hlatest
        exact absurd (unstableUse?_of_isStable hstable) hI
      · rw [Resolution.interruption?, Option.map_eq_none_iff] at hlegible
        cases hlegible ▸ hoverlong
    · exact unstableUse?_congr hsame.symm h.config

theorem versionLeak?_eq_none (h : ∀ f k, (I.resolve r).standing ≠ .version f k) :
    I.versionLeak? r = none := by
  unfold versionLeak?
  dsimp only
  split
  · next f k hversion => exact absurd hversion (h f k)
  · rfl

theorem ne_version_of_plain (h : (I.resolve r).IsCarried ∨ (I.resolve r).standing = .plain)
    (f : String) (k : Nat) : (I.resolve r).standing ≠ .version f k := by
  unfold Resolution.IsCarried at h
  intro hversion
  simp [hversion, Standing.isLatest, Standing.overlong?] at h

/-- No leak is found or lost. -/
theorem MarkedAs.versionLeak?_eq (h : I.MarkedAs J) (r : Reference) :
    J.versionLeak? r = I.versionLeak? r := by
  cases h.resolvesAlike r with
  | same hresolves _ => unfold versionLeak?; rw [hresolves, h.config]
  | freed hresolves _ hplain =>
    rw [versionLeak?_eq_none (ne_version_of_plain hplain),
      versionLeak?_eq_none fun f k => by rw [hresolves]; exact Standing.noConfusion]
  | cutOff hresolves _ hkept =>
    have hplain := ResolvesAlike.plain_of_cutOff hresolves hkept
    rw [versionLeak?_eq_none (ne_version_of_plain hplain),
      versionLeak?_eq_none fun f k => by rw [hresolves]; exact Standing.noConfusion]

/-! ## Interruptions -/

/-- No resolution is interrupted that was not. -/
theorem MarkedAs.interruption?_resolve_eq_none (h : I.MarkedAs J)
    (hI : (I.resolve r).interruption? = none) : (J.resolve r).interruption? = none := by
  cases h.resolvesAlike r with
  | same hresolves _ => rwa [hresolves]
  | freed hresolves _ _ => rw [Resolution.interruption?, hresolves]; rfl
  | cutOff hresolves _ _ => rw [Resolution.interruption?, hresolves]; rfl

theorem MarkedAs.leakInterruption?_eq_none (h : I.MarkedAs J) (hI : I.leakInterruption? r = none) :
    J.leakInterruption? r = none := by
  cases h.resolvesAlike r with
  | same hresolves _ =>
    unfold leakInterruption? at hI ⊢
    rwa [hresolves, h.versionLeak?_eq]
  | freed hresolves _ _ | cutOff hresolves _ _ =>
    have hnone : J.versionLeak? r = none :=
      versionLeak?_eq_none fun f k => by rw [hresolves]; exact Standing.noConfusion
    unfold leakInterruption?
    simp [hnone, Resolution.interruption?, hresolves, Standing.overlong?]

end References

end Index

end SchemaVersioning
