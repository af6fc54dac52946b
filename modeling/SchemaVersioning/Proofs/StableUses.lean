import Mathlib.Logic.Relation
import SchemaVersioning.Proofs.Leakage
import SchemaVersioning.Rule.StableTypes

/-!
# Stable uses

What the definition of a version may use.  A name is followed along module aliases and plain type
aliases; it leads to something stable when a built-in type, a latest type, an unversioned type or a
type of a version is met on the way (`isStable_iff`).  Whose latest type it is does not matter: a
version may be defined by the latest type of its own container (`definitions_checked_exactly`).
-/

namespace SchemaVersioning

/-! ## Chains of aliases -/

namespace Index

variable {index : Index}

/-- One alias is followed: the module alias at the front of a path that is not declared, or the
plain alias that a path names. -/
inductive Follows (index : Index) : Spelling → Spelling → Prop
  | module {σ τ : Spelling} (lookedUp : index.config.isBuiltin σ.path = false)
      (undeclared : index.lookupSpelling false σ = none) (replaced : index.AliasStep false σ τ) :
      Follows index σ τ
  | type {σ : Spelling} {a : Declared} {target : Path}
      (lookedUp : index.config.isBuiltin σ.path = false)
      (declared : index.lookupSpelling false σ = some a) (plain : a.plainTarget? = some target)
      (unfollowed : a.path ∉ σ.followed) :
      Follows index σ ⟨target, a.scope, a.path :: σ.followed⟩

/-- A spelling is one of the latest type of a family: it is declared as such, or it is declared
nowhere, begins with no alias and has the shape of a latest type. -/
def IsLatest (index : Index) (σ : Spelling) (f : String) (q : Path) : Prop :=
  index.config.isBuiltin σ.path = false ∧
    ((∃ e, index.lookupSpelling false σ = some e ∧ e.resolution = ⟨.latest f, q⟩) ∨
      (index.lookupSpelling false σ = none ∧ (∀ τ, ¬ index.AliasStep false σ τ) ∧
        index.config.ShowsLatest σ.path f ∧ σ.path = q))

/-- A chain of module aliases and plain type aliases ends at the latest type of a family. -/
def LeadsToLatest (index : Index) (σ : Spelling) (f : String) (q : Path) : Prop :=
  ∃ τ, Relation.ReflTransGen index.Follows σ τ ∧ index.IsLatest τ f q

theorem resolve_of_isLatest {σ : Spelling} {f : String} {q : Path} (h : index.IsLatest σ f q) :
    index.resolveSpelling false σ = ⟨.latest f, q⟩ := by
  obtain ⟨hbuiltin, ⟨e, hlookup, he⟩ | ⟨hnone, hrests, hshape, rfl⟩⟩ := h
  · have hstanding : e.standing = .latest f := congrArg Resolution.standing he
    rw [resolveSpelling, resolvePath_of_lookup (Or.inr hbuiltin) hlookup,
      declaredResolution_of_ne_plain (by simp [hstanding]), he]
  · rw [resolveSpelling, resolvePath_of_unknown (Or.inr hbuiltin) hnone
      (aliasStep?_eq_none_iff.2 hrests), Config.standingByShape_eq_latest_iff.2 hshape]

/-- An alias that leads to a latest type names that type. -/
theorem resolve_of_follows {σ τ : Spelling} {f : String} {q : Path} (h : index.Follows σ τ)
    (hτ : index.resolveSpelling false τ = ⟨.latest f, q⟩) :
    index.resolveSpelling false σ = ⟨.latest f, q⟩ := by
  cases h with
  | module hbuiltin hnone hstep => rw [resolveSpelling_of_step (Or.inr hbuiltin) hnone hstep, hτ]
  | type hbuiltin hlookup hplain hunfollowed =>
    rw [resolveSpelling] at hτ
    rw [resolveSpelling, resolvePath_of_lookup (Or.inr hbuiltin) hlookup, declaredResolution, hplain]
    simp [hunfollowed, hτ, Standing.isLatest]

theorem length_unvisited_of_follows {σ τ : Spelling} (h : index.Follows σ τ) :
    (index.unvisited τ.followed).length < (index.unvisited σ.followed).length := by
  cases h with
  | module _ _ hstep =>
    obtain ⟨d, target, rest, ha, rfl⟩ := aliasStep_iff.1 hstep
    obtain ⟨hmem, hunfollowed⟩ := index.mem_of_aliasStep? ha
    exact index.length_unvisited_cons_lt (Or.inr hmem) hunfollowed
  | type _ hlookup _ hunfollowed =>
    exact index.length_unvisited_cons_lt (Or.inl (Table.mem_of_lookup hlookup)) hunfollowed

/-- A declaration that gives a latest type is one, or a plain alias of something that gives it. -/
theorem latest_of_declaredResolution {e : Declared} {visiting : List Path} {f : String} {q : Path}
    (h : index.declaredResolution false visiting e = ⟨.latest f, q⟩) :
    e.resolution = ⟨.latest f, q⟩ ∨ ∃ target, e.plainTarget? = some target ∧ e.path ∉ visiting ∧
      index.resolvePath false target e.scope (e.path :: visiting) = ⟨.latest f, q⟩ := by
  unfold declaredResolution at h
  cases hplain : e.plainTarget? with
  | none =>
    rw [hplain] at h
    exact Or.inl h
  | some target =>
    simp only [hplain, Bool.false_or] at h
    split at h
    · exact Or.inl h
    · next hunfollowed =>
      split at h
      · exact Or.inr ⟨target, rfl, by simpa using hunfollowed, h⟩
      · exact Or.inl h

/-- What names a latest type is a spelling of it, or an alias to something that names it. -/
theorem isLatest_or_follows {σ : Spelling} {f : String} {q : Path}
    (h : index.resolveSpelling false σ = ⟨.latest f, q⟩) :
    index.IsLatest σ f q ∨
      ∃ τ, index.Follows σ τ ∧ index.resolveSpelling false τ = ⟨.latest f, q⟩ := by
  cases hbuiltin : index.config.isBuiltin σ.path with
  | true =>
    rw [resolveSpelling, resolvePath_of_builtin hbuiltin] at h
    cases h
  | false =>
    cases hlookup : index.lookupSpelling false σ with
    | some e =>
      rw [resolveSpelling, resolvePath_of_lookup (Or.inr hbuiltin) hlookup] at h
      rcases latest_of_declaredResolution h with he | ⟨target, hplain, hunfollowed, htarget⟩
      · exact Or.inl ⟨hbuiltin, Or.inl ⟨e, hlookup, he⟩⟩
      · exact Or.inr ⟨_, .type hbuiltin hlookup hplain hunfollowed, htarget⟩
    | none =>
      by_cases hstep : ∃ τ, index.AliasStep false σ τ
      · obtain ⟨τ, hτ⟩ := hstep
        rw [resolveSpelling_of_step (Or.inr hbuiltin) hlookup hτ] at h
        exact Or.inr ⟨τ, .module hbuiltin hlookup hτ, h⟩
      · have hrests := not_exists.1 hstep
        rw [resolveSpelling, resolvePath_of_unknown (Or.inr hbuiltin) hlookup
          (aliasStep?_eq_none_iff.2 hrests)] at h
        obtain ⟨hshape, rfl⟩ := Resolution.mk.inj h
        exact Or.inl ⟨hbuiltin, Or.inr ⟨hlookup, hrests,
          Config.standingByShape_eq_latest_iff.1 hshape, rfl⟩⟩

/-- A spelling names a latest type exactly when a chain of aliases ends there. -/
theorem resolve_eq_latest_iff_leadsTo {f : String} {q : Path} (σ : Spelling) :
    index.resolveSpelling false σ = ⟨.latest f, q⟩ ↔ index.LeadsToLatest σ f q := by
  constructor
  · intro h
    rcases isLatest_or_follows h with hlatest | ⟨τ, hfollows, hτ⟩
    · exact ⟨σ, .refl, hlatest⟩
    · have := length_unvisited_of_follows hfollows
      obtain ⟨υ, hchain, hlatest⟩ := (resolve_eq_latest_iff_leadsTo τ).1 hτ
      exact ⟨υ, .head hfollows hchain, hlatest⟩
  · rintro ⟨τ, hchain, hlatest⟩
    induction hchain using Relation.ReflTransGen.head_induction_on with
    | refl => exact resolve_of_isLatest hlatest
    | head hfollows _ ih => exact resolve_of_follows hfollows ih
termination_by (index.unvisited σ.followed).length

/-! ## What is stable -/

/-- A spelling leads to something that the definition of a version may use: a built-in type is met
on the way, a chain of aliases ends at a latest type, or the declaration that is named, or the shape
of the last path, is unversioned or a version. -/
inductive LeadsToStable (index : Index) (σ : Spelling) : Prop
  | builtin {τ : Spelling} {trail : List Path} (rewrites : index.Rewrites false σ trail τ)
      {p : Path} (met : p ∈ trail ++ [τ.path]) (isBuiltin : index.config.isBuiltin p = true)
  | latest {f : String} {q : Path} (leads : index.LeadsToLatest σ f q)
  | declared {τ : Spelling} {e : Declared} (names : index.Names σ τ e)
      (standing : e.standing = .unversioned ∨ ∃ f k, e.standing = .version f k)
  | undeclared {τ : Spelling} {trail : List Path} (rewrites : index.Rewrites false σ trail τ)
      (lookedUp : ∀ p ∈ trail ++ [τ.path], index.config.isBuiltin p = false)
      (nowhere : index.lookupSpelling false τ = none) (rests : ∀ υ, ¬ index.AliasStep false τ υ)
      {f : String} {k : Nat} (shows : index.config.ShowsVersion τ.path f k)

theorem isStable_of_leadsToStable {σ : Spelling} (h : index.LeadsToStable σ) :
    (index.resolveSpelling false σ).standing.isStable = true := by
  cases h with
  | builtin hrewrites hmet hbuiltin =>
    rw [standing_of_builtin hrewrites ⟨_, hmet, hbuiltin⟩]
    rfl
  | latest hleads =>
    rw [(resolve_eq_latest_iff_leadsTo σ).2 hleads]
    rfl
  | @declared τ e hnames hstanding =>
    have hplain : e.standing ≠ .plain := by
      rcases hstanding with h | ⟨f, k, h⟩ <;> simp [h]
    rw [resolve_of_names hnames, declaredResolution_of_ne_plain hplain, Declared.resolution]
    rcases hstanding with h | ⟨f, k, h⟩ <;> rw [h] <;> rfl
  | @undeclared τ trail hrewrites hbuiltin hnone hrests f k hshape =>
    rw [resolve_of_rewrites hrewrites fun p hp => Or.inr (hbuiltin p (List.mem_append_left _ hp)),
      resolveSpelling, resolvePath_of_unknown
        (Or.inr (hbuiltin τ.path (List.mem_append_right _ (List.mem_singleton_self _)))) hnone
        (aliasStep?_eq_none_iff.2 hrests)]
    show (index.config.standingByShape [] τ.path).isStable = true
    rw [Config.standingByShape_eq_version_iff.2 hshape]
    rfl

/-- What is read off an undeclared path is stable only if it is a version or latest. -/
theorem shape_of_isStable {c : Config} {p : Path} (h : (c.standingByShape [] p).isStable = true) :
    (∃ f k, c.ShowsVersion p f k) ∨ ∃ f, c.standingByShape [] p = .latest f := by
  have hknown : c.standingByShape [] p ≠ .unknown := fun heq => by simp [heq, Standing.isStable] at h
  obtain ⟨i, f, b, -, hb⟩ := (Config.standingByShape_eq_iff hknown).1 rfl
  rw [Standing.ofComponent] at hb
  split at hb
  · rw [← hb] at h
    cases h
  · next number _ _ => exact Or.inl ⟨f, number, Config.standingByShape_eq_version_iff.1 hb.symm⟩
  · exact Or.inr ⟨f, hb.symm⟩

/-- An alias is not followed to anything stable but a latest type. -/
theorem not_kept_of_isStable {s : Standing} (h : s.isStable = true) (hlatest : ¬ ∃ f, s = .latest f) :
    ¬ (s.isLatest || s.overlong?.isSome) = true := by
  cases s <;> simp_all [Standing.isStable, Standing.isLatest, Standing.overlong?]

/-- A declaration that gives something stable but no latest type is unversioned or a version. -/
theorem standing_of_isStable {e : Declared} {visiting : List Path} (he : e.standing ≠ .builtin)
    (h : (index.declaredResolution false visiting e).standing.isStable = true)
    (hlatest : ¬ ∃ f, (index.declaredResolution false visiting e).standing = .latest f) :
    e.standing = .unversioned ∨ ∃ f k, e.standing = .version f k := by
  have hresolution : index.declaredResolution false visiting e = e.resolution := by
    unfold declaredResolution at h hlatest ⊢
    cases hplain : e.plainTarget? with
    | none => rfl
    | some target =>
      simp only [hplain] at h hlatest ⊢
      split
      · rfl
      · next hunfollowed =>
        rw [if_neg hunfollowed] at h hlatest
        split at h
        · next hkept =>
          rw [if_pos hkept] at hlatest
          exact absurd hkept (not_kept_of_isStable h hlatest)
        · next hother => rw [if_neg hother]
  rw [hresolution, Declared.resolution] at h hlatest
  cases hstanding : e.standing with
  | version f k => exact Or.inr ⟨f, k, rfl⟩
  | unversioned => exact Or.inl rfl
  | latest f => exact absurd ⟨f, hstanding⟩ hlatest
  | builtin => exact absurd hstanding he
  | _ => simp [hstanding, Standing.isStable] at h

theorem leadsToStable_of_isStable (hdeclared : ∀ e ∈ index.types, e.standing ≠ .builtin)
    {σ : Spelling} (h : (index.resolveSpelling false σ).standing.isStable = true) :
    index.LeadsToStable σ := by
  by_cases hlatest : ∃ f, (index.resolveSpelling false σ).standing = .latest f
  · obtain ⟨f, hf⟩ := hlatest
    have hresolution : index.resolveSpelling false σ
        = ⟨.latest f, (index.resolveSpelling false σ).target⟩ := by rw [← hf]
    exact .latest ((resolve_eq_latest_iff_leadsTo σ).1 hresolution)
  obtain ⟨trail, τ, hrewrites, hrests⟩ := exists_rewrites index false σ
  by_cases hbuiltin : ∃ p ∈ trail ++ [τ.path], index.config.isBuiltin p = true
  · obtain ⟨p, hmet, hp⟩ := hbuiltin
    exact .builtin hrewrites hmet hp
  have hlooked : ∀ p ∈ trail ++ [τ.path], index.config.isBuiltin p = false := by
    simpa only [not_exists, not_and, Bool.not_eq_true] using hbuiltin
  cases hlookup : index.lookupSpelling false τ with
  | some e =>
    have hnames : index.Names σ τ e := ⟨trail, hrewrites, hlooked, hlookup⟩
    rw [resolve_of_names hnames] at h hlatest
    exact .declared hnames
      (standing_of_isStable (hdeclared e (Table.mem_of_lookup hlookup)) h hlatest)
  | none =>
    have hunaliased := hrests.resolve_left (not_not.2 hlookup)
    have hresolve : index.resolveSpelling false σ
        = ⟨index.config.standingByShape [] τ.path, τ.path⟩ := by
      rw [resolve_of_rewrites hrewrites fun p hp => Or.inr (hlooked p (List.mem_append_left _ hp))]
      exact resolvePath_of_unknown
        (Or.inr (hlooked τ.path (List.mem_append_right _ (List.mem_singleton_self _)))) hlookup
        (aliasStep?_eq_none_iff.2 hunaliased)
    rw [hresolve] at h hlatest
    rcases shape_of_isStable h with ⟨f, k, hshape⟩ | hshape
    · exact .undeclared hrewrites hlooked hlookup hunaliased hshape
    · exact absurd hshape hlatest

end Index

/-! ## Definitions of a version -/

/-- A module outside of tests lies in a version of a container, and no further container lies
between. -/
structure Place.BelongsTo (M : Place) (u : CompilationUnit) (c : Config) (d : FamilyDeclaration)
    (k : Nat) : Prop where
  place : M ∈ u.places
  untested : M.line.any c.isTest = false
  container : d ∈ u.familyDeclarations c
  version : ∃ name, versionNumber? name = some k ∧ d.containerPath ++ [name] <+: M.path
  innermost : ∀ e ∈ u.familyDeclarations c, e.containerPath <+: Path.ofLine M.ancestors →
    e.containerPath <+: d.containerPath

section Definitions

variable {u : CompilationUnit} {c : Config} {d : FamilyDeclaration} {k : Nat}

theorem name_eq_of_containerPath_eq {d e : FamilyDeclaration}
    (h : d.containerPath = e.containerPath) : d.name = e.name := by
  obtain ⟨hparent, hname⟩ := List.append_inj' (show d.parentPath ++ [d.container.name]
    = e.parentPath ++ [e.container.name] from h) rfl
  rw [FamilyDeclaration.name, FamilyDeclaration.name, hparent, (List.cons.inj hname).1]

/-- Containers at one path have one name, whichever of them counts. -/
theorem exists_containerAt? (hd : d ∈ u.familyDeclarations c) {p : Path} (hp : d.containerPath = p) :
    ∃ e, containerAt? (u.familyDeclarations c) p = some e ∧ e.name = d.name := by
  have hmem : d ∈ (u.familyDeclarations c).filter fun e => e.containerPath = p :=
    List.mem_filter.2 ⟨hd, by simpa using hp⟩
  obtain ⟨e, he⟩ := Option.ne_none_iff_exists'.1
    (fun h => List.ne_nil_of_mem hmem (List.getLast?_eq_none_iff.1 h))
  refine ⟨e, he, name_eq_of_containerPath_eq ?_⟩
  have hpath := (List.mem_filter.1 (List.mem_of_getLast? he)).2
  rw [hp]
  simpa using hpath

theorem containerAt?_eq_none_of_forall {p : Path}
    (h : ∀ e ∈ u.familyDeclarations c, e.containerPath ≠ p) :
    containerAt? (u.familyDeclarations c) p = none := by
  rw [containerAt?, List.getLast?_eq_none_iff, List.filter_eq_nil_iff]
  intro e he hpath
  exact h e he (by simpa using hpath)

/-- The context in a version stays the same down to the next container. -/
theorem within_of_version {name : String} (hd : d ∈ u.familyDeclarations c)
    (hk : versionNumber? name = some k) {line : List ModuleDecl}
    (htest : line.any c.isTest = false) (hpath : d.containerPath ++ [name] <+: Path.ofLine line)
    (hinner : ∀ e ∈ u.familyDeclarations c, e.containerPath <+: Path.ofLine line.dropLast →
      e.containerPath <+: d.containerPath) :
    Context.within c (u.familyDeclarations c) line = .version d.name k := by
  induction line using List.reverseRecOn with
  | nil => simp at hpath
  | append_singleton line m ih =>
    rw [List.dropLast_concat] at hinner
    rw [ofLine_append, ofLine_cons, ofLine_nil, List.prefix_concat_iff] at hpath
    rcases hpath with hlast | hbefore
    · -- The last module is the version itself.
      obtain ⟨hcontainer, hname⟩ := List.append_inj' hlast rfl
      obtain ⟨e, he, hfamily⟩ := exists_containerAt? hd hcontainer
      rw [← hfamily]
      exact within_version htest he (by rwa [← (List.cons.inj hname).1])
    · rw [List.any_append, Bool.or_eq_false_iff] at htest
      refine within_concat_of_version (ih htest.1 hbefore fun e he hinside => ?_)
        (by simpa using htest.2) (containerAt?_eq_none_of_forall fun e he heq => ?_)
      · refine hinner e he (hinside.trans ?_)
        exact List.IsPrefix.map _ (List.dropLast_prefix line)
      · have hlength := (hinner e he (heq ▸ List.prefix_refl _)).length_le
        have hlonger := hbefore.length_le
        rw [heq] at hlength
        simp only [List.length_append, List.length_cons] at hlonger
        omega

theorem Place.BelongsTo.context {M : Place} (h : M.BelongsTo u c d k) :
    (M.site c (u.familyDeclarations c)).context = .version d.name k := by
  obtain ⟨name, hk, hpath⟩ := h.version
  have hdrop : M.line.dropLast = M.ancestors := List.dropLast_concat
  exact within_of_version h.container hk h.untested hpath (hdrop ▸ h.innermost)

/-! ## References of definitions -/

mutual

theorem of_mem_exprReferences {s : Site} {owner : String} {definition : Bool}
    {fallback : Option Location} {r : Reference} : ∀ {exempt : Bool} {e : TypeExpr},
    r ∈ s.exprReferences owner definition fallback exempt e →
      r.context = s.context ∧ r.definition = definition ∧ r.isModule = false
  | exempt, ⟨.var name, args, attributes, location⟩, h => by
    rw [Site.exprReferences, List.nil_append] at h
    exact of_mem_exprReferencesAll h
  | exempt, ⟨.named first rest, args, attributes, location⟩, h => by
    rw [Site.exprReferences, List.mem_append, List.mem_singleton] at h
    rcases h with rfl | h
    · exact ⟨rfl, rfl, rfl⟩
    · exact of_mem_exprReferencesAll h

theorem of_mem_exprReferencesAll {s : Site} {owner : String} {definition : Bool}
    {fallback : Option Location} {r : Reference} : ∀ {exempt : Bool} {es : List TypeExpr},
    r ∈ s.exprReferencesAll owner definition fallback exempt es →
      r.context = s.context ∧ r.definition = definition ∧ r.isModule = false
  | exempt, [], h => by simp [Site.exprReferencesAll] at h
  | exempt, e :: rest, h => by
    rw [Site.exprReferencesAll, List.mem_append] at h
    exact h.elim of_mem_exprReferences of_mem_exprReferencesAll

end

theorem definedVersion?_eq_some_iff {r : Reference} {v : String × Nat} :
    r.definedVersion? = some v ↔
      r.context = .version v.1 v.2 ∧ r.definition = true ∧ r.exempt = false := by
  obtain ⟨family, number⟩ := v
  unfold Reference.definedVersion?
  cases r.context <;> cases r.definition <;> cases r.exempt <;> simp

/-- The references of type definitions are to types, and are written inside the module. -/
theorem of_definition {s : Site} {r : Reference} (h : r ∈ s.references) (hr : r.definition = true) :
    r.context = s.context ∧ r.isModule = false := by
  -- References to modules and those of signatures are no definitions.
  have hvalue : ∀ {owner v}, r ∈ s.valueReferences owner v → r.definition = false :=
    fun hv => (of_mem_exprReferencesAll hv).2.1
  have htype : ∀ {owner t}, r ∈ s.typeReferences owner t →
      r.context = s.context ∧ r.isModule = false :=
    fun ht => ⟨(of_mem_exprReferencesAll ht).1, (of_mem_exprReferencesAll ht).2.2⟩
  simp only [Site.references, List.mem_append, List.mem_flatMap, Site.parameterReferences] at h
  rcases h with (((hargument | halias) | ⟨p, -, ⟨t, -, ht⟩ | ⟨v, -, hv⟩⟩) | ⟨t, -, ht⟩) | ⟨v, -, hv⟩
  · obtain ⟨a, -, rfl⟩ := List.mem_map.1 hargument
    cases hr
  · obtain ⟨a, -, rfl⟩ := Option.map_eq_some_iff.1 (Option.mem_toList.1 halias)
    cases hr
  · exact htype ht
  · exact absurd hr (by simp [hvalue hv])
  · exact htype ht
  · exact absurd hr (by simp [hvalue hv])

theorem standing_ne_builtin {e : Declared} (h : e ∈ (u.index c).types) : e.standing ≠ .builtin := by
  rcases mem_index_types.1 h with ⟨d, -, hd⟩ | ⟨p, -, hp⟩
  · obtain ⟨x, -, rfl⟩ := List.mem_map.1 hd
    exact Standing.noConfusion
  · obtain ⟨t, -, rfl⟩ := List.mem_map.1 hp
    show Site.standingOf _ t ≠ .builtin
    unfold Site.standingOf
    split
    · exact Standing.noConfusion
    · exact Standing.noConfusion
    · exact Standing.noConfusion
    · split <;> exact Standing.noConfusion

/-- A reference resolves to the latest alias of a container. -/
def Index.ResolvesToLatestOf (index : Index) (d : FamilyDeclaration) (r : Reference) : Prop :=
  ∃ q, d.latestPath index.config <+: q ∧ index.resolve r = ⟨.latest d.name, q⟩

/-- How a reference in the definition of a version of a container is checked. -/
structure CheckedExactly (u : CompilationUnit) (c : Config) (d : FamilyDeclaration) (k : Nat)
    (r : Reference) : Prop where
  /-- It counts as a use in the definition of that version. -/
  counted : r ∈ (u.index c).references ∧ r.definedVersion? = some (d.name, k)
  /-- It is reported exactly if it does not lead to anything stable. -/
  reported : ((u.index c).unstableUse? r).isSome ↔ ¬ (u.index c).LeadsToStable r.spelling
  /-- Where nothing is reported it leads to something stable. -/
  unreported : (u.index c).unstableUses = [] → (u.index c).LeadsToStable r.spelling
  /-- It resolves to the latest alias of the container exactly if a chain of aliases ends there. -/
  ownLatest : (u.index c).ResolvesToLatestOf d r ↔
    ∃ q, d.latestPath c <+: q ∧ (u.index c).LeadsToLatest r.spelling d.name q
  /-- Then it is not reported. -/
  ownLatestPasses : (u.index c).ResolvesToLatestOf d r → (u.index c).unstableUse? r = none

/-- References in the type definitions of a version that are not exempt are checked exactly as
`CheckedExactly` says. -/
theorem definitions_checked_exactly {M : Place} (hM : M.BelongsTo u c d k) {r : Reference}
    (hr : r ∈ (M.site c (u.familyDeclarations c)).references) (hdefinition : r.definition = true)
    (hexempt : r.exempt = false) : CheckedExactly u c d k r := by
  obtain ⟨hcontext, hmodule⟩ := of_definition hr hdefinition
  have hmem : r ∈ (u.index c).references := mem_index_references.2 ⟨M, hM.place, hr⟩
  have hversion : r.definedVersion? = some (d.name, k) := by
    rw [Reference.definedVersion?, hcontext, hM.context]
    simp [hdefinition, hexempt]
  have hresolve : (u.index c).resolve r = (u.index c).resolveSpelling false r.spelling := by
    rw [Index.resolve, hmodule]
    rfl
  have hstable : ((u.index c).resolve r).standing.isStable = true ↔
      (u.index c).LeadsToStable r.spelling := by
    rw [hresolve]
    exact ⟨Index.leadsToStable_of_isStable fun e he => standing_ne_builtin he,
      Index.isStable_of_leadsToStable⟩
  have hreported : ((u.index c).unstableUse? r).isSome ↔
      ¬ (u.index c).LeadsToStable r.spelling := by
    rw [← hstable]
    by_cases hs : ((u.index c).resolve r).standing.isStable = true <;>
      simp [Index.unstableUse?, hversion, hs]
  refine ⟨⟨hmem, hversion⟩, hreported, fun hnone => ?_, ?_, ?_⟩
  · by_contra hunstable
    have hsome := hreported.2 hunstable
    rw [List.filterMap_eq_nil_iff.1 hnone r hmem] at hsome
    cases hsome
  · simp only [Index.ResolvesToLatestOf, hresolve, Index.resolve_eq_latest_iff_leadsTo]
    rfl
  · rintro ⟨q, -, hlatest⟩
    simp [Index.unstableUse?, hversion, hlatest, Standing.isStable]

end Definitions

/-! ## A version defined by the latest one -/

/-- A version whose type has a field of the latest type of its own container. -/
def linkedVersion : ModuleDecl :=
  .bare "V1" [{ TypeDecl.bare "t" with
    shape := .record
    fields := [⟨"next", .ofPath "Latest" ["t"]⟩] }] []

/-- The container of the version. -/
def linkedContainer : ModuleDecl :=
  { ModuleDecl.bare "Stable" [] [linkedVersion] with attributes := ["versioned"] }

/-- The declaration of the family of the container. -/
def linkedDeclaration : FamilyDeclaration where
  container := linkedContainer
  parentPath := ["Account"]
  kind := .type
  strategy := .plain
  functorArities := []
  inTest := false
  parentTypes := []

/-- A unit with the container. -/
def linkedUnit : CompilationUnit := ⟨"ledger", [.bare "Account" [] [linkedContainer]]⟩

/-- The place of the version. -/
def linkedPlace : Place := ⟨[.bare "Account" [] [linkedContainer], linkedContainer], linkedVersion⟩

/-- The use of the latest type in the definition of the version. -/
def linkedReference : Reference where
  path := ["Latest", "t"]
  scope := ["Account", "Stable", "V1"]
  owner := "Account.Stable.V1.t"
  context := .version "Account" 1
  definition := true
  exempt := false
  isModule := false
  location := none

theorem linkedPlace_belongsTo : linkedPlace.BelongsTo linkedUnit .standard linkedDeclaration 1 where
  place := mem_places.2 ⟨List.mem_cons_self, List.mem_cons_self, List.mem_cons_self, trivial⟩
  untested := by decide
  container := List.mem_singleton_self _
  version := ⟨"V1", by decide, List.prefix_refl _⟩
  innermost e he _ := by
    obtain rfl : e = linkedDeclaration := List.mem_singleton.1 he
    exact List.prefix_refl _

theorem linkedReference_mem :
    linkedReference ∈ (linkedPlace.site .standard (linkedUnit.familyDeclarations .standard)).references := by
  decide +kernel

theorem definitions_checked_exactly_linkedUnit :
    linkedPlace.BelongsTo linkedUnit .standard linkedDeclaration 1 ∧
      linkedReference
        ∈ (linkedPlace.site .standard (linkedUnit.familyDeclarations .standard)).references ∧
      linkedReference.definition = true ∧ linkedReference.exempt = false ∧
      CheckedExactly linkedUnit .standard linkedDeclaration 1 linkedReference :=
  ⟨linkedPlace_belongsTo, linkedReference_mem, rfl, rfl,
    definitions_checked_exactly linkedPlace_belongsTo linkedReference_mem rfl rfl⟩

/-- A version may be defined by the latest type of its own container: nothing is reported. -/
theorem own_latest_unreported :
    linkedPlace.BelongsTo linkedUnit .standard linkedDeclaration 1 ∧
      linkedReference
        ∈ (linkedPlace.site .standard (linkedUnit.familyDeclarations .standard)).references ∧
      linkedReference.definition = true ∧ linkedReference.exempt = false ∧
      (linkedUnit.index .standard).unstableUses = [] ∧
      (linkedUnit.index .standard).ResolvesToLatestOf linkedDeclaration linkedReference :=
  ⟨linkedPlace_belongsTo, linkedReference_mem, rfl, rfl, by decide +kernel,
    ["Account", "Stable", "Latest", "t"], by decide +kernel, by decide +kernel⟩

end SchemaVersioning
