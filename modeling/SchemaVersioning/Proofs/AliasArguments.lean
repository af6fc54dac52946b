import SchemaVersioning.Proofs.RepeatedAliases
import SchemaVersioning.Proofs.StableUses

/-!
# Arguments behind an alias

A name in the definition of a version may be a plain alias of an expression with arguments.  Written
in place of the alias, the expression is checked with its arguments (`unstableIn_eq_nil_iff`); the
alias itself passes as soon as the head of the expression leads to a latest type
(`checked_by_head`).
-/

namespace SchemaVersioning

/-! ## Names that count -/

/-- A named head has a property; a type variable names nothing. -/
def Head.Satisfies (P : Path → Prop) : Head → Prop
  | .named first rest => P (first :: rest)
  | .var _ => True

namespace TypeExpr

/-- Whether an expression is marked as never persisted. -/
def IsUnversioned (e : TypeExpr) : Prop := e.attributes.contains unversionedAttribute = true

mutual

/-- Every name in an expression and in its arguments has a property, except where the expression is
marked as never persisted. -/
def Each (P : Path → Prop) : TypeExpr → Prop
  | ⟨head, args, attributes, _⟩ =>
    attributes.contains unversionedAttribute = true ∨ head.Satisfies P ∧ EachAll P args

def EachAll (P : Path → Prop) : List TypeExpr → Prop
  | [] => True
  | e :: rest => Each P e ∧ EachAll P rest

end

theorem each_iff {P : Path → Prop} (e : TypeExpr) :
    e.Each P ↔ e.IsUnversioned ∨ e.head.Satisfies P ∧ EachAll P e.args := by
  obtain ⟨head, args, attributes, location⟩ := e
  rw [Each]
  rfl

end TypeExpr

namespace Index

variable (index : Index)

/-- Whether a name in a scope is one that the definition of a version may use. -/
def Accepts (scope p : Path) : Prop := (index.resolvePath false p scope []).standing.isStable = true

/-- The diagnostics of an expression that stands in a type definition. -/
def unstableIn (s : Site) (owner : String) (fallback : Option Location) (e : TypeExpr) :
    List Diagnostic :=
  (s.exprReferences owner true fallback false e).filterMap index.unstableUse?

variable {index}

section Checking

variable {s : Site} {f : String} {k : Nat} {owner : String} {fallback : Option Location}

theorem unstableUse?_eq_none_iff {r : Reference} {v : String × Nat} (h : r.definedVersion? = some v) :
    index.unstableUse? r = none ↔ (index.resolve r).standing.isStable = true := by
  by_cases hstable : (index.resolve r).standing.isStable = true <;>
    simp [unstableUse?, h, hstable]

theorem unstableUse?_of_exempt {r : Reference} (h : r.exempt = true) :
    index.unstableUse? r = none := by
  have hcounted : r.definedVersion? = none :=
    Option.eq_none_iff_forall_ne_some.2 fun v hv => by
      simp [definedVersion?_eq_some_iff, h] at hv
  simp [unstableUse?, hcounted]

mutual

/-- An expression in the definition of a version is reported unless all names in it are accepted. -/
theorem unreported_iff (hs : s.context = .version f k) : ∀ (exempt : Bool) (e : TypeExpr),
    (s.exprReferences owner true fallback exempt e).filterMap index.unstableUse? = [] ↔
      exempt = true ∨ e.Each (index.Accepts s.path)
  | exempt, ⟨.var name, args, attributes, location⟩ => by
    rw [Site.exprReferences, TypeExpr.Each, List.nil_append, unreportedAll_iff hs]
    simp [Head.Satisfies, or_assoc]
  | exempt, ⟨.named first rest, args, attributes, location⟩ => by
    rw [Site.exprReferences, TypeExpr.Each, List.filterMap_append, List.append_eq_nil_iff,
      unreportedAll_iff hs, List.filterMap_eq_nil_iff, List.forall_mem_singleton]
    -- The mark of an expression covers its arguments, as the exemption around it does.
    cases hexempt : exempt || attributes.contains unversionedAttribute with
    | true =>
      have hmarked := Bool.or_eq_true_iff.1 hexempt
      simp only [unstableUse?_of_exempt, true_or, and_self, true_iff]
      exact hmarked.imp id Or.inl
    | false =>
      obtain ⟨rfl, hattributes⟩ := Bool.or_eq_false_iff.1 hexempt
      rw [unstableUse?_eq_none_iff (v := (f, k)) (definedVersion?_eq_some_iff.2 ⟨hs, rfl, rfl⟩),
        hattributes]
      simp only [Bool.false_eq_true, false_or]
      rfl

theorem unreportedAll_iff (hs : s.context = .version f k) : ∀ (exempt : Bool) (es : List TypeExpr),
    (s.exprReferencesAll owner true fallback exempt es).filterMap index.unstableUse? = [] ↔
      exempt = true ∨ TypeExpr.EachAll (index.Accepts s.path) es
  | exempt, [] => by simp [Site.exprReferencesAll, TypeExpr.EachAll]
  | exempt, e :: rest => by
    rw [Site.exprReferencesAll, TypeExpr.EachAll, List.filterMap_append, List.append_eq_nil_iff,
      unreported_iff hs, unreportedAll_iff hs, or_and_left]

end

/-- What is written in the definition of a version is checked with all its arguments. -/
theorem unstableIn_eq_nil_iff (hs : s.context = .version f k) (e : TypeExpr) :
    index.unstableIn s owner fallback e = [] ↔ e.Each (index.Accepts s.path) := by
  rw [unstableIn, unreported_iff hs]
  simp

end Checking

/-! ## Expressions at another place -/

mutual

/-- An expression that is written in a scope is written at a site instead: each name by one that
names the same there, and a type variable may give way to an expression of accepted names. -/
inductive Respelled (index : Index) (scope : Path) (s : Site) : TypeExpr → TypeExpr → Prop
  | named {first first' : String} {rest rest' attributes : List String} {args args' : List TypeExpr}
      {location location' : Option Location}
      (same : index.resolvePath false (first' :: rest') s.path []
        = index.resolvePath false (first :: rest) scope [])
      (arguments : RespelledAll index scope s args args') :
      Respelled index scope s ⟨.named first rest, args, attributes, location⟩
        ⟨.named first' rest', args', attributes, location'⟩
  | var {name name' : String} {attributes : List String} {args args' : List TypeExpr}
      {location location' : Option Location} (arguments : RespelledAll index scope s args args') :
      Respelled index scope s ⟨.var name, args, attributes, location⟩
        ⟨.var name', args', attributes, location'⟩
  | instantiated {name : String} {attributes : List String} {location : Option Location}
      {e : TypeExpr} (accepted : e.Each (index.Accepts s.path)) :
      Respelled index scope s ⟨.var name, [], attributes, location⟩ e

inductive RespelledAll (index : Index) (scope : Path) (s : Site) :
    List TypeExpr → List TypeExpr → Prop
  | nil : RespelledAll index scope s [] []
  | cons {e e' : TypeExpr} {rest rest' : List TypeExpr} (head : Respelled index scope s e e')
      (tail : RespelledAll index scope s rest rest') :
      RespelledAll index scope s (e :: rest) (e' :: rest')

end

section Respelling

variable {scope : Path} {s : Site}

mutual

/-- The names in an expression are accepted in one place as in the other. -/
theorem each_respelled_iff : ∀ {e e' : TypeExpr}, index.Respelled scope s e e' →
    (e'.Each (index.Accepts s.path) ↔ e.Each (index.Accepts scope))
  | _, _, .named same arguments => by
    rw [TypeExpr.Each, TypeExpr.Each, eachAll_respelled_iff arguments, Head.Satisfies,
      Head.Satisfies, Accepts, Accepts, same]
  | _, _, .var arguments => by
    rw [TypeExpr.Each, TypeExpr.Each, eachAll_respelled_iff arguments, Head.Satisfies,
      Head.Satisfies]
  | _, _, .instantiated accepted => by simp [TypeExpr.Each, TypeExpr.EachAll, Head.Satisfies, accepted]

theorem eachAll_respelled_iff : ∀ {es es' : List TypeExpr}, index.RespelledAll scope s es es' →
    (TypeExpr.EachAll (index.Accepts s.path) es' ↔ TypeExpr.EachAll (index.Accepts scope) es)
  | _, _, .nil => Iff.rfl
  | _, _, .cons head tail => by
    rw [TypeExpr.EachAll, TypeExpr.EachAll, each_respelled_iff head, eachAll_respelled_iff tail]

end

end Respelling

/-! ## Aliases on the way to a latest type -/

theorem Follows.unique {σ τ υ : Spelling} (hτ : index.Follows σ τ) (hυ : index.Follows σ υ) :
    τ = υ := by
  cases hτ with
  | module _ hnone hstep =>
    cases hυ with
    | module _ _ hstep' =>
      obtain ⟨d, target, rest, ha, rfl⟩ := aliasStep_iff.1 hstep
      obtain ⟨d', target', rest', ha', rfl⟩ := aliasStep_iff.1 hstep'
      obtain ⟨rfl, rfl, rfl⟩ := by simpa using ha.symm.trans ha'
      rfl
    | type _ hlookup => cases hlookup.symm.trans hnone
  | type _ hlookup hplain =>
    cases hυ with
    | module _ hnone => cases hlookup.symm.trans hnone
    | type _ hlookup' hplain' =>
      obtain rfl := Option.some.inj (hlookup.symm.trans hlookup')
      obtain rfl := Option.some.inj (hplain.symm.trans hplain')
      rfl

theorem IsLatest.not_follows {σ τ : Spelling} {f : String} {q : Path} (h : index.IsLatest σ f q) :
    ¬ index.Follows σ τ := by
  obtain ⟨-, ⟨e, hlookup, he⟩ | ⟨hnone, hrests, -⟩⟩ := h <;> intro hfollows
  · cases hfollows with
    | module _ hnone => cases hlookup.symm.trans hnone
    | type _ hlookup' hplain =>
      obtain rfl := Option.some.inj (hlookup.symm.trans hlookup')
      cases (standing_of_plainTarget? hplain).symm.trans (congrArg Resolution.standing he)
  · cases hfollows with
    | module _ _ hstep => exact hrests _ hstep
    | type _ hlookup => cases hlookup.symm.trans hnone

/-- What is met on the way to a latest type leads there. -/
theorem LeadsToLatest.of_chain {σ τ : Spelling} {f : String} {q : Path}
    (h : index.LeadsToLatest σ f q) (hchain : Relation.ReflTransGen index.Follows σ τ) :
    index.LeadsToLatest τ f q := by
  obtain ⟨υ, hend, hlatest⟩ := h
  have hunique : Relator.RightUnique index.Follows := fun _ _ _ hτ hυ => hτ.unique hυ
  -- Each alias leads to one spelling, so one of the two chains is the beginning of the other.
  rcases Relation.ReflTransGen.total_of_right_unique hunique hchain hend with hrest | hpast
  · exact ⟨υ, hrest, hlatest⟩
  · rcases Relation.ReflTransGen.cases_head hpast with rfl | ⟨_, hfollows, -⟩
    · exact ⟨υ, .refl, hlatest⟩
    · exact absurd hfollows hlatest.not_follows

/-- What leads to a latest type names it by itself if it meets no alias again, not even one of those
that have led to it. -/
theorem LeadsToLatest.resolve_alone {p scope : Path} {visiting : List Path} {f : String} {q : Path}
    (h : index.LeadsToLatest ⟨p, scope, visiting⟩ f q) {trail : List Crossing} {r : Resolution}
    (hends : index.Unguarded false p scope trail r) (hmodules : ModulesDiffer trail)
    (hfresh : ∀ b ∈ trail, b.path ∉ visiting) :
    index.resolvePath false p scope [] = ⟨.latest f, q⟩ := by
  obtain ⟨_, _, _, hline, hend, -⟩ := id hends
  have hnodup := nodup_of_modulesDiffer hline hend hmodules
  calc index.resolvePath false p scope []
      = r := resolvePath_of_unguarded hends hnodup fun _ _ => List.not_mem_nil
    _ = index.resolvePath false p scope visiting :=
      (resolvePath_of_unguarded hends hnodup hfresh).symm
    _ = ⟨.latest f, q⟩ := (resolve_eq_latest_iff_leadsTo _).2 h

/-- A reference in the definition of a version names a latest type by way of a plain alias: aliases
lead from the reference to a spelling of the alias. -/
structure PassesThrough (index : Index) (r : Reference) (σ : Spelling) (a : Declared)
    (e : TypeExpr) (f : String) (q : Path) : Prop where
  counted : r ∈ index.references ∧ ∃ v, r.definedVersion? = some v
  latest : index.resolve r = ⟨.latest f, q⟩
  reached : Relation.ReflTransGen index.Follows r.spelling σ
  named : index.config.isBuiltin σ.path = false ∧ index.lookupSpelling false σ = some a
  plain : a.plainTarget? = some e.path ∧ a.alias? = some e
  unfollowed : a.path ∉ σ.followed

/-- How the expression of an alias is checked where a reference passes through the alias. -/
structure CheckedByHead (index : Index) (r : Reference) (σ : Spelling) (a : Declared)
    (e : TypeExpr) (f : String) (q : Path) : Prop where
  /-- The reference is not reported. -/
  passes : index.unstableUse? r = none
  /-- The head of the expression leads on to the latest type. -/
  headLeads : index.LeadsToLatest ⟨e.path, a.scope, a.path :: σ.followed⟩ f q
  /-- Where the alias is declared the head names that type by itself, if no alias is met again. -/
  headAlone : ∀ trail r', index.Unguarded false e.path a.scope trail r' → ModulesDiffer trail →
    (∀ b ∈ trail, b.path ∉ a.path :: σ.followed) →
      index.resolvePath false e.path a.scope [] = ⟨.latest f, q⟩
  /-- In place of the alias the expression is reported, unless it is marked as never persisted or
  its head and all names in its arguments are accepted where the alias is declared. -/
  inPlace : ∀ s owner fallback e', s.path = r.scope → s.context = r.context →
    index.Respelled a.scope s e e' →
      (index.unstableIn s owner fallback e' = [] ↔ e.IsUnversioned ∨
        index.Accepts a.scope e.path ∧ TypeExpr.EachAll (index.Accepts a.scope) e.args)

theorem satisfies_iff {P : Path → Prop} {h : Head} (hpath : h.path ≠ []) :
    h.Satisfies P ↔ P h.path := by
  cases h with
  | named first rest => rfl
  | var name => exact absurd rfl hpath

theorem ne_nil_of_plainTarget? {d : Declared} {target : Path} (h : d.plainTarget? = some target) :
    target ≠ [] := by
  unfold Declared.plainTarget? at h
  split at h
  · split at h
    · cases h
    · next hpath =>
      obtain rfl := Option.some.inj h
      simpa using hpath
  · cases h

end Index

section Unit

variable {u : CompilationUnit} {c : Config}

/-- An alias that leads to a latest type is checked by the head of its expression alone, exactly as
`CheckedByHead` says. -/
theorem checked_by_head {r : Reference} {σ : Spelling} {a : Declared} {e : TypeExpr} {f : String}
    {q : Path} (h : (u.index c).PassesThrough r σ a e f q) :
    (u.index c).CheckedByHead r σ a e f q := by
  obtain ⟨⟨hmem, v, hv⟩, hlatest, hreached, ⟨hbuiltin, hlookup⟩, ⟨hplain, -⟩, hunfollowed⟩ := h
  obtain ⟨M, -, hr⟩ := mem_index_references.1 hmem
  obtain ⟨hcontext, hdefinition, -⟩ := definedVersion?_eq_some_iff.1 hv
  obtain ⟨-, hmodule⟩ := of_definition hr hdefinition
  have hleads : (u.index c).LeadsToLatest r.spelling f q := by
    rw [← Index.resolve_eq_latest_iff_leadsTo]
    rwa [Index.resolve, hmodule] at hlatest
  have hhead := hleads.of_chain (hreached.tail (.type hbuiltin hlookup hplain hunfollowed))
  refine ⟨?_, hhead, fun _ _ hends hmodules hfresh => hhead.resolve_alone hends hmodules hfresh,
    fun s _ _ e' _ hs he => ?_⟩
  · rw [Index.unstableUse?_eq_none_iff hv, hlatest]
    rfl
  · rw [Index.unstableIn_eq_nil_iff (hs.trans hcontext), Index.each_respelled_iff he,
      TypeExpr.each_iff, Index.satisfies_iff (Index.ne_nil_of_plainTarget? hplain)]
    rfl

end Unit

/-! ## An alias that hides its argument -/

/-- The latest type of a container with an ordinary type as argument. -/
def boxedExpr : TypeExpr := ⟨.named "Stable" ["Latest", "t"], [.ofPath "raw" []], [], none⟩

/-- A type with a parameter. -/
def boxType : TypeDecl :=
  { TypeDecl.bare "t" with
    shape := .record
    params := ["a"]
    fields := [⟨"item", .ofHead (.var "a")⟩] }

def boxedVersion : ModuleDecl :=
  .bare "V1" [{ TypeDecl.bare "t" with shape := .synonym (.ofPath "Account" ["box"]) }] []

/-- A unit in which the alias stands for the expression. -/
def boxedUnit : CompilationUnit where
  name := "ledger"
  modules := [
    .bare "Account" [{ TypeDecl.bare "box" with shape := .synonym boxedExpr }, .bare "raw"]
      [{ ModuleDecl.bare "Stable" [] [.bare "V1" [boxType] []] with attributes := ["versioned"] }],
    .bare "Ledger" []
      [{ ModuleDecl.bare "Stable" [] [boxedVersion] with attributes := ["versioned"] }]]

def boxedAlias : Declared := ⟨["Account", "box"], .plain, ["Account"], some boxedExpr⟩

/-- The site of the version. -/
def boxedSite : Site where
  module := boxedVersion
  parent := ["Ledger", "Stable"]
  outer := .ordinary
  context := .version "Ledger" 1

/-- The use of the alias in the definition of the version. -/
def boxedReference : Reference where
  path := ["Account", "box"]
  scope := ["Ledger", "Stable", "V1"]
  owner := "Ledger.Stable.V1.t"
  context := .version "Ledger" 1
  definition := true
  exempt := false
  isModule := false
  location := none

/-- The expression as it is spelled in the version. -/
def respelledExpr : TypeExpr :=
  ⟨.named "Account" ["Stable", "Latest", "t"], [.ofPath "Account" ["raw"]], [], none⟩

theorem boxedUnit_passesThrough : (boxedUnit.index .standard).PassesThrough boxedReference
    boxedReference.spelling boxedAlias boxedExpr "Account" ["Account", "Stable", "Latest", "t"] where
  counted := ⟨by decide +kernel, _, rfl⟩
  latest := by decide +kernel
  reached := .refl
  named := ⟨rfl, rfl⟩
  plain := ⟨rfl, rfl⟩
  unfollowed := List.not_mem_nil

theorem checked_by_head_boxedUnit :
    (boxedUnit.index .standard).PassesThrough boxedReference boxedReference.spelling boxedAlias
        boxedExpr "Account" ["Account", "Stable", "Latest", "t"] ∧
      (boxedUnit.index .standard).CheckedByHead boxedReference boxedReference.spelling boxedAlias
        boxedExpr "Account" ["Account", "Stable", "Latest", "t"] :=
  ⟨boxedUnit_passesThrough, checked_by_head boxedUnit_passesThrough⟩

theorem boxedSite_mem : boxedSite ∈ boxedUnit.sites .standard :=
  List.mem_of_getLast? rfl

/-- Nothing is reported of the unit, but in place of the alias its expression is reported: the
argument is not accepted. -/
theorem argument_unreported :
    (boxedUnit.index .standard).PassesThrough boxedReference boxedReference.spelling boxedAlias
        boxedExpr "Account" ["Account", "Stable", "Latest", "t"] ∧
      (boxedUnit.index .standard).unstableUses = [] ∧
      ¬ (boxedUnit.index .standard).Accepts boxedAlias.scope ["raw"] ∧
      boxedSite ∈ boxedUnit.sites .standard ∧ boxedSite.path = boxedReference.scope ∧
      boxedSite.context = boxedReference.context ∧
      (boxedUnit.index .standard).Respelled boxedAlias.scope boxedSite boxedExpr respelledExpr ∧
      (boxedUnit.index .standard).unstableIn boxedSite boxedReference.owner none respelledExpr
        ≠ [] :=
  ⟨boxedUnit_passesThrough, by decide +kernel, by unfold Index.Accepts; decide +kernel,
    boxedSite_mem, rfl, rfl,
    .named (by decide +kernel) (.cons (.named (by decide +kernel) .nil) .nil), by decide +kernel⟩

end SchemaVersioning
