import Mathlib.Logic.Basic
import SchemaVersioning.Proofs.Resolution

/-!
# Naming

What a path names, read off the declarations.  A path is looked up from the innermost scope outwards
(`lookup_eq_some_iff`).  Where it is not declared, the longest part at its front that is a module
alias is replaced by the target of the alias, and the new path is looked up where the alias is
declared (`AliasStep`).  A resolution is what the last spelling of such a rewriting names
(`resolve_of_rewrites`).
-/

namespace SchemaVersioning

/-! ## Innermost scopes -/

/-- The path `q` is declared and is what `p` means in a scope: no scope further in declares `p`. -/
def Innermost (declared : Path → Prop) (p scope q : Path) : Prop :=
  ∃ i ≤ scope.length, scope.take i ++ p = q ∧ declared q ∧
    ∀ j, i < j → j ≤ scope.length → ¬ declared (scope.take j ++ p)

/-- What is found last in a range of numbers. -/
theorem findSome?_reverse_range'_eq_some_iff {α : Type} {g : Nat → Option α} {a n : Nat} {b : α} :
    (List.range' a n).reverse.findSome? g = some b ↔
      ∃ i, a ≤ i ∧ i < a + n ∧ g i = some b ∧ ∀ j, i < j → j < a + n → g j = none := by
  induction n with
  | zero =>
    simp only [List.range'_zero, List.reverse_nil, List.findSome?_nil, reduceCtorEq, false_iff]
    rintro ⟨i, hlow, hhigh, -⟩
    omega
  | succ n ih =>
    rw [List.range'_1_concat, List.reverse_append, List.reverse_singleton, List.singleton_append,
      List.findSome?_cons]
    cases hlast : g (a + n) with
    | some e =>
      constructor
      · intro h
        exact ⟨a + n, by omega, by omega, hlast.trans h, fun j hj hn => by omega⟩
      · rintro ⟨i, hlow, hhigh, hi, hnone⟩
        rcases Nat.lt_or_ge i (a + n) with hlt | hge
        · have := hnone (a + n) hlt (by omega)
          rw [hlast] at this
          cases this
        · obtain rfl : i = a + n := by omega
          exact hlast.symm.trans hi
    | none =>
      rw [ih]
      constructor
      · rintro ⟨i, hlow, hhigh, hi, hnone⟩
        refine ⟨i, hlow, by omega, hi, fun j hj hn => ?_⟩
        rcases Nat.lt_or_ge j (a + n) with hlt | hge
        · exact hnone j hj hlt
        · obtain rfl : j = a + n := by omega
          exact hlast
      · rintro ⟨i, hlow, hhigh, hi, hnone⟩
        have hne : i ≠ a + n := fun heq => by simp [heq ▸ hlast] at hi
        exact ⟨i, hlow, by omega, hi, fun j hj hn => hnone j hj (by omega)⟩

namespace Table

variable {table : Table} {p scope : Path}

/-- Whether a table declares a path. -/
def Declares (table : Table) (p : Path) : Prop := ∃ d ∈ table, d.path = p

theorem path_of_find? {d : Declared} (h : table.find? p = some d) : d.path = p := by
  simpa using List.find?_some h

theorem declares_iff : table.Declares p ↔ (table.find? p).isSome := by
  rw [find?, List.find?_isSome, Declares]
  simp only [decide_eq_true_eq]

theorem not_declares_iff : ¬ table.Declares p ↔ table.find? p = none := by
  rw [declares_iff, Option.not_isSome_iff_eq_none]

/-- A path means what the innermost scope that declares it declares. -/
theorem lookup_eq_some_iff {d : Declared} : table.lookup p scope = some d ↔
    Innermost table.Declares p scope d.path ∧ table.find? d.path = some d := by
  rw [lookup, enclosingScopes, List.findSome?_map, List.range_eq_range',
    findSome?_reverse_range'_eq_some_iff]
  simp only [Function.comp_apply, Nat.zero_le, true_and, Nat.zero_add, Innermost, not_declares_iff]
  constructor
  · rintro ⟨i, hi, hd, hnone⟩
    have hpath := path_of_find? hd
    refine ⟨⟨i, by omega, hpath.symm, ?_, fun j hj hn => hnone j hj (by omega)⟩, by rwa [hpath]⟩
    rw [declares_iff, hpath, hd]
    rfl
  · rintro ⟨⟨i, hi, heq, -, hnone⟩, hd⟩
    exact ⟨i, by omega, by rwa [heq], fun j hj hn => hnone j hj (by omega)⟩

theorem lookup_eq_none_iff : table.lookup p scope = none ↔
    ∀ i ≤ scope.length, ¬ table.Declares (scope.take i ++ p) := by
  rw [lookup, enclosingScopes, List.findSome?_map, List.findSome?_eq_none_iff]
  simp only [List.mem_reverse, List.mem_range, Nat.lt_succ_iff, Function.comp_apply,
    not_declares_iff]

/-- What is declared in the scope of a path or around it is found. -/
theorem lookup_ne_none {i : Nat} (hi : i ≤ scope.length) (h : table.Declares (scope.take i ++ p)) :
    table.lookup p scope ≠ none := fun hnone => lookup_eq_none_iff.1 hnone i hi h

end Table

/-! ## Spellings -/

/-- A path, the scope in which it is looked up, and the aliases that have led to it. -/
structure Spelling where
  path : Path
  scope : Path
  followed : List Path

/-- The path of a reference as it is written. -/
def Reference.spelling (r : Reference) : Spelling := ⟨r.path, r.scope, []⟩

namespace Index

variable {index : Index} {isModule : Bool}

/-- What a spelling names. -/
def resolveSpelling (index : Index) (isModule : Bool) (σ : Spelling) : Resolution :=
  index.resolvePath isModule σ.path σ.scope σ.followed

/-- What the declarations say of a spelling, without a look at aliases. -/
def lookupSpelling (index : Index) (isModule : Bool) (σ : Spelling) : Option Declared :=
  (index.table isModule).lookup σ.path σ.scope

/-- The first components of a spelling are a module alias that has not been followed. -/
def AliasPrefix (index : Index) (σ : Spelling) (i : Nat) (d : Declared) (e : TypeExpr) : Prop :=
  index.moduleAliases.lookup (σ.path.take i) σ.scope = some d ∧ d.alias? = some e ∧
    d.path ∉ σ.followed

/-- The most components that a module alias may replace: all of a module, all but the last of a
type. -/
def aliasLimit (isModule : Bool) (p : Path) : Nat := if isModule then p.length else p.length - 1

/-- The longest alias at the front of a spelling is replaced by its target. -/
def AliasStep (index : Index) (isModule : Bool) (σ τ : Spelling) : Prop :=
  ∃ i d e, 1 ≤ i ∧ i ≤ aliasLimit isModule σ.path ∧ index.AliasPrefix σ i d e ∧
    (∀ j, i < j → j ≤ aliasLimit isModule σ.path → ∀ d' e', ¬ index.AliasPrefix σ j d' e') ∧
    τ = ⟨e.path ++ σ.path.drop i, d.scope, d.path :: σ.followed⟩

/-- The alias at the front of a spelling, if there is one that can be followed. -/
def aliasAt? (index : Index) (σ : Spelling) (i : Nat) : Option (Declared × Path × Path) :=
  match index.moduleAliases.lookup (σ.path.take i) σ.scope with
  | none => none
  | some d =>
    match d.alias? with
    | none => none
    | some e => if σ.followed.contains d.path then none else some (d, e.path, σ.path.drop i)

theorem aliasAt?_eq_some_iff {σ : Spelling} {i : Nat} {d : Declared} {target rest : Path} :
    index.aliasAt? σ i = some (d, target, rest) ↔
      ∃ e, index.AliasPrefix σ i d e ∧ e.path = target ∧ σ.path.drop i = rest := by
  unfold aliasAt? AliasPrefix
  cases index.moduleAliases.lookup (σ.path.take i) σ.scope with
  | none => simp
  | some d' =>
    cases hd : d'.alias? with
    | none =>
      simp only [hd, reduceCtorEq, false_iff, Option.some.injEq]
      rintro ⟨e, ⟨rfl, he, -⟩, -⟩
      cases hd.symm.trans he
    | some f =>
      by_cases hv : d'.path ∈ σ.followed
      · simp only [hd, List.contains_eq_mem, hv, decide_true, if_true, reduceCtorEq, false_iff,
          Option.some.injEq]
        rintro ⟨e, ⟨rfl, -, hnot⟩, -⟩
        exact hnot hv
      · simp only [hd, List.contains_eq_mem, hv, decide_false, Bool.false_eq_true, if_false,
          Option.some.injEq, Prod.mk.injEq]
        constructor
        · rintro ⟨rfl, rfl, rfl⟩
          exact ⟨f, ⟨rfl, hd, hv⟩, rfl, rfl⟩
        · rintro ⟨e, ⟨rfl, he, -⟩, rfl, rfl⟩
          obtain rfl := Option.some.inj (hd.symm.trans he)
          exact ⟨rfl, rfl, rfl⟩

theorem aliasAt?_eq_none_iff {σ : Spelling} {i : Nat} :
    index.aliasAt? σ i = none ↔ ∀ d e, ¬ index.AliasPrefix σ i d e := by
  constructor
  · intro h d e hbegins
    cases h.symm.trans (aliasAt?_eq_some_iff.2 ⟨e, hbegins, rfl, rfl⟩)
  · intro h
    cases hat : index.aliasAt? σ i with
    | none => rfl
    | some step =>
      obtain ⟨e, hbegins, -⟩ := aliasAt?_eq_some_iff.1 hat
      exact absurd hbegins (h _ _)

theorem aliasStep?_eq (σ : Spelling) : index.aliasStep? isModule σ.path σ.scope σ.followed
    = (List.range' 1 (aliasLimit isModule σ.path)).reverse.findSome? (index.aliasAt? σ) := rfl

/-- The step that a resolution takes along an alias. -/
theorem aliasStep_iff {σ τ : Spelling} : index.AliasStep isModule σ τ ↔
    ∃ d target rest, index.aliasStep? isModule σ.path σ.scope σ.followed = some (d, target, rest) ∧
      τ = ⟨target ++ rest, d.scope, d.path :: σ.followed⟩ := by
  simp only [aliasStep?_eq, findSome?_reverse_range'_eq_some_iff, aliasAt?_eq_some_iff,
    aliasAt?_eq_none_iff]
  constructor
  · rintro ⟨i, d, e, hlow, hhigh, hbegins, hlongest, rfl⟩
    exact ⟨d, e.path, σ.path.drop i, ⟨i, hlow, by omega, ⟨e, hbegins, rfl, rfl⟩,
      fun j hj hn => hlongest j hj (by omega)⟩, rfl⟩
  · rintro ⟨d, target, rest, ⟨i, hlow, hhigh, ⟨e, hbegins, rfl, rfl⟩, hlongest⟩, rfl⟩
    exact ⟨i, d, e, hlow, by omega, hbegins, fun j hj hn => hlongest j hj (by omega), rfl⟩

theorem aliasStep?_eq_none_iff {σ : Spelling} :
    index.aliasStep? isModule σ.path σ.scope σ.followed = none ↔
      ∀ τ, ¬ index.AliasStep isModule σ τ := by
  constructor
  · intro h τ hτ
    obtain ⟨d, target, rest, hstep, -⟩ := aliasStep_iff.1 hτ
    cases h.symm.trans hstep
  · intro h
    cases hstep : index.aliasStep? isModule σ.path σ.scope σ.followed with
    | none => rfl
    | some step => exact absurd (aliasStep_iff.2 ⟨_, _, _, hstep, rfl⟩) (h _)

/-! ## Rewriting -/

/-- A spelling is rewritten along module aliases while it is not declared.  The trail holds the
paths that were rewritten. -/
inductive Rewrites (index : Index) (isModule : Bool) : Spelling → List Path → Spelling → Prop
  | refl (σ : Spelling) : Rewrites index isModule σ [] σ
  | step {σ τ υ : Spelling} {trail : List Path} (undeclared : index.lookupSpelling isModule σ = none)
      (replaced : index.AliasStep isModule σ τ) (rest : Rewrites index isModule τ trail υ) :
      Rewrites index isModule σ (σ.path :: trail) υ

/-- A rewriting goes no further: the spelling is declared, or it begins with no alias. -/
def Rests (index : Index) (isModule : Bool) (σ : Spelling) : Prop :=
  index.lookupSpelling isModule σ ≠ none ∨ ∀ τ, ¬ index.AliasStep isModule σ τ

theorem resolveSpelling_of_step {σ τ : Spelling} (hp : index.IsLookedUp isModule σ.path)
    (h : index.lookupSpelling isModule σ = none) (hstep : index.AliasStep isModule σ τ) :
    index.resolveSpelling isModule σ = index.resolveSpelling isModule τ := by
  obtain ⟨d, target, rest, ha, rfl⟩ := aliasStep_iff.1 hstep
  exact resolvePath_of_aliasStep hp h ha

/-- A rewriting that meets no built-in type keeps what is named. -/
theorem resolve_of_rewrites {σ τ : Spelling} {trail : List Path}
    (h : index.Rewrites isModule σ trail τ) (hp : ∀ p ∈ trail, index.IsLookedUp isModule p) :
    index.resolveSpelling isModule σ = index.resolveSpelling isModule τ := by
  induction h with
  | refl σ => rfl
  | step hnone hstep _ ih =>
    rw [resolveSpelling_of_step (hp _ List.mem_cons_self) hnone hstep]
    exact ih fun p hmem => hp p (List.mem_cons_of_mem _ hmem)

/-- A rewriting that meets a built-in type names that type. -/
theorem standing_of_builtin {σ τ : Spelling} {trail : List Path}
    (h : index.Rewrites false σ trail τ)
    (hp : ∃ p ∈ trail ++ [τ.path], index.config.isBuiltin p = true) :
    (index.resolveSpelling false σ).standing = .builtin := by
  induction h with
  | refl σ =>
    obtain ⟨p, hmem, hbuiltin⟩ := hp
    obtain rfl : p = σ.path := by simpa using hmem
    rw [resolveSpelling, resolvePath_of_builtin hbuiltin]
  | @step σ τ υ trail hnone hstep _ ih =>
    by_cases hb : index.config.isBuiltin σ.path = true
    · rw [resolveSpelling, resolvePath_of_builtin hb]
    · rw [resolveSpelling_of_step (Or.inr (by simpa using hb)) hnone hstep]
      refine ih ?_
      obtain ⟨p, hmem, hbuiltin⟩ := hp
      rcases List.mem_cons.1 hmem with rfl | hmem
      · exact absurd hbuiltin hb
      · exact ⟨p, hmem, hbuiltin⟩

/-- Every spelling is rewritten to one that goes no further. -/
theorem exists_rewrites (index : Index) (isModule : Bool) (σ : Spelling) :
    ∃ trail τ, index.Rewrites isModule σ trail τ ∧ index.Rests isModule τ := by
  by_cases hrest : index.Rests isModule σ
  · exact ⟨[], σ, .refl σ, hrest⟩
  · simp only [Rests, not_or, not_not, not_forall] at hrest
    obtain ⟨hnone, τ, hstep⟩ := hrest
    obtain ⟨d, target, rest, ha, hτ⟩ := aliasStep_iff.1 hstep
    have hmem := index.mem_of_aliasStep? ha
    have : (index.unvisited τ.followed).length < (index.unvisited σ.followed).length := by
      rw [hτ]
      exact index.length_unvisited_cons_lt (Or.inr hmem.1) hmem.2
    obtain ⟨trail, υ, hrewrites, hrests⟩ := exists_rewrites index isModule τ
    exact ⟨_, υ, .step hnone hstep hrewrites, hrests⟩
termination_by (index.unvisited σ.followed).length

theorem length_unvisited_le_of_rewrites {σ τ : Spelling} {trail : List Path}
    (h : index.Rewrites isModule σ trail τ) :
    (index.unvisited τ.followed).length ≤ (index.unvisited σ.followed).length := by
  induction h with
  | refl σ => exact Nat.le_refl _
  | step _ hstep _ ih =>
    obtain ⟨d, target, rest, ha, rfl⟩ := aliasStep_iff.1 hstep
    have hmem := index.mem_of_aliasStep? ha
    exact Nat.le_trans ih (Nat.le_of_lt (index.length_unvisited_cons_lt (Or.inr hmem.1) hmem.2))

/-! ## Named types -/

/-- A spelling names a declared type: it is rewritten to one that is declared, and no path on the
way is that of a built-in type. -/
def Names (index : Index) (σ τ : Spelling) (e : Declared) : Prop :=
  ∃ trail, index.Rewrites false σ trail τ ∧
    (∀ p ∈ trail ++ [τ.path], index.config.isBuiltin p = false) ∧
    index.lookupSpelling false τ = some e

/-- A spelling names a declared type, or a plain alias whose target reaches the type. -/
inductive Reaches (index : Index) : Spelling → Declared → Prop
  | names {σ τ : Spelling} {e : Declared} (h : index.Names σ τ e) : Reaches index σ e
  | follow {σ τ : Spelling} {a e : Declared} {target : Path} (h : index.Names σ τ a)
      (plain : a.plainTarget? = some target) (unfollowed : a.path ∉ τ.followed)
      (rest : Reaches index ⟨target, a.scope, a.path :: τ.followed⟩ e) : Reaches index σ e

theorem mem_types_of_names {σ τ : Spelling} {e : Declared} (h : index.Names σ τ e) :
    e ∈ index.types := by
  obtain ⟨-, -, -, hlookup⟩ := h
  exact Table.mem_of_lookup hlookup

theorem resolve_of_names {σ τ : Spelling} {e : Declared} (h : index.Names σ τ e) :
    index.resolveSpelling false σ = index.declaredResolution false τ.followed e := by
  obtain ⟨trail, hrewrites, hbuiltin, hlookup⟩ := h
  rw [resolve_of_rewrites hrewrites fun p hp => Or.inr (hbuiltin p (List.mem_append_left _ hp))]
  exact resolvePath_of_lookup
    (Or.inr (hbuiltin τ.path (List.mem_append_right _ (List.mem_singleton_self _)))) hlookup

/-- A spelling names a declared type, or it has a resolution that no declaration gives: a built-in
type, or what its last path looks like. -/
theorem names_or_undeclared (index : Index) (σ : Spelling) :
    (∃ τ e, index.Names σ τ e) ∨ (index.resolveSpelling false σ).standing = .builtin ∨
      ∃ τ : Spelling, index.lookupSpelling false τ = none ∧
        index.resolveSpelling false σ = ⟨index.config.standingByShape [] τ.path, τ.path⟩ := by
  obtain ⟨trail, τ, hrewrites, hrests⟩ := exists_rewrites index false σ
  by_cases hbuiltin : ∃ p ∈ trail ++ [τ.path], index.config.isBuiltin p = true
  · exact Or.inr (Or.inl (standing_of_builtin hrewrites hbuiltin))
  · have hplain : ∀ p ∈ trail ++ [τ.path], index.config.isBuiltin p = false := by
      simpa only [not_exists, not_and, Bool.not_eq_true] using hbuiltin
    cases hlookup : index.lookupSpelling false τ with
    | some e => exact Or.inl ⟨τ, e, trail, hrewrites, hplain, hlookup⟩
    | none =>
      refine Or.inr (Or.inr ⟨τ, hlookup, ?_⟩)
      rw [resolve_of_rewrites hrewrites fun p hp => Or.inr (hplain p (List.mem_append_left _ hp))]
      exact resolvePath_of_unknown
        (Or.inr (hplain τ.path (List.mem_append_right _ (List.mem_singleton_self _)))) hlookup
        (aliasStep?_eq_none_iff.2 (hrests.resolve_left (not_not.2 hlookup)))

theorem plainTarget?_eq_none {e : Declared} (h : e.standing ≠ .plain) : e.plainTarget? = none := by
  unfold Declared.plainTarget?
  split
  · next hplain _ => exact absurd hplain h
  · rfl

theorem declaredResolution_of_ne_plain {e : Declared} {visiting : List Path}
    (h : e.standing ≠ .plain) : index.declaredResolution false visiting e = e.resolution := by
  rw [declaredResolution, plainTarget?_eq_none h]

/-- An alias that is followed gives the latest version of a family or cannot be read. -/
theorem declaredResolution_of_version {e : Declared} {visiting : List Path} {f : String} {k : Nat}
    (h : (index.declaredResolution false visiting e).standing = .version f k) :
    index.declaredResolution false visiting e = e.resolution := by
  unfold declaredResolution at h ⊢
  cases hplain : e.plainTarget? with
  | none => rfl
  | some target =>
    simp only [hplain] at h ⊢
    split
    · rfl
    · next hunfollowed =>
      rw [if_neg hunfollowed] at h
      split at h
      · next hlatest => simp [h, Standing.isLatest, Standing.overlong?] at hlatest
      · next hother => rw [if_neg hother]

/-- No undeclared path is declared outside of all modules. -/
theorem ne_path_of_undeclared {τ : Spelling} {q : Path} (hq : index.types.Declares q)
    (h : index.lookupSpelling false τ = none) : τ.path ≠ q := by
  rintro rfl
  have houtermost : (index.table false).Declares (τ.scope.take 0 ++ τ.path) := hq
  exact Table.lookup_ne_none (Nat.zero_le _) houtermost h

/-- A spelling resolves to a declared type of a version exactly when it names that type. -/
theorem resolve_eq_version_iff {σ : Spelling} {f : String} {k : Nat} {q : Path}
    (hq : index.types.Declares q) : index.resolveSpelling false σ = ⟨.version f k, q⟩ ↔
      ∃ τ e, index.Names σ τ e ∧ e.resolution = ⟨.version f k, q⟩ := by
  constructor
  · intro h
    rcases names_or_undeclared index σ with ⟨τ, e, hnames⟩ | hbuiltin | ⟨τ, hnone, hshape⟩
    · rw [resolve_of_names hnames] at h
      have hresolution := declaredResolution_of_version (congrArg Resolution.standing h)
      exact ⟨τ, e, hnames, hresolution.symm.trans h⟩
    · simp [h] at hbuiltin
    · exact absurd (congrArg Resolution.target (hshape.symm.trans h)) (ne_path_of_undeclared hq hnone)
  · rintro ⟨τ, e, hnames, he⟩
    have hstanding : e.standing = .version f k := congrArg Resolution.standing he
    rw [resolve_of_names hnames, declaredResolution_of_ne_plain (by simp [hstanding]), he]

theorem resolve_of_reaches {σ : Spelling} {e : Declared} {f : String} {q : Path}
    (h : index.Reaches σ e) (he : e.resolution = ⟨.latest f, q⟩) :
    index.resolveSpelling false σ = ⟨.latest f, q⟩ := by
  induction h with
  | @names σ τ e hnames =>
    have hstanding : e.standing = .latest f := congrArg Resolution.standing he
    rw [resolve_of_names hnames, declaredResolution_of_ne_plain (by simp [hstanding]), he]
  | @follow σ τ a e target hnames hplain hunfollowed _ ih =>
    have htarget := ih he
    rw [resolveSpelling] at htarget
    rw [resolve_of_names hnames, declaredResolution, hplain]
    simp [hunfollowed, htarget, Standing.isLatest]

/-- A spelling resolves to a declared latest type exactly when it reaches that type. -/
theorem resolve_eq_latest_iff {f : String} {q : Path} (hq : index.types.Declares q)
    (σ : Spelling) : index.resolveSpelling false σ = ⟨.latest f, q⟩ ↔
      ∃ e, index.Reaches σ e ∧ e.resolution = ⟨.latest f, q⟩ := by
  constructor
  · intro h
    rcases names_or_undeclared index σ with ⟨τ, a, hnames⟩ | hbuiltin | ⟨τ, hnone, hshape⟩
    · have hresolve := h
      rw [resolve_of_names hnames, declaredResolution] at hresolve
      split at hresolve
      · exact ⟨a, .names hnames, hresolve⟩
      · next target hplain =>
        split at hresolve
        · exact ⟨a, .names hnames, hresolve⟩
        · next hunfollowed =>
          dsimp only at hresolve
          split at hresolve
          · -- The alias is followed, and its target is found with fewer aliases left.
            have hnot : a.path ∉ τ.followed := by simpa using hunfollowed
            have hle := hnames.elim fun _ hn => length_unvisited_le_of_rewrites hn.1
            have hlt := index.length_unvisited_cons_lt
              (Or.inl (mem_types_of_names hnames)) hnot
            have : (index.unvisited (a.path :: τ.followed)).length
                < (index.unvisited σ.followed).length := by omega
            obtain ⟨e, hreaches, he⟩ :=
              (resolve_eq_latest_iff hq ⟨target, a.scope, a.path :: τ.followed⟩).1 hresolve
            exact ⟨e, .follow hnames hplain hnot hreaches, he⟩
          · exact ⟨a, .names hnames, hresolve⟩
    · simp [h] at hbuiltin
    · exact absurd (congrArg Resolution.target (hshape.symm.trans h)) (ne_path_of_undeclared hq hnone)
  · rintro ⟨e, hreaches, he⟩
    exact resolve_of_reaches hreaches he
termination_by (index.unvisited σ.followed).length

/-- A spelling that is declared names what is declared there. -/
theorem names_iff_of_lookup {σ τ : Spelling} {d e : Declared}
    (h : index.lookupSpelling false σ = some d) : index.Names σ τ e ↔
      τ = σ ∧ index.config.isBuiltin σ.path = false ∧ e = d := by
  constructor
  · rintro ⟨trail, hrewrites, hbuiltin, hlookup⟩
    cases hrewrites with
    | refl =>
      exact ⟨rfl, hbuiltin σ.path (by simp), Option.some.inj (hlookup.symm.trans h)⟩
    | step hnone => cases hnone.symm.trans h
  · rintro ⟨rfl, hbuiltin, rfl⟩
    exact ⟨[], .refl τ, by simpa using hbuiltin, h⟩

/-- A written path that is declared names what its declaration is. -/
theorem exists_names_iff_of_lookup {p scope : Path} {d : Declared} {r : Resolution}
    (h : index.types.lookup p scope = some d) :
    (∃ τ e, index.Names ⟨p, scope, []⟩ τ e ∧ e.resolution = r) ↔
      index.config.isBuiltin p = false ∧ d.resolution = r := by
  have hlookup : index.lookupSpelling false ⟨p, scope, []⟩ = some d := h
  constructor
  · rintro ⟨τ, e, hnames, he⟩
    obtain ⟨-, hbuiltin, rfl⟩ := (names_iff_of_lookup hlookup).1 hnames
    exact ⟨hbuiltin, he⟩
  · rintro ⟨hbuiltin, hd⟩
    exact ⟨_, d, (names_iff_of_lookup hlookup).2 ⟨rfl, hbuiltin, rfl⟩, hd⟩

/-- A declared type is a resolution itself, or it is a plain alias that reaches it. -/
def LeadsTo (index : Index) (e : Declared) (r : Resolution) : Prop :=
  e.resolution = r ∨ ∃ target a, e.plainTarget? = some target ∧
    index.Reaches ⟨target, e.scope, [e.path]⟩ a ∧ a.resolution = r

/-- A written path that is declared reaches what its declaration leads to. -/
theorem reaches_iff_of_lookup {p scope : Path} {d : Declared} {r : Resolution}
    (h : index.types.lookup p scope = some d) :
    (∃ e, index.Reaches ⟨p, scope, []⟩ e ∧ e.resolution = r) ↔
      index.config.isBuiltin p = false ∧ index.LeadsTo d r := by
  have hlookup : index.lookupSpelling false ⟨p, scope, []⟩ = some d := h
  constructor
  · rintro ⟨e, hreaches, he⟩
    cases hreaches with
    | names hnames =>
      obtain ⟨-, hbuiltin, rfl⟩ := (names_iff_of_lookup hlookup).1 hnames
      exact ⟨hbuiltin, Or.inl he⟩
    | @follow _ τ a _ target hnames hplain _ hrest =>
      obtain ⟨rfl, hbuiltin, rfl⟩ := (names_iff_of_lookup hlookup).1 hnames
      exact ⟨hbuiltin, Or.inr ⟨target, e, hplain, hrest, he⟩⟩
  · rintro ⟨hbuiltin, he | ⟨target, a, hplain, hrest, ha⟩⟩
    · exact ⟨d, .names ((names_iff_of_lookup hlookup).2 ⟨rfl, hbuiltin, rfl⟩), he⟩
    · exact ⟨a, .follow ((names_iff_of_lookup hlookup).2 ⟨rfl, hbuiltin, rfl⟩) hplain
        List.not_mem_nil hrest, ha⟩

end Index

end SchemaVersioning
