import Mathlib.Data.Nat.Find
import Mathlib.Tactic.Push
import SchemaVersioning.Proofs.Naming
import SchemaVersioning.Proofs.Walks
import SchemaVersioning.Rule.StableTypes
import SchemaVersioning.Rule.VersionLeaks

/-!
# Lexical scoping

A path in a scope has many readings: each front part of it may be declared at each level of the
scope, the whole path as a type and a proper part as a module alias.  Lexical scoping takes the
innermost level first and then the longest part.  A resolution asks for built-in types first, then
takes the longest part and then the innermost level.  The two agree exactly if nothing is declared
at all, or the path is not built in and the innermost level also declares the longest part
(`scoped_exactly`).
-/

namespace SchemaVersioning

/-- What a resolution turns to first: a built-in type, a declared type, the module alias at the
front of a path with its target and what follows it, or the shape of a path that is declared
nowhere. -/
inductive Turn where
  | builtin
  | type (d : Declared)
  | module (d : Declared) (target rest : Path)
  | shape

namespace Index

/-! ## Turns -/

/-- What the resolution of a type path turns to. -/
def turn (index : Index) (p scope : Path) : Turn :=
  if index.config.isBuiltin p then .builtin
  else
    match index.types.lookup p scope with
    | some d => .type d
    | none =>
      match index.aliasStep? false p scope [] with
      | some (d, target, rest) => .module d target rest
      | none => .shape

/-- What is resolved by way of a turn. -/
def resolutionBy (index : Index) (p : Path) : Turn → Resolution
  | .builtin => ⟨.builtin, p⟩
  | .type d => index.declaredResolution false [] d
  | .module d target rest => index.resolvePath false (target ++ rest) d.scope [d.path]
  | .shape => ⟨index.config.standingByShape [] p, p⟩

/-- The first `k` components of a path are declared at the level of the first `i` components of a
scope: all of them as a type, or some of them as a module alias. -/
def DeclaresPart (index : Index) (p scope : Path) (i k : Nat) : Prop :=
  i ≤ scope.length ∧
    (k = p.length ∧ index.types.Declares (scope.take i ++ p) ∨
      1 ≤ k ∧ k < p.length ∧ index.moduleAliases.Declares (scope.take i ++ p.take k))

/-- A turn goes through the declaration of the first `k` components at level `i`. -/
def TurnsAt (index : Index) (p scope : Path) (i k : Nat) (t : Turn) : Prop :=
  k = p.length ∧ (∃ d, index.types.find? (scope.take i ++ p) = some d ∧ t = .type d) ∨
    1 ≤ k ∧ k < p.length ∧ ∃ d e, index.moduleAliases.find? (scope.take i ++ p.take k) = some d ∧
      d.alias? = some e ∧ t = .module d e.path (p.drop k)

/-- The turn that lexical scoping asks for: the innermost level that declares any part of the path
and there the longest part.  Only if no level declares any, built-in types are considered. -/
inductive LexicalTurn (index : Index) (p scope : Path) : Turn → Prop
  | declared {i k : Nat} {t : Turn} (part : index.DeclaresPart p scope i k)
      (innermost : ∀ i' k', index.DeclaresPart p scope i' k' → i' ≤ i)
      (longest : ∀ k', index.DeclaresPart p scope i k' → k' ≤ k)
      (through : index.TurnsAt p scope i k t) : LexicalTurn index p scope t
  | builtin (nothing : ∀ i k, ¬ index.DeclaresPart p scope i k)
      (known : index.config.isBuiltin p = true) : LexicalTurn index p scope .builtin
  | shape (nothing : ∀ i k, ¬ index.DeclaresPart p scope i k)
      (unknown : index.config.isBuiltin p = false) : LexicalTurn index p scope .shape

/-- Nothing stands in the way of the innermost declaration: nothing is declared, or the path is not
built in and some level is the innermost one and declares the longest part of all levels. -/
def Unobstructed (index : Index) (p scope : Path) : Prop :=
  (∀ i k, ¬ index.DeclaresPart p scope i k) ∨
    index.config.isBuiltin p = false ∧ ∃ i k, index.DeclaresPart p scope i k ∧
      ∀ i' k', index.DeclaresPart p scope i' k' → i' ≤ i ∧ k' ≤ k

/-- Every module alias has a target. -/
def HasTargets (index : Index) : Prop := ∀ d ∈ index.moduleAliases, ∃ e, d.alias? = some e

variable {index : Index} {p scope : Path} {i k : Nat} {t : Turn}

theorem resolvePath_eq_resolutionBy (p scope : Path) :
    index.resolvePath false p scope [] = index.resolutionBy p (index.turn p scope) := by
  unfold turn
  by_cases hbuiltin : index.config.isBuiltin p = true
  · rw [if_pos hbuiltin]
    exact resolvePath_of_builtin hbuiltin
  · have hlookedUp : index.IsLookedUp false p := Or.inr (by simpa using hbuiltin)
    rw [if_neg hbuiltin]
    cases htype : index.types.lookup p scope with
    | some d => exact resolvePath_of_lookup hlookedUp htype
    | none =>
      cases hstep : index.aliasStep? false p scope [] with
      | none => exact resolvePath_of_unknown hlookedUp htype hstep
      | some step => exact resolvePath_of_aliasStep hlookedUp htype hstep

/-! ## Turns through a declaration -/

/-- A turn goes through one part at one level. -/
theorem TurnsAt.unique {i' k' : Nat} (hi : i ≤ scope.length) (hi' : i' ≤ scope.length)
    (h : index.TurnsAt p scope i k t) (h' : index.TurnsAt p scope i' k' t) : i = i' ∧ k = k' := by
  have hlevel : ∀ {a b : Path}, scope.take i ++ a = scope.take i' ++ b → a.length = b.length →
      i = i' := by
    intro a b heq hlength
    have := congrArg List.length heq
    simp only [List.length_append, List.length_take] at this
    omega
  rcases h with ⟨rfl, d, hd, rfl⟩ | ⟨hk, hkp, d, e, hd, he, rfl⟩
  · rcases h' with ⟨rfl, d', hd', heq⟩ | ⟨-, -, d', e', -, -, heq⟩
    · obtain rfl := Turn.type.inj heq
      exact ⟨hlevel ((Table.path_of_find? hd).symm.trans (Table.path_of_find? hd')) rfl, rfl⟩
    · cases heq
  · rcases h' with ⟨-, d', -, heq⟩ | ⟨hk', hkp', d', e', hd', he', heq⟩
    · cases heq
    · obtain ⟨rfl, -, hdrop⟩ := Turn.module.inj heq
      have hlength := congrArg List.length hdrop
      simp only [List.length_drop] at hlength
      obtain rfl : k = k' := by omega
      exact ⟨hlevel ((Table.path_of_find? hd).symm.trans (Table.path_of_find? hd')) rfl, rfl⟩

/-- There is one turn through a part at a level. -/
theorem TurnsAt.turn_unique {t' : Turn} (h : index.TurnsAt p scope i k t)
    (h' : index.TurnsAt p scope i k t') : t = t' := by
  rcases h with ⟨rfl, d, hd, rfl⟩ | ⟨-, hkp, d, e, hd, he, rfl⟩
  · rcases h' with ⟨-, d', hd', rfl⟩ | ⟨-, hkp, -⟩
    · rw [Option.some.inj (hd.symm.trans hd')]
    · exact absurd hkp (Nat.lt_irrefl _)
  · rcases h' with ⟨rfl, -⟩ | ⟨-, -, d', e', hd', he', rfl⟩
    · exact absurd hkp (Nat.lt_irrefl _)
    · obtain rfl := Option.some.inj (hd.symm.trans hd')
      rw [Option.some.inj (he.symm.trans he')]

theorem exists_turnsAt (htargets : index.HasTargets) (h : index.DeclaresPart p scope i k) :
    ∃ t, index.TurnsAt p scope i k t := by
  obtain ⟨-, ⟨hk, htype⟩ | ⟨hk, hkp, halias⟩⟩ := h
  · obtain ⟨d, hd⟩ := Option.isSome_iff_exists.1 (Table.declares_iff.1 htype)
    exact ⟨.type d, Or.inl ⟨hk, d, hd, rfl⟩⟩
  · obtain ⟨d, hd⟩ := Option.isSome_iff_exists.1 (Table.declares_iff.1 halias)
    obtain ⟨e, he⟩ := htargets d (List.mem_of_find?_eq_some hd)
    exact ⟨.module d e.path (p.drop k), Or.inr ⟨hk, hkp, d, e, hd, he, rfl⟩⟩

/-! ## The turn of a resolution -/

/-- A level that declares a part and no level further in does is where the part is looked up. -/
theorem lookup_of_innermost {table : Table} {q : Path} {d : Declared} (hi : i ≤ scope.length)
    (hd : table.find? (scope.take i ++ q) = some d)
    (hinnermost : ∀ j, j ≤ scope.length → table.Declares (scope.take j ++ q) → j ≤ i) :
    table.lookup q scope = some d := by
  have hpath := Table.path_of_find? hd
  rw [Table.lookup_eq_some_iff, hpath]
  refine ⟨⟨i, hi, rfl, ?_, fun j hij hj hdeclares => ?_⟩, hd⟩
  · rw [Table.declares_iff, hd]
    rfl
  · exact absurd (hinnermost j hj hdeclares) (Nat.not_le.2 hij)

theorem exists_declares_of_lookup {table : Table} {q : Path} {d : Declared}
    (h : table.lookup q scope = some d) :
    ∃ j ≤ scope.length, table.Declares (scope.take j ++ q) := by
  obtain ⟨⟨j, hj, hpath, hdeclares, -⟩, -⟩ := Table.lookup_eq_some_iff.1 h
  exact ⟨j, hj, hpath ▸ hdeclares⟩

/-- The alias at the front of a path that a resolution takes is the longest one. -/
theorem aliasStep?_of_longest {d : Declared} {e : TypeExpr} (hk : 1 ≤ k) (hkp : k < p.length)
    (hlookup : index.moduleAliases.lookup (p.take k) scope = some d) (he : d.alias? = some e)
    (hlongest : ∀ i' k', index.DeclaresPart p scope i' k' → k' ≤ k) :
    index.aliasStep? false p scope [] = some (d, e.path, p.drop k) := by
  have hsteps := @aliasStep?_eq index false ⟨p, scope, []⟩
  have hlimit : aliasLimit false p = p.length - 1 := rfl
  rw [hlimit] at hsteps
  rw [hsteps, findSome?_reverse_range'_eq_some_iff]
  refine ⟨k, hk, by omega, ?_, fun j hkj hj => ?_⟩
  · exact aliasAt?_eq_some_iff.2 ⟨e, ⟨hlookup, he, List.not_mem_nil⟩, rfl, rfl⟩
  · rw [aliasAt?_eq_none_iff]
    rintro d' e' ⟨hlookup', -, -⟩
    obtain ⟨i', hi', hdeclares⟩ := exists_declares_of_lookup hlookup'
    have hle := hlongest i' j ⟨hi', Or.inr ⟨by omega, by omega, hdeclares⟩⟩
    omega

/-- The resolution of a path that is not built in turns to the longest part that any level declares,
and takes it from the innermost level that does. -/
theorem turnsAt_turn (htargets : index.HasTargets) (hbuiltin : index.config.isBuiltin p = false)
    (h : index.DeclaresPart p scope i k)
    (hlongest : ∀ i' k', index.DeclaresPart p scope i' k' → k' ≤ k)
    (hinnermost : ∀ i', index.DeclaresPart p scope i' k → i' ≤ i) :
    index.TurnsAt p scope i k (index.turn p scope) := by
  obtain ⟨t, ht⟩ := exists_turnsAt htargets h
  suffices hturn : index.turn p scope = t by rwa [hturn]
  rw [turn, if_neg (by simp [hbuiltin])]
  rcases ht with ⟨rfl, d, hd, rfl⟩ | ⟨hk, hkp, d, e, hd, he, rfl⟩
  · have hlookup : index.types.lookup p scope = some d :=
      lookup_of_innermost h.1 hd fun j hj hdeclares => hinnermost j ⟨hj, Or.inl ⟨rfl, hdeclares⟩⟩
    rw [hlookup]
  · -- A type would be a longer part than any alias.
    have htype : index.types.lookup p scope = none := by
      rw [Table.lookup_eq_none_iff]
      intro j hj hdeclares
      have hle := hlongest j p.length ⟨hj, Or.inl ⟨rfl, hdeclares⟩⟩
      omega
    have hlookup : index.moduleAliases.lookup (p.take k) scope = some d :=
      lookup_of_innermost h.1 hd fun j hj hdeclares =>
        hinnermost j ⟨hj, Or.inr ⟨hk, hkp, hdeclares⟩⟩
    rw [htype, aliasStep?_of_longest hk hkp hlookup he hlongest]

theorem turn_of_builtin (h : index.config.isBuiltin p = true) : index.turn p scope = .builtin :=
  if_pos h

theorem TurnsAt.not_builtin (h : index.TurnsAt p scope i k (index.turn p scope)) :
    index.config.isBuiltin p = false := by
  by_contra hbuiltin
  rw [turn_of_builtin (by simpa using hbuiltin)] at h
  rcases h with ⟨-, d, -, heq⟩ | ⟨-, -, d, e, -, -, heq⟩
  · cases heq
  · cases heq

/-- The turn of a path of which no part is declared. -/
theorem turn_of_nothing (h : ∀ i k, ¬ index.DeclaresPart p scope i k) :
    index.turn p scope = if index.config.isBuiltin p then .builtin else .shape := by
  have htype : index.types.lookup p scope = none := by
    rw [Table.lookup_eq_none_iff]
    exact fun j hj hdeclares => h j p.length ⟨hj, Or.inl ⟨rfl, hdeclares⟩⟩
  have hstep : index.aliasStep? false p scope [] = none := by
    have hsteps := @aliasStep?_eq index false ⟨p, scope, []⟩
    have hlimit : aliasLimit false p = p.length - 1 := rfl
    rw [hlimit] at hsteps
    rw [hsteps, List.findSome?_eq_none_iff]
    intro j hj
    rw [List.mem_reverse, List.mem_range'_1] at hj
    rw [aliasAt?_eq_none_iff]
    rintro d e ⟨hlookup, -, -⟩
    obtain ⟨i, hi, hdeclares⟩ := exists_declares_of_lookup hlookup
    exact h i j ⟨hi, Or.inr ⟨hj.1, by omega, hdeclares⟩⟩
  rw [turn, htype, hstep]

/-! ## Innermost levels and longest parts -/

theorem DeclaresPart.le (h : index.DeclaresPart p scope i k) : i ≤ scope.length ∧ k ≤ p.length := by
  obtain ⟨hi, ⟨hk, -⟩ | ⟨-, hk, -⟩⟩ := h
  · exact ⟨hi, by omega⟩
  · exact ⟨hi, by omega⟩

/-- A property of numbers up to a bound that holds of some number holds of a greatest one. -/
theorem exists_greatest {P : Nat → Prop} {n m : Nat} (hbound : ∀ a, P a → a ≤ n) (hm : P m) :
    ∃ a, P a ∧ ∀ b, P b → b ≤ a := by
  classical
  exact ⟨Nat.findGreatest P n, Nat.findGreatest_spec (hbound m hm) hm,
    fun b hb => Nat.le_findGreatest (hbound b hb) hb⟩

theorem exists_innermost (h : index.DeclaresPart p scope i k) :
    ∃ i k, index.DeclaresPart p scope i k ∧ (∀ i' k', index.DeclaresPart p scope i' k' → i' ≤ i) ∧
      ∀ k', index.DeclaresPart p scope i k' → k' ≤ k := by
  obtain ⟨a, ⟨b, hab⟩, ha⟩ := exists_greatest (P := fun i => ∃ k, index.DeclaresPart p scope i k)
    (fun _ ⟨_, hpart⟩ => hpart.le.1) ⟨k, h⟩
  obtain ⟨b, hb, hlongest⟩ := exists_greatest (P := index.DeclaresPart p scope a)
    (fun _ hpart => hpart.le.2) hab
  exact ⟨a, b, hb, fun i' k' hpart => ha i' ⟨k', hpart⟩, hlongest⟩

theorem exists_longest (h : index.DeclaresPart p scope i k) :
    ∃ i k, index.DeclaresPart p scope i k ∧ (∀ i' k', index.DeclaresPart p scope i' k' → k' ≤ k) ∧
      ∀ i', index.DeclaresPart p scope i' k → i' ≤ i := by
  obtain ⟨b, ⟨a, hab⟩, hb⟩ := exists_greatest (P := fun k => ∃ i, index.DeclaresPart p scope i k)
    (fun _ ⟨_, hpart⟩ => hpart.le.2) ⟨i, h⟩
  obtain ⟨a, ha, hinnermost⟩ := exists_greatest (P := fun i => index.DeclaresPart p scope i b)
    (fun _ hpart => hpart.le.1) hab
  exact ⟨a, b, ha, fun i' k' hpart => hb k' ⟨i', hpart⟩, hinnermost⟩

/-! ## The lexical turn -/

theorem LexicalTurn.unique {t' : Turn} (h : index.LexicalTurn p scope t)
    (h' : index.LexicalTurn p scope t') : t = t' := by
  cases h with
  | @declared i k _ hpart hinnermost hlongest hthrough =>
    cases h' with
    | @declared i' k' _ hpart' hinnermost' hlongest' hthrough' =>
      obtain rfl : i = i' := Nat.le_antisymm (hinnermost' i k hpart) (hinnermost i' k' hpart')
      obtain rfl : k = k' := Nat.le_antisymm (hlongest' k hpart) (hlongest k' hpart')
      exact hthrough.turn_unique hthrough'
    | builtin hnothing => exact absurd hpart (hnothing i k)
    | shape hnothing => exact absurd hpart (hnothing i k)
  | builtin hnothing hknown =>
    cases h' with
    | declared hpart => exact absurd hpart (hnothing _ _)
    | builtin => rfl
    | shape _ hunknown => exact absurd (hknown.symm.trans hunknown) (by simp)
  | shape hnothing hunknown =>
    cases h' with
    | declared hpart => exact absurd hpart (hnothing _ _)
    | builtin _ hknown => exact absurd (hknown.symm.trans hunknown) (by simp)
    | shape => rfl

theorem exists_lexicalTurn (htargets : index.HasTargets) (p scope : Path) :
    ∃ t, index.LexicalTurn p scope t := by
  by_cases hpart : ∃ i k, index.DeclaresPart p scope i k
  · obtain ⟨i, k, hik⟩ := hpart
    obtain ⟨i, k, hik, hinnermost, hlongest⟩ := exists_innermost hik
    obtain ⟨t, ht⟩ := exists_turnsAt htargets hik
    exact ⟨t, .declared hik hinnermost hlongest ht⟩
  · have hnothing : ∀ i k, ¬ index.DeclaresPart p scope i k := fun i k hik => hpart ⟨i, k, hik⟩
    by_cases hbuiltin : index.config.isBuiltin p = true
    · exact ⟨.builtin, .builtin hnothing hbuiltin⟩
    · exact ⟨.shape, .shape hnothing (by simpa using hbuiltin)⟩

/-- A resolution turns to the lexical declaration exactly if nothing stands in its way. -/
theorem lexicalTurn_turn_iff (htargets : index.HasTargets) :
    index.LexicalTurn p scope (index.turn p scope) ↔ index.Unobstructed p scope := by
  constructor
  · intro h
    generalize hturn : index.turn p scope = t at h
    cases h with
    | builtin hnothing => exact Or.inl hnothing
    | shape hnothing => exact Or.inl hnothing
    | @declared i k _ hpart hinnermost hlongest hthrough =>
      rw [← hturn] at hthrough
      have hbuiltin := hthrough.not_builtin
      -- The resolution turns to the longest part, so that is the part of the innermost level.
      obtain ⟨i', k', hpart', hlongest', hinnermost'⟩ := exists_longest hpart
      obtain ⟨rfl, rfl⟩ := hthrough.unique hpart.1 hpart'.1
        (turnsAt_turn htargets hbuiltin hpart' hlongest' hinnermost')
      exact Or.inr ⟨hbuiltin, i, k, hpart, fun a b hab => ⟨hinnermost a b hab, hlongest' a b hab⟩⟩
  · rintro (hnothing | ⟨hbuiltin, i, k, hpart, hgreatest⟩)
    · rw [turn_of_nothing hnothing]
      split
      · next hknown => exact .builtin hnothing hknown
      · next hunknown => exact .shape hnothing (by simpa using hunknown)
    · exact .declared hpart (fun i' k' h => (hgreatest i' k' h).1)
        (fun k' h => (hgreatest i k' h).2)
        (turnsAt_turn htargets hbuiltin hpart (fun i' k' h => (hgreatest i' k' h).2)
          fun i' h => (hgreatest i' k h).1)

/-- How the resolution of a type path in a scope compares with lexical scoping. -/
structure ScopedExactly (index : Index) (p scope : Path) : Prop where
  /-- A path is resolved by way of the turn that the resolution takes. -/
  resolved : index.resolvePath false p scope [] = index.resolutionBy p (index.turn p scope)
  /-- Lexical scoping asks for one turn. -/
  lexical : ∃ t, index.LexicalTurn p scope t ∧ ∀ t', index.LexicalTurn p scope t' → t' = t
  /-- It is the one that is taken exactly if nothing stands in the way of the innermost
  declaration. -/
  agrees : index.LexicalTurn p scope (index.turn p scope) ↔ index.Unobstructed p scope
  /-- A path that is built in is never looked up. -/
  builtin : index.config.isBuiltin p = true → index.turn p scope = .builtin
  /-- Any other path turns to the longest part that is declared at all, in its innermost
  declaration. -/
  longest : index.config.isBuiltin p = false → ∀ i k, index.DeclaresPart p scope i k →
    (∀ i' k', index.DeclaresPart p scope i' k' → k' ≤ k) →
    (∀ i', index.DeclaresPart p scope i' k → i' ≤ i) →
      index.TurnsAt p scope i k (index.turn p scope)

end Index

theorem hasTargets_index (u : CompilationUnit) (c : Config) : (u.index c).HasTargets := by
  intro d hd
  obtain ⟨p, -, hp⟩ := mem_index_moduleAliases.1 hd
  obtain ⟨target, -, rfl⟩ := Option.map_eq_some_iff.1 (Option.mem_toList.1 hp)
  exact ⟨_, rfl⟩

/-- In the index of any unit every path is resolved in every scope as `ScopedExactly` says. -/
theorem scoped_exactly (u : CompilationUnit) (c : Config) (p scope : Path) :
    (u.index c).ScopedExactly p scope where
  resolved := Index.resolvePath_eq_resolutionBy p scope
  lexical := by
    obtain ⟨t, ht⟩ := Index.exists_lexicalTurn (hasTargets_index u c) p scope
    exact ⟨t, ht, fun t' ht' => ht'.unique ht⟩
  agrees := Index.lexicalTurn_turn_iff (hasTargets_index u c)
  builtin := Index.turn_of_builtin
  longest hbuiltin i k hpart hlongest hinnermost :=
    Index.turnsAt_turn (hasTargets_index u c) hbuiltin hpart hlongest hinnermost

/-! ## Declarations that are passed over -/

/-- A unit with a type of the name of a built-in one beside a version that uses it, and a module
that has an alias of the name of an outer module. -/
def shadowingUnit : CompilationUnit where
  name := "ledger"
  modules := [
    .bare "Account" [.bare "int"] [
      { ModuleDecl.bare "Stable" []
          [.bare "V1" [{ TypeDecl.bare "t" with shape := .synonym (.ofPath "int" []) }] []] with
        attributes := ["versioned"] }],
    .bare "Old" [.bare "t"] [],
    { ModuleDecl.bare "App" []
        [{ ModuleDecl.bare "Old" [] [] with aliasOf := some "Account.Stable.V1" }] with
      values := [⟨"load", [], .ofPath "Old" ["t"], [], none⟩] }]

/-- The type that has the name of a built-in one. -/
def shadowingType : Declared := ⟨["Account", "int"], .plain, ["Account"], none⟩

/-- The alias that has the name of an outer module. -/
def shadowingAlias : Declared :=
  ⟨["App", "Old"], .plain, ["App"], some (.ofHead (.ofDotted "Account.Stable.V1"))⟩

theorem shadowingUnit_type : (shadowingUnit.index .standard).LexicalTurn ["int"]
    ["Account", "Stable", "V1"] (.type shadowingType) := by
  have hlevel : ∀ i k, (shadowingUnit.index .standard).DeclaresPart ["int"]
      ["Account", "Stable", "V1"] i k → k = 1 ∧ i ≤ 1 := by
    rintro i k ⟨hi, ⟨rfl, hdeclares⟩ | ⟨hk, hk', -⟩⟩
    · refine ⟨rfl, ?_⟩
      by_contra hinner
      obtain rfl | rfl : i = 2 ∨ i = 3 := by
        have : i ≤ 3 := hi
        omega
      · exact Table.not_declares_iff.2 (by rfl) hdeclares
      · exact Table.not_declares_iff.2 (by rfl) hdeclares
    · exact absurd (Nat.lt_of_le_of_lt hk hk') (Nat.lt_irrefl 1)
  refine .declared ⟨by decide, Or.inl ⟨rfl, Table.declares_iff.2 (by rfl)⟩⟩
    (fun i k h => (hlevel i k h).2) (fun k h => Nat.le_of_eq (hlevel _ k h).1)
    (Or.inl ⟨rfl, _, by rfl, rfl⟩)

theorem shadowingUnit_alias : (shadowingUnit.index .standard).LexicalTurn ["Old", "t"] ["App"]
    (.module shadowingAlias ["Account", "Stable", "V1"] ["t"]) := by
  refine .declared ⟨by decide, Or.inr ⟨Nat.le_refl 1, by decide, ?_⟩⟩
    (fun i k h => h.1) (fun k h => ?_) (Or.inr ⟨Nat.le_refl 1, by decide, _, _, by rfl, rfl, rfl⟩)
  · exact Table.declares_iff.2 (by rfl)
  · obtain ⟨-, ⟨-, hdeclares⟩ | ⟨-, hk, -⟩⟩ := h
    · exact absurd hdeclares (Table.not_declares_iff.2 (by rfl))
    · exact Nat.le_of_lt_succ hk

/-- The built-in type hides the declared one, and the type of the outer module the alias further in,
so that neither the use of an ordinary type nor the leak of a version is reported. -/
theorem nearer_declarations_passed_over :
    (shadowingUnit.index .standard).LexicalTurn ["int"] ["Account", "Stable", "V1"]
        (.type shadowingType) ∧
      (shadowingUnit.index .standard).resolvePath false ["int"] ["Account", "Stable", "V1"] []
        = ⟨.builtin, ["int"]⟩ ∧
      (shadowingUnit.index .standard).LexicalTurn ["Old", "t"] ["App"]
        (.module shadowingAlias ["Account", "Stable", "V1"] ["t"]) ∧
      (shadowingUnit.index .standard).resolvePath false ["Old", "t"] ["App"] []
        = ⟨.plain, ["Old", "t"]⟩ ∧
      (shadowingUnit.index .standard).unstableUses = [] ∧
      (shadowingUnit.index .standard).versionLeaks.map (·.subject) = ["App.Old"] :=
  ⟨shadowingUnit_type, by decide +kernel, shadowingUnit_alias, by decide +kernel,
    by decide +kernel, by decide +kernel⟩

end SchemaVersioning
