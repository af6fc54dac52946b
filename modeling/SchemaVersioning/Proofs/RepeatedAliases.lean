import Mathlib.Data.List.Induction
import Mathlib.Data.List.Nodup
import SchemaVersioning.Proofs.Naming
import SchemaVersioning.Proofs.Places

/-!
# Aliases that are met again

A resolution does not follow an alias that it is following already.  Without this guard it goes on
as long as it meets aliases (`Unguarded`).  Where that ends, the guard makes no difference as long as
no module alias is met again; where an alias is first met again, the guard passes over it, and the
answers agree exactly if that makes no difference from there on (`guarded_exactly`).
-/

namespace SchemaVersioning

/-! ## Crossings -/

/-- An alias that a resolution follows: that of a type or that of a module. -/
inductive Crossing where
  | type (d : Declared)
  | module (d : Declared)

namespace Crossing

/-- The path at which the alias is declared. -/
def path : Crossing → Path
  | type d => d.path
  | module d => d.path

/-- What is named through an alias whose target names something.  The alias of a type is given up
for the latest type of a family, and for a version that cannot be read. -/
def carry : Crossing → Resolution → Resolution
  | type d, r => if r.standing.isLatest || r.standing.overlong?.isSome then r else d.resolution
  | module _, r => r

/-- What is named through a line of aliases, the first of them outermost. -/
def carryAll (trail : List Crossing) (r : Resolution) : Resolution := trail.foldr carry r

end Crossing

/-- Whether a resolution is given in place of the type alias that led to it. -/
def Resolution.IsCarried (r : Resolution) : Prop :=
  (r.standing.isLatest || r.standing.overlong?.isSome) = true

/-- No module alias of a line has the path of another alias of the line. -/
def ModulesDiffer (trail : List Crossing) : Prop :=
  ∀ d, .module d ∈ trail → (trail.map Crossing.path).count d.path = 1

section Carrying

variable {trail : List Crossing} {r s : Resolution}

theorem carry_type_of_isCarried {d : Declared} (h : r.IsCarried) :
    Crossing.carry (.type d) r = r := if_pos h

theorem carry_type_of_not_isCarried {d : Declared} (h : ¬ r.IsCarried) :
    Crossing.carry (.type d) r = d.resolution := if_neg h

theorem carryAll_append (before after : List Crossing) (r : Resolution) :
    Crossing.carryAll (before ++ after) r
      = Crossing.carryAll before (Crossing.carryAll after r) := List.foldr_append

theorem carryAll_of_isCarried (h : r.IsCarried) : Crossing.carryAll trail r = r := by
  induction trail with
  | nil => rfl
  | cons a trail ih =>
    show a.carry (Crossing.carryAll trail r) = r
    rw [ih]
    cases a with
    | type d => exact carry_type_of_isCarried h
    | module d => rfl

theorem isCarried_carryAll_iff (htypes : ∀ d, .type d ∈ trail → ¬ d.resolution.IsCarried) :
    (Crossing.carryAll trail r).IsCarried ↔ r.IsCarried := by
  refine ⟨fun h => ?_, fun h => by rwa [carryAll_of_isCarried h]⟩
  induction trail with
  | nil => exact h
  | cons a trail ih =>
    refine ih (fun d hd => htypes d (List.mem_cons_of_mem _ hd)) ?_
    cases a with
    | type d =>
      by_cases hrest : (Crossing.carryAll trail r).IsCarried
      · exact hrest
      · refine absurd ?_ (htypes d List.mem_cons_self)
        rwa [← carry_type_of_not_isCarried hrest]
    | module d => exact h

/-- Two ends of a line of aliases are told apart at its start, unless a type alias hides both. -/
theorem carryAll_eq_iff (htypes : ∀ d, .type d ∈ trail → ¬ d.resolution.IsCarried) :
    Crossing.carryAll trail r = Crossing.carryAll trail s ↔
      r = s ∨ ((∃ d, .type d ∈ trail) ∧ ¬ r.IsCarried ∧ ¬ s.IsCarried) := by
  induction trail with
  | nil => simp [Crossing.carryAll]
  | cons a trail ih =>
    have hrest : ∀ d, .type d ∈ trail → ¬ d.resolution.IsCarried :=
      fun d hd => htypes d (List.mem_cons_of_mem _ hd)
    cases a with
    | module d =>
      show Crossing.carryAll trail r = Crossing.carryAll trail s ↔ _
      rw [ih hrest]
      simp
    | type d =>
      show Crossing.carry (.type d) (Crossing.carryAll trail r)
        = Crossing.carry (.type d) (Crossing.carryAll trail s) ↔ _
      have hd : ∃ e, Crossing.type e ∈ Crossing.type d :: trail := ⟨d, List.mem_cons_self⟩
      have hhidden : ∀ q : Resolution, ¬ q.IsCarried →
          Crossing.carry (.type d) (Crossing.carryAll trail q) = d.resolution := fun q hq =>
        carry_type_of_not_isCarried fun h => hq ((isCarried_carryAll_iff hrest).1 h)
      have hshown : ∀ q : Resolution, q.IsCarried →
          Crossing.carry (.type d) (Crossing.carryAll trail q) = q := fun q hq => by
        rw [carryAll_of_isCarried hq, carry_type_of_isCarried hq]
      have hnot : ¬ d.resolution.IsCarried := htypes d List.mem_cons_self
      by_cases hr : r.IsCarried <;> by_cases hs : s.IsCarried
      · rw [hshown r hr, hshown s hs]
        simp [hr]
      · rw [hshown r hr, hhidden s hs]
        have hne : r ≠ d.resolution := fun heq => hnot (heq ▸ hr)
        have hne' : r ≠ s := fun heq => hs (heq ▸ hr)
        simp [hne, hne', hr]
      · rw [hhidden r hr, hshown s hs]
        have hne : d.resolution ≠ s := fun heq => hnot (heq ▸ hs)
        have hne' : r ≠ s := fun heq => hr (heq ▸ hs)
        simp [hne, hne', hs]
      · rw [hhidden r hr, hhidden s hs]
        simp only [true_iff]
        exact Or.inr ⟨hd, hr, hs⟩

end Carrying

namespace Index

/-! ## Following without a guard -/

/-- A path in a scope names something without any alias being followed. -/
inductive Ends (index : Index) (isModule : Bool) (p scope : Path) : Resolution → Prop
  | builtin (isType : isModule = false) (known : index.config.isBuiltin p = true) :
      Ends index isModule p scope ⟨.builtin, p⟩
  | declared {d : Declared} (lookedUp : index.IsLookedUp isModule p)
      (found : (index.table isModule).lookup p scope = some d)
      (last : isModule = true ∨ d.plainTarget? = none) : Ends index isModule p scope d.resolution
  | undeclared (lookedUp : index.IsLookedUp isModule p)
      (missing : (index.table isModule).lookup p scope = none)
      (unaliased : index.aliasStep? isModule p scope [] = none) :
      Ends index isModule p scope ⟨index.config.standingByShape [] p, p⟩

/-- An alias leads from a path in a scope to another one: the plain alias that the path names, or
the longest module alias at the front of a path that names nothing. -/
inductive Crosses (index : Index) (isModule : Bool) (p scope : Path) :
    Crossing → Path → Path → Prop
  | type {d : Declared} {target : Path} (isType : isModule = false)
      (lookedUp : index.config.isBuiltin p = false) (found : index.types.lookup p scope = some d)
      (plain : d.plainTarget? = some target) :
      Crosses index isModule p scope (.type d) target d.scope
  | module {d : Declared} {target rest : Path} (lookedUp : index.IsLookedUp isModule p)
      (missing : (index.table isModule).lookup p scope = none)
      (longest : index.aliasStep? isModule p scope [] = some (d, target, rest)) :
      Crosses index isModule p scope (.module d) (target ++ rest) d.scope

/-- A line of aliases leads from a path in a scope to another one. -/
inductive Leads (index : Index) (isModule : Bool) :
    Path → Path → List Crossing → Path → Path → Prop
  | here (p scope : Path) : Leads index isModule p scope [] p scope
  | cross {p scope q inner q' inner' : Path} {a : Crossing} {trail : List Crossing}
      (first : index.Crosses isModule p scope a q inner)
      (rest : Leads index isModule q inner trail q' inner') :
      Leads index isModule p scope (a :: trail) q' inner'

/-- A path in a scope is resolved by following aliases until there is none, however often they are
met. -/
def Unguarded (index : Index) (isModule : Bool) (p scope : Path) (trail : List Crossing)
    (r : Resolution) : Prop :=
  ∃ q inner e, index.Leads isModule p scope trail q inner ∧ index.Ends isModule q inner e ∧
    Crossing.carryAll trail e = r

variable {index : Index} {isModule : Bool} {p scope : Path}

theorem Crosses.isLookedUp {a : Crossing} {q inner : Path}
    (h : index.Crosses isModule p scope a q inner) : index.IsLookedUp isModule p := by
  cases h with
  | type _ hbuiltin => exact Or.inr hbuiltin
  | module hlookedUp => exact hlookedUp

theorem Crosses.unique {a b : Crossing} {q inner q' inner' : Path}
    (ha : index.Crosses isModule p scope a q inner)
    (hb : index.Crosses isModule p scope b q' inner') : a = b ∧ q = q' ∧ inner = inner' := by
  cases ha with
  | type htype _ hfound hplain =>
    subst htype
    cases hb with
    | type _ _ hfound' hplain' =>
      obtain rfl := Option.some.inj (hfound.symm.trans hfound')
      exact ⟨rfl, Option.some.inj (hplain.symm.trans hplain'), rfl⟩
    | module _ hmissing => cases hfound.symm.trans hmissing
  | module _ hmissing hlongest =>
    cases hb with
    | type htype _ hfound =>
      subst htype
      cases hfound.symm.trans hmissing
    | module _ _ hlongest' =>
      obtain ⟨rfl, rfl, rfl⟩ := by simpa using hlongest.symm.trans hlongest'
      exact ⟨rfl, rfl, rfl⟩

theorem Ends.not_crosses {r : Resolution} (h : index.Ends isModule p scope r) {a : Crossing}
    {q inner : Path} : ¬ index.Crosses isModule p scope a q inner := by
  intro hcross
  cases h with
  | builtin htype hknown =>
    rcases hcross.isLookedUp with hmodule | hbuiltin
    · cases htype.symm.trans hmodule
    · cases hknown.symm.trans hbuiltin
  | declared _ hfound hlast =>
    cases hcross with
    | type htype _ hfound' hplain =>
      subst htype
      obtain rfl := Option.some.inj (hfound.symm.trans hfound')
      simp [hplain] at hlast
    | module _ hmissing => cases hfound.symm.trans hmissing
  | undeclared _ hmissing hunaliased =>
    cases hcross with
    | type htype _ hfound =>
      subst htype
      cases hfound.symm.trans hmissing
    | module _ _ hlongest => cases hunaliased.symm.trans hlongest

theorem Ends.unique {r s : Resolution} (hr : index.Ends isModule p scope r)
    (hs : index.Ends isModule p scope s) : r = s := by
  have hbuiltin : ∀ {e}, index.Ends isModule p scope e → isModule = false →
      index.config.isBuiltin p = true → e = ⟨.builtin, p⟩ := by
    intro e he htype hknown
    cases he with
    | builtin => rfl
    | declared hlookedUp | undeclared hlookedUp => simp [IsLookedUp, htype, hknown] at hlookedUp
  cases hr with
  | builtin htype hknown => exact (hbuiltin hs htype hknown).symm
  | declared hlookedUp hfound =>
    cases hs with
    | builtin htype hknown => simp [IsLookedUp, htype, hknown] at hlookedUp
    | declared _ hfound' => rw [Option.some.inj (hfound.symm.trans hfound')]
    | undeclared _ hmissing => cases hfound.symm.trans hmissing
  | undeclared hlookedUp hmissing =>
    cases hs with
    | builtin htype hknown => simp [IsLookedUp, htype, hknown] at hlookedUp
    | declared _ hfound => cases hfound.symm.trans hmissing
    | undeclared => rfl

theorem leads_append {before after : List Crossing} {q' inner' : Path} :
    index.Leads isModule p scope (before ++ after) q' inner' ↔
      ∃ q inner, index.Leads isModule p scope before q inner ∧
        index.Leads isModule q inner after q' inner' := by
  constructor
  · intro h
    induction before generalizing p scope with
    | nil => exact ⟨p, scope, .here p scope, h⟩
    | cons a before ih =>
      cases h with
      | cross hfirst hrest =>
        obtain ⟨q, inner, hbefore, hafter⟩ := ih hrest
        exact ⟨q, inner, .cross hfirst hbefore, hafter⟩
  · rintro ⟨q, inner, hbefore, hafter⟩
    induction hbefore with
    | here => exact hafter
    | cross hfirst _ ih => exact .cross hfirst (ih hafter)

/-- A line of aliases leads to one place only. -/
theorem Leads.end_unique {trail : List Crossing} {q inner q' inner' : Path}
    (h : index.Leads isModule p scope trail q inner)
    (h' : index.Leads isModule p scope trail q' inner') : q = q' ∧ inner = inner' := by
  induction h with
  | here =>
    cases h'
    exact ⟨rfl, rfl⟩
  | cross hfirst _ ih =>
    cases h' with
    | cross hfirst' hrest =>
      obtain ⟨-, rfl, rfl⟩ := hfirst.unique hfirst'
      exact ih hrest

/-- Aliases lead to one end only, and there along one line. -/
theorem Leads.unique {trail trail' : List Crossing} {q inner q' inner' : Path} {r s : Resolution}
    (h : index.Leads isModule p scope trail q inner) (hr : index.Ends isModule q inner r)
    (h' : index.Leads isModule p scope trail' q' inner') (hs : index.Ends isModule q' inner' s) :
    trail = trail' ∧ r = s := by
  induction h generalizing trail' with
  | here =>
    cases h' with
    | here => exact ⟨rfl, hr.unique hs⟩
    | cross hfirst => exact absurd hfirst hr.not_crosses
  | cross hfirst _ ih =>
    cases h' with
    | here => exact absurd hfirst hs.not_crosses
    | cross hfirst' hrest =>
      obtain ⟨rfl, rfl, rfl⟩ := hfirst.unique hfirst'
      obtain ⟨rfl, heq⟩ := ih hr hrest
      exact ⟨rfl, heq⟩

theorem Unguarded.unique {trail trail' : List Crossing} {r s : Resolution}
    (hr : index.Unguarded isModule p scope trail r)
    (hs : index.Unguarded isModule p scope trail' s) : trail' = trail ∧ s = r := by
  obtain ⟨q, inner, e, hleads, hends, rfl⟩ := hr
  obtain ⟨q', inner', e', hleads', hends', rfl⟩ := hs
  obtain ⟨rfl, rfl⟩ := hleads.unique hends hleads' hends'
  exact ⟨rfl, rfl⟩

/-! ## The aliases of a line -/

theorem Leads.exists_crosses {trail : List Crossing} {q inner : Path}
    (h : index.Leads isModule p scope trail q inner) {a : Crossing} (ha : a ∈ trail) :
    ∃ p' scope' q' inner', index.Crosses isModule p' scope' a q' inner' := by
  induction h with
  | here => cases ha
  | cross hfirst _ ih =>
    rcases List.mem_cons.1 ha with rfl | hrest
    · exact ⟨_, _, _, _, hfirst⟩
    · exact ih hrest

theorem standing_of_plainTarget? {d : Declared} {target : Path} (h : d.plainTarget? = some target) :
    d.standing = .plain := by
  unfold Declared.plainTarget? at h
  split at h
  · next hplain _ => exact hplain
  · cases h

/-- A type alias that is followed is no latest type itself. -/
theorem Leads.not_isCarried {trail : List Crossing} {q inner : Path}
    (h : index.Leads isModule p scope trail q inner) (d : Declared) (hd : .type d ∈ trail) :
    ¬ d.resolution.IsCarried := by
  obtain ⟨_, _, _, _, hcross⟩ := h.exists_crosses hd
  cases hcross with
  | type _ _ _ hplain =>
    simp [Resolution.IsCarried, Declared.resolution, standing_of_plainTarget? hplain,
      Standing.isLatest, Standing.overlong?]

/-- A path is not led back to a type alias that it comes from and then to an end. -/
theorem not_mem_of_crosses_type {d : Declared} {target inner : Path}
    (hfirst : index.Crosses isModule p scope (.type d) target inner) {trail : List Crossing}
    {q' inner' : Path} {r : Resolution} (hrest : index.Leads isModule target inner trail q' inner')
    (hends : index.Ends isModule q' inner' r) {e : Declared} (he : .type e ∈ trail) :
    e.path ≠ d.path := by
  intro hpath
  obtain ⟨before, after, rfl⟩ := List.append_of_mem he
  obtain ⟨q, scope', -, hafter⟩ := leads_append.1 hrest
  cases hafter with
  | cross hagain hafter =>
    cases hfirst with
    | type _ _ hfound hplain =>
      cases hagain with
      | type _ _ hfound' hplain' =>
        -- The declaration is the same one, so the line after it would be the line before it.
        obtain ⟨-, hd⟩ := Table.lookup_eq_some_iff.1 hfound
        obtain ⟨-, he⟩ := Table.lookup_eq_some_iff.1 hfound'
        rw [hpath] at he
        obtain rfl := Option.some.inj (hd.symm.trans he)
        obtain rfl := Option.some.inj (hplain.symm.trans hplain')
        obtain ⟨hsame, -⟩ := hrest.unique hends hafter hends
        have := congrArg List.length hsame
        simp only [List.length_append, List.length_cons] at this
        omega

/-- Only a module alias is ever met again on the way to an end. -/
theorem nodup_of_modulesDiffer {trail : List Crossing} {q inner : Path} {r : Resolution}
    (h : index.Leads isModule p scope trail q inner) (hends : index.Ends isModule q inner r)
    (hmodules : ModulesDiffer trail) : (trail.map Crossing.path).Nodup := by
  induction h with
  | here => exact List.nodup_nil
  | @cross p scope q inner q' inner' a trail hfirst hrest ih =>
    have hcount : ∀ d, .module d ∈ a :: trail → d.path = a.path → a.path ∉ trail.map Crossing.path := by
      intro d hd hpath hmem
      have hone := hmodules d hd
      rw [hpath, List.map_cons, List.count_cons_self] at hone
      have := List.count_pos_iff.2 hmem
      omega
    have hfresh : a.path ∉ trail.map Crossing.path := by
      intro hmem
      obtain ⟨b, hb, hpath⟩ := List.mem_map.1 hmem
      cases a with
      | module d => exact hcount d List.mem_cons_self rfl hmem
      | type d =>
        cases b with
        | module e => exact hcount e (List.mem_cons_of_mem _ hb) hpath hmem
        | type e => exact not_mem_of_crosses_type hfirst hrest hends hb hpath
    refine List.nodup_cons.2 ⟨hfresh, ih hends fun d hd => ?_⟩
    have hone := hmodules d (List.mem_cons_of_mem _ hd)
    rwa [List.map_cons, List.count_cons_of_ne] at hone
    intro hpath
    exact hfresh (hpath ▸ List.mem_map_of_mem hd)

/-! ## Following with the guard -/

variable {visiting : List Path}

theorem aliasPrefix_iff {i : Nat} {d : Declared} {e : TypeExpr} :
    index.AliasPrefix ⟨p, scope, visiting⟩ i d e ↔
      index.AliasPrefix ⟨p, scope, []⟩ i d e ∧ d.path ∉ visiting := by
  simp [AliasPrefix, and_assoc]

theorem aliasStep?_of_not_mem {d : Declared} {target rest : Path}
    (h : index.aliasStep? isModule p scope [] = some (d, target, rest)) (hd : d.path ∉ visiting) :
    index.aliasStep? isModule p scope visiting = some (d, target, rest) := by
  have hfree := @aliasStep?_eq index isModule ⟨p, scope, []⟩
  have hguarded := @aliasStep?_eq index isModule ⟨p, scope, visiting⟩
  rw [hfree, findSome?_reverse_range'_eq_some_iff] at h
  obtain ⟨i, hlow, hhigh, hat, hlonger⟩ := h
  rw [hguarded, findSome?_reverse_range'_eq_some_iff]
  obtain ⟨e, hbegins, htarget, hrest⟩ := aliasAt?_eq_some_iff.1 hat
  refine ⟨i, hlow, hhigh,
    aliasAt?_eq_some_iff.2 ⟨e, aliasPrefix_iff.2 ⟨hbegins, hd⟩, htarget, hrest⟩, fun j hj hn => ?_⟩
  refine aliasAt?_eq_none_iff.2 fun d' e' hbegins' => ?_
  exact aliasAt?_eq_none_iff.1 (hlonger j hj hn) d' e' (aliasPrefix_iff.1 hbegins').1

theorem aliasStep?_eq_none (h : index.aliasStep? isModule p scope [] = none) :
    index.aliasStep? isModule p scope visiting = none := by
  have hfree := @aliasStep?_eq index isModule ⟨p, scope, []⟩
  have hguarded := @aliasStep?_eq index isModule ⟨p, scope, visiting⟩
  rw [hfree, List.findSome?_eq_none_iff] at h
  rw [hguarded, List.findSome?_eq_none_iff]
  intro i hi
  refine aliasAt?_eq_none_iff.2 fun d e hbegins => ?_
  exact aliasAt?_eq_none_iff.1 (h i hi) d e (aliasPrefix_iff.1 hbegins).1

theorem resolvePath_of_ends {r : Resolution} (h : index.Ends isModule p scope r)
    (visiting : List Path) : index.resolvePath isModule p scope visiting = r := by
  cases h with
  | builtin htype hknown =>
    subst htype
    exact resolvePath_of_builtin hknown
  | declared hlookedUp hfound hlast =>
    rw [resolvePath_of_lookup hlookedUp hfound, declaredResolution]
    split
    · rfl
    · next target hplain =>
      have hmodule : isModule = true := by simpa [hplain] using hlast
      simp [hmodule]
  | undeclared hlookedUp hmissing hunaliased =>
    exact resolvePath_of_unknown hlookedUp hmissing (aliasStep?_eq_none hunaliased)

/-- An alias that is not being followed is followed. -/
theorem resolvePath_of_crosses {a : Crossing} {q inner : Path}
    (h : index.Crosses isModule p scope a q inner) (ha : a.path ∉ visiting) :
    index.resolvePath isModule p scope visiting
      = a.carry (index.resolvePath isModule q inner (a.path :: visiting)) := by
  cases h with
  | type htype hbuiltin hfound hplain =>
    subst htype
    simp only [Crossing.path] at ha
    have hdeclared : (index.table false).lookup p scope = some _ := hfound
    rw [resolvePath_of_lookup (Or.inr hbuiltin) hdeclared, declaredResolution, hplain]
    simp [ha, Crossing.carry, Crossing.path]
  | module hlookedUp hmissing hlongest =>
    exact resolvePath_of_aliasStep hlookedUp hmissing (aliasStep?_of_not_mem hlongest ha)

/-- A line of different aliases is followed to its end. -/
theorem resolvePath_of_leads {trail : List Crossing} {q inner : Path}
    (h : index.Leads isModule p scope trail q inner) (hnodup : (trail.map Crossing.path).Nodup)
    (hfresh : ∀ a ∈ trail, a.path ∉ visiting) :
    index.resolvePath isModule p scope visiting = Crossing.carryAll trail
      (index.resolvePath isModule q inner ((trail.map Crossing.path).reverse ++ visiting)) := by
  induction h generalizing visiting with
  | here => rfl
  | @cross p scope q inner q' inner' a trail hfirst _ ih =>
    obtain ⟨ha, hnodup⟩ := List.nodup_cons.1 hnodup
    rw [resolvePath_of_crosses hfirst (hfresh a List.mem_cons_self), ih hnodup]
    · simp [Crossing.carryAll]
    · intro b hb hmem
      rcases List.mem_cons.1 hmem with hpath | hmem
      · exact ha (hpath ▸ List.mem_map_of_mem hb)
      · exact hfresh b (List.mem_cons_of_mem _ hb) hmem

/-- The guard makes no difference on a line of different aliases none of which is being followed. -/
theorem resolvePath_of_unguarded {trail : List Crossing} {r : Resolution}
    (h : index.Unguarded isModule p scope trail r) (hnodup : (trail.map Crossing.path).Nodup)
    (hfresh : ∀ a ∈ trail, a.path ∉ visiting) :
    index.resolvePath isModule p scope visiting = r := by
  obtain ⟨q, inner, e, hleads, hends, rfl⟩ := h
  rw [resolvePath_of_leads hleads hnodup hfresh, resolvePath_of_ends hends]

/-! ## The guard -/

/-- An alias of a line that has repetitions is the first to be met again. -/
theorem exists_first_repetition {trail : List Crossing} (h : ¬ (trail.map Crossing.path).Nodup) :
    ∃ before a after, trail = before ++ a :: after ∧ (before.map Crossing.path).Nodup ∧
      a.path ∈ before.map Crossing.path := by
  induction trail using List.reverseRecOn with
  | nil => exact absurd List.nodup_nil h
  | append_singleton trail b ih =>
    by_cases hnodup : (trail.map Crossing.path).Nodup
    · refine ⟨trail, b, [], rfl, hnodup, ?_⟩
      by_contra hb
      refine h ?_
      rw [List.map_append, List.map_singleton, List.nodup_append]
      refine ⟨hnodup, List.nodup_singleton _, fun q hq b' hb' heq => hb ?_⟩
      rwa [← List.mem_singleton.1 hb', ← heq]
    · obtain ⟨before, a, after, rfl, hbefore, ha⟩ := ih hnodup
      exact ⟨before, a, after ++ [b], by simp, hbefore, ha⟩

/-- A line of aliases leads on to one of them that is met again, and the guard passes over it.  The
two ways to go on from there give the same answer, or a type alias before it hides both answers. -/
def Reconciles (index : Index) (isModule : Bool) (p scope : Path) (before : List Crossing)
    (a : Crossing) (after : List Crossing) : Prop :=
  ∃ q inner passed followed, index.Leads isModule p scope before q inner ∧
    index.resolvePath isModule q inner (before.map Crossing.path).reverse = passed ∧
    index.Unguarded isModule q inner (a :: after) followed ∧
    (passed = followed ∨ ((∃ d, .type d ∈ before) ∧ ¬ passed.IsCarried ∧ ¬ followed.IsCarried))

/-- How the answer to a path compares with the one that is found without the guard. -/
structure GuardedExactly (index : Index) (isModule : Bool) (p scope : Path) (trail : List Crossing)
    (r : Resolution) : Prop where
  /-- Without the guard there is one line of aliases and one answer. -/
  unique : ∀ trail' r', index.Unguarded isModule p scope trail' r' → trail' = trail ∧ r' = r
  /-- The answers agree if no module alias is met again. -/
  unrepeated : ModulesDiffer trail → index.resolvePath isModule p scope [] = r
  /-- Otherwise some alias is the first to be met again, and the answers agree exactly if passing
  over it makes no difference. -/
  metAgain : ¬ ModulesDiffer trail → ∃ before a after, trail = before ++ a :: after ∧
    (before.map Crossing.path).Nodup ∧ a.path ∈ before.map Crossing.path ∧
    (index.resolvePath isModule p scope [] = r ↔ index.Reconciles isModule p scope before a after)

theorem modulesDiffer_of_nodup {trail : List Crossing} (h : (trail.map Crossing.path).Nodup) :
    ModulesDiffer trail := fun _ hd => List.count_eq_one_of_mem h (List.mem_map_of_mem hd)

theorem resolvePath_eq_iff_reconciles {before : List Crossing} {a : Crossing}
    {after : List Crossing} {r : Resolution}
    (h : index.Unguarded isModule p scope (before ++ a :: after) r)
    (hnodup : (before.map Crossing.path).Nodup) :
    index.resolvePath isModule p scope [] = r ↔
      index.Reconciles isModule p scope before a after := by
  obtain ⟨q', inner', e, hleads, hends, rfl⟩ := h
  obtain ⟨q, inner, hbefore, hafter⟩ := leads_append.1 hleads
  rw [resolvePath_of_leads hbefore hnodup fun _ _ => List.not_mem_nil, List.append_nil,
    carryAll_append, carryAll_eq_iff hbefore.not_isCarried]
  constructor
  · intro hagree
    exact ⟨q, inner, _, _, hbefore, rfl, ⟨q', inner', e, hafter, hends, rfl⟩, hagree⟩
  · rintro ⟨q₂, inner₂, passed, followed, hbefore₂, rfl, hfollowed, hagree⟩
    obtain ⟨rfl, rfl⟩ := hbefore.end_unique hbefore₂
    obtain ⟨-, rfl⟩ := hfollowed.unique ⟨q', inner', e, hafter, hends, rfl⟩
    exact hagree

/-- Where following aliases comes to an end, the guard changes the answer exactly as
`GuardedExactly` says. -/
theorem guarded_exactly {trail : List Crossing} {r : Resolution}
    (h : index.Unguarded isModule p scope trail r) :
    index.GuardedExactly isModule p scope trail r where
  unique trail' r' h' := h.unique h'
  unrepeated hmodules := by
    have hresolve := h
    obtain ⟨q, inner, e, hleads, hends, -⟩ := h
    exact resolvePath_of_unguarded hresolve (nodup_of_modulesDiffer hleads hends hmodules)
      fun _ _ => List.not_mem_nil
  metAgain hrepeated := by
    obtain ⟨before, a, after, rfl, hnodup, ha⟩ :=
      exists_first_repetition fun hnodup => hrepeated (modulesDiffer_of_nodup hnodup)
    exact ⟨before, a, after, rfl, hnodup, ha, resolvePath_eq_iff_reconciles h hnodup⟩

end Index

/-! ## A module alias that is crossed twice -/

/-- A unit in which a module goes by a second name, and its type is defined by way of that name. -/
def renamedUnit : CompilationUnit where
  name := "ledger"
  modules := [
    .bare "Account"
      [{ TypeDecl.bare "t" with shape := .synonym (.ofPath "Old" ["u"]) },
        { TypeDecl.bare "u" with shape := .synonym (.ofPath "Stable" ["Latest", "t"]) }]
      [{ ModuleDecl.bare "Stable" [] [.bare "V1" [.bare "t"] []] with attributes := ["versioned"] }],
    { ModuleDecl.bare "Old" [] [] with aliasOf := some "Account" }]

/-- The second name of the module. -/
def renamedModule : Crossing := .module ⟨["Old"], .plain, [], some (.ofPath "Account" [])⟩

/-- A type of the module that is an alias. -/
def renamedType (name first : String) (rest : List String) : Crossing :=
  .type ⟨["Account", name], .plain, ["Account"], some (.ofPath first rest)⟩

/-- The aliases on the way from the type under its second name to the latest type. -/
def renamedTrail : List Crossing :=
  [renamedModule, renamedType "t" "Old" ["u"], renamedModule,
    renamedType "u" "Stable" ["Latest", "t"]]

theorem renamedUnit_leads : (renamedUnit.index .standard).Leads false ["Old", "t"] [] renamedTrail
    ["Stable", "Latest", "t"] ["Account"] :=
  .cross (.module (Or.inr rfl) rfl rfl) <| .cross (.type rfl rfl rfl rfl) <|
    .cross (.module (Or.inr rfl) rfl rfl) <| .cross (.type rfl rfl rfl rfl) <| .here _ _

theorem renamedUnit_unguarded : (renamedUnit.index .standard).Unguarded false ["Old", "t"] []
    renamedTrail ⟨.latest "Account", ["Account", "Stable", "Latest", "t"]⟩ :=
  ⟨_, _, _, renamedUnit_leads, .declared (Or.inr rfl) rfl (Or.inr rfl), rfl⟩

theorem guarded_exactly_renamedUnit :
    (renamedUnit.index .standard).Unguarded false ["Old", "t"] [] renamedTrail
        ⟨.latest "Account", ["Account", "Stable", "Latest", "t"]⟩ ∧
      (renamedUnit.index .standard).GuardedExactly false ["Old", "t"] [] renamedTrail
        ⟨.latest "Account", ["Account", "Stable", "Latest", "t"]⟩ :=
  ⟨renamedUnit_unguarded, Index.guarded_exactly renamedUnit_unguarded⟩

/-- Following aliases leads to the latest type of the family, but the guard takes the second crossing
of the module alias for a cycle. -/
theorem second_crossing_passed_over :
    (renamedUnit.index .standard).Unguarded false ["Old", "t"] [] renamedTrail
        ⟨.latest "Account", ["Account", "Stable", "Latest", "t"]⟩ ∧
      (renamedUnit.index .standard).resolvePath false ["Old", "t"] [] []
        = ⟨.plain, ["Account", "t"]⟩ :=
  ⟨renamedUnit_unguarded, by decide +kernel⟩

end SchemaVersioning
