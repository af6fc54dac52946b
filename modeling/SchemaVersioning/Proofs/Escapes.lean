import SchemaVersioning.Proofs.Marks

/-!
# The escape of unversioned types

One mark more is judged reference by reference (`marks_judged_exactly`).  A mark on a use only
silences the rule on definitions.  A mark on a type may also break an alias: an alias stands for its
target only if that is a latest type, so where it leads to the marked type it is an ordinary type
from then on, and its uses are reported (`relay_cut_off`).  The other rules are blind to marks.
-/

namespace SchemaVersioning

/-! ## Eased references -/

section Eased

variable {kind : MarkKind} {J : Index} {r r' : Reference}

namespace Reference.Eased

theorem versionLeak?_eq (h : r.Eased kind r') : J.versionLeak? r' = J.versionLeak? r := by
  rw [h.same]
  rfl

theorem leakInterruption?_eq (h : r.Eased kind r') :
    J.leakInterruption? r' = J.leakInterruption? r := by
  rw [h.same]
  rfl

/-- A reference that is exempt now counts nowhere. -/
theorem eq_or_definedVersion? (h : r.Eased kind r') : r' = r ∨ r'.definedVersion? = none := by
  by_cases hsame : r'.exempt = r.exempt
  · left
    rw [h.same, hsame]
  · right
    have hexempt : r'.exempt = true := by
      cases hr : r.exempt with
      | true => exact h.kept hr
      | false => rwa [hr, Bool.not_eq_false] at hsame
    unfold Reference.definedVersion?
    split
    · simp [hexempt]
    · rfl

theorem eq_of_unstableUse? (h : r.Eased kind r') (hJ : J.unstableUse? r' ≠ none) : r' = r :=
  h.eq_or_definedVersion?.resolve_right (Index.unstableUse?_ne_none_iff.1 hJ).1

end Reference.Eased

end Eased

/-! ## Judgements -/

namespace Index

/-- How the rule on definitions judges a reference before and after a mark. -/
structure Rejudges (kind : MarkKind) (I J : Index) (r r' : Reference) : Prop where
  eased : r.Eased kind r'
  /-- What is reported anew counted as a latest type and is cut off from it by a freed type. -/
  anew : I.unstableUse? r = none ∧ J.unstableUse? r' ≠ none ↔
    r.definedVersion? ≠ none ∧ (I.resolve r).standing.isLatest = true ∧ I.CutOff J r
  /-- What is reported still is reported in the same words. -/
  still : (I.resolve r).interruption? = none → I.unstableUse? r ≠ none →
    J.unstableUse? r' ≠ none → J.unstableUse? r' = I.unstableUse? r

section Judgements

variable {kind : MarkKind} {I J : Index} {r r' : Reference}

/-- A reference is judged anew as it was unless it is cut off, or not at all. -/
theorem MarkedAs.unstableUse?_of_not_cutOff (h : I.MarkedAs J) (hr : r.Eased kind r')
    (hcut : ¬ I.CutOff J r) :
    J.unstableUse? r' = I.unstableUse? r ∨ J.unstableUse? r' = none := by
  rcases hr.eq_or_definedVersion? with rfl | hnone
  · cases h.resolvesAlike r' with
    | same hresolves _ => exact Or.inl (unstableUse?_congr hresolves h.config)
    | freed hresolves _ _ =>
      exact Or.inr (unstableUse?_of_isStable (congrArg Standing.isStable hresolves))
    | cutOff _ hreached _ => exact absurd hreached hcut
  · exact Or.inr (not_not.1 fun hJ => (unstableUse?_ne_none_iff.1 hJ).1 hnone)

theorem MarkedAs.rejudges (h : I.MarkedAs J) (hr : r.Eased kind r')
    (huse : kind = .use → ¬ I.CutOff J r) : Rejudges kind I J r r' where
  eased := hr
  anew := by
    constructor
    · rintro ⟨hI, hJ⟩
      exact h.newly_unstable_iff.1 ⟨hI, hr.eq_of_unstableUse? hJ ▸ hJ⟩
    · rintro ⟨hversion, hlatest, hcut⟩
      have hkind : kind = .declaration := by
        cases kind with
        | use => exact absurd hcut (huse rfl)
        | declaration => rfl
      rw [hr.declaration hkind]
      exact h.newly_unstable_iff.2 ⟨hversion, hlatest, hcut⟩
  still := by
    intro hlegible hI hJ
    obtain rfl := hr.eq_of_unstableUse? hJ
    exact h.unstableUse?_eq hlegible hI hJ

end Judgements

end Index

/-! ## Units -/

/-- What the rules report on a unit in which one more use of a type, or one more definition, is
marked. -/
structure MarkJudged (kind : MarkKind) (c : Config) (u v : CompilationUnit) : Prop where
  /-- The references of the unit correspond, and are judged one by one. -/
  uses : List.Forall₂ ((u.index c).Rejudges kind (v.index c)) (u.index c).references
    (v.index c).references
  /-- A mark on a use adds no report, nor does one on a definition that cuts nothing off. -/
  silenced : (kind = .use ∨ ∀ r ∈ (u.index c).references, ¬ (u.index c).CutOff (v.index c) r) →
    (v.index c).unstableUses.Sublist (u.index c).unstableUses
  /-- Families inside functors are reported as before, whichever families are built elsewhere. -/
  families : ∀ fs, functorFamilies (v.index c).declarations fs
    = functorFamilies (u.index c).declarations fs
  ownFamilies : functorFamilies (v.index c).declarations (v.families c)
    = functorFamilies (u.index c).declarations (u.families c)
  leaks : (v.index c).versionLeaks = (u.index c).versionLeaks
  uninterrupted : u.checkInterruption? c = none → v.checkInterruption? c = none

section Lists

variable {α β γ : Type} {q : α → β → Prop} {f : α → Option γ} {g : β → Option γ} {as : List α}
  {bs : List β}

theorem filterMap_sublist_of_forall₂ (h : List.Forall₂ q as bs)
    (hfg : ∀ a ∈ as, ∀ b, q a b → g b = f a ∨ g b = none) :
    (bs.filterMap g).Sublist (as.filterMap f) := by
  induction h with
  | nil => exact .slnil
  | @cons a b as bs hab _ ih =>
    have hrest := ih fun a ha => hfg a (List.mem_cons_of_mem _ ha)
    rcases hfg a List.mem_cons_self b hab with hsame | hnone
    · rw [List.filterMap_cons, List.filterMap_cons, hsame]
      cases f a with
      | none => exact hrest
      | some x => exact hrest.cons_cons x
    · rw [List.filterMap_cons_none hnone, List.filterMap_cons]
      cases f a with
      | none => exact hrest
      | some x => exact hrest.cons x

theorem findSome?_eq_none_of_forall₂ (h : List.Forall₂ q as bs)
    (hfg : ∀ a b, q a b → f a = none → g b = none) (hnone : as.findSome? f = none) :
    bs.findSome? g = none := by
  induction h with
  | nil => rfl
  | @cons a b as bs hab _ ih =>
    obtain ⟨ha, has⟩ := List.forall_mem_cons.1 (List.findSome?_eq_none_iff.1 hnone)
    rw [List.findSome?_cons, hfg a b hab ha]
    exact ih (List.findSome?_eq_none_iff.2 has)

end Lists

section Units

variable {kind : MarkKind} {u v : CompilationUnit} {c : Config}

theorem not_cutOff_of_use (h : u.Marked .use v) (r : Reference) :
    ¬ (u.index c).CutOff (v.index c) r := by
  rintro ⟨-, -, -, e, -, -, -, hfreed⟩
  exact not_frees_of_use h e hfreed

theorem unstableUses_sublist (h : u.Marked kind v)
    (hcut : ∀ r ∈ (u.index c).references, ¬ (u.index c).CutOff (v.index c) r) :
    (v.index c).unstableUses.Sublist (u.index c).unstableUses :=
  filterMap_sublist_of_forall₂ (forall₂_references h) fun r hr _ heased =>
    (index_markedAs h).unstableUse?_of_not_cutOff heased (hcut r hr)

theorem versionLeaks_of_marked (h : u.Marked kind v) :
    (v.index c).versionLeaks = (u.index c).versionLeaks :=
  filterMap_eq_of_forall₂ (forall₂_references h) fun r _ heased =>
    heased.versionLeak?_eq.trans ((index_markedAs h).versionLeak?_eq r)

theorem checkInterruption?_of_marked (h : u.Marked kind v) (hnone : u.checkInterruption? c = none) :
    v.checkInterruption? c = none := by
  have hmarked := index_markedAs (c := c) h
  have hreferences := forall₂_references (c := c) h
  obtain ⟨hindex, huses, harities, hleaks⟩ := by
    simpa only [CompilationUnit.checkInterruption?, Index.interruption?, Option.or_eq_none_iff]
      using hnone
  simp only [CompilationUnit.checkInterruption?, Index.interruption?, Option.or_eq_none_iff]
  refine ⟨(indexInterruption?_of_marked h).trans hindex, ?_, ?_, ?_⟩
  · refine findSome?_eq_none_of_forall₂ hreferences (fun r r' heased hr => ?_) huses
    rcases heased.eq_or_definedVersion? with rfl | hversion
    · split
      · rfl
      · next hversion =>
        rw [if_neg hversion] at hr
        exact hmarked.interruption?_resolve_eq_none hr
    · rw [hversion]
      rfl
  · rw [functorInterruption?_families] at harities ⊢
    refine findSome?_eq_none_of_forall₂ (forall₂_familyDeclarations h) (fun d d' hd hnone => ?_)
      harities
    have hentry : d'.arityInterruption?
        = if d'.entry.inTest then none else arityInterruption? d'.entry.arities := rfl
    rw [hentry, hd.entry]
    exact hnone
  · refine findSome?_eq_none_of_forall₂ hreferences (fun r r' heased hr => ?_) hleaks
    exact heased.leakInterruption?_eq.trans (hmarked.leakInterruption?_eq_none hr)

/-- One mark more is judged exactly as `MarkJudged` says. -/
theorem marks_judged_exactly (h : u.Marked kind v) : MarkJudged kind c u v where
  uses := (forall₂_references h).imp fun r _ heased =>
    (index_markedAs h).rejudges heased fun huse => not_cutOff_of_use (huse ▸ h) r
  silenced := by
    rintro (rfl | hcut)
    · exact unstableUses_sublist h fun r _ => not_cutOff_of_use h r
    · exact unstableUses_sublist h hcut
  families := functorFamilies_of_marked h
  ownFamilies := by
    rw [functorFamilies_families, functorFamilies_families]
    exact functorFamilies_of_marked h []
  leaks := versionLeaks_of_marked h
  uninterrupted := checkInterruption?_of_marked h

end Units

/-! ## An alias that is cut off -/

/-- A name of a latest type. -/
def relayedType (attributes : List String) : TypeDecl :=
  { TypeDecl.bare "b" with
    shape := .synonym (.ofPath "Stable" ["Latest", "t"])
    attributes := attributes }

/-- A name of the name. -/
def relayingType : TypeDecl := { TypeDecl.bare "a" with shape := .synonym (.ofPath "b" []) }

/-- A container of one version. -/
def relayContainer (t : TypeDecl) : ModuleDecl :=
  { ModuleDecl.bare "Stable" [] [.bare "V1" [t] []] with attributes := ["versioned"] }

/-- The family with both names of its latest type. -/
def relayedFamily (attributes : List String) : ModuleDecl :=
  .bare "Account" [relayedType attributes, relayingType] [relayContainer (.bare "t")]

/-- A family that uses the outer name. -/
def relayUser : ModuleDecl :=
  .bare "Order" []
    [relayContainer { TypeDecl.bare "t" with shape := .synonym (.ofPath "Account" ["a"]) }]

def relayUnit (attributes : List String) : CompilationUnit :=
  ⟨"ledger", [relayedFamily attributes, relayUser]⟩

/-- The use of the outer name. -/
def relayUse : Reference where
  path := ["Account", "a"]
  scope := ["Order", "Stable", "V1"]
  owner := "Order.Stable.V1.t"
  context := .version "Order" 1
  definition := true
  exempt := false
  isModule := false
  location := none

/-- The inner name is marked. -/
theorem relayUnit_marked :
    (relayUnit []).Marked .declaration (relayUnit [unversionedAttribute]) := by
  have htype : (relayedType []).Marked .declaration (relayedType [unversionedAttribute]) :=
    .self ⟨[], [], rfl, rfl⟩
  have hfamily : (relayedFamily []).Marked .declaration (relayedFamily [unversionedAttribute]) :=
    .type ⟨[], _, _, [relayingType], rfl, rfl, htype⟩
  exact ⟨_, ⟨[], _, _, [relayUser], rfl, rfl, hfamily⟩, rfl⟩

theorem marks_judged_exactly_relayUnit :
    (relayUnit []).Marked .declaration (relayUnit [unversionedAttribute]) ∧
      MarkJudged .declaration .standard (relayUnit []) (relayUnit [unversionedAttribute]) :=
  ⟨relayUnit_marked, marks_judged_exactly relayUnit_marked⟩

/-- Of the unit nothing is reported until the inner name is marked: the outer name is an ordinary
type then. -/
theorem relay_cut_off :
    (relayUnit []).Marked .declaration (relayUnit [unversionedAttribute]) ∧
      (relayUnit []).checkInterruption? .standard = none ∧
      (relayUnit [unversionedAttribute]).checkInterruption? .standard = none ∧
      relayUse ∈ ((relayUnit []).index .standard).references ∧
      relayUse ∈ ((relayUnit [unversionedAttribute]).index .standard).references ∧
      ((relayUnit []).index .standard).violations [] = [] ∧
      (((relayUnit [unversionedAttribute]).index .standard).unstableUse? relayUse).isSome = true :=
  ⟨relayUnit_marked, by decide +kernel, by decide +kernel, by decide +kernel, by decide +kernel,
    by decide +kernel, by decide +kernel⟩

end SchemaVersioning
