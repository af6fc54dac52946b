import Mathlib.Data.List.Forall2
import SchemaVersioning.Proofs.Outcome

/-!
# Families whose form depends on a parameter

A declared container and a built family are judged alike, by their path, by the functor bodies
around them and by whether they lie in a test (`FunctorEntry`).  Every declared container outside of
tests is judged.  Of the built families only the first one outside of tests is judged at a path, and
none where a container is declared, be it in a test or without a parameter
(`parameterized_reported_exactly`).
-/

namespace SchemaVersioning

/-! ## Reports -/

/-- Some functor body takes a parameter. -/
def IsParameterized (arities : List Int) : Prop := ∃ a ∈ arities, 0 < a

instance (arities : List Int) : Decidable (IsParameterized arities) :=
  inferInstanceAs (Decidable (∃ a ∈ arities, 0 < a))

/-- A declared container or a built family, as far as the rule on functors reads it. -/
structure FunctorEntry where
  path : Path
  name : String
  arities : List Int
  inTest : Bool
  location : Option Location
deriving DecidableEq

namespace FunctorEntry

/-- The form of the entry differs with the argument of a functor around it. -/
def Offends (e : FunctorEntry) : Prop := e.inTest = false ∧ IsParameterized e.arities

instance (e : FunctorEntry) : Decidable e.Offends := inferInstanceAs (Decidable (_ ∧ _))

/-- What a diagnostic says of an entry. -/
structure ReportedBy (e : FunctorEntry) (x : Diagnostic) : Prop where
  rule : x.rule = .functorParameterizedFamily
  /-- The message names the family and the largest number of parameters. -/
  message : ∃ a ∈ e.arities, 0 < a ∧ (∀ b ∈ e.arities, b ≤ a) ∧
    x.message = s!"family '{e.name}' is declared inside a functor body of arity {a}; "
      ++ "its serialized form would differ per instantiation"
  subject : x.subject = e.name
  location : x.location = e.location
  suggestion : x.suggestion = some ("Move the family out of the functor, "
    ++ "or make the functor take no parameters")

/-- The diagnostic of an entry. -/
def report? (e : FunctorEntry) : Option Diagnostic :=
  if e.inTest then none else parameterizedFamily? e.name e.arities e.location

variable {e : FunctorEntry}

theorem parameterizedFamily?_eq_none (h : ¬ IsParameterized e.arities) :
    parameterizedFamily? e.name e.arities e.location = none := by
  have hnone : largestArity? e.arities = none :=
    largestArity?_eq_none_iff.2 fun a ha hpos => h ⟨a, ha, hpos⟩
  rw [parameterizedFamily?, hnone]

theorem exists_parameterizedFamily? (h : IsParameterized e.arities) :
    ∃ x, parameterizedFamily? e.name e.arities e.location = some x ∧ e.ReportedBy x := by
  obtain ⟨b, hb, hpos⟩ := h
  obtain ⟨a, ha⟩ : ∃ a, largestArity? e.arities = some a :=
    Option.ne_none_iff_exists'.1 fun hnone => largestArity?_eq_none_iff.1 hnone b hb hpos
  obtain ⟨⟨hmem, hapos⟩, hle⟩ := largestArity?_eq_some_iff.1 ha
  refine ⟨_, by rw [parameterizedFamily?, ha], rfl, ⟨a, hmem, hapos, fun d hd => ?_, rfl⟩, rfl,
    rfl, rfl⟩
  -- An arity that takes no parameter is below one that does.
  by_cases hdpos : 0 < d
  · exact hle d hd hdpos
  · omega

theorem report?_eq_none (h : ¬ e.Offends) : e.report? = none := by
  rw [report?]
  cases htest : e.inTest with
  | true => rfl
  | false => exact parameterizedFamily?_eq_none fun hp => h ⟨htest, hp⟩

theorem exists_report? (h : e.Offends) : ∃ x, e.report? = some x ∧ e.ReportedBy x := by
  rw [report?, h.1]
  exact exists_parameterizedFamily? h.2

/-- Each entry that offends is reported on once, and no other one. -/
theorem forall₂_reports (es : List FunctorEntry) :
    List.Forall₂ ReportedBy (es.filter (·.Offends)) (es.filterMap report?) := by
  induction es with
  | nil => exact .nil
  | cons e es ih =>
    by_cases h : e.Offends
    · obtain ⟨x, hx, hreported⟩ := exists_report? h
      rw [List.filter_cons_of_pos (by simpa using h), List.filterMap_cons_some hx]
      exact .cons hreported ih
    · rw [List.filter_cons_of_neg (by simpa using h), List.filterMap_cons_none (report?_eq_none h)]
      exact ih

end FunctorEntry

/-! ## Families that are judged -/

namespace FunctorEntry

/-- The first entry outside of tests at a path. -/
def firstAt? (es : List FunctorEntry) (path : Path) : Option FunctorEntry :=
  es.find? fun e => e.path = path && !e.inTest

/-- The first entries outside of tests at the paths that are not taken. -/
def firsts (taken : List Path) : List FunctorEntry → List FunctorEntry
  | [] => []
  | e :: rest =>
    if taken.contains e.path || e.inTest then firsts taken rest
    else e :: firsts (e.path :: taken) rest

section Firsts

variable {taken : List Path} {es : List FunctorEntry} {e : FunctorEntry} {path : Path}

theorem of_firstAt?_eq_some (h : firstAt? es path = some e) :
    e ∈ es ∧ e.path = path ∧ e.inTest = false := by
  have hfound := List.find?_some h
  simp only [Bool.and_eq_true, decide_eq_true_eq, Bool.not_eq_true'] at hfound
  exact ⟨List.mem_of_find?_eq_some h, hfound⟩

theorem exists_firstAt? (he : e ∈ es) (hpath : e.path = path) (htest : e.inTest = false) :
    ∃ first, firstAt? es path = some first := by
  refine Option.isSome_iff_exists.1 (List.find?_isSome.2 ⟨e, he, ?_⟩)
  simp [hpath, htest]

theorem firstAt?_cons_self (hpath : e.path = path) (htest : e.inTest = false) :
    firstAt? (e :: es) path = some e :=
  List.find?_cons_of_pos (by simp [hpath, htest])

theorem firstAt?_cons_of_not (h : ¬ (e.path = path ∧ e.inTest = false)) :
    firstAt? (e :: es) path = firstAt? es path :=
  List.find?_cons_of_neg (by simpa using h)

theorem firsts_cons_of_skipped (h : e.path ∈ taken ∨ e.inTest = true) :
    firsts taken (e :: es) = firsts taken es :=
  if_pos (by simpa using h)

theorem firsts_cons_of_judged (h : ¬ (e.path ∈ taken ∨ e.inTest = true)) :
    firsts taken (e :: es) = e :: firsts (e.path :: taken) es :=
  if_neg (by simpa using h)

theorem firsts_sublist (taken : List Path) (es : List FunctorEntry) :
    List.Sublist (firsts taken es) es := by
  induction es generalizing taken with
  | nil => exact .slnil
  | cons e es ih =>
    by_cases hskip : e.path ∈ taken ∨ e.inTest = true
    · rw [firsts_cons_of_skipped hskip]
      exact (ih taken).cons e
    · rw [firsts_cons_of_judged hskip]
      exact (ih _).cons_cons e

theorem mem_firsts_iff :
    e ∈ firsts taken es ↔ e.path ∉ taken ∧ firstAt? es e.path = some e := by
  induction es generalizing taken with
  | nil => simp [firsts, firstAt?]
  | cons g es ih =>
    by_cases hskip : g.path ∈ taken ∨ g.inTest = true
    · rw [firsts_cons_of_skipped hskip, ih]
      refine and_congr_right fun hfree => ?_
      rw [firstAt?_cons_of_not]
      rintro ⟨hpath, htest⟩
      rcases hskip with htaken | hgtest
      · exact hfree (hpath ▸ htaken)
      · exact absurd (hgtest.symm.trans htest) (by decide)
    · obtain ⟨hfree, htest⟩ := not_or.1 hskip
      have htest : g.inTest = false := by simpa using htest
      rw [firsts_cons_of_judged hskip]
      by_cases hpath : g.path = e.path
      · -- Only the entry itself is judged at its path.
        rw [List.mem_cons, ih, firstAt?_cons_self hpath htest, ← hpath]
        constructor
        · rintro (rfl | ⟨htaken, -⟩)
          · exact ⟨hfree, rfl⟩
          · exact absurd List.mem_cons_self htaken
        · rintro ⟨-, heq⟩
          exact Or.inl (Option.some.inj heq).symm
      · have hne : e ≠ g := fun heq => hpath (congrArg path heq).symm
        rw [List.mem_cons, ih, firstAt?_cons_of_not fun h => hpath h.1]
        simp [hne, Ne.symm hpath]

theorem nodup_firsts (taken : List Path) (es : List FunctorEntry) :
    ((firsts taken es).map (·.path)).Nodup := by
  induction es generalizing taken with
  | nil => exact List.nodup_nil
  | cons e es ih =>
    by_cases hskip : e.path ∈ taken ∨ e.inTest = true
    · rw [firsts_cons_of_skipped hskip]
      exact ih taken
    · rw [firsts_cons_of_judged hskip]
      refine List.nodup_cons.2 ⟨fun h => ?_, ih _⟩
      obtain ⟨g, hg, hpath⟩ := List.mem_map.1 h
      exact (mem_firsts_iff.1 hg).1 (hpath ▸ List.mem_cons_self)

/-- Entries in tests hide nothing. -/
theorem firsts_filter (taken : List Path) (es : List FunctorEntry) :
    firsts taken (es.filter (!·.inTest)) = firsts taken es := by
  induction es generalizing taken with
  | nil => rfl
  | cons e es ih =>
    cases htest : e.inTest with
    | true =>
      rw [List.filter_cons_of_neg (by simp [htest]), ih, firsts_cons_of_skipped (Or.inr htest)]
    | false =>
      rw [List.filter_cons_of_pos (by simp [htest]), firsts, firsts]
      simp only [ih]

end Firsts

end FunctorEntry

/-! ## The rule -/

def FamilyDeclaration.entry (d : FamilyDeclaration) : FunctorEntry :=
  ⟨d.containerPath, d.name, d.functorArities.map Int.ofNat, d.inTest, d.container.location⟩

def Family.entry (f : Family) : FunctorEntry :=
  ⟨f.containerPath, f.name, f.functorArities, f.inTest, f.location⟩

open FunctorEntry

/-- The entries on which the rule reports, in its order. -/
def functorReports (ds : List FamilyDeclaration) (fs : List Family) : List FunctorEntry :=
  (ds.map (·.entry) ++ firsts (ds.map (·.containerPath)) (fs.map (·.entry))).filter (·.Offends)

/-- The rule reports on a path. -/
def ReportsOn (ds : List FamilyDeclaration) (fs : List Family) (path : Path) : Prop :=
  ∃ e ∈ functorReports ds fs, e.path = path

section Rule

variable {ds : List FamilyDeclaration} {fs gs : List Family} {path : Path}

theorem foreignFamilies_eq (seen : List Path) (fs : List Family) :
    (foreignFamilies seen fs).filterMap Family.parameterized?
      = (firsts seen (fs.map (·.entry))).filterMap report? := by
  induction fs generalizing seen with
  | nil => rfl
  | cons f fs ih =>
    rw [foreignFamilies, List.map_cons]
    by_cases hskip : f.entry.path ∈ seen ∨ f.entry.inTest = true
    · have hseen : f.containerPath ∈ seen ∨ f.inTest = true := hskip
      rw [if_pos (by simpa using hseen), firsts_cons_of_skipped hskip, ih]
    · have hseen : ¬ (f.containerPath ∈ seen ∨ f.inTest = true) := hskip
      have hreport : f.entry.report? = f.parameterized? := by
        rw [report?, if_neg (not_or.1 hskip).2]
        rfl
      rw [if_neg (by simpa using hseen), firsts_cons_of_judged hskip, List.filterMap_cons,
        List.filterMap_cons, ih, hreport]
      rfl

theorem functorFamilies_eq (ds : List FamilyDeclaration) (fs : List Family) :
    functorFamilies ds fs = (ds.map (·.entry)
      ++ firsts (ds.map (·.containerPath)) (fs.map (·.entry))).filterMap report? := by
  have hdeclared : ds.filterMap FamilyDeclaration.parameterized?
      = (ds.map (·.entry)).filterMap report? := by
    rw [List.filterMap_map]
    rfl
  rw [functorFamilies, hdeclared, foreignFamilies_eq, ← List.filterMap_append]

/-- The rule reports on each of its entries once, in order. -/
theorem forall₂_functorFamilies (ds : List FamilyDeclaration) (fs : List Family) :
    List.Forall₂ ReportedBy (functorReports ds fs) (functorFamilies ds fs) := by
  rw [functorFamilies_eq]
  exact forall₂_reports _

theorem reportsOn_iff : ReportsOn ds fs path ↔
    (∃ d ∈ ds, d.containerPath = path ∧ d.entry.Offends) ∨
      path ∉ ds.map (·.containerPath) ∧
        ∃ e, firstAt? (fs.map (·.entry)) path = some e ∧ e.Offends := by
  simp only [ReportsOn, functorReports, List.mem_filter, List.mem_append, decide_eq_true_eq]
  constructor
  · rintro ⟨e, ⟨hdeclared | hfirst, hoffends⟩, rfl⟩
    · obtain ⟨d, hd, rfl⟩ := List.mem_map.1 hdeclared
      exact Or.inl ⟨d, hd, rfl, hoffends⟩
    · obtain ⟨hfree, hfirst⟩ := mem_firsts_iff.1 hfirst
      exact Or.inr ⟨hfree, e, hfirst, hoffends⟩
  · rintro (⟨d, hd, rfl, hoffends⟩ | ⟨hfree, e, hfirst, hoffends⟩)
    · exact ⟨d.entry, ⟨Or.inl (List.mem_map_of_mem hd), hoffends⟩, rfl⟩
    · obtain ⟨-, rfl, -⟩ := of_firstAt?_eq_some hfirst
      exact ⟨e, ⟨Or.inr (mem_firsts_iff.2 ⟨hfree, hfirst⟩), hoffends⟩, rfl⟩

theorem firstAt?_isSome_iff : (∃ e, firstAt? (fs.map (·.entry)) path = some e) ↔
    ∃ f ∈ fs, f.containerPath = path ∧ f.inTest = false := by
  constructor
  · rintro ⟨e, he⟩
    obtain ⟨hmem, hpath, htest⟩ := of_firstAt?_eq_some he
    obtain ⟨f, hf, rfl⟩ := List.mem_map.1 hmem
    exact ⟨f, hf, hpath, htest⟩
  · rintro ⟨f, hf, hpath, htest⟩
    exact exists_firstAt? (List.mem_map_of_mem hf) hpath htest

end Rule

/-- Some container or family at a path, outside of tests, is inside a functor with parameters. -/
def OffendsAt (ds : List FamilyDeclaration) (fs : List Family) (path : Path) : Prop :=
  (∃ d ∈ ds, d.containerPath = path ∧ d.entry.Offends) ∨
    ∃ f ∈ fs, f.containerPath = path ∧ f.entry.Offends

/-- What the rule reports for some containers and some families. -/
structure FunctorsReported (ds : List FamilyDeclaration) (fs : List Family) : Prop where
  /-- One diagnostic for each entry that is reported on, in the order of the entries. -/
  diagnostics : List.Forall₂ ReportedBy (functorReports ds fs) (functorFamilies ds fs)
  ordered : List.Sublist (functorReports ds fs) (ds.map (·.entry) ++ fs.map (·.entry))
  /-- A path is reported on for an offending container, or where there is no container, for the
  first family outside of tests. -/
  paths : ∀ path, ReportsOn ds fs path ↔
    (∃ d ∈ ds, d.containerPath = path ∧ d.entry.Offends) ∨
      path ∉ ds.map (·.containerPath) ∧
        ∃ e, firstAt? (fs.map (·.entry)) path = some e ∧ e.Offends
  /-- A path without a container is reported on once at most. -/
  once : ∀ path, path ∉ ds.map (·.containerPath) →
    ((functorReports ds fs).map (·.path)).count path ≤ 1
  /-- The paths reported on are all those at which something offends exactly if no family offends
  behind containers, or behind a first family, that do not. -/
  complete : (∀ path, ReportsOn ds fs path ↔ OffendsAt ds fs path) ↔
    ∀ f ∈ fs, f.entry.Offends →
      (∃ d ∈ ds, d.containerPath = f.containerPath ∧ d.entry.Offends) ∨
        f.containerPath ∉ ds.map (·.containerPath) ∧
          ∃ e, firstAt? (fs.map (·.entry)) f.containerPath = some e ∧ e.Offends
  /-- The order of the families makes no difference exactly if of those outside of tests at a path
  without a container all offend or none does. -/
  unordered : (∀ gs, gs.Perm fs → ∀ path, ReportsOn ds gs path ↔ ReportsOn ds fs path) ↔
    ∀ f ∈ fs, ∀ g ∈ fs, f.containerPath = g.containerPath →
      f.containerPath ∉ ds.map (·.containerPath) → f.inTest = false → g.inTest = false →
      (f.entry.Offends ↔ g.entry.Offends)
  /-- Families in tests hide nothing. -/
  tests : functorReports ds (fs.filter (!·.inTest)) = functorReports ds fs

section Reported

variable {ds : List FamilyDeclaration} {fs gs : List Family} {path : Path}

/-- The rule reports only where something offends. -/
theorem offendsAt_of_reportsOn (h : ReportsOn ds fs path) : OffendsAt ds fs path := by
  rcases reportsOn_iff.1 h with hdeclared | ⟨-, e, hfirst, hoffends⟩
  · exact Or.inl hdeclared
  · obtain ⟨hmem, hpath, -⟩ := of_firstAt?_eq_some hfirst
    obtain ⟨f, hf, rfl⟩ := List.mem_map.1 hmem
    exact Or.inr ⟨f, hf, hpath, hoffends⟩

theorem count_functorReports_le (h : path ∉ ds.map (·.containerPath)) :
    ((functorReports ds fs).map (·.path)).count path ≤ 1 := by
  have hdeclared : (ds.map (·.entry.path)).count path = 0 := List.count_eq_zero.2 h
  have hfirsts := List.nodup_iff_count_le_one.1
    (nodup_firsts (ds.map (·.containerPath)) (fs.map (·.entry))) path
  calc ((functorReports ds fs).map (·.path)).count path
      ≤ ((ds.map (·.entry) ++ firsts (ds.map (·.containerPath)) (fs.map (·.entry))).map
          (·.path)).count path := (List.filter_sublist.map _).count_le _
    _ = ((firsts (ds.map (·.containerPath)) (fs.map (·.entry))).map (·.path)).count path := by
        rw [List.map_append, List.count_append, List.map_map]
        exact (congrArg (· + _) hdeclared).trans (Nat.zero_add _)
    _ ≤ 1 := hfirsts

/-- Where a family comes first, it alone decides. -/
theorem reportsOn_cons_iff {f : Family} (gs : List Family)
    (h : f.containerPath ∉ ds.map (·.containerPath)) (htest : f.inTest = false) :
    ReportsOn ds (f :: gs) f.containerPath ↔ f.entry.Offends := by
  have hfirst : firstAt? ((f :: gs).map (·.entry)) f.containerPath = some f.entry :=
    firstAt?_cons_self rfl htest
  rw [reportsOn_iff, hfirst]
  constructor
  · rintro (⟨d, hd, hpath, -⟩ | ⟨-, e, he, hoffends⟩)
    · exact absurd (List.mem_map.2 ⟨d, hd, hpath⟩) h
    · rwa [Option.some.inj he]
  · intro hoffends
    exact Or.inr ⟨h, _, rfl, hoffends⟩

/-- A family can be listed first. -/
theorem exists_perm_cons {f : Family} (h : f ∈ fs) : ∃ gs, (f :: gs).Perm fs := by
  obtain ⟨before, after, rfl⟩ := List.append_of_mem h
  exact ⟨before ++ after, List.perm_middle.symm⟩

/-- Families that agree wherever they share a path are judged alike in each order. -/
theorem reportsOn_of_perm (h : ∀ f ∈ fs, ∀ g ∈ fs, f.containerPath = g.containerPath →
      f.containerPath ∉ ds.map (·.containerPath) → f.inTest = false → g.inTest = false →
      (f.entry.Offends ↔ g.entry.Offends))
    (hperm : gs.Perm fs) (hreports : ReportsOn ds gs path) : ReportsOn ds fs path := by
  rw [reportsOn_iff] at hreports ⊢
  refine hreports.imp_right fun ⟨hfree, e, hfirst, hoffends⟩ => ⟨hfree, ?_⟩
  obtain ⟨he, hpath, htest⟩ := of_firstAt?_eq_some hfirst
  obtain ⟨g, hg, rfl⟩ := List.mem_map.1 he
  have hg : g ∈ fs := hperm.mem_iff.1 hg
  obtain ⟨e, hfirst⟩ := firstAt?_isSome_iff.2 ⟨g, hg, hpath, htest⟩
  obtain ⟨he, hpath', htest'⟩ := of_firstAt?_eq_some hfirst
  obtain ⟨f, hf, rfl⟩ := List.mem_map.1 he
  have hsame : f.containerPath = g.containerPath := hpath'.trans hpath.symm
  have hfree' : f.entry.path ∉ ds.map (·.containerPath) := hpath'.symm ▸ hfree
  exact ⟨f.entry, hfirst, (h f hf g hg hsame hfree' htest' htest).2 hoffends⟩

end Reported

/-- For each list of containers and each list of families, the rule reports on every container that
offends, and at a path without a container on the first family outside of tests if that offends. -/
theorem parameterized_reported_exactly (ds : List FamilyDeclaration) (fs : List Family) :
    FunctorsReported ds fs where
  diagnostics := forall₂_functorFamilies ds fs
  ordered := List.filter_sublist.trans ((List.Sublist.refl _).append (firsts_sublist _ _))
  paths _ := reportsOn_iff
  once _ := count_functorReports_le
  complete := by
    constructor
    · intro h f hf hoffends
      exact reportsOn_iff.1 ((h f.containerPath).2 (Or.inr ⟨f, hf, rfl, hoffends⟩))
    · intro h path
      refine ⟨offendsAt_of_reportsOn, ?_⟩
      rintro (hdeclared | ⟨f, hf, rfl, hoffends⟩)
      · exact reportsOn_iff.2 (Or.inl hdeclared)
      · exact reportsOn_iff.2 (h f hf hoffends)
  unordered := by
    constructor
    · intro h f hf g hg hsame hfree hftest hgtest
      obtain ⟨others, hfirst⟩ := exists_perm_cons hf
      obtain ⟨others', hfirst'⟩ := exists_perm_cons hg
      calc f.entry.Offends
          ↔ ReportsOn ds (f :: others) f.containerPath :=
            (reportsOn_cons_iff others hfree hftest).symm
        _ ↔ ReportsOn ds fs f.containerPath := h _ hfirst _
        _ ↔ ReportsOn ds fs g.containerPath := by rw [hsame]
        _ ↔ ReportsOn ds (g :: others') g.containerPath := (h _ hfirst' _).symm
        _ ↔ g.entry.Offends := reportsOn_cons_iff others' (hsame ▸ hfree) hgtest
    · intro h gs hperm path
      refine ⟨reportsOn_of_perm h hperm, reportsOn_of_perm (fun f hf g hg => ?_) hperm.symm⟩
      exact h f (hperm.mem_iff.1 hf) g (hperm.mem_iff.1 hg)
  tests := by
    have hfilter : (fs.filter (!·.inTest)).map (·.entry)
        = (fs.map (·.entry)).filter (!·.inTest) := by
      rw [List.filter_map]
      rfl
    rw [functorReports, hfilter, firsts_filter]
    rfl

/-! ## A family behind a container in a test -/

/-- A unit with a container in a test. -/
def hidingUnit : CompilationUnit where
  name := "ledger"
  modules := [
    .bare "Account" [] [
      { ModuleDecl.bare "Stable" [] [.bare "V1" [.bare "t"] []] with
        attributes := ["versioned", "test"] }]]

/-- The declaration of a family in the body of a functor, in some other unit. -/
def functorDeclaration : FamilyDeclaration where
  container :=
    { ModuleDecl.bare "Stable" [] [.bare "V1" [.bare "t"] []] with attributes := ["versioned"] }
  parentPath := ["Account"]
  kind := .type
  strategy := .plain
  functorArities := [1]
  inTest := false
  parentTypes := []

/-- A container in a test hides a family of another unit at its path. -/
theorem foreign_family_hidden : ∃ f, functorDeclaration.build .standard = .ok f ∧ f.entry.Offends ∧
    OffendsAt (hidingUnit.familyDeclarations .standard) [f] f.containerPath ∧
    functorFamilies (hidingUnit.familyDeclarations .standard) [f] = [] := by
  obtain ⟨f, hbuild⟩ := exists_build (d := functorDeclaration) (c := .standard) (by decide +kernel)
  have hentry : f.entry = ⟨["Account", "Stable"], "Account", [1], false, none⟩ := by
    rw [Family.entry, parts_of_build hbuild]
    rfl
  have hoffends : f.entry.Offends := by
    rw [hentry]
    decide
  have hpath : f.containerPath = ["Account", "Stable"] := congrArg FunctorEntry.path hentry
  have hseen : ∀ g ∈ [f], g.containerPath
      ∈ (hidingUnit.familyDeclarations .standard).map (·.containerPath) := by
    rw [List.forall_mem_singleton, hpath]
    decide +kernel
  refine ⟨f, hbuild, hoffends, Or.inr ⟨f, List.mem_singleton_self f, rfl, hoffends⟩, ?_⟩
  rw [functorFamilies, foreignFamilies_eq_nil hseen, List.filterMap_nil, List.append_nil]
  decide +kernel

end SchemaVersioning
