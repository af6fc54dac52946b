import SchemaVersioning.Proofs.PlaceIndex

/-!
# Separate units

Two units are separate if their outermost modules have different names and neither writes a path
that begins with the name of an outermost module of the other.  Then no look-up from one can reach
what the other declares, through any scope and any chain of aliases, and analyzing both in one unit
gives what analyzing each gives (`joined_exactly`).
-/

namespace SchemaVersioning

namespace CompilationUnit

/-- The modules of two units in one. -/
def join (name : String) (u v : CompilationUnit) : CompilationUnit := ⟨name, u.modules ++ v.modules⟩

/-- A path does not begin with the name of an outermost module. -/
def Misses (u : CompilationUnit) (q : Path) : Prop := ∀ m ∈ u.modules, q.head? ≠ some m.name

/-- The outermost modules of two units have different names, and no path that one of them mentions
begins with the name of one of the other. -/
structure Separate (u v : CompilationUnit) : Prop where
  names : ∀ m ∈ u.modules, ∀ n ∈ v.modules, m.name ≠ n.name
  left : ∀ p ∈ u.places, ∀ q ∈ p.module.mentioned, v.Misses q
  right : ∀ p ∈ v.places, ∀ q ∈ p.module.mentioned, u.Misses q

instance (u : CompilationUnit) (q : Path) : Decidable (u.Misses q) :=
  inferInstanceAs (Decidable (∀ m ∈ u.modules, _))

theorem Separate.symm {u v : CompilationUnit} (h : u.Separate v) : v.Separate u :=
  ⟨fun m hm n hn heq => h.names n hn m hm heq.symm, h.right, h.left⟩

end CompilationUnit

/-- What an analysis of two units in one gives, compared with an analysis of each: the families of
both, the diagnostics of both in some order, and the declarations generated for both if there are no
diagnostics. -/
structure CompilationResult.Joins (r a b : CompilationResult) : Prop where
  families : r.families = a.families ++ b.families
  diagnostics : r.diagnostics.Perm (a.diagnostics ++ b.diagnostics)
  passed : r.passed = true ↔ a.passed = true ∧ b.passed = true
  generated : a.passed = true → b.passed = true → r.generated = a.generated ++ b.generated

/-! ## Paths of separate units -/

section Paths

variable {u v : CompilationUnit} {p : Place} {q : Path}

theorem CompilationUnit.Misses.of_isPrefix {a : Path} (h : u.Misses q) (ha : a <+: q) :
    u.Misses a := by
  intro m hm hhead
  obtain ⟨b, rfl⟩ := ha
  exact h m hm (by rw [List.head?_append, hhead]; rfl)

theorem CompilationUnit.Misses.take_append {s : Path} (hs : u.Misses s) (hq : u.Misses q)
    (i : Nat) :
    u.Misses (s.take i ++ q) := by
  have htake : u.Misses (s.take i) := hs.of_isPrefix (List.take_prefix i s)
  cases hstart : s.take i with
  | nil => exact hq
  | cons a rest =>
    rw [hstart] at htake
    exact htake

/-- The path of a place begins with the name of an outermost module. -/
theorem exists_head?_path (hp : p ∈ u.places) : ∃ m ∈ u.modules, p.path.head? = some m.name := by
  have hline := mem_places.1 hp
  rw [Place.path]
  cases h : p.line with
  | nil => exact absurd h (List.append_ne_nil_of_right_ne_nil _ (List.cons_ne_nil _ _))
  | cons m line =>
    rw [h] at hline
    exact ⟨m, hline.1, rfl⟩

theorem misses_path (hnames : ∀ m ∈ u.modules, ∀ n ∈ v.modules, m.name ≠ n.name)
    (hp : p ∈ u.places) : v.Misses p.path := by
  intro n hn hhead
  obtain ⟨m, hm, hpath⟩ := exists_head?_path hp
  exact hnames m hm n hn (Option.some.inj (hpath.symm.trans hhead))

/-- A unit has no place at the beginning of a path that misses it. -/
theorem filter_places_eq_nil (h : u.Misses q) : u.places.filter (·.path = q) = [] := by
  rw [List.filter_eq_nil_iff]
  intro p hp hpath
  obtain ⟨m, hm, hhead⟩ := exists_head?_path hp
  obtain rfl : p.path = q := by simpa using hpath
  exact h m hm hhead

theorem samePlaces_left (h : v.Misses q) : SamePlaces (u.places ++ v.places) u.places q := by
  intro a ha
  rw [List.filter_append, filter_places_eq_nil (h.of_isPrefix ha), List.append_nil]

theorem samePlaces_right (h : u.Misses q) : SamePlaces (u.places ++ v.places) v.places q := by
  intro a ha
  rw [List.filter_append, filter_places_eq_nil (h.of_isPrefix ha), List.nil_append]

end Paths

/-! ## Separate indexes -/

section Indexes

variable {u v : CompilationUnit} {c : Config}

/-- More places answer what a unit can ask alike, if they add none at a path that misses the
other unit. -/
theorem answersAlike_of_separate (h : u.Separate v) {qs : List Place}
    (hsame : ∀ {q}, v.Misses q → SamePlaces qs u.places q) :
    AnswersAlike u.places qs v.Misses v.Misses where
  same hp hs i _ := hsame (hs.take_append hp i)
  nil m _ hhead := nomatch hhead
  joined {p q} hne hp _ i := by
    cases p with
    | nil => exact absurd rfl hne
    | cons a p => exact hp
  inside p hp := misses_path h.names hp
  around p hp := (misses_path h.names hp).of_isPrefix ((List.prefix_append _ _).map _)
  typeAlias p hp t ht e he := h.left p hp _ (path_mem_mentioned_of_alias ht he)
  moduleAlias p hp target htarget := h.left p hp _ (ofDotted_mem_mentioned_of_aliasOf htarget)

theorem places_join (name : String) (u v : CompilationUnit) :
    (u.join name v).places = u.places ++ v.places := by
  rw [CompilationUnit.places, CompilationUnit.places, CompilationUnit.places,
    Place.ofModules_eq_flatMap, Place.ofModules_eq_flatMap, Place.ofModules_eq_flatMap]
  exact List.flatMap_append

theorem familyDeclarations_join (name : String) (u v : CompilationUnit) (c : Config) :
    (u.join name v).familyDeclarations c = u.familyDeclarations c ++ v.familyDeclarations c := by
  rw [familyDeclarations_eq, familyDeclarations_eq, familyDeclarations_eq, places_join,
    List.filterMap_append]

/-- The rules say of the references of a unit what they say of them in more places. -/
theorem flatMap_rulings_of_separate (h : u.Separate v) {qs : List Place}
    (hsame : ∀ {q}, v.Misses q → SamePlaces qs u.places q) :
    u.places.flatMap (·.rulings c qs) = (u.index c).rulings := by
  rw [index_eq_ofPlaces, rulings_ofPlaces]
  refine List.flatMap_congr fun p hp => (answersAlike_of_separate h hsame).rulings c hp ?_
  exact fun r hr => Or.inr (h.left p hp r.path (path_mem_mentioned hr))

theorem rulings_join (h : u.Separate v) (name : String) :
    ((u.join name v).index c).rulings = (u.index c).rulings ++ (v.index c).rulings := by
  rw [index_eq_ofPlaces (u.join name v), rulings_ofPlaces, places_join, List.flatMap_append,
    flatMap_rulings_of_separate h samePlaces_left,
    flatMap_rulings_of_separate h.symm samePlaces_right]

end Indexes

/-! ## Separate analyses -/

section Analyses

variable {u v : CompilationUnit} {c : Config}

theorem tellsArities_join (name : String) :
    (u.join name v).TellsArities c ↔ u.TellsArities c ∧ v.TellsArities c := by
  rw [CompilationUnit.TellsArities, familyDeclarations_join, List.forall_mem_append]
  rfl

theorem interruption?_join_eq_none_iff (h : u.Separate v) (name : String) :
    (u.join name v).interruption? c = none ↔
      u.interruption? c = none ∧ v.interruption? c = none := by
  have hleft : (∀ p ∈ u.places, p.interruption? c (u.places ++ v.places) = none) ↔
      ∀ p ∈ u.places, p.interruption? c u.places = none :=
    forall₂_congr fun p hp => by
      rw [(answersAlike_of_separate h samePlaces_left).interruption? c hp]
  have hright : (∀ p ∈ v.places, p.interruption? c (u.places ++ v.places) = none) ↔
      ∀ p ∈ v.places, p.interruption? c v.places = none :=
    forall₂_congr fun p hp => by
      rw [(answersAlike_of_separate h.symm samePlaces_right).interruption? c hp]
  simp only [interruption?_eq_none_iff, familyDeclarations_join, places_join, rulings_join h,
    List.forall_mem_append, hleft, hright, tellsArities_join]
  tauto

theorem joins_analyze (h : u.Separate v) (name : String) :
    ((u.join name v).analyze c).Joins (u.analyze c) (v.analyze c) := by
  have hfamilies : (u.join name v).families c = u.families c ++ v.families c := by
    rw [CompilationUnit.families, familyDeclarations_join, List.filterMap_append]
    rfl
  have hdiagnostics : ((u.join name v).diagnostics c).Perm
      (u.diagnostics c ++ v.diagnostics c) := by
    refine perm_diagnostics.trans (.trans ?_ (perm_diagnostics.symm.append perm_diagnostics.symm))
    rw [CompilationUnit.buildDiagnostics, familyDeclarations_join, rulings_join h]
    simp only [List.flatMap_append, List.filterMap_append, List.perm_iff_count, List.count_append]
    intro x
    rw [CompilationUnit.buildDiagnostics, CompilationUnit.buildDiagnostics]
    omega
  have hnil : (u.join name v).diagnostics c = [] ↔ u.diagnostics c ++ v.diagnostics c = [] :=
    ⟨fun h => List.perm_nil.1 (h ▸ hdiagnostics.symm), fun h => List.perm_nil.1 (h ▸ hdiagnostics)⟩
  have hpassed : ((u.join name v).analyze c).passed = true ↔
      (u.analyze c).passed = true ∧ (v.analyze c).passed = true := by
    rw [passed_iff, passed_iff, passed_iff, ← List.append_eq_nil_iff]
    exact hnil
  refine ⟨hfamilies, hdiagnostics, hpassed, fun hu hv => ?_⟩
  rw [generated_of_passed (hpassed.2 ⟨hu, hv⟩), generated_of_passed hu, generated_of_passed hv,
    ← List.map_append]
  exact congrArg _ hfamilies

end Analyses

/-- Separate units are analyzed together exactly if each is, with the results joined. -/
theorem joined_exactly {u v : CompilationUnit} (h : u.Separate v) (name : String) (c : Config) :
    (∀ a b, u.analyzed c = .ok a → v.analyzed c = .ok b →
        ∃ r, (u.join name v).analyzed c = .ok r ∧ r.Joins a b) ∧
      ∀ r, (u.join name v).analyzed c = .ok r →
        ∃ a b, u.analyzed c = .ok a ∧ v.analyzed c = .ok b ∧ r.Joins a b := by
  simp only [analyzed_eq_ok_iff]
  constructor
  · rintro _ _ ⟨hu, rfl⟩ ⟨hv, rfl⟩
    exact ⟨_, ⟨(interruption?_join_eq_none_iff h name).2 ⟨hu, hv⟩, rfl⟩, joins_analyze h name⟩
  · rintro _ ⟨hw, rfl⟩
    obtain ⟨hu, hv⟩ := (interruption?_join_eq_none_iff h name).1 hw
    exact ⟨_, _, ⟨hu, rfl⟩, ⟨hv, rfl⟩, joins_analyze h name⟩

/-- A unit whose version uses an ordinary type. -/
def accountUnit : CompilationUnit where
  name := "account"
  modules := [.bare "Account" [.bare "raw"] [
    { ModuleDecl.bare "Stable" []
        [.bare "V1" [{ TypeDecl.bare "t" with shape := .synonym (.ofPath "raw" []) }] []] with
      attributes := ["versioned"] }]]

/-- A unit with a type of the same name inside another module, and a leak through an alias. -/
def orderUnit : CompilationUnit where
  name := "order"
  modules := [
    .bare "Order" [.bare "raw"] [
      { ModuleDecl.bare "Stable" [] [.bare "V1" [.bare "t"] []] with attributes := ["versioned"] }],
    { ModuleDecl.bare "Old" [] [] with aliasOf := some "Order.Stable" },
    { ModuleDecl.bare "App" [] [] with functorArguments := ["Old.V1"] }]

theorem joined_exactly_accountUnit_orderUnit : accountUnit.Separate orderUnit ∧
    ∃ r, (accountUnit.join "ledger" orderUnit).analyzed .standard = .ok r ∧
      r.Joins (accountUnit.analyze .standard) (orderUnit.analyze .standard) := by
  have h : accountUnit.Separate orderUnit := ⟨by decide, by decide, by decide⟩
  exact ⟨h, (joined_exactly h "ledger" .standard).1 _ _
    (analyzed_eq (by decide) (by decide) (by decide +kernel))
    (analyzed_eq (by decide) (by decide) (by decide +kernel))⟩

/-- The leak through the alias is the only one in the joined unit. -/
example : (((accountUnit.join "ledger" orderUnit).index .standard).versionLeaks).map (·.subject)
    = ["App"] := by
  decide +kernel

end SchemaVersioning
