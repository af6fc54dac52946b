import SchemaVersioning.Proofs.ParameterizedFamilies
import SchemaVersioning.Proofs.Walks

/-!
# Discovery of families

A module of a unit has a position: its number among the outermost modules or, behind the position of
the module around it, among the members of that.  In the lexicographic order of positions a module
comes before its members, and these before what follows it.  The families of a unit are declared at
the positions with a family attribute, one at each, in this order; those that differ with the
argument of a functor are reported in the same order (`families_found_exactly`).
-/

namespace SchemaVersioning

/-! ## Positions -/

/-- The modules on the way to a position. -/
def lineTo : List ModuleDecl → List Nat → Option (List ModuleDecl)
  | _, [] => some []
  | ms, i :: position => ms[i]?.bind fun m => (lineTo m.modules position).map (m :: ·)

mutual

/-- The positions in a module, its own first. -/
def positionsIn : ModuleDecl → List (List Nat)
  | ⟨_, _, _, modules, _, _, _, _, _, _⟩ => [] :: positionsFrom 0 modules

/-- The positions in modules that are numbered from some number on. -/
def positionsFrom (i : Nat) : List ModuleDecl → List (List Nat)
  | [] => []
  | m :: rest => (positionsIn m).map (i :: ·) ++ positionsFrom (i + 1) rest

end

theorem positionsIn_eq_cons (m : ModuleDecl) : positionsIn m = [] :: positionsFrom 0 m.modules := by
  cases m
  rw [positionsIn]

section Positions

variable {ms : List ModuleDecl} {m : ModuleDecl} {i : Nat} {position : List Nat}

theorem lineTo_cons_eq_some_iff {line : List ModuleDecl} :
    lineTo ms (i :: position) = some line ↔
      ∃ m rest, ms[i]? = some m ∧ lineTo m.modules position = some rest ∧ line = m :: rest := by
  simp only [lineTo, Option.bind_eq_some_iff, Option.map_eq_some_iff, eq_comm (a := line)]
  constructor
  · rintro ⟨m, hm, rest, hrest, rfl⟩
    exact ⟨m, rest, hm, hrest, rfl⟩
  · rintro ⟨m, rest, hm, hrest, rfl⟩
    exact ⟨m, hm, rest, hrest, rfl⟩

theorem mem_positionsFrom : position ∈ positionsFrom i ms ↔
    ∃ j m rest, ms[j]? = some m ∧ rest ∈ positionsIn m ∧ position = (i + j) :: rest := by
  induction ms generalizing i with
  | nil => simp [positionsFrom]
  | cons n ms ih =>
    rw [positionsFrom, List.mem_append, List.mem_map, ih]
    constructor
    · rintro (⟨rest, hrest, rfl⟩ | ⟨j, m, rest, hm, hrest, rfl⟩)
      · exact ⟨0, n, rest, rfl, hrest, rfl⟩
      · exact ⟨j + 1, m, rest, hm, hrest, by rw [Nat.add_right_comm, Nat.add_assoc]⟩
    · rintro ⟨j, m, rest, hm, hrest, rfl⟩
      cases j with
      | zero =>
        obtain rfl : n = m := Option.some.inj hm
        exact Or.inl ⟨rest, hrest, rfl⟩
      | succ j => exact Or.inr ⟨j, m, rest, hm, hrest, by rw [Nat.add_right_comm, Nat.add_assoc]⟩

/-- The positions in a module are those to which a way leads. -/
theorem mem_positionsIn :
    position ∈ positionsIn m ↔ ∃ line, lineTo m.modules position = some line := by
  induction position generalizing m with
  | nil => simp [positionsIn_eq_cons, lineTo]
  | cons i position ih =>
    rw [positionsIn_eq_cons, List.mem_cons, mem_positionsFrom]
    simp only [reduceCtorEq, false_or, lineTo_cons_eq_some_iff, Nat.zero_add, List.cons.injEq]
    constructor
    · rintro ⟨j, n, rest, hn, hrest, rfl, rfl⟩
      obtain ⟨line, hline⟩ := ih.1 hrest
      exact ⟨n :: line, n, line, hn, hline, rfl⟩
    · rintro ⟨-, n, line, hn, hline, -⟩
      exact ⟨i, n, position, hn, ih.2 ⟨line, hline⟩, rfl, rfl⟩

theorem exists_place (m : ModuleDecl) (line : List ModuleDecl) :
    ∃ p : Place, p.line = m :: line := by
  obtain ⟨before, last, hline⟩ := List.eq_nil_or_concat (m :: line) |>.resolve_left (by simp)
  exact ⟨⟨before, last⟩, by rw [hline, List.concat_eq_append]; rfl⟩

/-- The positions in modules are those to which a way leads to a place. -/
theorem mem_positions_iff :
    position ∈ positionsFrom 0 ms ↔ ∃ p : Place, lineTo ms position = some p.line := by
  rw [mem_positionsFrom]
  constructor
  · rintro ⟨i, m, rest, hm, hrest, rfl⟩
    obtain ⟨line, hline⟩ := mem_positionsIn.1 hrest
    obtain ⟨p, hp⟩ := exists_place m line
    exact ⟨p, hp ▸ lineTo_cons_eq_some_iff.2 ⟨m, line, by rwa [Nat.zero_add], hline, rfl⟩⟩
  · rintro ⟨p, hp⟩
    cases position with
    | nil => simp [lineTo, Place.line] at hp
    | cons i rest =>
      obtain ⟨m, line, hm, hline, -⟩ := lineTo_cons_eq_some_iff.1 hp
      exact ⟨i, m, rest, hm, mem_positionsIn.2 ⟨line, hline⟩, by rw [Nat.zero_add]⟩

mutual

/-- Positions are listed in their lexicographic order. -/
theorem pairwise_positionsIn : ∀ m : ModuleDecl, (positionsIn m).Pairwise (· < ·)
  | ⟨_, _, _, modules, _, _, _, _, _, _⟩ => by
    rw [positionsIn]
    refine List.pairwise_cons.2 ⟨fun position h => ?_, pairwise_positionsFrom 0 modules⟩
    obtain ⟨j, m, rest, -, -, rfl⟩ := mem_positionsFrom.1 h
    exact List.nil_lt_cons _ _

theorem pairwise_positionsFrom (i : Nat) :
    ∀ ms : List ModuleDecl, (positionsFrom i ms).Pairwise (· < ·)
  | [] => .nil
  | m :: rest => by
    rw [positionsFrom, List.pairwise_append, List.pairwise_map]
    refine ⟨(pairwise_positionsIn m).imp fun h => List.cons_lt_cons_iff.2 (Or.inr ⟨rfl, h⟩),
      pairwise_positionsFrom (i + 1) rest, fun a ha b hb => ?_⟩
    obtain ⟨_, _, rfl⟩ := List.mem_map.1 ha
    obtain ⟨j, _, _, -, -, rfl⟩ := mem_positionsFrom.1 hb
    exact List.cons_lt_cons_iff.2 (Or.inl (by omega))

end

mutual

/-- The places in a module are listed as their positions are. -/
theorem forall₂_positionsIn (ancestors : List ModuleDecl) : ∀ m : ModuleDecl,
    List.Forall₂ (fun position p => ∃ line, lineTo m.modules position = some line ∧
      p.line = ancestors ++ m :: line) (positionsIn m) (Place.ofModule ancestors m)
  | ⟨name, types, values, modules, attributes, codec, aliasOf, functor, args, loc⟩ => by
    rw [positionsIn, Place.ofModule]
    refine .cons ⟨[], rfl, rfl⟩ ((forall₂_positionsFrom _ 0 modules).imp ?_)
    rintro position p ⟨j, m, rest, line, rfl, hm, hline, hp⟩
    refine ⟨m :: line, ?_, by rw [hp, List.append_assoc]; rfl⟩
    exact lineTo_cons_eq_some_iff.2 ⟨m, line, by rwa [Nat.zero_add], hline, rfl⟩

theorem forall₂_positionsFrom (ancestors : List ModuleDecl) (i : Nat) : ∀ ms : List ModuleDecl,
    List.Forall₂ (fun position p => ∃ j m rest line, position = (i + j) :: rest ∧
      ms[j]? = some m ∧ lineTo m.modules rest = some line ∧ p.line = ancestors ++ m :: line)
      (positionsFrom i ms) (Place.ofModules ancestors ms)
  | [] => .nil
  | m :: ms => by
    rw [positionsFrom, Place.ofModules]
    refine List.rel_append (List.forall₂_map_left_iff.2 ((forall₂_positionsIn ancestors m).imp ?_))
      ((forall₂_positionsFrom ancestors (i + 1) ms).imp ?_)
    · rintro rest p ⟨line, hline, hp⟩
      exact ⟨0, m, rest, line, rfl, rfl, hline, hp⟩
    · rintro position p ⟨j, n, rest, line, rfl, hn, hline, hp⟩
      exact ⟨j + 1, n, rest, line, by rw [Nat.add_right_comm, Nat.add_assoc], hn, hline, hp⟩

end

end Positions

/-! ## Containers -/

/-- The names of the attributes that make a module a container. -/
def familyAttributeNames : List String := familyAttributes.map (·.1)

/-- A module has a family attribute. -/
def ModuleDecl.IsContainer (m : ModuleDecl) : Prop :=
  ∃ name ∈ m.attributes, name ∈ familyAttributeNames

instance (m : ModuleDecl) : Decidable m.IsContainer :=
  inferInstanceAs (Decidable (∃ name ∈ m.attributes, _))

/-- What the first family attribute among some attributes stands for. -/
def FirstFamilyAttribute (attributes : List String) (kind : FamilyKind) (strategy : CodecStrategy) :
    Prop :=
  ∃ before name after, attributes = before ++ name :: after ∧
    (∀ other ∈ before, other ∉ familyAttributeNames) ∧ (name, kind, strategy) ∈ familyAttributes

section Containers

variable {m : ModuleDecl} {kind : FamilyKind} {strategy : CodecStrategy}

theorem lookup_familyAttributes_eq_none_iff {name : String} :
    familyAttributes.lookup name = none ↔ name ∉ familyAttributeNames := by
  rw [List.lookup_eq_none_iff, familyAttributeNames, List.mem_map]
  simp only [bne_iff_ne, ne_eq, not_exists, not_and, eq_comm (a := name)]

/-- No family attribute stands for two things. -/
theorem lookup_familyAttributes_eq_some_iff {name : String} :
    familyAttributes.lookup name = some (kind, strategy)
      ↔ (name, kind, strategy) ∈ familyAttributes := by
  have hdecided : ∀ entry ∈ familyAttributes, familyAttributes.lookup entry.1 = some entry.2 := by
    decide
  refine ⟨fun h => ?_, fun h => hdecided _ h⟩
  obtain ⟨before, after, heq, -⟩ := List.lookup_eq_some_iff.1 h
  rw [heq]
  exact List.mem_append_right _ List.mem_cons_self

theorem familyAttribute?_eq_some_iff :
    m.familyAttribute? = some (kind, strategy) ↔
      FirstFamilyAttribute m.attributes kind strategy := by
  simp only [ModuleDecl.familyAttribute?, List.findSome?_eq_some_iff, FirstFamilyAttribute,
    lookup_familyAttributes_eq_some_iff, lookup_familyAttributes_eq_none_iff]
  constructor
  · rintro ⟨before, name, after, heq, hname, hbefore⟩
    exact ⟨before, name, after, heq, hbefore, hname⟩
  · rintro ⟨before, name, after, heq, hbefore, hname⟩
    exact ⟨before, name, after, heq, hname, hbefore⟩

theorem isSome_familyAttribute?_iff : m.familyAttribute?.isSome = true ↔ m.IsContainer := by
  rw [ModuleDecl.familyAttribute?, List.findSome?_isSome_iff]
  simp only [ModuleDecl.IsContainer, Option.isSome_iff_ne_none, ne_eq,
    lookup_familyAttributes_eq_none_iff, not_not]

end Containers

/-! ## Declared families -/

/-- What is declared at the place of a container. -/
structure Place.Declares (c : Config) (p : Place) (d : FamilyDeclaration) : Prop where
  container : d.container = p.module
  kind : FirstFamilyAttribute p.module.attributes d.kind d.strategy
  parentPath : d.parentPath = p.ancestors.map (·.name)
  /-- The types beside the container; outside of all modules there are none. -/
  parentTypes : d.parentTypes = (p.ancestors.getLast?.map (·.types)).getD []
  /-- The arities of the functor bodies around the container and its own, outermost first. -/
  functorArities : d.functorArities = p.line.filterMap (·.arity?)
  inTest : d.inTest = true ↔
    ∃ m ∈ p.line, m.name = c.testModuleName ∨ testAttribute ∈ m.attributes

namespace Enclosure

variable (c : Config)

theorem arities_within (line : List ModuleDecl) :
    (within c line).arities = line.filterMap (·.arity?) := by
  induction line using List.reverseRecOn with
  | nil => rfl
  | append_singleton line m ih =>
    rw [within_concat, List.filterMap_append, ← ih]
    cases h : m.arity? <;> simp [enter, h]

theorem types_within (line : List ModuleDecl) :
    (within c line).types = (line.getLast?.map (·.types)).getD [] := by
  rcases List.eq_nil_or_concat line with rfl | ⟨line, m, rfl⟩
  · rfl
  · rw [List.concat_eq_append, within_concat, List.getLast?_concat]
    rfl

end Enclosure

namespace Place

variable {c : Config} {p : Place} {d : FamilyDeclaration}

theorem declares_of_declaration? (h : p.declaration? c = some d) : p.Declares c d := by
  have hline : (Enclosure.within c p.ancestors).enter c p.module = Enclosure.within c p.line :=
    (Enclosure.within_concat c _ _).symm
  have htest : d.inTest = true ↔
      ∃ m ∈ p.line, m.name = c.testModuleName ∨ testAttribute ∈ m.attributes := by
    simp [inTest_of_declaration? h, Config.isTest, ModuleDecl.hasAttribute]
  obtain ⟨⟨kind, strategy⟩, hattribute, rfl⟩ := Option.map_eq_some_iff.1 h
  exact {
    container := rfl
    kind := familyAttribute?_eq_some_iff.1 hattribute
    parentPath := Enclosure.path_within c _
    parentTypes := Enclosure.types_within c _
    functorArities := (congrArg Enclosure.arities hline).trans (Enclosure.arities_within c _)
    inTest := htest }

theorem isSome_declaration?_iff : (p.declaration? c).isSome = true ↔ p.module.IsContainer := by
  rw [declaration?, Enclosure.declaration?, Option.isSome_map, isSome_familyAttribute?_iff]

end Place

/-- What is declared in a unit: at each position of a container one family, in the order of the
positions. -/
def CompilationUnit.Declares (u : CompilationUnit) (c : Config) (ds : List FamilyDeclaration) :
    Prop :=
  ∃ positions : List (List Nat), positions.Pairwise (· < ·) ∧
    (∀ position, position ∈ positions ↔
      ∃ p : Place, lineTo u.modules position = some p.line ∧ p.module.IsContainer) ∧
    List.Forall₂ (fun position d => ∃ p : Place, lineTo u.modules position = some p.line ∧
      p.Declares c d) positions ds

section Found

/-- Lists that correspond still do so without the entries that a partial function leaves out. -/
theorem forall₂_filter_filterMap {α β γ : Type} {r : α → β → Prop} {q : α → Bool}
    {f : β → Option γ} (hq : ∀ a b, r a b → q a = (f b).isSome) {as : List α} {bs : List β}
    (h : List.Forall₂ r as bs) :
    List.Forall₂ (fun a x => ∃ b, r a b ∧ f b = some x) (as.filter q) (bs.filterMap f) := by
  induction h with
  | nil => exact .nil
  | @cons a b as bs hab _ ih =>
    cases hb : f b with
    | none =>
      rw [List.filter_cons_of_neg (by simp [hq a b hab, hb]), List.filterMap_cons_none hb]
      exact ih
    | some x =>
      rw [List.filter_cons_of_pos (by simp [hq a b hab, hb]), List.filterMap_cons_some hb]
      exact .cons ⟨b, hab, hb⟩ ih

variable (u : CompilationUnit) (c : Config)

/-- The places of a unit are listed as their positions are. -/
theorem forall₂_places : List.Forall₂ (fun position p => lineTo u.modules position = some p.line)
    (positionsFrom 0 u.modules) u.places := by
  refine (forall₂_positionsFrom [] 0 u.modules).imp ?_
  rintro position p ⟨j, m, rest, line, rfl, hm, hline, hp⟩
  exact lineTo_cons_eq_some_iff.2 ⟨m, line, by rwa [Nat.zero_add], hline, hp⟩

/-- Whether a container is at a position. -/
def isContainerAt (ms : List ModuleDecl) (position : List Nat) : Bool :=
  ((lineTo ms position).bind List.getLast?).any (·.IsContainer)

theorem isContainerAt_eq {ms : List ModuleDecl} {position : List Nat} {p : Place}
    (h : lineTo ms position = some p.line) :
    isContainerAt ms position = (p.declaration? c).isSome := by
  rw [Bool.eq_iff_iff, Place.isSome_declaration?_iff, isContainerAt, h]
  simp [Place.line]

theorem declares_familyDeclarations : u.Declares c (u.familyDeclarations c) := by
  refine ⟨(positionsFrom 0 u.modules).filter (isContainerAt u.modules),
    (pairwise_positionsFrom 0 u.modules).filter _, fun position => ?_, ?_⟩
  · rw [List.mem_filter, mem_positions_iff]
    constructor
    · rintro ⟨⟨p, hp⟩, hcontainer⟩
      rw [isContainerAt_eq .standard hp, Place.isSome_declaration?_iff] at hcontainer
      exact ⟨p, hp, hcontainer⟩
    · rintro ⟨p, hp, hcontainer⟩
      rw [isContainerAt_eq .standard hp, Place.isSome_declaration?_iff]
      exact ⟨⟨p, hp⟩, hcontainer⟩
  · rw [familyDeclarations_eq]
    have hcontainers := forall₂_filter_filterMap (f := Place.declaration? c)
      (fun _ _ hp => isContainerAt_eq c hp) (forall₂_places u)
    refine hcontainers.imp ?_
    rintro position d ⟨p, hp, hd⟩
    exact ⟨p, hp, Place.declares_of_declaration? hd⟩

theorem functorInterruption?_nil : functorInterruption? (u.familyDeclarations c) []
    = (u.familyDeclarations c).findSome? FamilyDeclaration.arityInterruption? := by
  rw [functorInterruption?, foreignFamilies, List.findSome?_nil, Option.or_none]

variable {u c}

/-- The rule on functors reports on the families of a unit if all arities can be told. -/
theorem functorFindings_of_tellsArities (ha : u.TellsArities c) :
    functorFindings (u.familyDeclarations c) []
      = .ok (functorFamilies (u.familyDeclarations c) []) := by
  rw [functorFindings, functorInterruption?_nil, tellsArities_iff.1 ha]

theorem functorFindings_of_not_tellsArities (ha : ¬ u.TellsArities c) :
    functorFindings (u.familyDeclarations c) [] = .error .overlongNumeral := by
  rw [functorFindings, functorInterruption?_nil, interruption_of_not_tellsArities ha]

end Found

/-- The families of a unit are declared at its containers, in the order of their positions, and the
rule on functors reports once on each of them that differs with the argument of a functor, in the
same order.  It reports on none if the arity of a functor around one of them has too many digits. -/
theorem families_found_exactly (u : CompilationUnit) (c : Config) :
    u.Declares c (u.familyDeclarations c) ∧
      (u.TellsArities c → ∃ ds, functorFindings (u.familyDeclarations c) [] = .ok ds ∧
        List.Forall₂ FunctorEntry.ReportedBy
          (((u.familyDeclarations c).map (·.entry)).filter (·.Offends)) ds) ∧
      (¬ u.TellsArities c →
        functorFindings (u.familyDeclarations c) [] = .error .overlongNumeral) := by
  refine ⟨declares_familyDeclarations u c, fun ha => ?_, functorFindings_of_not_tellsArities⟩
  have hreports : functorReports (u.familyDeclarations c) []
      = ((u.familyDeclarations c).map (·.entry)).filter (·.Offends) := by
    rw [functorReports, List.map_nil, FunctorEntry.firsts, List.append_nil]
  refine ⟨_, functorFindings_of_tellsArities ha, ?_⟩
  rw [← hreports]
  exact forall₂_functorFamilies _ _

theorem entries_functorUnit (arity : Nat) :
    ((functorUnit arity).familyDeclarations .standard).map (fun d => (d.inTest, d.functorArities))
      = [(false, [arity])] := rfl

/-- The only container of a unit, inside a functor of too many parameters, is not reported. -/
theorem functorUnit_unreported :
    ((functorUnit DecimalDigit.limit).familyDeclarations .standard).map
        (fun d => (d.inTest, d.functorArities)) = [(false, [DecimalDigit.limit])] ∧
      functorFindings ((functorUnit DecimalDigit.limit).familyDeclarations .standard) []
        = .error .overlongNumeral := by
  refine ⟨entries_functorUnit _, functorFindings_of_not_tellsArities fun ha => ?_⟩
  exact (arity_lt_of_tellsArities ha).false

end SchemaVersioning
