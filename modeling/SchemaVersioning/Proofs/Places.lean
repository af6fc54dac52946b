import SchemaVersioning.Declaration

/-!
# Places

The modules of a unit form a forest.  A place is a module with the modules around it; `places` lists
all of them in tree order.  Everything that is read off a unit is read off its places, so facts
about a walk become facts about lines of modules, each a member of the one before
(`mem_ofModules`).  Where siblings have distinct names, a path leads to one place only
(`eq_of_path_eq`).
-/

namespace SchemaVersioning

/-! ## Bare declarations -/

/-- A type of which nothing but the name matters. -/
def TypeDecl.bare (name : String) : TypeDecl := ⟨name, .abstract, [], [], [], [], none⟩

/-- A module of which only the name, the types and the members matter. -/
def ModuleDecl.bare (name : String) (types : List TypeDecl) (modules : List ModuleDecl) :
    ModuleDecl where
  name := name
  types := types
  values := []
  modules := modules
  attributes := []
  codec := none
  aliasOf := none
  functor := none
  functorArguments := []
  location := none

/-! ## Lines of modules -/

/-- Each module of a line is a member of the one before it, the first one of some given modules. -/
def Lineage : List ModuleDecl → List ModuleDecl → Prop
  | _, [] => True
  | ms, m :: line => m ∈ ms ∧ Lineage m.modules line

/-- The names of the modules of a line. -/
def Path.ofLine (line : List ModuleDecl) : Path := line.map (·.name)

@[simp] theorem ofLine_nil : Path.ofLine [] = [] := rfl

@[simp] theorem ofLine_cons (m : ModuleDecl) (line : List ModuleDecl) :
    Path.ofLine (m :: line) = m.name :: Path.ofLine line := rfl

@[simp] theorem ofLine_append (a b : List ModuleDecl) :
    Path.ofLine (a ++ b) = Path.ofLine a ++ Path.ofLine b := List.map_append

@[simp] theorem length_ofLine (line : List ModuleDecl) :
    (Path.ofLine line).length = line.length := List.length_map _

/-- The members of the last module of a line. -/
def membersBelow : List ModuleDecl → List ModuleDecl → List ModuleDecl
  | ms, [] => ms
  | _, m :: line => membersBelow m.modules line

@[simp] theorem membersBelow_concat (ms line : List ModuleDecl) (m : ModuleDecl) :
    membersBelow ms (line ++ [m]) = m.modules := by
  induction line generalizing ms with
  | nil => rfl
  | cons n line ih => exact ih n.modules

theorem lineage_append {ms a b : List ModuleDecl} :
    Lineage ms (a ++ b) ↔ Lineage ms a ∧ Lineage (membersBelow ms a) b := by
  induction a generalizing ms with
  | nil => simp [Lineage, membersBelow]
  | cons m a ih => simp only [List.cons_append, Lineage, membersBelow, ih, and_assoc]

theorem lineage_concat {ms line : List ModuleDecl} {m : ModuleDecl} :
    Lineage ms (line ++ [m]) ↔ Lineage ms line ∧ m ∈ membersBelow ms line := by
  simp [lineage_append, Lineage]

/-! ## Places of a unit -/

/-- A module of a unit with the modules around it, outermost first. -/
structure Place where
  ancestors : List ModuleDecl
  module : ModuleDecl

namespace Place

/-- The modules around a place and the module itself. -/
def line (p : Place) : List ModuleDecl := p.ancestors ++ [p.module]

/-- The path of the module. -/
def path (p : Place) : Path := Path.ofLine p.line

theorem path_eq (p : Place) : p.path = Path.ofLine p.ancestors ++ [p.module.name] := by
  simp [path, line]

mutual

/-- The places in a module with some modules around it, its own first. -/
def ofModule (ancestors : List ModuleDecl) : ModuleDecl → List Place
  | m@⟨_, _, _, modules, _, _, _, _, _, _⟩ =>
    ⟨ancestors, m⟩ :: ofModules (ancestors ++ [m]) modules

/-- The places in modules with some modules around them, in tree order. -/
def ofModules (ancestors : List ModuleDecl) : List ModuleDecl → List Place
  | [] => []
  | m :: rest => ofModule ancestors m ++ ofModules ancestors rest

end

theorem ofModules_eq_flatMap (ancestors ms : List ModuleDecl) :
    ofModules ancestors ms = ms.flatMap (ofModule ancestors) := by
  induction ms with
  | nil => rfl
  | cons m rest ih => rw [ofModules, List.flatMap_cons, ih]

theorem ofModule_eq_cons (ancestors : List ModuleDecl) (m : ModuleDecl) :
    ofModule ancestors m = ⟨ancestors, m⟩ :: ofModules (ancestors ++ [m]) m.modules := by
  cases m
  rw [ofModule]

mutual

theorem mem_ofModule {p : Place} : ∀ (ancestors : List ModuleDecl) (m : ModuleDecl),
    p ∈ ofModule ancestors m ↔
      ∃ line, p.ancestors = ancestors ++ line ∧ Lineage [m] (line ++ [p.module])
  | ancestors, ⟨name, types, values, modules, attributes, codec, aliasOf, functor, args, loc⟩ => by
    simp only [ofModule, List.mem_cons]
    rw [mem_ofModules]
    constructor
    · rintro (rfl | ⟨line, ha, hl⟩)
      · exact ⟨[], by simp, by simp [Lineage]⟩
      · exact ⟨_ :: line, by simpa using ha, List.mem_singleton_self _, hl⟩
    · rintro ⟨line, ha, hl⟩
      cases line with
      | nil =>
        obtain ⟨a, m⟩ := p
        simp only [List.nil_append, Lineage, List.mem_singleton, and_true] at hl
        simp only [List.append_nil] at ha
        exact Or.inl (by rw [ha, hl])
      | cons n line =>
        obtain ⟨hn, hl⟩ := hl
        obtain rfl := List.mem_singleton.1 hn
        exact Or.inr ⟨line, by simpa using ha, hl⟩

/-- The places in some modules are the ends of the lines of descent that start among them. -/
theorem mem_ofModules {p : Place} : ∀ (ancestors ms : List ModuleDecl),
    p ∈ ofModules ancestors ms ↔
      ∃ line, p.ancestors = ancestors ++ line ∧ Lineage ms (line ++ [p.module])
  | ancestors, [] => by
    simp only [ofModules, List.not_mem_nil, false_iff]
    rintro ⟨line, -, hl⟩
    cases line <;> simp [Lineage] at hl
  | ancestors, m :: rest => by
    simp only [ofModules, List.mem_append]
    rw [mem_ofModule ancestors m, mem_ofModules ancestors rest]
    constructor
    · rintro (⟨line, ha, hl⟩ | ⟨line, ha, hl⟩)
      · refine ⟨line, ha, ?_⟩
        cases line <;> exact ⟨by simp [List.mem_singleton.1 hl.1], hl.2⟩
      · refine ⟨line, ha, ?_⟩
        cases line <;> exact ⟨List.mem_cons_of_mem _ hl.1, hl.2⟩
    · rintro ⟨line, ha, hl⟩
      cases line with
      | nil =>
        rcases List.mem_cons.1 hl.1 with h | h
        · exact Or.inl ⟨[], ha, by simpa using h, hl.2⟩
        · exact Or.inr ⟨[], ha, h, hl.2⟩
      | cons n line =>
        rcases List.mem_cons.1 hl.1 with h | h
        · exact Or.inl ⟨n :: line, ha, by simpa using h, hl.2⟩
        · exact Or.inr ⟨n :: line, ha, h, hl.2⟩

end

end Place

/-- The places of a unit in tree order. -/
def CompilationUnit.places (u : CompilationUnit) : List Place := Place.ofModules [] u.modules

theorem mem_places {u : CompilationUnit} {p : Place} :
    p ∈ u.places ↔ Lineage u.modules p.line := by
  simp only [CompilationUnit.places, Place.mem_ofModules, List.nil_append, Place.line]
  exact ⟨fun ⟨_, ha, hl⟩ => ha ▸ hl, fun hl => ⟨_, rfl, hl⟩⟩

/-- The members of a module of a unit are modules of the unit. -/
theorem mem_places_of_member {u : CompilationUnit} {p : Place} {m : ModuleDecl}
    (hp : p ∈ u.places) (hm : m ∈ p.module.modules) : ⟨p.line, m⟩ ∈ u.places := by
  rw [mem_places] at hp ⊢
  have hb : membersBelow u.modules p.line = p.module.modules := membersBelow_concat _ _ _
  exact lineage_concat.2 ⟨hp, hb ▸ hm⟩

/-! ## Distinct names -/

/-- No two modules declared side by side share their name. -/
def CompilationUnit.DistinctSiblings (u : CompilationUnit) : Prop :=
  (u.modules.map (·.name)).Nodup ∧ ∀ p ∈ u.places, (p.module.modules.map (·.name)).Nodup

instance (u : CompilationUnit) : Decidable u.DistinctSiblings := inferInstanceAs (Decidable (_ ∧ _))

theorem eq_of_name_eq {ms : List ModuleDecl} {m n : ModuleDecl}
    (hd : (ms.map (·.name)).Nodup) (hm : m ∈ ms) (hn : n ∈ ms) (h : m.name = n.name) : m = n := by
  induction ms with
  | nil => cases hm
  | cons k ms ih =>
    obtain ⟨hk, hd⟩ := List.nodup_cons.1 hd
    rcases List.mem_cons.1 hm with hmk | hm' <;> rcases List.mem_cons.1 hn with hnk | hn'
    · rw [hmk, hnk]
    · exact absurd (List.mem_map.2 ⟨n, hn', by rw [← h, hmk]⟩) hk
    · exact absurd (List.mem_map.2 ⟨m, hm', by rw [h, hnk]⟩) hk
    · exact ih hd hm' hn'

theorem CompilationUnit.DistinctSiblings.nodup_membersBelow {u : CompilationUnit}
    (hu : u.DistinctSiblings) {line : List ModuleDecl} (hl : Lineage u.modules line) :
    ((membersBelow u.modules line).map (·.name)).Nodup := by
  rcases List.eq_nil_or_concat line with rfl | ⟨line, m, rfl⟩
  · exact hu.1
  · rw [List.concat_eq_append] at hl ⊢
    rw [membersBelow_concat]
    exact hu.2 ⟨line, m⟩ (mem_places.2 hl)

/-- Lines of descent with the same names are the same. -/
theorem CompilationUnit.DistinctSiblings.eq_of_ofLine_eq {u : CompilationUnit}
    (hu : u.DistinctSiblings) {a b : List ModuleDecl} (ha : Lineage u.modules a)
    (hb : Lineage u.modules b) (h : Path.ofLine a = Path.ofLine b) : a = b := by
  -- The lines agree up to a common start; one more name decides one more module.
  suffices key : ∀ (start a b : List ModuleDecl), Lineage u.modules (start ++ a) →
      Lineage u.modules (start ++ b) → Path.ofLine a = Path.ofLine b → a = b from
    key [] a b ha hb h
  intro start a
  induction a generalizing start with
  | nil =>
    intro b _ _ h
    cases b with
    | nil => rfl
    | cons n b => cases h
  | cons m a ih =>
    intro b ha hb h
    cases b with
    | nil => cases h
    | cons n b =>
      obtain ⟨hn, hrest⟩ := List.cons.inj h
      obtain ⟨hs, hma⟩ := lineage_append.1 ha
      obtain ⟨-, hnb⟩ := lineage_append.1 hb
      obtain rfl : m = n := eq_of_name_eq (hu.nodup_membersBelow hs) hma.1 hnb.1 hn
      rw [ih (start ++ [m]) b (by simpa using ha) (by simpa using hb) hrest]

/-- A path leads to one place only. -/
theorem CompilationUnit.DistinctSiblings.eq_of_path_eq {u : CompilationUnit}
    (hu : u.DistinctSiblings) {p q : Place} (hp : p ∈ u.places) (hq : q ∈ u.places)
    (h : p.path = q.path) : p = q := by
  obtain ⟨a, m⟩ := p
  obtain ⟨b, n⟩ := q
  have hl := hu.eq_of_ofLine_eq (mem_places.1 hp) (mem_places.1 hq) h
  obtain ⟨rfl, hm⟩ := List.append_inj' hl rfl
  obtain rfl : m = n := by simpa using hm
  rfl

end SchemaVersioning
