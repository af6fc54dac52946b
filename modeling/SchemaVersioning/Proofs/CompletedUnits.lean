import SchemaVersioning.Proofs.ReorderedContainers

/-!
# Completed units

A unit is completed by appending to each container the alias module that is generated for it.  The
places of the completed unit are those of the unit and one more for each alias module
(`perm_outline_completed`), and every container that builds without such a module builds the same
family with it (`build_completed`).
-/

namespace SchemaVersioning

/-! ## More members -/

namespace ModuleDecl

mutual

/-- A module in the module at a path with more members after its own: those that are given for its
path, and so for each module in it. -/
def extended (extra : Path → List ModuleDecl) (parent : Path) : ModuleDecl → ModuleDecl
  | ⟨name, types, values, modules, attributes, codec, aliasOf, functor, arguments, location⟩ =>
    ⟨name, types, values, extendedAll extra (parent ++ [name]) modules ++ extra (parent ++ [name]),
      attributes, codec, aliasOf, functor, arguments, location⟩

/-- Modules in the module at a path with more members after their own. -/
def extendedAll (extra : Path → List ModuleDecl) (parent : Path) :
    List ModuleDecl → List ModuleDecl
  | [] => []
  | m :: rest => extended extra parent m :: extendedAll extra parent rest

end

/-- A module that declares no modules, and no family. -/
def IsLeaf (m : ModuleDecl) : Prop := m.modules = [] ∧ m.attributes = []

variable {extra : Path → List ModuleDecl} {parent : Path}

theorem extendedAll_eq_map (ms : List ModuleDecl) :
    extendedAll extra parent ms = ms.map (extended extra parent) := by
  induction ms with
  | nil => rfl
  | cons m rest ih => rw [extendedAll, List.map_cons, ih]

theorem modules_extended (m : ModuleDecl) : (m.extended extra parent).modules
    = m.modules.map (extended extra (parent ++ [m.name])) ++ extra (parent ++ [m.name]) := by
  cases m
  rw [extended, extendedAll_eq_map]

theorem alone_extended (m : ModuleDecl) : (m.extended extra parent).alone = m.alone := by
  cases m
  rw [extended]
  rfl

end ModuleDecl

/-- The alias modules that are generated for the container at a path. -/
def latestsAt (gs : List GeneratedFamily) (p : Path) : List ModuleDecl :=
  (gs.filter (·.containerPath = p)).map (·.latestModule)

/-- A unit with each generated alias module appended to its container. -/
def CompilationUnit.completed (u : CompilationUnit) (gs : List GeneratedFamily) :
    CompilationUnit :=
  ⟨u.name, ModuleDecl.extendedAll (latestsAt gs) [] u.modules⟩

/-! ## Places of extended modules -/

/-- The places of the members that a module is given. -/
def Place.added (extra : Path → List ModuleDecl) (p : Place) : List Place :=
  (extra p.path).map fun m => ⟨p.line, m⟩

section Places

variable {extra : Path → List ModuleDecl}

/-- A line with one more module that is extended is the same up to members. -/
theorem map_alone_concat_extended (extra : Path → List ModuleDecl) (parent : Path)
    (m : ModuleDecl) {line line' : List ModuleDecl}
    (hline : line'.map ModuleDecl.alone = line.map ModuleDecl.alone) :
    (line' ++ [m.extended extra parent]).map ModuleDecl.alone
      = (line ++ [m]).map ModuleDecl.alone := by
  rw [List.map_append, List.map_append, hline, List.map_singleton, List.map_singleton,
    ModuleDecl.alone_extended]

/-- A module that declares no modules is the only one at its place. -/
theorem map_alone_ofModules_leaves {ms : List ModuleDecl} (hms : ∀ m ∈ ms, m.IsLeaf)
    (line : List ModuleDecl) : (Place.ofModules line ms).map Place.alone
      = ms.map fun m => ⟨line.map ModuleDecl.alone, m.alone⟩ := by
  rw [Place.ofModules_eq_flatMap, List.map_flatMap, List.map_eq_flatMap]
  refine List.flatMap_congr fun m hm => ?_
  rw [Place.ofModule_eq_cons, (hms m hm).1]
  rfl

/-- The places in an extended module: its own, those in its members, and those of the members that
it is given. -/
theorem map_alone_ofModule_extended (hleaf : ∀ q, ∀ m ∈ extra q, m.IsLeaf) (m : ModuleDecl)
    {line line' : List ModuleDecl}
    (hline : line'.map ModuleDecl.alone = line.map ModuleDecl.alone) :
    (Place.ofModule line' (m.extended extra (Path.ofLine line))).map Place.alone
      = (Place.mk line m).alone
        :: ((Place.ofModules (line' ++ [m.extended extra (Path.ofLine line)])
            (ModuleDecl.extendedAll extra (Path.ofLine (line ++ [m])) m.modules)).map Place.alone
          ++ ((Place.mk line m).added extra).map Place.alone) := by
  have hpath : Path.ofLine (line ++ [m]) = Path.ofLine line ++ [m.name] := ofLine_append _ _
  have hown : (Place.mk line' (m.extended extra (Path.ofLine line))).alone
      = (Place.mk line m).alone := by
    show Place.mk _ (ModuleDecl.alone _) = Place.mk _ _
    rw [hline, ModuleDecl.alone_extended]
  have hadded : ((Place.mk line m).added extra).map Place.alone
      = (extra (Path.ofLine (line ++ [m]))).map
        fun n => ⟨(line ++ [m]).map ModuleDecl.alone, n.alone⟩ := List.map_map ..
  rw [Place.ofModule_eq_cons, ModuleDecl.modules_extended, ← ModuleDecl.extendedAll_eq_map,
    ← hpath, Place.ofModules_eq_flatMap, List.flatMap_append, ← Place.ofModules_eq_flatMap,
    ← Place.ofModules_eq_flatMap, List.map_cons, List.map_append,
    map_alone_ofModules_leaves (hleaf _), map_alone_concat_extended _ _ m hline, hown, hadded]

mutual

theorem perm_ofModule_extended (hleaf : ∀ q, ∀ m ∈ extra q, m.IsLeaf) :
    ∀ (m : ModuleDecl) {line line' : List ModuleDecl},
      line'.map ModuleDecl.alone = line.map ModuleDecl.alone →
        ((Place.ofModule line' (m.extended extra (Path.ofLine line))).map Place.alone).Perm
          ((Place.ofModule line m ++ (Place.ofModule line m).flatMap (Place.added extra)).map
            Place.alone)
  | ⟨name, types, values, modules, attributes, codec, aliasOf, functor, args, loc⟩, line, line',
      hline => by
    have hmembers := perm_ofModules_extended hleaf modules (map_alone_concat_extended extra
      (Path.ofLine line)
      ⟨name, types, values, modules, attributes, codec, aliasOf, functor, args, loc⟩ hline)
    rw [map_alone_ofModule_extended hleaf _ hline, Place.ofModule_eq_cons]
    simp only [List.flatMap_cons, List.map_append, List.map_cons, List.cons_append] at hmembers ⊢
    -- The given members stand behind all others on the left and in front of theirs on the right.
    refine ((hmembers.append_right _).cons _).trans (List.Perm.cons _ ?_)
    rw [List.append_assoc]
    exact List.Perm.append_left _ List.perm_append_comm

/-- The places of extended modules are those of the modules, and those of the members that each of
them is given. -/
theorem perm_ofModules_extended (hleaf : ∀ q, ∀ m ∈ extra q, m.IsLeaf) :
    ∀ (ms : List ModuleDecl) {line line' : List ModuleDecl},
      line'.map ModuleDecl.alone = line.map ModuleDecl.alone →
        ((Place.ofModules line' (ModuleDecl.extendedAll extra (Path.ofLine line) ms)).map
          Place.alone).Perm
          ((Place.ofModules line ms ++ (Place.ofModules line ms).flatMap (Place.added extra)).map
            Place.alone)
  | [], _, _, _ => .refl _
  | m :: rest, line, line', hline => by
    rw [ModuleDecl.extendedAll, Place.ofModules, Place.ofModules, List.map_append]
    refine ((perm_ofModule_extended hleaf m hline).append
      (perm_ofModules_extended hleaf rest hline)).trans ?_
    simp only [List.flatMap_append, List.map_append, List.append_assoc]
    refine List.Perm.append_left _ ?_
    rw [← List.append_assoc, ← List.append_assoc]
    exact List.Perm.append_right _ List.perm_append_comm

end

end Places

/-! ## Families of extended modules -/

/-- A declaration with the members that its container is given, and those that each module in the
container is given. -/
def FamilyDeclaration.extended (extra : Path → List ModuleDecl) (d : FamilyDeclaration) :
    FamilyDeclaration :=
  d.withMembers (d.container.extended extra d.parentPath).modules

section Families

variable {extra : Path → List ModuleDecl} {c : Config}

theorem declarationsAll_leaves {outer : Enclosure} {ms : List ModuleDecl}
    (hms : ∀ m ∈ ms, m.IsLeaf) : outer.declarationsAll c ms = [] := by
  induction ms with
  | nil => rfl
  | cons m rest ih =>
    obtain ⟨hmodules, hattributes⟩ := hms m List.mem_cons_self
    have hnone : m.familyAttribute? = none := by rw [ModuleDecl.familyAttribute?, hattributes]; rfl
    obtain ⟨⟩ := m
    obtain rfl : _ = [] := hmodules
    rw [Enclosure.declarationsAll, Enclosure.declarations, Enclosure.declaration?, hnone,
      ih fun n hn => hms n (List.mem_cons_of_mem _ hn)]
    rfl

theorem declarationsAll_append {outer : Enclosure} (ms ns : List ModuleDecl) :
    outer.declarationsAll c (ms ++ ns)
      = outer.declarationsAll c ms ++ outer.declarationsAll c ns := by
  induction ms with
  | nil => rfl
  | cons m rest ih =>
    rw [List.cons_append, Enclosure.declarationsAll, Enclosure.declarationsAll, ih,
      List.append_assoc]

theorem declaration?_extended (outer : Enclosure) (m : ModuleDecl) :
    outer.declaration? c (m.extended extra outer.path)
      = (outer.declaration? c m).map (FamilyDeclaration.extended extra) := by
  obtain ⟨⟩ := m
  rw [Enclosure.declaration?, Enclosure.declaration?, Option.map_map]
  rfl

mutual

theorem declarations_extended (hleaf : ∀ q, ∀ m ∈ extra q, m.IsLeaf) :
    ∀ (m : ModuleDecl) (outer : Enclosure), outer.declarations c (m.extended extra outer.path)
      = (outer.declarations c m).map (FamilyDeclaration.extended extra)
  | ⟨name, types, values, modules, attributes, codec, aliasOf, functor, args, loc⟩, outer => by
    rw [Enclosure.declarations, List.map_append, ← declarationsAll_extended hleaf modules,
      ← Option.toList_map, ← declaration?_extended]
    show (outer.declaration? c _).toList ++ Enclosure.declarationsAll c _ (_ ++ _) = _
    rw [declarationsAll_append, declarationsAll_leaves (hleaf _), List.append_nil]
    rfl

/-- The families declared in extended modules are those declared in the modules, extended. -/
theorem declarationsAll_extended (hleaf : ∀ q, ∀ m ∈ extra q, m.IsLeaf) :
    ∀ (ms : List ModuleDecl) (outer : Enclosure),
      outer.declarationsAll c (ModuleDecl.extendedAll extra outer.path ms)
        = (outer.declarationsAll c ms).map (FamilyDeclaration.extended extra)
  | [], _ => rfl
  | m :: rest, outer => by
    rw [ModuleDecl.extendedAll, Enclosure.declarationsAll, Enclosure.declarationsAll,
      List.map_append, declarations_extended hleaf m, declarationsAll_extended hleaf rest]

end

end Families

/-! ## Builds with extended members -/

namespace FamilyDeclaration

/-- A function on members keeps what a build reads of them: the module without its members, and the
name and the location of the first test in it. -/
structure Keeps (c : Config) (g : ModuleDecl → ModuleDecl) : Prop where
  alone : ∀ m, (g m).alone = m.alone
  tests : ∀ m, ((g m).modules.find? c.isTest).map ModuleDecl.alone
    = (m.modules.find? c.isTest).map ModuleDecl.alone

section Kept

variable {d : FamilyDeclaration} {c : Config} {g : ModuleDecl → ModuleDecl} (hg : Keeps c g)

include hg

/-- What does not depend on members is the same of a module that is kept. -/
theorem Keeps.eq {β : Type} (f : ModuleDecl → β) (hf : ∀ m, f m.alone = f m) (m : ModuleDecl) :
    f (g m) = f m := ModuleDecl.eq_of_alone_eq f hf (hg.alone m)

theorem orderedVersions_kept : (d.withMembers (d.container.modules.map g)).orderedVersions c
    = (d.orderedVersions c).map (Prod.map id g) := by
  have hmodules : (d.withMembers (d.container.modules.map g)).versionModules c
      = (d.versionModules c).map (Prod.map id g) := by
    rw [versionModules_eq, versionModules_eq, List.map_filterMap]
    show (d.container.modules.map g).filterMap _ = _
    rw [List.filterMap_map]
    refine List.filterMap_congr fun m _ => ?_
    rw [Option.map_map, Function.comp_apply, hg.eq (fun m => versionNumber? m.name) fun _ => rfl]
    rfl
  rw [orderedVersions, orderedVersions, hmodules]
  refine (List.map_mergeSort ?_).symm
  intro _ _ _ _
  rfl

theorem highest_kept : (d.withMembers (d.container.modules.map g)).highest c = d.highest c := by
  rw [highest, highest, orderedVersions_kept hg, List.length_map]

theorem numbers_kept : (d.withMembers (d.container.modules.map g)).numbers c = d.numbers c := by
  rw [numbers, numbers, orderedVersions_kept hg, List.map_map]
  rfl

theorem memberFindings_kept :
    (d.withMembers (d.container.modules.map g)).memberFindings c = d.memberFindings c := by
  show (d.container.modules.map g).filterMap _ = _
  rw [List.filterMap_map]
  exact List.filterMap_congr fun m _ => hg.eq (fun m => if member c m = .unexpected then
    some (Finding.mk (.unexpectedMember m.name d.container.name) d.name m.location) else none)
    (fun _ => rfl) m

theorem testObligation?_kept :
    (d.withMembers (d.container.modules.map g)).testObligation? c = d.testObligation? c := by
  have hmodules : (d.withMembers (d.container.modules.map g)).testModules c
      = (d.testModules c).map g := by
    show (d.container.modules.map g).filter _ = _
    rw [List.filter_map]
    refine congrArg (List.map g) (List.filter_congr fun m _ => ?_)
    exact hg.eq (fun m => decide (member c m = .test)) (fun _ => rfl) m
  have hinner : ∀ m, ((g m).modules.find? c.isTest).map
        (fun t => TestObligation.mk (d.versionPath (g m) ++ [t.name]) t.location)
      = (m.modules.find? c.isTest).map
        fun t => TestObligation.mk (d.versionPath m ++ [t.name]) t.location := by
    intro m
    have htest := congrArg (Option.map fun t : ModuleDecl =>
      TestObligation.mk (d.versionPath m ++ [t.name]) t.location) (hg.tests m)
    rw [Option.map_map, Option.map_map] at htest
    rw [hg.eq d.versionPath fun _ => rfl]
    exact htest
  rw [testObligation?, testObligation?, hmodules, orderedVersions_kept hg]
  cases d.testModules c with
  | nil =>
    rw [List.map_nil, List.findSome?_map]
    exact congrArg (List.findSome? · _) (funext fun v => hinner v.2)
  | cons m rest =>
    have hname : (g m).name = m.name := hg.eq (·.name) (fun _ => rfl) m
    have hlocation : (g m).location = m.location := hg.eq (·.location) (fun _ => rfl) m
    simp only [List.map_cons, hname, hlocation]
    rfl

theorem parts_kept : (d.withMembers (d.container.modules.map g)).parts c = d.parts c := by
  have hversions : ((d.withMembers (d.container.modules.map g)).parts c).versions
      = (d.parts c).versions := by
    show List.map _ _ = List.map _ _
    rw [version_withMembers (highest_kept hg), orderedVersions_kept hg, List.map_map]
    exact List.map_congr_left fun v _ => hg.eq (d.version c v.1) (fun _ => rfl) v.2
  simp only [parts] at hversions
  simp only [parts, hversions, testObligation?_kept hg]
  rfl

omit hg in
/-- The last member of the name is the latest alias. -/
theorem eq_of_isLatestModule {ms : List ModuleDecl} {l m : ModuleDecl}
    (hversion : versionNumber? l.name = none) (hname : l.name = c.latestName)
    (hm : (d.withMembers (ms ++ [l])).IsLatestModule c m) : l = m := by
  have hlast : ((ms ++ [l]).filter fun m =>
      versionNumber? m.name = none ∧ m.name = c.latestName).getLast? = some l := by
    rw [List.filter_append, List.filter_cons_of_pos (by simpa using ⟨hversion, hname⟩),
      List.filter_nil, List.getLast?_concat]
  exact Option.some.inj (hlast.symm.trans hm)

/-- A container builds the same family with one more alias of the latest version at its end, if that
refers to the highest version only. -/
theorem build_latest {f : Family} (hbuild : d.build c = .ok f) {l : ModuleDecl}
    (hversion : versionNumber? l.name = none) (hname : l.name = c.latestName)
    (htargets : ∀ a ∈ aliasTargets l, versionNumber? a = some (d.highest c)) :
    (d.withMembers (d.container.modules.map g ++ [l])).build c = .ok f := by
  have hempty : d.withMembers (d.container.modules.map g ++ [])
      = d.withMembers (d.container.modules.map g) := by rw [List.append_nil]
  have hordered : (d.withMembers (d.container.modules.map g ++ [l])).orderedVersions c
      = (d.orderedVersions c).map (Prod.map id g) := by
    rw [orderedVersions_unread hversion, hempty, orderedVersions_kept hg]
  have hhigh : (d.withMembers (d.container.modules.map g ++ [l])).highest c = d.highest c := by
    rw [highest, hordered, List.length_map, highest]
  obtain ⟨hn, hfindings, hparts⟩ := build_eq_ok_iff.1 hbuild
  obtain ⟨hmembers, -, hversions, htest⟩ := findings_eq_nil_iff.1 hfindings
  refine build_eq_ok_iff.2 ⟨?_, findings_eq_nil_iff.2 ⟨?_, ?_, ?_, ?_⟩, ?_⟩
  · rw [← numbers_eq_range'_iff] at hn ⊢
    rwa [numbers, hordered, ← orderedVersions_kept hg, ← numbers, numbers_kept hg]
  · rw [memberFindings_unread hversion hname, hempty, memberFindings_kept hg, hmembers]
  · rw [latestFindings_eq_nil_iff, hhigh]
    intro m hm
    obtain rfl := eq_of_isLatestModule hversion hname hm
    exact htargets
  · intro k m hm
    rw [← mem_orderedVersions (c := c), hordered, List.mem_map] at hm
    obtain ⟨⟨k', m'⟩, hm', heq⟩ := hm
    obtain ⟨rfl, rfl⟩ := Prod.mk.inj heq
    rw [versionFindings_withMembers hhigh]
    exact (hg.eq (d.versionFindings c k') (fun _ => rfl) m').trans
      (hversions k' m' (mem_orderedVersions.1 hm'))
  · rw [testFindings, testObligation?_unread hversion hname, hempty, testObligation?_kept hg]
    exact htest
  · rw [hparts, parts_unread hversion hname, hempty, parts_kept hg]

end Kept

section Reading

variable {d : FamilyDeclaration} {c : Config}

theorem legible_of_read (h : d.interruption? c = none) {m : ModuleDecl}
    (hm : m ∈ d.container.modules) : overlongVersion? m.name = none := by
  have hmember := List.findSome?_eq_none_iff.1 (Option.or_eq_none_iff.1 h).1 m hm
  unfold memberInterruption? at hmember
  cases ho : overlongVersion? m.name with
  | none => rfl
  | some digits => simp [ho] at hmember

/-- A container that builds is read if its members and its latest alias can be: no upgrade function
is asked where it leads. -/
theorem interruption?_of_build {f : Family} (hbuild : d.build c = .ok f) (hname : d.name ≠ "")
    (hmembers : ∀ m ∈ d.container.modules, overlongVersion? m.name = none)
    (halias : ¬ d.IllegibleAlias c) : d.interruption? c = none := by
  obtain ⟨hn, hfindings, -⟩ := build_eq_ok_iff.1 hbuild
  rw [← Option.not_isSome_iff_eq_none, interruption?_isSome_iff hname]
  rintro (⟨m, hm, ho⟩ | ⟨n, hnumbered, halias' | ⟨k, m, hm, hk, x, hx, v, hv, hown, hlatest, -⟩⟩)
  · exact ho (hmembers m hm)
  · exact halias halias'
  · obtain ⟨hhigh, -, -⟩ := (numbered_iff (c := c)).1 hnumbered
    obtain ⟨v', hv', -, hlatest'⟩ := (sound_iff.2 ⟨hn, hfindings⟩).upgrades k m hm (hhigh ▸ hk) x hx
    obtain rfl : v = v' := Option.some.inj (hv.symm.trans hv')
    exact hlatest (hhigh ▸ hlatest')

end Reading

end FamilyDeclaration

/-! ## Distinct containers -/

section Distinct

/-- A place in a module lies at or below the path of the module. -/
theorem path_isPrefix_of_mem_ofModule {line : List ModuleDecl} {m : ModuleDecl} {p : Place}
    (hp : p ∈ Place.ofModule line m) : Path.ofLine (line ++ [m]) <+: p.path := by
  obtain ⟨rest, hancestors, hrest⟩ := (Place.mem_ofModule line m).1 hp
  cases hline : rest ++ [p.module] with
  | nil => simp at hline
  | cons n rest' =>
    rw [hline] at hrest
    obtain rfl := List.mem_singleton.1 hrest.1
    rw [Place.path, Place.line, hancestors, List.append_assoc, hline,
      List.append_cons line n rest']
    exact List.IsPrefix.map _ (List.prefix_append (line ++ [n]) rest')

mutual

theorem nodup_paths_ofModule : ∀ (line : List ModuleDecl) (m : ModuleDecl),
    (∀ p ∈ Place.ofModule line m, (p.module.modules.map (·.name)).Nodup) →
      ((Place.ofModule line m).map Place.path).Nodup
  | line, ⟨name, types, values, modules, attributes, codec, aliasOf, functor, args, loc⟩, h => by
    rw [Place.ofModule_eq_cons] at h ⊢
    rw [List.map_cons, List.nodup_cons]
    refine ⟨fun hmem => ?_, nodup_paths_ofModules _ modules (h _ List.mem_cons_self)
      fun p hp => h p (List.mem_cons_of_mem _ hp)⟩
    -- What lies in the module has a longer path.
    obtain ⟨p, hp, hpath⟩ := List.mem_map.1 hmem
    obtain ⟨rest, hancestors, -⟩ := (Place.mem_ofModules _ modules).1 hp
    have hlength := congrArg List.length hpath
    simp [Place.path, Place.line, hancestors] at hlength

theorem nodup_paths_ofModules : ∀ (line ms : List ModuleDecl), (ms.map (·.name)).Nodup →
    (∀ p ∈ Place.ofModules line ms, (p.module.modules.map (·.name)).Nodup) →
      ((Place.ofModules line ms).map Place.path).Nodup
  | _, [], _, _ => List.nodup_nil
  | line, m :: rest, hnames, h => by
    obtain ⟨hm, hrest⟩ := List.nodup_cons.1 hnames
    rw [Place.ofModules] at h ⊢
    rw [List.map_append, List.nodup_append]
    refine ⟨nodup_paths_ofModule line m fun p hp => h p (List.mem_append_left _ hp),
      nodup_paths_ofModules line rest hrest fun p hp => h p (List.mem_append_right _ hp), ?_⟩
    intro a ha b hb heq
    obtain ⟨p, hp, rfl⟩ := List.mem_map.1 ha
    obtain ⟨q, hq, rfl⟩ := List.mem_map.1 hb
    rw [Place.ofModules_eq_flatMap] at hq
    obtain ⟨n, hn, hq⟩ := List.mem_flatMap.1 hq
    have hle : (Path.ofLine (line ++ [m])).length ≤ (Path.ofLine (line ++ [n])).length := by simp
    have hbegins := List.prefix_of_prefix_length_le (path_isPrefix_of_mem_ofModule hp)
      (heq ▸ path_isPrefix_of_mem_ofModule hq) hle
    have hname : m.name = n.name := by simpa using hbegins.eq_of_length (by simp)
    exact hm (List.mem_map.2 ⟨n, hn, hname.symm⟩)

end

theorem CompilationUnit.DistinctSiblings.nodup_containerPaths {u : CompilationUnit}
    (hu : u.DistinctSiblings) (c : Config) :
    ((u.familyDeclarations c).map (·.containerPath)).Nodup := by
  have hplaces : (u.places.map Place.path).Nodup := nodup_paths_ofModules [] u.modules hu.1 hu.2
  have hpaths : (u.familyDeclarations c).map (·.containerPath)
      = (u.places.filter fun p => (p.declaration? c).isSome).map Place.path := by
    rw [familyDeclarations_eq, List.map_filterMap, ← List.filterMap_eq_map, List.filterMap_filter]
    refine List.filterMap_congr fun p _ => ?_
    cases hd : p.declaration? c with
    | none => rfl
    | some d => exact congrArg some (Place.containerPath_of_declaration? hd)
  rw [hpaths]
  exact hplaces.sublist (List.filter_sublist.map _)

theorem filter_eq_singleton {α β : Type} [DecidableEq β] {key : α → β} {as : List α} {a : α}
    (h : (as.map key).Nodup) (ha : a ∈ as) : as.filter (key · = key a) = [a] := by
  induction as with
  | nil => cases ha
  | cons b as ih =>
    obtain ⟨hb, hrest⟩ := List.nodup_cons.1 h
    rcases List.mem_cons.1 ha with rfl | ha
    · have hnone : as.filter (key · = key a) = [] := by
        rw [List.filter_eq_nil_iff]
        intro e he heq
        exact hb (List.mem_map.2 ⟨e, he, of_decide_eq_true heq⟩)
      rw [List.filter_cons_of_pos (by simp), hnone]
    · have hne : key b ≠ key a := fun heq => hb (List.mem_map.2 ⟨a, ha, heq.symm⟩)
      rw [List.filter_cons_of_neg (by simpa using hne), ih hrest ha]

end Distinct

/-! ## Completed containers -/

section Completed

variable {u : CompilationUnit} {c : Config}

/-- What is generated for the families of a unit. -/
def CompilationUnit.generation (u : CompilationUnit) (c : Config) : List GeneratedFamily :=
  (u.families c).map (·.synthesize c)

theorem latestsAt_generation (p : Path) : latestsAt (u.generation c) p
    = ((u.familyDeclarations c).filter (·.containerPath = p)).filterMap
        fun d => (d.family? c).map (·.latestModule c) := by
  rw [latestsAt, CompilationUnit.generation, List.filter_map, List.map_map,
    CompilationUnit.families, ← List.filterMap_eq_map, ← List.filterMap_eq_filter,
    List.filterMap_filterMap, List.filterMap_filterMap, List.filterMap_filter]
  refine List.filterMap_congr fun d _ => ?_
  cases hd : d.family? c with
  | none => by_cases hpath : d.containerPath = p <;> simp [hpath]
  | some f =>
    have hpath := containerPath_of_build (family?_eq_some_iff.1 hd)
    by_cases heq : d.containerPath = p <;> simp [Option.guard, Family.synthesize, hpath, heq]

/-- One alias module is generated for a container that builds. -/
theorem latestsAt_containerPath (hu : u.DistinctSiblings) {d : FamilyDeclaration}
    (hd : d ∈ u.familyDeclarations c) {f : Family} (hbuild : d.build c = .ok f) :
    latestsAt (u.generation c) d.containerPath = [f.latestModule c] := by
  rw [latestsAt_generation, filter_eq_singleton (hu.nodup_containerPaths c) hd,
    List.filterMap_cons_some (by rw [family?_eq_some_iff.2 hbuild]; rfl), List.filterMap_nil]

theorem exists_of_mem_latestsAt {p : Path} {m : ModuleDecl}
    (hm : m ∈ latestsAt (u.generation c) p) : ∃ d ∈ u.familyDeclarations c, ∃ f,
      d.build c = .ok f ∧ d.containerPath = p ∧ m = f.latestModule c := by
  rw [latestsAt_generation] at hm
  obtain ⟨d, hd, hm⟩ := List.mem_filterMap.1 hm
  obtain ⟨f, hf, rfl⟩ := Option.map_eq_some_iff.1 hm
  obtain ⟨hd, hpath⟩ := List.mem_filter.1 hd
  exact ⟨d, hd, f, family?_eq_some_iff.1 hf, of_decide_eq_true hpath, rfl⟩

theorem isLeaf_latestsAt (p : Path) : ∀ m ∈ latestsAt (u.generation c) p, m.IsLeaf := by
  intro m hm
  obtain ⟨d, -, f, -, -, rfl⟩ := exists_of_mem_latestsAt hm
  exact ⟨rfl, rfl⟩

end Completed

/-! ## Builds of completed containers -/

section Builds

variable {u : CompilationUnit} {d : FamilyDeclaration} {f : Family}

theorem typeName_of_standard {x : String} (hx : x ∈ d.typeNames .standard) :
    isVersionName x = false ∧ overlongVersion? x = none := by
  rw [FamilyDeclaration.typeNames] at hx
  cases hkind : d.kind <;> rw [hkind] at hx <;>
    simp only [Config.versionedTypeNames, List.mem_cons, List.not_mem_nil, or_false] at hx
  · obtain rfl := hx
    decide
  · rcases hx with rfl | rfl <;> decide

/-- The generated alias module is an alias of the highest version. -/
theorem ofDotted_latest_name (hbuild : d.build c = .ok f) :
    Path.ofDotted f.latest.name = [versionName (d.highest c)] := by
  rw [SchemaVersion.name, latest_number, ← highest_eq_length hbuild,
    Path.ofDotted_of_not_mem (dot_not_mem_versionName _)]

/-- The types of the generated alias module are aliases of those of the highest version. -/
theorem alias_of_mem_latestModule (hbuild : d.build c = .ok f) {t : TypeDecl}
    (ht : t ∈ (f.latestModule c).types) : ∃ x ∈ d.typeNames c,
      t = f.latestAlias x ∧ t.alias? = some (.ofPath (versionName (d.highest c)) [x]) := by
  obtain ⟨x, hx, rfl⟩ := List.mem_map.1 ht
  rw [typeNames_of_build hbuild] at hx
  refine ⟨x, hx, rfl, ?_⟩
  rw [highest_eq_length hbuild, ← latest_number]
  rfl

theorem versionNumber?_latestModule : versionNumber? (f.latestModule .standard).name = none := by
  show versionNumber? Config.standard.latestName = none
  decide

/-- Modules that are given members that are no tests hold the same tests. -/
theorem keeps_extended {extra : Path → List ModuleDecl} (parent : Path)
    (hextra : ∀ q, ∀ m ∈ extra q, Config.standard.isTest m = false) :
    FamilyDeclaration.Keeps .standard (ModuleDecl.extended extra parent) where
  alone := ModuleDecl.alone_extended
  tests m := by
    have hnone : (extra (parent ++ [m.name])).find? Config.standard.isTest = none :=
      List.find?_eq_none.2 fun n hn => by simp [hextra _ n hn]
    have htest : Config.standard.isTest ∘ ModuleDecl.extended extra (parent ++ [m.name])
        = Config.standard.isTest :=
      funext fun n => ModuleDecl.eq_of_alone_eq Config.standard.isTest (fun _ => rfl)
        (ModuleDecl.alone_extended n)
    rw [ModuleDecl.modules_extended, List.find?_append, hnone, Option.or_none, List.find?_map,
      htest, Option.map_map]
    exact congrArg (Option.map · _) (funext ModuleDecl.alone_extended)

theorem isTest_latestsAt (p : Path) :
    ∀ m ∈ latestsAt (u.generation .standard) p, Config.standard.isTest m = false := by
  intro m hm
  obtain ⟨d, -, f, -, -, rfl⟩ := exists_of_mem_latestsAt hm
  rfl

/-- A container of a completed unit has its members, each completed, and its alias module. -/
theorem extended_eq_withMembers (hu : u.DistinctSiblings)
    (hd : d ∈ u.familyDeclarations .standard) (hbuild : d.build .standard = .ok f) :
    d.extended (latestsAt (u.generation .standard))
      = d.withMembers (d.container.modules.map
          (ModuleDecl.extended (latestsAt (u.generation .standard)) d.containerPath)
        ++ [f.latestModule .standard]) := by
  rw [← latestsAt_containerPath hu hd hbuild]
  exact congrArg d.withMembers (ModuleDecl.modules_extended _)

variable (hu : u.DistinctSiblings) (hd : d ∈ u.familyDeclarations .standard)
  (hbuild : d.build .standard = .ok f)

include hu hd hbuild

/-- A container builds the same family with the alias module that is generated for it. -/
theorem build_completed :
    (d.extended (latestsAt (u.generation .standard))).build .standard = .ok f := by
  rw [extended_eq_withMembers hu hd hbuild]
  refine FamilyDeclaration.build_latest (keeps_extended _ isTest_latestsAt) hbuild
    versionNumber?_latestModule rfl fun a ha => ?_
  rcases FamilyDeclaration.mem_aliasTargets.1 ha with ⟨target, htarget, hlast⟩ | ⟨t, ht, e, he, ha⟩
  · obtain rfl : f.latest.name = target := Option.some.inj htarget
    rw [ofDotted_latest_name hbuild] at hlast
    obtain rfl : versionName _ = a := Option.some.inj hlast
    exact versionNumber?_versionName _
  · obtain ⟨x, hx, -, halias⟩ := alias_of_mem_latestModule hbuild ht
    obtain rfl := Option.some.inj (halias.symm.trans he)
    -- The names of versioned types are no names of versions.
    rcases List.mem_cons.1 ha.1 with rfl | hax
    · exact versionNumber?_versionName _
    · rw [List.mem_singleton.1 hax, (typeName_of_standard hx).1] at ha
      cases ha.2

theorem interruption?_completed (hread : d.interruption? .standard = none) :
    (d.extended (latestsAt (u.generation .standard))).interruption? .standard = none := by
  have hname : d.name ≠ "" := FamilyDeclaration.name_ne_empty_of_build hread hbuild
  have hlegible : ∀ m ∈ d.container.modules, overlongVersion? m.name = none :=
    fun m hm => FamilyDeclaration.legible_of_read hread hm
  obtain ⟨hn, -, -⟩ := FamilyDeclaration.build_eq_ok_iff.1 hbuild
  have hcompleted := build_completed hu hd hbuild
  rw [extended_eq_withMembers hu hd hbuild] at hcompleted ⊢
  refine FamilyDeclaration.interruption?_of_build hcompleted hname (fun m hm => ?_) ?_
  · rcases List.mem_append.1 hm with hm | hm
    · obtain ⟨n, hn, rfl⟩ := List.mem_map.1 hm
      rw [ModuleDecl.eq_of_alone_eq (·.name) (fun _ => rfl) (ModuleDecl.alone_extended n)]
      exact hlegible n hn
    · rw [List.mem_singleton.1 hm]
      show overlongVersion? Config.standard.latestName = none
      decide
  · have hhighest : overlongVersion? (versionName (d.highest .standard)) = none := by
      by_contra ho
      exact hn.ne_of_overlong hlegible ho (versionNumber?_versionName _)
    rintro ⟨m, hm, hoverlong⟩
    obtain rfl := FamilyDeclaration.eq_of_isLatestModule versionNumber?_latestModule rfl hm
    rcases hoverlong with ⟨target, a, htarget, hlast, ho⟩ | ⟨t, ht, e, he, a, ha, ho⟩
    · obtain rfl : f.latest.name = target := Option.some.inj htarget
      rw [ofDotted_latest_name hbuild] at hlast
      exact ho (Option.some.inj hlast ▸ hhighest)
    · obtain ⟨x, hx, -, halias⟩ := alias_of_mem_latestModule hbuild ht
      obtain rfl := Option.some.inj (halias.symm.trans he)
      rcases List.mem_cons.1 ha with rfl | ha
      · exact ho hhighest
      · rw [List.mem_singleton.1 ha] at ho
        exact ho (typeName_of_standard hx).2

end Builds

/-! ## Completed units that pass -/

/-- A unit passes if no build, no visit and no reference interrupts its analysis, and neither builds
nor rules report anything. -/
theorem passes_iff {u : CompilationUnit} {c : Config} :
    (∃ r, u.analyzed c = .ok r ∧ r.passed = true) ↔
      (∀ d ∈ u.familyDeclarations c, d.interruption? c = none ∧ (∃ f, d.build c = .ok f) ∧
        d.parameterized? = none) ∧
      u.indexInterruption? c = none ∧ ∀ x ∈ (u.index c).rulings, x = .silent := by
  have hnil : u.diagnostics c = [] ↔
      (∀ d ∈ u.familyDeclarations c, (∃ f, d.build c = .ok f) ∧ d.parameterized? = none) ∧
        ∀ x ∈ (u.index c).rulings, x.use = none ∧ x.leak = none := by
    rw [← List.length_eq_zero_iff, perm_diagnostics.length_eq, List.length_eq_zero_iff]
    simp only [List.append_eq_nil_iff, List.filterMap_eq_nil_iff, CompilationUnit.buildDiagnostics,
      List.flatMap_eq_nil_iff, FamilyDeclaration.buildDiagnostics_eq_nil_iff, forall_and,
      Option.isSome_iff_exists, family?_eq_some_iff]
    tauto
  have hpasses : (∃ r, u.analyzed c = .ok r ∧ r.passed = true) ↔
      u.interruption? c = none ∧ u.diagnostics c = [] := by
    simp only [analyzed_eq_ok_iff]
    constructor
    · rintro ⟨_, ⟨hread, rfl⟩, hpassed⟩
      exact ⟨hread, (passed_iff _).1 hpassed⟩
    · rintro ⟨hread, hempty⟩
      exact ⟨_, ⟨hread, rfl⟩, (passed_iff _).2 hempty⟩
  have hsilent : ∀ x : Ruling, x = .silent ↔ (x.useInterruption = none ∧ x.leakInterruption = none)
      ∧ x.use = none ∧ x.leak = none := by
    rintro ⟨use, leak, useInterruption, leakInterruption⟩
    simp only [Ruling.silent, Ruling.mk.injEq]
    tauto
  have harities : (∀ d ∈ u.familyDeclarations c, d.parameterized? = none) → u.TellsArities c :=
    fun h d hd => FamilyDeclaration.tellsArities_of_parameterized? (h d hd)
  rw [hpasses, interruption?_eq_none_iff, hnil, indexInterruption?_eq, List.findSome?_eq_none_iff]
  simp only [hsilent, forall_and]
  tauto

section Units

variable {u : CompilationUnit}

/-- The generated alias modules of a unit, each in its container. -/
def CompilationUnit.latestPlaces (u : CompilationUnit) (gs : List GeneratedFamily) : List Place :=
  u.places.flatMap (Place.added (latestsAt gs))

theorem perm_outline_completed (u : CompilationUnit) (c : Config) :
    ((u.places ++ u.latestPlaces (u.generation c)).map Place.alone).Perm
      ((u.completed (u.generation c)).places.map Place.alone) :=
  (perm_ofModules_extended isLeaf_latestsAt u.modules rfl).symm

theorem familyDeclarations_completed (u : CompilationUnit) (c c' : Config) :
    (u.completed (u.generation c)).familyDeclarations c'
      = (u.familyDeclarations c').map
        (FamilyDeclaration.extended (latestsAt (u.generation c))) :=
  declarationsAll_extended isLeaf_latestsAt u.modules Enclosure.top

/-- A completed unit builds the same families. -/
theorem families_completed (hu : u.DistinctSiblings)
    (hbuilds : ∀ d ∈ u.familyDeclarations .standard, ∃ f, d.build .standard = .ok f) :
    (u.completed (u.generation .standard)).families .standard = u.families .standard := by
  rw [CompilationUnit.families, familyDeclarations_completed, List.filterMap_map]
  refine List.filterMap_congr fun d hd => ?_
  obtain ⟨f, hbuild⟩ := hbuilds d hd
  rw [family?_eq_some_iff.2 hbuild]
  exact family?_eq_some_iff.2 (build_completed hu hd hbuild)

end Units

end SchemaVersioning
