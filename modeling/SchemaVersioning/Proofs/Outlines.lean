import SchemaVersioning.Proofs.PlaceIndex

/-!
# Outlines

Each place tells the modules around it with all their members, but no more of these matters than the
place itself: an index is the same if every module of every place is left without its members
(`Index.ofPlaces_map_alone`), except that the containers of families keep them.
-/

namespace SchemaVersioning

/-! ## Modules without their members -/

def ModuleDecl.alone (m : ModuleDecl) : ModuleDecl := { m with modules := [] }

/-- The family declared by a container, without the members of the container. -/
def FamilyDeclaration.alone (d : FamilyDeclaration) : FamilyDeclaration :=
  { d with container := d.container.alone }

/-- A place, each module on its line without its members. -/
def Place.alone (p : Place) : Place := ⟨p.ancestors.map ModuleDecl.alone, p.module.alone⟩

def Site.alone (s : Site) : Site := { s with module := s.module.alone }

theorem Place.line_alone (p : Place) : p.alone.line = p.line.map ModuleDecl.alone := by
  simp [Place.line, Place.alone]

theorem ofLine_map_alone (line : List ModuleDecl) :
    Path.ofLine (line.map ModuleDecl.alone) = Path.ofLine line := by
  simp [Path.ofLine, ModuleDecl.alone]

theorem Place.path_alone (p : Place) : p.alone.path = p.path := by
  rw [Place.path, Place.line_alone, ofLine_map_alone, Place.path]

theorem Enclosure.within_map_alone (c : Config) (line : List ModuleDecl) :
    Enclosure.within c (line.map ModuleDecl.alone) = Enclosure.within c line := by
  rw [Enclosure.within, List.foldl_map]
  rfl

theorem Context.within_map_alone (c : Config) (ds : List FamilyDeclaration)
    (line : List ModuleDecl) :
    Context.within c ds (line.map ModuleDecl.alone) = Context.within c ds line := by
  rw [Context.within, List.foldl_map]
  rfl

theorem Place.declaration?_alone (c : Config) (p : Place) :
    p.alone.declaration? c = (p.declaration? c).map FamilyDeclaration.alone := by
  rw [Place.declaration?, Place.declaration?, Place.alone, Enclosure.within_map_alone,
    Enclosure.declaration?, Enclosure.declaration?, Option.map_map]
  rfl

theorem name_containerAt?_map_alone (ds : List FamilyDeclaration) (q : Path) :
    (containerAt? (ds.map FamilyDeclaration.alone) q).map (·.name)
      = (containerAt? ds q).map (·.name) := by
  rw [containerAt?, List.filter_map, List.getLast?_map, Option.map_map]
  rfl

mutual

/-- The references of an expression depend on the path and the context of the site. -/
theorem exprReferences_congr {s s' : Site} (hpath : s.path = s'.path)
    (hcontext : s.context = s'.context) (owner : String) (definition : Bool)
    (fallback : Option Location) (exempt : Bool) : ∀ e : TypeExpr,
    s.exprReferences owner definition fallback exempt e
      = s'.exprReferences owner definition fallback exempt e
  | ⟨.var name, args, attributes, location⟩ => by
    rw [Site.exprReferences, Site.exprReferences, exprReferencesAll_congr hpath hcontext]
  | ⟨.named first rest, args, attributes, location⟩ => by
    rw [Site.exprReferences, Site.exprReferences, hpath, hcontext,
      exprReferencesAll_congr hpath hcontext]

theorem exprReferencesAll_congr {s s' : Site} (hpath : s.path = s'.path)
    (hcontext : s.context = s'.context) (owner : String) (definition : Bool)
    (fallback : Option Location) (exempt : Bool) : ∀ es : List TypeExpr,
    s.exprReferencesAll owner definition fallback exempt es
      = s'.exprReferencesAll owner definition fallback exempt es
  | [] => rfl
  | e :: rest => by
    rw [Site.exprReferencesAll, Site.exprReferencesAll, exprReferences_congr hpath hcontext,
      exprReferencesAll_congr hpath hcontext]

end

theorem Site.references_alone (s : Site) : s.alone.references = s.references := by
  have htypes : s.alone.typeReferences = s.typeReferences := by
    funext owner t
    exact @exprReferencesAll_congr s.alone s rfl rfl _ _ _ _ _
  have hvalues : s.alone.valueReferences = s.valueReferences := by
    funext owner v
    exact @exprReferencesAll_congr s.alone s rfl rfl _ _ _ _ _
  have hparameters : s.alone.parameterReferences = s.parameterReferences := by
    funext p
    rw [Site.parameterReferences, Site.parameterReferences, htypes, hvalues]
    rfl
  rw [Site.references, Site.references, htypes, hvalues, hparameters]
  rfl

theorem Site.declaredVersion_alone (s : Site) (ds : List FamilyDeclaration) :
    s.alone.declaredVersion (ds.map FamilyDeclaration.alone) = s.declaredVersion ds :=
  @declaredVersion_congr _ _ s (name_containerAt?_map_alone ds s.parent)

section Alone

variable (c : Config) (ps : List Place)

theorem declarationsAt_map_alone :
    declarationsAt c (ps.map Place.alone) = (declarationsAt c ps).map FamilyDeclaration.alone := by
  rw [declarationsAt, declarationsAt, List.filterMap_map, List.map_filterMap]
  exact List.filterMap_congr fun p _ => p.declaration?_alone c

theorem Place.site_alone (ds : List FamilyDeclaration) (p : Place) :
    p.alone.site c (ds.map FamilyDeclaration.alone) = (p.site c ds).alone := by
  have hwithin : ∀ line, Context.within c (ds.map FamilyDeclaration.alone)
      (line.map ModuleDecl.alone) = Context.within c ds line := by
    intro line
    rw [Context.within_map_alone]
    exact within_congr fun a _ => name_containerAt?_map_alone ds (Path.ofLine a)
  rw [Place.site, Place.site, Place.line_alone, hwithin]
  show Site.mk _ (Path.ofLine (p.ancestors.map _)) (Context.within _ _ (p.ancestors.map _)) _ = _
  rw [ofLine_map_alone, hwithin]
  rfl

/-- The members of modules matter to an index only as the containers of families. -/
theorem Index.ofPlaces_map_alone : Index.ofPlaces c (ps.map Place.alone)
    = { Index.ofPlaces c ps with
        declarations := (declarationsAt c ps).map FamilyDeclaration.alone } := by
  have hsite : ∀ p : Place, p.alone.site c ((declarationsAt c ps).map FamilyDeclaration.alone)
      = (p.site c (declarationsAt c ps)).alone := Place.site_alone c _
  have hlatest : ∀ p : Place, p.alone.declaredLatest c = p.declaredLatest c := by
    intro p
    rw [Place.declaredLatest, Place.declaration?_alone]
    cases hd : p.declaration? c <;> rw [Place.declaredLatest, hd] <;> rfl
  have hlatestTypes : ∀ p : Place, p.alone.declaredLatestTypes c = p.declaredLatestTypes c := by
    intro p
    rw [Place.declaredLatestTypes, Place.declaration?_alone]
    cases hd : p.declaration? c <;> rw [Place.declaredLatestTypes, hd] <;> rfl
  simp only [Index.ofPlaces, declarationsAt_map_alone, List.flatMap_map, hlatest, hlatestTypes,
    Place.declaredTypes, Place.declaredVersion, Place.declaredAlias, Place.references, hsite,
    Site.references_alone, Site.declaredVersion_alone]
  rfl

theorem agreesOn_map_alone :
    (Index.ofPlaces c ps).AgreesOn (Index.ofPlaces c (ps.map Place.alone)) fun _ _ => True := by
  rw [Index.ofPlaces_map_alone]
  exact ⟨rfl, fun _ => rfl, fun _ _ => rfl, fun _ _ _ => trivial, fun _ _ _ => trivial⟩

theorem ruling_ofPlaces_map_alone (r : Reference) :
    (Index.ofPlaces c (ps.map Place.alone)).ruling r = (Index.ofPlaces c ps).ruling r :=
  (agreesOn_map_alone c ps).ruling trivial

theorem Place.rulings_alone (p : Place) :
    p.alone.rulings c (ps.map Place.alone) = p.rulings c ps := by
  rw [Place.rulings, Place.references, declarationsAt_map_alone, Place.site_alone,
    Site.references_alone]
  exact List.map_congr_left fun r _ => ruling_ofPlaces_map_alone c ps r

theorem Place.interruption?_alone (p : Place) :
    p.alone.interruption? c (ps.map Place.alone) = p.interruption? c ps := by
  have hcontainer : ∀ q, (containerAt? ((declarationsAt c ps).map FamilyDeclaration.alone) q).isNone
      = (containerAt? (declarationsAt c ps) q).isNone := by
    intro q
    rw [containerAt?, List.filter_map, List.getLast?_map, Option.isNone_map]
    rfl
  rw [Place.interruption?, declarationsAt_map_alone, Place.site_alone, Site.interruption?,
    hcontainer]
  rfl

theorem rulings_ofPlaces_map_alone :
    (Index.ofPlaces c (ps.map Place.alone)).rulings = (Index.ofPlaces c ps).rulings := by
  rw [rulings_ofPlaces, rulings_ofPlaces, List.flatMap_map]
  exact List.flatMap_congr fun p _ => p.rulings_alone c ps

theorem findSome?_interruption?_map_alone :
    (ps.map Place.alone).findSome? (·.interruption? c (ps.map Place.alone))
      = ps.findSome? (·.interruption? c ps) := by
  rw [List.findSome?_map]
  exact congrArg (ps.findSome? ·) (funext fun p => p.interruption?_alone c ps)

theorem functorFamilies_map_alone (ds : List FamilyDeclaration) (fs : List Family) :
    functorFamilies (ds.map FamilyDeclaration.alone) fs = functorFamilies ds fs := by
  rw [functorFamilies, List.filterMap_map, List.map_map]
  rfl

end Alone

end SchemaVersioning
