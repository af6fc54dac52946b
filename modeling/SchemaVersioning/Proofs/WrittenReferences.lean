import Mathlib.Data.List.Forall2
import SchemaVersioning.Proofs.StableUses
import SchemaVersioning.Reference.Interruption

/-!
# References as they are written

The index of a unit holds one reference for each path that is written in the unit, in the order of
writing, and no others (`references_written_exactly`).  What is written is read off the tree without
any state: a module tells its functor arguments, the target of its alias and the nodes of its type
expressions, and a node knows the nodes around it.
-/

namespace SchemaVersioning

/-! ## Nodes of an expression -/

/-- A node of a type expression with the nodes around it, outermost first. -/
structure TypeNode where
  around : List TypeExpr
  expr : TypeExpr

/-- Each node of a line is an argument of the one before it, the first one among some
expressions. -/
def Descent : List TypeExpr → List TypeExpr → Prop
  | _, [] => True
  | es, e :: line => e ∈ es ∧ Descent e.args line

namespace TypeNode

/-- The node and the nodes around it. -/
def line (n : TypeNode) : List TypeExpr := n.around ++ [n.expr]

mutual

/-- The nodes of an expression inside some nodes, depth first. -/
def ofExpr (around : List TypeExpr) : TypeExpr → List TypeNode
  | e@⟨_, args, _, _⟩ => ⟨around, e⟩ :: ofExprs (around ++ [e]) args

/-- The nodes of expressions inside some nodes, depth first. -/
def ofExprs (around : List TypeExpr) : List TypeExpr → List TypeNode
  | [] => []
  | e :: rest => ofExpr around e ++ ofExprs around rest

end

mutual

theorem map_expr_ofExpr (around : List TypeExpr) : ∀ e : TypeExpr,
    (ofExpr around e).map (·.expr) = e.walk
  | ⟨head, args, attributes, location⟩ => by
    rw [ofExpr, TypeExpr.walk, List.map_cons, map_expr_ofExprs _ args]

/-- The nodes of some expressions are those that a walk comes by. -/
theorem map_expr_ofExprs (around : List TypeExpr) : ∀ es : List TypeExpr,
    (ofExprs around es).map (·.expr) = TypeExpr.walkAll es
  | [] => rfl
  | e :: rest => by
    rw [ofExprs, TypeExpr.walkAll, List.map_append, map_expr_ofExpr around e,
      map_expr_ofExprs around rest]

end

theorem descent_cons_mono {e : TypeExpr} {es es' line : List TypeExpr} (h : e ∈ es → e ∈ es') :
    Descent es (e :: line) → Descent es' (e :: line) := fun hd => ⟨h hd.1, hd.2⟩

mutual

theorem descent_of_mem_ofExpr {n : TypeNode} : ∀ {around : List TypeExpr} (e : TypeExpr),
    n ∈ ofExpr around e → ∃ line, n.line = around ++ line ∧ Descent [e] line
  | around, ⟨head, args, attributes, location⟩, h => by
    rw [ofExpr, List.mem_cons] at h
    rcases h with rfl | h
    · exact ⟨_, rfl, List.mem_singleton_self _, trivial⟩
    · obtain ⟨line, hline, hd⟩ := descent_of_mem_ofExprs args h
      exact ⟨_ :: line, by rw [hline, List.append_assoc]; rfl, List.mem_singleton_self _, hd⟩

/-- The nodes around a node are those on the way down to it. -/
theorem descent_of_mem_ofExprs {n : TypeNode} : ∀ {around : List TypeExpr} (es : List TypeExpr),
    n ∈ ofExprs around es → ∃ line, n.line = around ++ line ∧ Descent es line
  | around, [], h => nomatch h
  | around, e :: rest, h => by
    rw [ofExprs, List.mem_append] at h
    rcases h with h | h
    · obtain ⟨line, hline, hd⟩ := descent_of_mem_ofExpr e h
      refine ⟨line, hline, ?_⟩
      cases line with
      | nil => trivial
      | cons a line => exact descent_cons_mono (fun ha => by simp [List.mem_singleton.1 ha]) hd
    · obtain ⟨line, hline, hd⟩ := descent_of_mem_ofExprs rest h
      refine ⟨line, hline, ?_⟩
      cases line with
      | nil => trivial
      | cons a line => exact descent_cons_mono (List.mem_cons_of_mem _) hd

end

end TypeNode

/-! ## What is written -/

/-- Something written in a module that refers to a module or to a type.  A type is named in a member
of the module, which has a place of its own and is a type definition or a signature. -/
inductive Writing where
  | argument (target : String)
  | aliasTarget (target : String)
  | use (member : String) (location : Option Location) (definition : Bool) (node : TypeNode)

/-- The named types in the expressions of a member, each with its node. -/
def Writing.uses (member : String) (location : Option Location) (definition : Bool)
    (es : List TypeExpr) : List Writing :=
  ((TypeNode.ofExprs [] es).filter fun n => !n.expr.path.isEmpty).map
    (.use member location definition)

def TypeDecl.writings (before : String) (t : TypeDecl) : List Writing :=
  Writing.uses (before ++ "." ++ t.name) t.location true t.typeExprs

def ValueDecl.writings (before : String) (v : ValueDecl) : List Writing :=
  Writing.uses (before ++ "." ++ v.name) v.location false v.typeExprs

def FunctorParameter.writings (p : FunctorParameter) : List Writing :=
  let before := "(" ++ p.name ++ ")"
  p.types.flatMap (·.writings before) ++ p.values.flatMap (·.writings before)

/-- What is written in a module outside of its nested modules: the functor arguments, the target of
the alias, the functor parameters, the types and the values. -/
def ModuleDecl.writings (m : ModuleDecl) : List Writing :=
  m.functorArguments.map .argument ++ m.aliasOf.toList.map .aliasTarget
    ++ m.functorParameters.flatMap (·.writings)
    ++ m.types.flatMap (·.writings "") ++ m.values.flatMap (·.writings "")

/-- What is written in a unit, with the place of the module around it, in tree order. -/
def CompilationUnit.writings (u : CompilationUnit) : List (Place × Writing) :=
  u.places.flatMap fun p => p.module.writings.map (p, ·)

/-! ## What is recorded -/

/-- A reference to a module that is named where another module is declared. -/
structure Place.RecordsModule (p : Place) (target : String) (r : Reference) : Prop where
  path : r.path = Path.ofDotted target
  scope : r.scope = Path.ofLine p.ancestors
  owner : r.owner = p.path.dotted
  definition : r.definition = false
  exempt : r.exempt = false
  isModule : r.isModule = true
  location : r.location = p.module.location

/-- A reference to a type that is named at a node in a member of a module. -/
structure Place.RecordsUse (p : Place) (member : String) (location : Option Location)
    (definition : Bool) (n : TypeNode) (r : Reference) : Prop where
  path : r.path = n.expr.path
  scope : r.scope = p.path
  owner : r.owner = p.path.dotted ++ member
  definition : r.definition = definition
  exempt : r.exempt = true ↔ ∃ e ∈ n.line, unversionedAttribute ∈ e.attributes
  isModule : r.isModule = false
  location : r.location = n.expr.location.or location

/-- A reference records something written in a module. -/
def Place.Records (p : Place) : Writing → Reference → Prop
  | .argument target, r => p.RecordsModule target r
  | .aliasTarget target, r => p.RecordsModule target r
  | .use member location definition n, r => p.RecordsUse member location definition n r

/-- Some of the nodes is marked as unversioned. -/
def TypeNode.exempts (line : List TypeExpr) : Bool :=
  line.any fun e => e.attributes.contains unversionedAttribute

/-- The reference to something written in the module of a site. -/
def Site.reference (s : Site) : Writing → Reference
  | .argument target => s.moduleReference (if s.context = .test then .test else s.outer) target
  | .aliasTarget target =>
    s.moduleReference (match s.context with | .functorBody _ => s.outer | context => context) target
  | .use member location definition n =>
    { path := n.expr.path
      scope := s.path
      owner := s.path.dotted ++ member
      context := s.context
      definition := definition
      exempt := TypeNode.exempts n.line
      isModule := false
      location := n.expr.location.or location }

section References

variable {s : Site}

mutual

theorem exprReferences_eq {owner member : String} {definition : Bool} {location : Option Location}
    (howner : owner = s.path.dotted ++ member) : ∀ (around : List TypeExpr) (e : TypeExpr),
    s.exprReferences owner definition location (TypeNode.exempts around) e
      = ((TypeNode.ofExpr around e).filter fun n => !n.expr.path.isEmpty).map
          fun n => s.reference (.use member location definition n)
  | around, ⟨head, args, attributes, l⟩ => by
    have hinside : (TypeNode.exempts around || attributes.contains unversionedAttribute)
        = TypeNode.exempts (around ++ [⟨head, args, attributes, l⟩]) := by
      simp [TypeNode.exempts]
    cases head with
    | var name =>
      rw [TypeNode.ofExpr, Site.exprReferences, hinside, exprReferencesAll_eq howner]
      rfl
    | named first rest =>
      rw [TypeNode.ofExpr, Site.exprReferences, hinside, exprReferencesAll_eq howner, howner]
      rfl

/-- The references of expressions are those of the nodes that name a type. -/
theorem exprReferencesAll_eq {owner member : String} {definition : Bool}
    {location : Option Location} (howner : owner = s.path.dotted ++ member) :
    ∀ (around : List TypeExpr) (es : List TypeExpr),
      s.exprReferencesAll owner definition location (TypeNode.exempts around) es
        = ((TypeNode.ofExprs around es).filter fun n => !n.expr.path.isEmpty).map
            fun n => s.reference (.use member location definition n)
  | around, [] => rfl
  | around, e :: rest => by
    rw [TypeNode.ofExprs, List.filter_append, List.map_append, Site.exprReferencesAll,
      exprReferences_eq howner around e, exprReferencesAll_eq howner around rest]

end

theorem references_uses {owner member : String} {definition : Bool} {location : Option Location}
    (howner : owner = s.path.dotted ++ member) (es : List TypeExpr) :
    s.exprReferencesAll owner definition location false es
      = (Writing.uses member location definition es).map s.reference := by
  rw [Writing.uses, List.map_map]
  exact exprReferencesAll_eq howner [] es

/-- The owner of a member is named after the module itself or after one of its parameters. -/
theorem owner_eq {owner before : String} (howner : owner = s.path.dotted ++ before)
    (name : String) : owner ++ "." ++ name = s.path.dotted ++ (before ++ "." ++ name) := by
  rw [howner, String.append_assoc, String.append_assoc, String.append_assoc]

theorem references_types {owner before : String} (howner : owner = s.path.dotted ++ before)
    (ts : List TypeDecl) : ts.flatMap (s.typeReferences owner)
      = (ts.flatMap (·.writings before)).map s.reference := by
  rw [List.map_flatMap]
  exact List.flatMap_congr fun t _ => references_uses (owner_eq howner t.name) t.typeExprs

theorem references_values {owner before : String} (howner : owner = s.path.dotted ++ before)
    (vs : List ValueDecl) : vs.flatMap (s.valueReferences owner)
      = (vs.flatMap (·.writings before)).map s.reference := by
  rw [List.map_flatMap]
  exact List.flatMap_congr fun v _ => references_uses (owner_eq howner v.name) v.typeExprs

theorem parameterReferences_eq (q : FunctorParameter) :
    s.parameterReferences q = q.writings.map s.reference := by
  have howner : s.path.dotted ++ "(" ++ q.name ++ ")"
      = s.path.dotted ++ ("(" ++ q.name ++ ")") := by
    simp only [String.append_assoc]
  rw [Site.parameterReferences, FunctorParameter.writings, List.map_append,
    ← references_types howner, ← references_values howner]

/-- The references of a site are those to what is written in its module. -/
theorem references_eq : s.references = s.module.writings.map s.reference := by
  have howner : s.path.dotted = s.path.dotted ++ "" := String.append_empty.symm
  have hparameters : s.module.functorParameters.flatMap s.parameterReferences
      = (s.module.functorParameters.flatMap (·.writings)).map s.reference := by
    rw [List.map_flatMap]
    exact List.flatMap_congr fun q _ => parameterReferences_eq q
  have harguments : s.argumentReferences
      = (s.module.functorArguments.map Writing.argument).map s.reference := by
    rw [List.map_map]
    rfl
  have halias : s.aliasReferences
      = (s.module.aliasOf.toList.map Writing.aliasTarget).map s.reference := by
    rw [List.map_map, Site.aliasReferences, Option.toList_map]
    rfl
  rw [Site.references, ModuleDecl.writings, List.map_append, List.map_append, List.map_append,
    List.map_append, ← harguments, ← halias, ← hparameters, ← references_types howner,
    ← references_values howner]

end References

/-- A reference to something written at a place records it. -/
theorem Place.records_reference (c : Config) (ds : List FamilyDeclaration) (p : Place)
    (w : Writing) : p.Records w ((p.site c ds).reference w) := by
  have hpath := Place.path_site c ds p
  cases w with
  | argument target => exact ⟨rfl, rfl, congrArg Path.dotted hpath, rfl, rfl, rfl, rfl⟩
  | aliasTarget target => exact ⟨rfl, rfl, congrArg Path.dotted hpath, rfl, rfl, rfl, rfl⟩
  | use member location definition n =>
    refine ⟨rfl, hpath, congrArg (Path.dotted · ++ member) hpath, rfl, ?_, rfl, rfl⟩
    show TypeNode.exempts n.line = true ↔ _
    simp [TypeNode.exempts]

/-- The references of an index are those to what is written in its unit. -/
theorem index_references_eq (u : CompilationUnit) (c : Config) :
    (u.index c).references
      = u.writings.map fun w => (w.1.site c (u.familyDeclarations c)).reference w.2 := by
  show (u.sites c).flatMap (·.references) = _
  rw [sites_eq, List.flatMap_map, CompilationUnit.writings, List.map_flatMap]
  refine List.flatMap_congr fun p _ => ?_
  rw [references_eq, List.map_map]
  rfl

/-! ## The walk -/

namespace CompilationUnit

variable (u : CompilationUnit) (c : Config)

/-- The index of a unit, or the interruption of the walk that makes it. -/
def indexed : Except Interruption Index :=
  match u.indexInterruption? c with
  | some interruption => .error interruption
  | none => .ok (u.index c)

/-- No member of a container outside of tests has a version name with too many digits. -/
def MembersLegible : Prop :=
  ∀ p ∈ u.places, p.line.any c.isTest = false →
    (∃ d ∈ u.familyDeclarations c, d.containerPath = Path.ofLine p.ancestors) →
      overlongVersion? p.module.name = none

end CompilationUnit

theorem Place.interruption?_site_eq_none_iff {u : CompilationUnit} {c : Config} {p : Place} :
    Site.interruption? (u.familyDeclarations c) (p.site c (u.familyDeclarations c)) = none ↔
      (p.line.any c.isTest = false →
        (∃ d ∈ u.familyDeclarations c, d.containerPath = Path.ofLine p.ancestors) →
          overlongVersion? p.module.name = none) := by
  have htest : (p.site c (u.familyDeclarations c)).context = .test ↔ p.line.any c.isTest = true :=
    within_eq_test_iff p.line
  have hparent : (containerAt? (u.familyDeclarations c) (Path.ofLine p.ancestors)).isNone = true ↔
      ¬ ∃ d ∈ u.familyDeclarations c, d.containerPath = Path.ofLine p.ancestors := by
    constructor
    · rintro hnone ⟨d, hd, hpath⟩
      obtain ⟨e, he, -⟩ := exists_containerAt? hd hpath
      rw [he] at hnone
      cases hnone
    · intro hnone
      rw [containerAt?_eq_none_of_forall fun e he hpath => hnone ⟨e, he, hpath⟩]
      rfl
  rw [Site.interruption?]
  show (if _ || (containerAt? _ (Path.ofLine p.ancestors)).isNone then none
    else (overlongVersion? p.module.name).map _) = none ↔ _
  by_cases hskip : p.line.any c.isTest = true ∨
      ¬ ∃ d ∈ u.familyDeclarations c, d.containerPath = Path.ofLine p.ancestors
  · rw [if_pos (by simpa [htest, hparent] using hskip)]
    simp only [true_iff]
    intro hoff hd
    exact hskip.elim (fun hon => by rw [hon] at hoff; cases hoff) fun hnone => absurd hd hnone
  · rw [if_neg (by simpa [htest, hparent] using hskip), Option.map_eq_none_iff]
    obtain ⟨hoff, hd⟩ := not_or.1 hskip
    exact ⟨fun h _ _ => h, fun h => h (by simpa using hoff) (not_not.1 hd)⟩

/-- The walk is interrupted by a member that cannot be read, and by nothing else. -/
theorem indexed_eq_ok_iff {u : CompilationUnit} {c : Config} :
    u.indexed c = .ok (u.index c) ↔ u.MembersLegible c := by
  have hwalk : u.indexInterruption? c = none ↔ u.MembersLegible c := by
    show (u.sites c).findSome? _ = none ↔ _
    rw [sites_eq, List.findSome?_map, List.findSome?_eq_none_iff]
    exact forall₂_congr fun p _ => Place.interruption?_site_eq_none_iff
  rw [← hwalk, CompilationUnit.indexed]
  cases u.indexInterruption? c <;> simp

/-- The index of a unit holds one reference for everything that is written in the unit, in the order
of writing.  The nodes of expressions are those of a walk, and around a node stand the nodes on the
way down to it.  The index is made unless a member of a container has a name that cannot be read. -/
theorem references_written_exactly (u : CompilationUnit) (c : Config) :
    List.Forall₂ (fun (w : Place × Writing) r => w.1.Records w.2 r) u.writings
        (u.index c).references ∧
      (∀ es, (TypeNode.ofExprs [] es).map (·.expr) = es.flatMap TypeExpr.walk ∧
        ∀ n ∈ TypeNode.ofExprs [] es, Descent es n.line) ∧
      (u.indexed c = .ok (u.index c) ↔ u.MembersLegible c) := by
  refine ⟨?_, fun es => ⟨?_, fun n hn => ?_⟩, indexed_eq_ok_iff⟩
  · rw [index_references_eq, List.forall₂_map_right_iff]
    exact List.forall₂_same.2 fun w _ => w.1.records_reference c _ w.2
  · rw [TypeNode.map_expr_ofExprs, walkAll_eq]
  · obtain ⟨line, hline, hd⟩ := TypeNode.descent_of_mem_ofExprs es hn
    rwa [hline]

/-- An exemption covers the arguments below it and nothing beside it, also below a variable. -/
example : ((CompilationUnit.mk "ledger" [
    { ModuleDecl.bare "Account" [{ TypeDecl.bare "t" with
        fields := [
          ⟨"kept", ⟨.var "a", [.ofPath "raw" []], ["unversioned"], none⟩⟩,
          ⟨"other", .ofPath "raw" []⟩] }] [] with
      functorArguments := ["Key"] }]).index .standard).references.map
        (fun r => (r.path, r.definition, r.exempt))
    = [(["Key"], false, false), (["raw"], true, true), (["raw"], true, false)] := by
  decide +kernel

end SchemaVersioning
