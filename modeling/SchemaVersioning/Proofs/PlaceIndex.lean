import Mathlib.Data.List.Basic
import SchemaVersioning.Proofs.AgreeingIndexes

/-!
# Indexes of places

The index of a unit is put together from its places (`index_eq_ofPlaces`).  What a place adds lies
at its path or a fixed number of components below, and depends on the containers around it.  So two
lists of places declare the same at a path as soon as they hold the same places at its beginnings
(`SamePlaces`), and the rules say the same of a reference if this holds wherever it can lead
(`AnswersAlike`).
-/

namespace SchemaVersioning

/-! ## Contexts by the names of containers -/

section Contexts

variable {c : Config} {ds ds' : List FamilyDeclaration}

/-- The context inside a module depends on the name of the family around it. -/
theorem enter_congr {outer : Context} {parent : Path} {m : ModuleDecl}
    (h : (containerAt? ds parent).map (·.name) = (containerAt? ds' parent).map (·.name)) :
    outer.enter c ds parent m = outer.enter c ds' parent m := by
  unfold Context.enter
  cases hd : containerAt? ds parent with
  | none =>
    cases hd' : containerAt? ds' parent with
    | none => rfl
    | some d' => simp [hd, hd'] at h
  | some d =>
    cases hd' : containerAt? ds' parent with
    | none => simp [hd, hd'] at h
    | some d' =>
      have hname : d.name = d'.name := by simpa [hd, hd'] using h
      simp only [Context.enterMember, hname]

theorem declaredVersion_congr {s : Site}
    (h : (containerAt? ds s.parent).map (·.name) = (containerAt? ds' s.parent).map (·.name)) :
    s.declaredVersion ds = s.declaredVersion ds' := by
  unfold Site.declaredVersion
  cases hd : containerAt? ds s.parent with
  | none =>
    cases hd' : containerAt? ds' s.parent with
    | none => rfl
    | some d' => simp [hd, hd'] at h
  | some d =>
    cases hd' : containerAt? ds' s.parent with
    | none => simp [hd, hd'] at h
    | some d' =>
      have hname : d.name = d'.name := by simpa [hd, hd'] using h
      cases versionNumber? s.module.name with
      | none => rfl
      | some number => simp only [hname]

/-- The context inside a line depends on the names of the families on its way. -/
theorem within_congr {line : List ModuleDecl}
    (h : ∀ a, a <+: line → (containerAt? ds (Path.ofLine a)).map (·.name)
      = (containerAt? ds' (Path.ofLine a)).map (·.name)) :
    Context.within c ds line = Context.within c ds' line := by
  induction line using List.reverseRecOn with
  | nil => rfl
  | append_singleton line m ih =>
    rw [Context.within_concat, Context.within_concat,
      ih fun a ha => h a (ha.trans (List.prefix_append _ _)),
      enter_congr (h line (List.prefix_append _ _))]

end Contexts

/-! ## The index of some places -/

namespace Place

variable (c : Config) (ds : List FamilyDeclaration) (p : Place)

/-- The alias module of the family that is declared at a place. -/
def declaredLatest : List Declared := (p.declaration? c).toList.map (·.declaredLatest c)

/-- The types of the alias module of the family that is declared at a place. -/
def declaredLatestTypes : List Declared :=
  (p.declaration? c).toList.flatMap (·.declaredLatestTypes c)

def declaredTypes : List Declared := (p.site c ds).declaredTypes

def declaredVersion : List Declared := (p.site c ds).declaredVersion ds

def declaredAlias : List Declared := (p.site c ds).declaredAlias

def references : List Reference := (p.site c ds).references

end Place

/-- The families declared at some places. -/
def declarationsAt (c : Config) (ps : List Place) : List FamilyDeclaration :=
  ps.filterMap (Place.declaration? c)

/-- The index of the modules at some places. -/
def Index.ofPlaces (c : Config) (ps : List Place) : Index :=
  let ds := declarationsAt c ps
  { config := c
    declarations := ds
    types := (ps.flatMap (·.declaredLatestTypes c) ++ ps.flatMap (·.declaredTypes c ds)).reverse
    modules := (ps.flatMap (·.declaredLatest c) ++ ps.flatMap (·.declaredVersion c ds)).reverse
    moduleAliases := (ps.flatMap (·.declaredAlias c ds)).reverse
    references := ps.flatMap (·.references c ds) }

/-- What the rules say of the references at one of some places. -/
def Place.rulings (c : Config) (ps : List Place) (p : Place) : List Ruling :=
  (p.references c (declarationsAt c ps)).map (Index.ofPlaces c ps).ruling

/-- The interruption by visiting one of some places. -/
def Place.interruption? (c : Config) (ps : List Place) (p : Place) : Option Interruption :=
  Site.interruption? (declarationsAt c ps) (p.site c (declarationsAt c ps))

theorem rulings_ofPlaces (c : Config) (ps : List Place) :
    (Index.ofPlaces c ps).rulings = ps.flatMap (·.rulings c ps) := List.map_flatMap

theorem indexInterruption?_eq (u : CompilationUnit) (c : Config) :
    u.indexInterruption? c = u.places.findSome? (·.interruption? c u.places) := by
  have hds : u.familyDeclarations c = declarationsAt c u.places := familyDeclarations_eq u c
  have hsites : Site.ofModules c (declarationsAt c u.places) [] .ordinary u.modules
      = u.places.map (Place.site c (declarationsAt c u.places)) := ofModules_within c _ [] u.modules
  simp only [CompilationUnit.indexInterruption?, hds, hsites, List.findSome?_map]
  rfl

/-- Dropping what adds nothing makes no difference. -/
theorem flatMap_filter_congr {α β : Type} {f g : α → List β} {shown : α → Bool} {as : List α}
    (hshown : ∀ a ∈ as, shown a = true → g a = f a)
    (hhidden : ∀ a ∈ as, shown a = false → g a = []) :
    as.flatMap g = (as.filter shown).flatMap f := by
  induction as with
  | nil => rfl
  | cons a as ih =>
    have ih := ih (fun b hb => hshown b (List.mem_cons_of_mem _ hb))
      fun b hb => hhidden b (List.mem_cons_of_mem _ hb)
    cases ha : shown a with
    | true =>
      rw [List.filter_cons_of_pos ha, List.flatMap_cons, List.flatMap_cons,
        hshown a List.mem_cons_self ha, ih]
    | false =>
      rw [List.filter_cons_of_neg (by simp [ha]), List.flatMap_cons,
        hhidden a List.mem_cons_self ha, List.nil_append, ih]

theorem flatMap_filterMap {α β γ : Type} (f : α → Option β) (g : β → List γ) (as : List α) :
    (as.filterMap f).flatMap g = as.flatMap fun a => (f a).toList.flatMap g := by
  induction as with
  | nil => rfl
  | cons a as ih => cases h : f a <;> simp [h, ih]

theorem index_eq_ofPlaces (u : CompilationUnit) (c : Config) :
    u.index c = Index.ofPlaces c u.places := by
  have hds : u.familyDeclarations c = declarationsAt c u.places := familyDeclarations_eq u c
  have hsites : Site.ofModules c (declarationsAt c u.places) [] .ordinary u.modules
      = u.places.map (Place.site c (declarationsAt c u.places)) := ofModules_within c _ [] u.modules
  have htypes : (declarationsAt c u.places).flatMap (·.declaredLatestTypes c)
      = u.places.flatMap (·.declaredLatestTypes c) := flatMap_filterMap _ _ _
  have hmodules : (declarationsAt c u.places).map (·.declaredLatest c)
      = u.places.flatMap (·.declaredLatest c) := by
    rw [List.map_eq_flatMap, declarationsAt, flatMap_filterMap]
    simp only [← List.map_eq_flatMap]
    rfl
  simp only [CompilationUnit.index, Index.ofPlaces, hds, hsites, htypes, hmodules, List.flatMap_map]
  rfl

/-! ## Places along a path -/

/-- The places at the beginnings of a path are the same. -/
def SamePlaces (ps qs : List Place) (q : Path) : Prop :=
  ∀ a, a <+: q → ps.filter (·.path = a) = qs.filter (·.path = a)

/-- What is read off a place lies a fixed number of components below its path. -/
def LiesBelow {β : Type} (key : β → Path) (f : Place → List β) (n : Nat) : Prop :=
  ∀ p, ∀ b ∈ f p, p.path <+: key b ∧ (key b).length = p.path.length + n

section Reading

variable {β : Type} {key : β → Path} {f g : Place → List β} {n : Nat} {ps qs : List Place}
  {q : Path}

theorem SamePlaces.of_isPrefix (h : SamePlaces ps qs q) {p : Path} (hp : p <+: q) :
    SamePlaces ps qs p := fun a ha => h a (ha.trans hp)

/-- Only the places at one beginning of a path have anything at the path. -/
theorem filter_flatMap_at (hf : LiesBelow key f n) (ps : List Place) (q : Path) :
    (ps.flatMap f).filter (key · = q)
      = ((ps.filter (·.path = q.take (q.length - n))).flatMap f).filter (key · = q) := by
  induction ps with
  | nil => rfl
  | cons p ps ih =>
    by_cases hp : p.path = q.take (q.length - n)
    · rw [List.filter_cons_of_pos (by simpa using hp), List.flatMap_cons, List.flatMap_cons,
        List.filter_append, List.filter_append, ih]
    · have hnone : (f p).filter (key · = q) = [] := by
        rw [List.filter_eq_nil_iff]
        intro b hb hq
        obtain rfl : key b = q := by simpa using hq
        obtain ⟨hbelow, hlength⟩ := hf p b hb
        refine hp ?_
        rw [hlength, Nat.add_sub_cancel]
        exact List.prefix_iff_eq_take.1 hbelow
      rw [List.filter_cons_of_neg (by simpa using hp), List.flatMap_cons, List.filter_append, hnone,
        List.nil_append, ih]

theorem filter_flatMap_congr (hf : LiesBelow key f n) (hg : LiesBelow key g n)
    (h : SamePlaces ps qs q) (hfg : ∀ p, p.path <+: q → f p = g p) :
    (ps.flatMap f).filter (key · = q) = (qs.flatMap g).filter (key · = q) := by
  have hbegins : q.take (q.length - n) <+: q := List.take_prefix _ _
  rw [filter_flatMap_at hf, filter_flatMap_at hg, ← h _ hbegins]
  refine congrArg (List.filter _) (List.flatMap_congr fun p hp => hfg p ?_)
  have hpath : p.path = q.take (q.length - n) := by simpa using (List.mem_filter.1 hp).2
  exact hpath ▸ hbegins

end Reading

/-! ## What places declare -/

section Declaring

variable {c : Config} {ds : List FamilyDeclaration}

theorem liesBelow_declaration? :
    LiesBelow FamilyDeclaration.containerPath (fun p => (p.declaration? c).toList) 0 := by
  intro p d hd
  rw [Place.containerPath_of_declaration? (Option.mem_toList.1 hd)]
  exact ⟨List.prefix_rfl, rfl⟩

theorem liesBelow_declaredLatest :
    LiesBelow Declared.path (Place.declaredLatest c) 1 := by
  intro p e he
  obtain ⟨d, hd, rfl⟩ := List.mem_map.1 he
  rw [← Place.containerPath_of_declaration? (Option.mem_toList.1 hd)]
  exact ⟨List.prefix_append _ _, List.length_append⟩

theorem liesBelow_declaredLatestTypes :
    LiesBelow Declared.path (Place.declaredLatestTypes c) 2 := by
  intro p e he
  obtain ⟨d, hd, he⟩ := List.mem_flatMap.1 he
  obtain ⟨x, -, rfl⟩ := List.mem_map.1 he
  rw [← Place.containerPath_of_declaration? (Option.mem_toList.1 hd)]
  refine ⟨(List.prefix_append _ _).trans (List.prefix_append _ _), ?_⟩
  simp [FamilyDeclaration.latestPath]

theorem liesBelow_declaredTypes :
    LiesBelow Declared.path (Place.declaredTypes c ds) 1 := by
  intro p e he
  obtain ⟨t, -, rfl⟩ := List.mem_map.1 he
  rw [Place.path_site]
  exact ⟨List.prefix_append _ _, List.length_append⟩

theorem liesBelow_declaredVersion :
    LiesBelow Declared.path (Place.declaredVersion c ds) 0 := by
  intro p e he
  unfold Place.declaredVersion Site.declaredVersion at he
  split at he
  · cases he
  · split at he
    · rw [List.mem_singleton.1 he, Place.path_site]
      exact ⟨List.prefix_rfl, rfl⟩
    · cases he

theorem liesBelow_declaredAlias :
    LiesBelow Declared.path (Place.declaredAlias c ds) 0 := by
  intro p e he
  obtain ⟨target, -, rfl⟩ := Option.map_eq_some_iff.1 (Option.mem_toList.1 he)
  rw [Place.path_site]
  exact ⟨List.prefix_rfl, rfl⟩

end Declaring

/-! ## What is declared at a path -/

section Same

variable {c : Config} {ps qs : List Place} {q : Path}

theorem SamePlaces.containerAt? (h : SamePlaces ps qs q) :
    containerAt? (declarationsAt c ps) q = containerAt? (declarationsAt c qs) q := by
  unfold SchemaVersioning.containerAt? declarationsAt
  rw [List.filterMap_eq_flatMap_toList, List.filterMap_eq_flatMap_toList,
    filter_flatMap_congr liesBelow_declaration? liesBelow_declaration? h fun _ _ => rfl]

/-- A place is the same site in both indexes. -/
theorem SamePlaces.site {p : Place} (h : SamePlaces ps qs p.path) :
    p.site c (declarationsAt c ps) = p.site c (declarationsAt c qs) := by
  have hwithin : ∀ line, line <+: p.line → Context.within c (declarationsAt c ps) line
      = Context.within c (declarationsAt c qs) line := by
    intro line hline
    refine within_congr fun a ha => congrArg (Option.map _) ?_
    exact (h.of_isPrefix ((ha.trans hline).map _)).containerAt?
  simp only [Place.site, hwithin p.line List.prefix_rfl,
    hwithin p.ancestors (List.prefix_append _ _)]

theorem Table.find?_reverse (l : List Declared) (q : Path) :
    Table.find? l.reverse q = (l.filter (·.path = q)).getLast? := by
  rw [Table.find?, ← List.head?_filter, List.filter_reverse, List.head?_reverse]

theorem find?_append_congr {f f' g g' : Place → List Declared} {n m : Nat}
    (hf : LiesBelow Declared.path f n) (hf' : LiesBelow Declared.path f' n)
    (hg : LiesBelow Declared.path g m) (hg' : LiesBelow Declared.path g' m) (h : SamePlaces ps qs q)
    (hff : ∀ p, p.path <+: q → f p = f' p) (hgg : ∀ p, p.path <+: q → g p = g' p) :
    Table.find? (ps.flatMap f ++ ps.flatMap g).reverse q
      = Table.find? (qs.flatMap f' ++ qs.flatMap g').reverse q := by
  rw [Table.find?_reverse, Table.find?_reverse, List.filter_append, List.filter_append,
    filter_flatMap_congr hf hf' h hff, filter_flatMap_congr hg hg' h hgg]

theorem SamePlaces.find?_types (h : SamePlaces ps qs q) :
    (Index.ofPlaces c ps).types.find? q = (Index.ofPlaces c qs).types.find? q :=
  find?_append_congr liesBelow_declaredLatestTypes liesBelow_declaredLatestTypes
    liesBelow_declaredTypes liesBelow_declaredTypes h (fun _ _ => rfl)
    fun _ hp => congrArg Site.declaredTypes (h.of_isPrefix hp).site

theorem SamePlaces.find?_modules (h : SamePlaces ps qs q) :
    (Index.ofPlaces c ps).modules.find? q = (Index.ofPlaces c qs).modules.find? q := by
  refine find?_append_congr liesBelow_declaredLatest liesBelow_declaredLatest
    liesBelow_declaredVersion liesBelow_declaredVersion h (fun _ _ => rfl) fun p hp => ?_
  have hparent : Path.ofLine p.ancestors <+: q :=
    (List.IsPrefix.map _ (List.prefix_append _ _)).trans hp
  rw [Place.declaredVersion, Place.declaredVersion, (h.of_isPrefix hp).site]
  exact declaredVersion_congr (congrArg _ (h.of_isPrefix hparent).containerAt?)

theorem SamePlaces.find?_moduleAliases (h : SamePlaces ps qs q) :
    (Index.ofPlaces c ps).moduleAliases.find? q = (Index.ofPlaces c qs).moduleAliases.find? q := by
  simp only [Index.ofPlaces, Table.find?_reverse]
  rw [filter_flatMap_congr liesBelow_declaredAlias liesBelow_declaredAlias h
    fun p hp => congrArg Site.declaredAlias (h.of_isPrefix hp).site]

end Same

/-! ## Agreement of places -/

/-- More places answer some questions, by path and by scope, as fewer places do: they are the same
wherever such a path is looked up in such a scope, and the aliases at the fewer places lead from
such questions to such questions. -/
structure AnswersAlike (ps qs : List Place) (path scope : Path → Prop) : Prop where
  same : ∀ {p s}, path p → scope s → ∀ i ≤ s.length, SamePlaces qs ps (s.take i ++ p)
  nil : path []
  joined : ∀ {p q}, p ≠ [] → path p → path q → ∀ i, path (p ++ q.drop i)
  inside : ∀ p ∈ ps, scope p.path
  around : ∀ p ∈ ps, scope (Path.ofLine p.ancestors)
  typeAlias : ∀ p ∈ ps, ∀ t ∈ p.module.types, ∀ e, t.alias? = some e → path e.path
  moduleAlias : ∀ p ∈ ps, ∀ target, p.module.aliasOf = some target → path (Path.ofDotted target)

mutual

theorem scope_of_mem_exprReferences {s : Site} {owner : String} {definition : Bool}
    {fallback : Option Location} {r : Reference} : ∀ {exempt : Bool} {e : TypeExpr},
    r ∈ s.exprReferences owner definition fallback exempt e → r.scope = s.path
  | exempt, ⟨.var name, args, attributes, location⟩, h => by
    rw [Site.exprReferences, List.nil_append] at h
    exact scope_of_mem_exprReferencesAll h
  | exempt, ⟨.named first rest, args, attributes, location⟩, h => by
    rw [Site.exprReferences, List.mem_append, List.mem_singleton] at h
    rcases h with rfl | h
    · rfl
    · exact scope_of_mem_exprReferencesAll h

theorem scope_of_mem_exprReferencesAll {s : Site} {owner : String} {definition : Bool}
    {fallback : Option Location} {r : Reference} : ∀ {exempt : Bool} {es : List TypeExpr},
    r ∈ s.exprReferencesAll owner definition fallback exempt es → r.scope = s.path
  | exempt, [], h => by simp [Site.exprReferencesAll] at h
  | exempt, e :: rest, h => by
    rw [Site.exprReferencesAll, List.mem_append] at h
    exact h.elim scope_of_mem_exprReferences scope_of_mem_exprReferencesAll

end

/-- A reference is looked up inside its module or around it. -/
theorem scope_of_mem_references {s : Site} {r : Reference} (h : r ∈ s.references) :
    r.scope = s.path ∨ r.scope = s.parent := by
  simp only [Site.references, List.mem_append, List.mem_flatMap, Site.parameterReferences] at h
  rcases h with (((hargument | halias) | ⟨p, -, ⟨t, -, ht⟩ | ⟨v, -, hv⟩⟩) | ⟨t, -, ht⟩) | ⟨v, -, hv⟩
  · obtain ⟨a, -, rfl⟩ := List.mem_map.1 hargument
    exact Or.inr rfl
  · obtain ⟨a, -, rfl⟩ := Option.map_eq_some_iff.1 (Option.mem_toList.1 halias)
    exact Or.inr rfl
  · exact Or.inl (scope_of_mem_exprReferencesAll ht)
  · exact Or.inl (scope_of_mem_exprReferencesAll hv)
  · exact Or.inl (scope_of_mem_exprReferencesAll ht)
  · exact Or.inl (scope_of_mem_exprReferencesAll hv)

namespace AnswersAlike

variable {ps qs : List Place} {path scope : Path → Prop} (c : Config)

theorem agreesOn (h : AnswersAlike ps qs path scope) :
    (Index.ofPlaces c ps).AgreesOn (Index.ofPlaces c qs) fun p s => path p ∧ scope s where
  config := rfl
  lookup := by
    rintro isModule p s ⟨hp, hs⟩
    refine lookup_congr fun i hi => ?_
    cases isModule with
    | true => exact (h.same hp hs i hi).find?_modules
    | false => exact (h.same hp hs i hi).find?_types
  aliases := by
    rintro p s i ⟨hp, hs⟩
    refine lookup_congr fun j hj => ((h.same hp hs j hj).of_isPrefix ?_).find?_moduleAliases
    exact (List.prefix_append_right_inj _).2 (List.take_prefix _ _)
  typeAlias := by
    rintro p s d target - hd hplain
    obtain ⟨e, he, rfl⟩ := mem_of_plainTarget? hplain
    rcases List.mem_append.1 (List.mem_reverse.1 (Table.mem_of_lookup hd)) with hd | hd
    · -- The types of a generated alias module are no aliases.
      obtain ⟨a, -, hd⟩ := List.mem_flatMap.1 hd
      obtain ⟨b, -, hd⟩ := List.mem_flatMap.1 hd
      obtain ⟨x, -, rfl⟩ := List.mem_map.1 hd
      cases he
    · obtain ⟨a, ha, hd⟩ := List.mem_flatMap.1 hd
      obtain ⟨t, ht, rfl⟩ := List.mem_map.1 hd
      refine ⟨h.typeAlias a ha t ht e he, ?_⟩
      show scope (a.site c _).path
      rw [Place.path_site]
      exact h.inside a ha
  moduleAlias := by
    rintro p s i d e ⟨hp, -⟩ hd he
    obtain ⟨a, ha, hd⟩ := List.mem_flatMap.1 (List.mem_reverse.1 (Table.mem_of_lookup hd))
    obtain ⟨target, htarget, rfl⟩ := Option.map_eq_some_iff.1 (Option.mem_toList.1 hd)
    obtain rfl := Option.some.inj he
    exact ⟨h.joined (List.cons_ne_nil _ _) (h.moduleAlias a ha target htarget) hp i, h.around a ha⟩

theorem samePlaces (h : AnswersAlike ps qs path scope) {p : Place} (hp : p ∈ ps) :
    SamePlaces qs ps p.path := by
  simpa using h.same h.nil (h.inside p hp) p.path.length (Nat.le_refl _)

/-- The references at one of the fewer places are the same, and the rules say the same of them. -/
theorem rulings (h : AnswersAlike ps qs path scope) {p : Place} (hp : p ∈ ps)
    (hasked : ∀ r ∈ p.references c (declarationsAt c ps), r.context = .test ∨ path r.path) :
    p.rulings c qs = p.rulings c ps := by
  rw [Place.rulings, Place.references, (h.samePlaces hp).site]
  refine List.map_congr_left fun r hr => ?_
  rcases hasked r hr with htest | hpath
  · rw [Index.ruling_of_test _ htest, Index.ruling_of_test _ htest]
  · refine (h.agreesOn c).ruling ⟨hpath, ?_⟩
    rcases scope_of_mem_references hr with hscope | hscope
    · rw [hscope, Place.path_site]
      exact h.inside p hp
    · rw [hscope]
      exact h.around p hp

/-- One of the fewer places interrupts the walk alike. -/
theorem interruption? (h : AnswersAlike ps qs path scope) {p : Place} (hp : p ∈ ps) :
    p.interruption? c qs = p.interruption? c ps := by
  have hparent : SamePlaces qs ps (Path.ofLine p.ancestors) :=
    (h.samePlaces hp).of_isPrefix ((List.prefix_append _ _).map _)
  rw [Place.interruption?, (h.samePlaces hp).site]
  show Site.interruption? _ (p.site c (declarationsAt c ps)) = _
  simp only [Site.interruption?]
  rw [show (p.site c (declarationsAt c ps)).parent = Path.ofLine p.ancestors from rfl,
    hparent.containerAt?]
  rfl

end AnswersAlike

/-! ## Analyses -/

section Analyses

variable {u : CompilationUnit} {c : Config}

theorem analyzed_eq_ok_iff {r : CompilationResult} :
    u.analyzed c = .ok r ↔ u.interruption? c = none ∧ u.analyze c = r := by
  rw [CompilationUnit.analyzed, CompilationUnit.analyze?]
  cases u.interruption? c with
  | none => simp [Except.mapError]
  | some i => simp [Except.mapError]

/-- An analysis is not interrupted if no build, no visit, no reference and no arity interrupts
it. -/
theorem interruption?_eq_none_iff : u.interruption? c = none ↔
    (∀ d ∈ u.familyDeclarations c, d.interruption? c = none) ∧
      (∀ p ∈ u.places, p.interruption? c u.places = none) ∧
      (∀ x ∈ (u.index c).rulings, x.useInterruption = none ∧ x.leakInterruption = none) ∧
      u.TellsArities c := by
  rw [CompilationUnit.interruption?, CompilationUnit.buildInterruption?,
    CompilationUnit.checkInterruption?, indexInterruption?_eq, Index.interruption?_eq,
    functorInterruption?_families, tellsArities_iff]
  simp only [Option.or_eq_none_iff, List.findSome?_eq_none_iff, forall_and]
  tauto

/-- The diagnostics of an analysis in no particular order. -/
theorem perm_diagnostics : (u.diagnostics c).Perm (u.buildDiagnostics c
    ++ ((u.index c).rulings.filterMap (·.use)
      ++ (u.familyDeclarations c).filterMap FamilyDeclaration.parameterized?
      ++ (u.index c).rulings.filterMap (·.leak))) := by
  have hviolations : ((u.index c).violations []).Perm ((u.index c).rulings.filterMap (·.use)
      ++ (u.familyDeclarations c).filterMap FamilyDeclaration.parameterized?
      ++ (u.index c).rulings.filterMap (·.leak)) := by
    refine (List.mergeSort_perm _ _).trans (List.Perm.of_eq ?_)
    rw [Index.unstableUses_eq, Index.versionLeaks_eq, functorFamilies, foreignFamilies,
      List.filterMap_nil, List.append_nil]
    rfl
  exact stablySorts_diagnostics.perm.trans (hviolations.append_left _)

theorem generated_of_passed (h : (u.analyze c).passed = true) :
    (u.analyze c).generated = (u.families c).map (·.synthesize c) := if_pos h

end Analyses

end SchemaVersioning
