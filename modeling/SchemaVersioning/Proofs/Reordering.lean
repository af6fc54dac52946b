import Mathlib.Data.Multiset.Bind
import SchemaVersioning.Proofs.Outlines

/-!
# Reordering

Modules are reordered if they, or the members of any of them at any depth, stand in another order.
The places of reordered modules correspond to one another (`Reordered.rel_places`), each with the
same modules around it up to their members.  Where siblings have distinct names there is one place
at most at a path, so nothing that is looked up depends on the order, whether it is declared earlier
or later (`resolvePath_reordered`), and neither do the rulings of the rules.
-/

namespace SchemaVersioning

/-! ## Corresponding lists -/

section Rel

variable {α β γ δ : Type} {r : α → β → Prop} {as : List α} {bs : List β}

theorem rel_flatMap {s : γ → δ → Prop} {f : α → List γ} {g : β → List δ}
    (h : Multiset.Rel r ↑as ↑bs)
    (hfg : ∀ a ∈ as, ∀ b ∈ bs, r a b → Multiset.Rel s ↑(f a) ↑(g b)) :
    Multiset.Rel s ↑(as.flatMap f) ↑(bs.flatMap g) := by
  rw [← Multiset.coe_bind, ← Multiset.coe_bind]
  exact Multiset.rel_bind (r := fun a b => a ∈ as ∧ b ∈ bs ∧ r a b)
    (fun a b ⟨ha, hb, hab⟩ => hfg a ha b hb hab) (h.mono fun a ha b hb hab => ⟨ha, hb, hab⟩)

theorem perm_flatMap_of_rel {f : α → List γ} {g : β → List γ} (h : Multiset.Rel r ↑as ↑bs)
    (hfg : ∀ a ∈ as, ∀ b ∈ bs, r a b → (f a).Perm (g b)) :
    (as.flatMap f).Perm (bs.flatMap g) := by
  rw [← Multiset.coe_eq_coe, ← Multiset.rel_eq]
  exact rel_flatMap h fun a ha b hb hab =>
    Multiset.rel_eq.2 (Multiset.coe_eq_coe.2 (hfg a ha b hb hab))

theorem perm_filterMap_of_rel {f : α → Option γ} {g : β → Option γ} (h : Multiset.Rel r ↑as ↑bs)
    (hfg : ∀ a ∈ as, ∀ b ∈ bs, r a b → f a = g b) :
    (as.filterMap f).Perm (bs.filterMap g) := by
  rw [List.filterMap_eq_flatMap_toList, List.filterMap_eq_flatMap_toList]
  exact perm_flatMap_of_rel h fun a ha b hb hab => by rw [hfg a ha b hb hab]

theorem perm_map_of_rel {f : α → γ} {g : β → γ} (h : Multiset.Rel r ↑as ↑bs)
    (hfg : ∀ a ∈ as, ∀ b ∈ bs, r a b → f a = g b) : (as.map f).Perm (bs.map g) := by
  rw [List.map_eq_flatMap, List.map_eq_flatMap]
  exact perm_flatMap_of_rel h fun a ha b hb hab => by rw [hfg a ha b hb hab]

theorem forall_iff_of_rel {P : α → Prop} {Q : β → Prop} (h : Multiset.Rel r ↑as ↑bs)
    (hPQ : ∀ a ∈ as, ∀ b ∈ bs, r a b → (P a ↔ Q b)) : (∀ a ∈ as, P a) ↔ ∀ b ∈ bs, Q b := by
  constructor
  · intro hP b hb
    obtain ⟨a, ha, hab⟩ := Multiset.exists_mem_of_rel_of_mem (Multiset.rel_flip.2 h) hb
    exact (hPQ a ha b hb hab).1 (hP a ha)
  · intro hQ a ha
    obtain ⟨b, hb, hab⟩ := Multiset.exists_mem_of_rel_of_mem h ha
    exact (hPQ a ha b hb hab).2 (hQ b hb)

/-- A list whose members are all the same has one order. -/
theorem perm_eq_of_forall_eq {as bs : List α} (h : as.Perm bs) (heq : ∀ a ∈ as, ∀ b ∈ as, a = b) :
    as = bs :=
  h.eq_of_pairwise (fun a b ha hb _ _ => heq a ha b (h.mem_iff.2 hb))
    (List.pairwise_of_forall (R := fun _ _ => True) fun _ _ => trivial)
    (List.pairwise_of_forall fun _ _ => trivial)

end Rel

/-! ## Reordered modules -/

namespace ModuleDecl

/-- Modules in another order: siblings change places, the members of a module are reordered, or one
thing happens after the other. -/
inductive Reordered : List ModuleDecl → List ModuleDecl → Prop
  | siblings {ms ns : List ModuleDecl} (h : ms.Perm ns) : Reordered ms ns
  | members {m : ModuleDecl} {rest ns : List ModuleDecl} (h : Reordered m.modules ns) :
    Reordered (m :: rest) ({ m with modules := ns } :: rest)
  | trans {ms ns ks : List ModuleDecl} (h : Reordered ms ns) (h' : Reordered ns ks) :
    Reordered ms ks

/-- A module with its members reordered. -/
def Reorders (m n : ModuleDecl) : Prop := m.alone = n.alone ∧ Reordered m.modules n.modules

/-- What does not depend on members is the same of modules that agree up to these. -/
theorem eq_of_alone_eq {β : Type} (f : ModuleDecl → β) (hf : ∀ m, f m.alone = f m)
    {m n : ModuleDecl} (h : m.alone = n.alone) : f m = f n := by
  rw [← hf m, h, hf]

theorem Reordered.refl (ms : List ModuleDecl) : Reordered ms ms := .siblings (.refl _)

theorem Reorders.refl (m : ModuleDecl) : m.Reorders m := ⟨rfl, .refl _⟩

instance : IsTrans ModuleDecl Reorders := ⟨fun _ _ _ h h' => ⟨h.1.trans h'.1, h.2.trans h'.2⟩⟩

/-- Reordered modules correspond to one another. -/
theorem Reordered.rel {ms ns : List ModuleDecl} (h : Reordered ms ns) :
    Multiset.Rel Reorders ↑ms ↑ns := by
  induction h with
  | siblings h =>
    rw [Multiset.coe_eq_coe.2 h]
    exact Multiset.rel_refl_of_refl_on fun m _ => .refl m
  | @members m rest ns h _ =>
    rw [← Multiset.cons_coe, ← Multiset.cons_coe]
    exact .cons ⟨rfl, h⟩ (Multiset.rel_refl_of_refl_on fun m _ => .refl m)
  | trans _ _ ih ih' => exact Multiset.Rel.trans _ ih ih'

end ModuleDecl

open ModuleDecl (Reordered Reorders)

/-! ## Places of reordered modules -/

/-- A place with the members of its module reordered. -/
def Place.Reorders (p q : Place) : Prop :=
  p.alone = q.alone ∧ Reordered p.module.modules q.module.modules

instance : IsTrans Place Place.Reorders :=
  ⟨fun _ _ _ h h' => ⟨h.1.trans h'.1, h.2.trans h'.2⟩⟩

mutual

theorem rel_ofModule_of_line : ∀ (m : ModuleDecl) {line line' : List ModuleDecl},
    line.map ModuleDecl.alone = line'.map ModuleDecl.alone →
      Multiset.Rel Place.Reorders ↑(Place.ofModule line m) ↑(Place.ofModule line' m)
  | ⟨name, types, values, modules, attributes, codec, aliasOf, functor, args, loc⟩, line, line',
      hline => by
    rw [Place.ofModule, Place.ofModule, ← Multiset.cons_coe, ← Multiset.cons_coe]
    refine .cons ⟨?_, .refl _⟩ (rel_ofModules_of_line modules ?_)
    · rw [Place.alone, Place.alone, hline]
    · rw [List.map_append, List.map_append, hline]

/-- The same modules have corresponding places inside modules that agree up to their members. -/
theorem rel_ofModules_of_line : ∀ (ms : List ModuleDecl) {line line' : List ModuleDecl},
    line.map ModuleDecl.alone = line'.map ModuleDecl.alone →
      Multiset.Rel Place.Reorders ↑(Place.ofModules line ms) ↑(Place.ofModules line' ms)
  | [], _, _, _ => .zero
  | m :: rest, line, line', hline => by
    rw [Place.ofModules, Place.ofModules, ← Multiset.coe_add, ← Multiset.coe_add]
    exact (rel_ofModule_of_line m hline).add (rel_ofModules_of_line rest hline)

end

/-- The places of reordered modules correspond to one another. -/
theorem ModuleDecl.Reordered.rel_places {ms ns : List ModuleDecl} (h : Reordered ms ns) :
    ∀ {line line' : List ModuleDecl}, line.map ModuleDecl.alone = line'.map ModuleDecl.alone →
      Multiset.Rel Place.Reorders ↑(Place.ofModules line ms) ↑(Place.ofModules line' ns) := by
  induction h with
  | @siblings ms ns h =>
    intro line line' hline
    have hperm : (Place.ofModules line ms).Perm (Place.ofModules line ns) := by
      rw [Place.ofModules_eq_flatMap, Place.ofModules_eq_flatMap]
      exact h.flatMap_right _
    rw [Multiset.coe_eq_coe.2 hperm]
    exact rel_ofModules_of_line ns hline
  | @members m rest ns h ih =>
    -- The module stays where it is, and so do the ones after it; the places below it are reordered.
    intro line line' hline
    rw [Place.ofModules, Place.ofModules, Place.ofModule_eq_cons, Place.ofModule_eq_cons,
      ← Multiset.coe_add, ← Multiset.coe_add, ← Multiset.cons_coe, ← Multiset.cons_coe]
    refine .add (.cons ⟨?_, h⟩ (ih ?_)) (rel_ofModules_of_line rest hline)
    · rw [Place.alone, Place.alone, hline]
      rfl
    · rw [List.map_append, List.map_append, hline]
      rfl
  | trans _ _ ih ih' =>
    intro line line' hline
    exact Multiset.Rel.trans _ (ih rfl) (ih' hline)

/-! ## Families of reordered units -/

/-- A declaration with the members of its container reordered. -/
structure FamilyDeclaration.Reorders (d e : FamilyDeclaration) : Prop where
  alone : d.alone = e.alone
  members : Reordered d.container.modules e.container.modules

theorem Place.Reorders.rel_declaration? {p q : Place} (h : p.Reorders q) (c : Config) :
    Multiset.Rel FamilyDeclaration.Reorders ↑(p.declaration? c).toList
      ↑(q.declaration? c).toList := by
  have halone : (p.declaration? c).map FamilyDeclaration.alone
      = (q.declaration? c).map FamilyDeclaration.alone := by
    rw [← Place.declaration?_alone, ← Place.declaration?_alone, h.1]
  cases hp : p.declaration? c with
  | none =>
    rw [hp, Option.map_none, eq_comm, Option.map_eq_none_iff] at halone
    rw [halone]
    exact .zero
  | some d =>
    rw [hp, Option.map_some, eq_comm, Option.map_eq_some_iff] at halone
    obtain ⟨e, hq, halone⟩ := halone
    rw [hq]
    refine .cons ⟨halone.symm, ?_⟩ .zero
    rw [Place.container_of_declaration? hp, Place.container_of_declaration? hq]
    exact h.2

theorem rel_familyDeclarations {u v : CompilationUnit} (h : Reordered u.modules v.modules)
    (c : Config) : Multiset.Rel FamilyDeclaration.Reorders ↑(u.familyDeclarations c)
      ↑(v.familyDeclarations c) := by
  rw [familyDeclarations_eq, familyDeclarations_eq, List.filterMap_eq_flatMap_toList,
    List.filterMap_eq_flatMap_toList]
  exact rel_flatMap (h.rel_places rfl) fun _ _ _ _ hpq => hpq.rel_declaration? c

/-! ## Indexes of places in another order -/

section Permuted

/-- At most one place stands at a path, up to the members of modules. -/
def DistinctPlaces (ps : List Place) : Prop :=
  ∀ p ∈ ps, ∀ q ∈ ps, p.path = q.path → p.alone = q.alone

theorem CompilationUnit.DistinctSiblings.distinctPlaces {u : CompilationUnit}
    (hu : u.DistinctSiblings) : DistinctPlaces u.places :=
  fun _ hp _ hq hpath => congrArg Place.alone (hu.eq_of_path_eq hp hq hpath)

variable {ps qs : List Place} (hps : DistinctPlaces ps)
  (h : (ps.map Place.alone).Perm (qs.map Place.alone))

include hps h

/-- Where one place at most stands at a path, it does so in whatever order. -/
theorem samePlaces_of_perm (q : Path) :
    SamePlaces (qs.map Place.alone) (ps.map Place.alone) q := by
  refine fun a _ => (perm_eq_of_forall_eq (h.filter _) fun x hx y hy => ?_).symm
  obtain ⟨hx, hxa⟩ := List.mem_filter.1 hx
  obtain ⟨hy, hya⟩ := List.mem_filter.1 hy
  obtain ⟨p, hp, rfl⟩ := List.mem_map.1 hx
  obtain ⟨p', hp', rfl⟩ := List.mem_map.1 hy
  rw [decide_eq_true_eq, Place.path_alone] at hxa hya
  exact hps p hp p' hp' (hxa.trans hya.symm)

theorem answersAlike_of_perm :
    AnswersAlike (ps.map Place.alone) (qs.map Place.alone) (fun _ => True) (fun _ => True) where
  same _ _ _ _ := samePlaces_of_perm hps h _
  nil := trivial
  joined _ _ _ _ := trivial
  inside _ _ := trivial
  around _ _ := trivial
  typeAlias _ _ _ _ _ _ := trivial
  moduleAlias _ _ _ _ := trivial

/-- A path has the same meaning in a scope, whatever the order. -/
theorem resolvePath_of_perm (c : Config) (isModule : Bool) (p scope : Path)
    (visiting : List Path) : (Index.ofPlaces c qs).resolvePath isModule p scope visiting
      = (Index.ofPlaces c ps).resolvePath isModule p scope visiting := by
  rw [← (agreesOn_map_alone c qs).resolvePath trivial,
    ← (agreesOn_map_alone c ps).resolvePath trivial]
  exact ((answersAlike_of_perm hps h).agreesOn c).resolvePath ⟨trivial, trivial⟩

/-- The rules say the same of a reference, whatever the order. -/
theorem ruling_of_perm (c : Config) (r : Reference) :
    (Index.ofPlaces c qs).ruling r = (Index.ofPlaces c ps).ruling r := by
  rw [← ruling_ofPlaces_map_alone c qs, ← ruling_ofPlaces_map_alone c ps]
  exact ((answersAlike_of_perm hps h).agreesOn c).ruling ⟨trivial, trivial⟩

theorem perm_references_of_perm (c : Config) :
    (Index.ofPlaces c ps).references.Perm (Index.ofPlaces c qs).references := by
  have halone : ∀ ps : List Place, (Index.ofPlaces c ps).references
      = (ps.map Place.alone).flatMap
        (·.references c (declarationsAt c (ps.map Place.alone))) := fun ps => by
    show _ = (Index.ofPlaces c (ps.map Place.alone)).references
    rw [Index.ofPlaces_map_alone]
  rw [halone, halone]
  refine (h.flatMap_right _).trans (List.Perm.of_eq (List.flatMap_congr fun p _ => ?_))
  exact congrArg Site.references (samePlaces_of_perm hps h p.path).site.symm

theorem perm_rulings_of_perm (c : Config) :
    (Index.ofPlaces c ps).rulings.Perm (Index.ofPlaces c qs).rulings := by
  rw [Index.rulings, Index.rulings, funext fun r => ruling_of_perm hps h c r]
  exact (perm_references_of_perm hps h c).map _

theorem interruption?_of_perm (c : Config) :
    ps.findSome? (·.interruption? c ps) = none ↔ qs.findSome? (·.interruption? c qs) = none := by
  rw [← findSome?_interruption?_map_alone c ps, ← findSome?_interruption?_map_alone c qs,
    List.findSome?_eq_none_iff, List.findSome?_eq_none_iff]
  constructor
  · intro hnone p hp
    have hp' := h.mem_iff.2 hp
    rw [(answersAlike_of_perm hps h).interruption? c hp']
    exact hnone p hp'
  · intro hnone p hp
    rw [← (answersAlike_of_perm hps h).interruption? c hp]
    exact hnone p (h.mem_iff.1 hp)

end Permuted

/-! ## Indexes of reordered units -/

section Indexes

variable {u v : CompilationUnit}

theorem perm_outline (h : Reordered u.modules v.modules) :
    (u.places.map Place.alone).Perm (v.places.map Place.alone) :=
  perm_map_of_rel (h.rel_places rfl) fun _ _ _ _ hpq => hpq.1

variable (hu : u.DistinctSiblings) (h : Reordered u.modules v.modules) (c : Config)

include hu h

/-- A path has the same meaning in a scope, whatever the order of declarations. -/
theorem resolvePath_reordered (isModule : Bool) (p scope : Path) (visiting : List Path) :
    (v.index c).resolvePath isModule p scope visiting
      = (u.index c).resolvePath isModule p scope visiting := by
  rw [index_eq_ofPlaces, index_eq_ofPlaces]
  exact resolvePath_of_perm hu.distinctPlaces (perm_outline h) c isModule p scope visiting

theorem perm_rulings : (u.index c).rulings.Perm (v.index c).rulings := by
  rw [index_eq_ofPlaces, index_eq_ofPlaces]
  exact perm_rulings_of_perm hu.distinctPlaces (perm_outline h) c

theorem indexInterruption?_reordered :
    u.indexInterruption? c = none ↔ v.indexInterruption? c = none := by
  rw [indexInterruption?_eq, indexInterruption?_eq]
  exact interruption?_of_perm hu.distinctPlaces (perm_outline h) c

end Indexes

end SchemaVersioning
