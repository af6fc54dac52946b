import Mathlib.Logic.Basic
import SchemaVersioning.Proofs.Naming
import SchemaVersioning.Proofs.Walks

/-!
# Declarations in force

Where siblings have distinct names, the index declares a path once outside of the generated aliases:
a type has the standing of the context of its module (`find?_type`), and a version module outside of
tests is that version of its container (`find?_version`).
-/

namespace SchemaVersioning

section Contexts

variable {c : Config} {ds : List FamilyDeclaration}

theorem inherit_ne_test {outer : Context} {m : ModuleDecl} (h : outer ≠ .test) :
    outer.inherit m ≠ .test := by
  unfold Context.inherit
  split
  · exact Context.noConfusion
  · exact Context.noConfusion
  · split
    · exact Context.noConfusion
    · exact h

theorem enter_eq_test_iff {outer : Context} {parent : Path} {m : ModuleDecl} :
    outer.enter c ds parent m = .test ↔ outer = .test ∨ c.isTest m = true := by
  unfold Context.enter
  by_cases h : outer = .test ∨ c.isTest m = true
  · simp [h]
  · simp only [h, if_false, iff_false]
    have houter : outer ≠ .test := fun heq => h (Or.inl heq)
    split
    · next d _ =>
      unfold Context.enterMember
      split
      · exact Context.noConfusion
      · split
        · exact Context.noConfusion
        · exact inherit_ne_test houter
    · exact inherit_ne_test houter

/-- The context inside a line of modules is that of a test exactly when one of them is a test. -/
theorem within_eq_test_iff (line : List ModuleDecl) :
    Context.within c ds line = .test ↔ line.any c.isTest = true := by
  induction line using List.reverseRecOn with
  | nil => simp
  | append_singleton line m ih =>
    rw [Context.within_concat, enter_eq_test_iff, ih, List.any_append, Bool.or_eq_true]
    simp

/-- The context inside a version of a container. -/
theorem within_version {line : List ModuleDecl} {m : ModuleDecl} {d : FamilyDeclaration} {k : Nat}
    (htest : (line ++ [m]).any c.isTest = false) (hd : containerAt? ds (Path.ofLine line) = some d)
    (hk : versionNumber? m.name = some k) :
    Context.within c ds (line ++ [m]) = .version d.name k := by
  rw [List.any_append, Bool.or_eq_false_iff] at htest
  have houter : ¬ (Context.within c ds line = .test ∨ c.isTest m = true) := by
    rw [within_eq_test_iff, htest.1]
    simpa using htest.2
  rw [Context.within_concat, Context.enter, if_neg houter, hd]
  simp only [Context.enterMember, hk]

end Contexts

section Tables

variable {u : CompilationUnit} {c : Config}

/-- The container at the path of a discovered one. -/
theorem containerAt?_eq (hu : u.DistinctSiblings) {d : FamilyDeclaration}
    (hd : d ∈ u.familyDeclarations c) :
    containerAt? (u.familyDeclarations c) d.containerPath = some d := by
  rw [containerAt?]
  have hmem : d ∈ (u.familyDeclarations c).filter fun e => e.containerPath = d.containerPath :=
    List.mem_filter.2 ⟨hd, by simp⟩
  obtain ⟨e, he⟩ := Option.ne_none_iff_exists'.1
    (fun h => List.ne_nil_of_mem hmem (List.getLast?_eq_none_iff.1 h))
  obtain ⟨hmem', hpath⟩ := List.mem_filter.1 (List.mem_of_getLast? he)
  rw [he, hu.eq_of_containerPath_eq hmem' hd (by simpa using hpath)]

/-- The newest entries of a table hide the others. -/
theorem find?_reverse_append (old : Table) {new : Table} {q : Path} {e : Declared}
    (h : e ∈ new) (hq : e.path = q) :
    ∃ e' ∈ new, e'.path = q ∧ Table.find? (old ++ new).reverse q = some e' := by
  have hsome : (List.find? (fun a => a.path = q) new.reverse).isSome :=
    List.find?_isSome.2 ⟨e, List.mem_reverse.2 h, by simpa using hq⟩
  obtain ⟨e', he'⟩ := Option.isSome_iff_exists.1 hsome
  refine ⟨e', List.mem_reverse.1 (List.mem_of_find?_eq_some he'), Table.path_of_find? he', ?_⟩
  rw [Table.find?, List.reverse_append, List.find?_append, he']
  rfl

/-- The type in force at the path of a declared type is one of its module. -/
theorem find?_type (hu : u.DistinctSiblings) {p : Place} (hp : p ∈ u.places) {t : TypeDecl}
    (ht : t ∈ p.module.types) :
    ∃ e t', (u.index c).types.find? (p.path ++ [t.name]) = some e ∧
      e.standing = Site.standingOf (Context.within c (u.familyDeclarations c) p.line) t' := by
  have hmem : ∃ e ∈ (u.sites c).flatMap (·.declaredTypes), e.path = p.path ++ [t.name] := by
    refine ⟨_, mem_flatMap_sites.2 ⟨p, hp, List.mem_map_of_mem ht⟩, ?_⟩
    show (p.site c _).path ++ [t.name] = _
    rw [Place.path_site]
  obtain ⟨e, he, hpath⟩ := hmem
  obtain ⟨e', he', hpath', hfind⟩ := find?_reverse_append
    ((u.familyDeclarations c).flatMap (·.declaredLatestTypes c)) he hpath
  obtain ⟨q, hq, hq'⟩ := mem_flatMap_sites.1 he'
  obtain ⟨t', -, rfl⟩ := List.mem_map.1 hq'
  have hsame : (q.site c (u.familyDeclarations c)).path ++ [t'.name] = p.path ++ [t.name] := hpath'
  rw [Place.path_site] at hsame
  obtain rfl := hu.eq_of_path_eq hq hp (List.append_inj' hsame rfl).1
  exact ⟨_, t', hfind, rfl⟩

theorem path_of_mem_declaredVersion {p : Place} {e : Declared}
    (he : e ∈ (p.site c (u.familyDeclarations c)).declaredVersion (u.familyDeclarations c)) :
    e.path = p.path := by
  unfold Site.declaredVersion at he
  split at he
  · cases he
  · split at he
    · rw [List.mem_singleton.1 he, ← Place.path_site]
    · cases he

section Version

variable {p : Place} {d : FamilyDeclaration} {k : Nat}

theorem declaredVersion_eq (hu : u.DistinctSiblings) (hd : d ∈ u.familyDeclarations c)
    (hparent : d.containerPath = Path.ofLine p.ancestors)
    (hk : versionNumber? p.module.name = some k) (htest : p.line.any c.isTest = false) :
    (p.site c (u.familyDeclarations c)).declaredVersion (u.familyDeclarations c)
      = [⟨p.path, .version d.name k, [], none⟩] := by
  have hcontext : (p.site c (u.familyDeclarations c)).context ≠ .test := fun h => by
    rw [(within_eq_test_iff p.line).1 h] at htest
    cases htest
  have hcontainer : containerAt? (u.familyDeclarations c)
      (p.site c (u.familyDeclarations c)).parent = some d := by
    rw [show (p.site c (u.familyDeclarations c)).parent = d.containerPath from hparent.symm]
    exact containerAt?_eq hu hd
  have hnumber : versionNumber? (p.site c (u.familyDeclarations c)).module.name = some k := hk
  simp only [Site.declaredVersion, if_neg hcontext, hcontainer, hnumber, Place.path_site]

/-- The module in force at the path of a version is that version. -/
theorem find?_version (hu : u.DistinctSiblings) (hp : p ∈ u.places)
    (hd : d ∈ u.familyDeclarations c) (hparent : d.containerPath = Path.ofLine p.ancestors)
    (hk : versionNumber? p.module.name = some k) (htest : p.line.any c.isTest = false) :
    (u.index c).modules.find? p.path = some ⟨p.path, .version d.name k, [], none⟩ := by
  have hmem : (⟨p.path, .version d.name k, [], none⟩ : Declared) ∈ (u.sites c).flatMap
      fun s => s.declaredVersion (u.familyDeclarations c) := by
    refine mem_flatMap_sites.2 ⟨p, hp, ?_⟩
    rw [declaredVersion_eq hu hd hparent hk htest]
    exact List.mem_singleton_self _
  obtain ⟨e, he, hpath, hfind⟩ := find?_reverse_append
    ((u.familyDeclarations c).map (·.declaredLatest c)) hmem rfl
  obtain ⟨q, hq, hqe⟩ := mem_flatMap_sites.1 he
  obtain rfl := hu.eq_of_path_eq hq hp ((path_of_mem_declaredVersion hqe).symm.trans hpath)
  rw [declaredVersion_eq hu hd hparent hk htest] at hqe
  rw [← List.mem_singleton.1 hqe]
  exact hfind

end Version

end Tables

end SchemaVersioning
