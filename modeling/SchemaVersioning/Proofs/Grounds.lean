import SchemaVersioning.Proofs.Leakage

/-!
# Grounds of resolutions

What the target of a resolution stands for, whatever aliases have led there.  A resolution rests on
one of three grounds: its target is a built-in type, it is what the declaration in force at its
target says, or its target is declared nowhere and looks like what it is taken for
(`grounds_resolvePath`).  So a version is a version by its name: some component of the target is the
name of that version (`Grounds.exists_component`).
-/

namespace SchemaVersioning

namespace Index

/-- What a resolution rests on. -/
inductive Grounds (index : Index) (isModule : Bool) : Resolution → Prop
  | builtin {p : Path} (typed : isModule = false) (taken : index.config.isBuiltin p = true) :
      Grounds index isModule ⟨.builtin, p⟩
  | declared {e : Declared} (inForce : (index.table isModule).find? e.path = some e) :
      Grounds index isModule e.resolution
  | undeclared {p : Path} (nowhere : ¬ (index.table isModule).Declares p) :
      Grounds index isModule ⟨index.config.standingByShape [] p, p⟩

variable {index : Index} {isModule : Bool} {p scope : Path} {visiting : List Path}

theorem grounds_of_lookup {e : Declared} (h : (index.table isModule).lookup p scope = some e) :
    index.Grounds isModule e.resolution :=
  .declared (Table.lookup_eq_some_iff.1 h).2

/-- Every resolution rests on one of the grounds: following an alias ends where its target does, and
an alias that is not followed is what is declared. -/
theorem grounds_resolvePath :
    index.Grounds isModule (index.resolvePath isModule p scope visiting) := by
  fun_induction index.resolvePath isModule p scope visiting with
  | case1 isModule p scope visiting hbuiltin =>
    obtain ⟨hmodule, hbuiltin⟩ := Bool.and_eq_true_iff.1 hbuiltin
    exact .builtin (by simpa using hmodule) hbuiltin
  | case2 isModule p scope visiting hbuiltin d hd hplain => exact grounds_of_lookup hd
  | case3 isModule p scope visiting hbuiltin d hd target hplain hv => exact grounds_of_lookup hd
  | case4 isModule p scope visiting hbuiltin d hd target hplain hv resolution hlatest ih =>
    obtain rfl : isModule = false := by simpa using fun hm => hv (Or.inl hm)
    exact ih
  | case5 isModule p scope visiting hbuiltin d hd target hplain hv resolution hlatest ih =>
    exact grounds_of_lookup hd
  | case6 isModule p scope visiting hbuiltin hd d target rest hstep ih => exact ih
  | case7 isModule p scope visiting hbuiltin hd hstep =>
    refine .undeclared fun hdeclared => ?_
    exact Table.lookup_ne_none (Nat.zero_le _) hdeclared hd

theorem grounds_resolve (index : Index) (r : Reference) :
    index.Grounds r.isModule (index.resolve r) :=
  grounds_resolvePath

section Targets

variable {res : Resolution}

/-- Where the target is declared, it stands for what the declaration in force says, unless it is
taken for a built-in type. -/
theorem Grounds.standing_of_find? (h : index.Grounds isModule res)
    (hbuiltin : isModule = false → res.standing ≠ .builtin) {e : Declared}
    (he : (index.table isModule).find? res.target = some e) : res.standing = e.standing := by
  cases h with
  | builtin typed => exact absurd rfl (hbuiltin typed)
  | declared hforce =>
    rw [Option.some.inj (he.symm.trans hforce)]
    rfl
  | undeclared hnowhere => exact absurd he (by simp [Table.not_declares_iff.1 hnowhere])

/-- Where the target is declared nowhere, it stands for what it looks like, unless it is taken for a
built-in type. -/
theorem Grounds.standing_of_undeclared (h : index.Grounds isModule res)
    (hbuiltin : isModule = false → res.standing ≠ .builtin)
    (hnowhere : ¬ (index.table isModule).Declares res.target) :
    res.standing = index.config.standingByShape [] res.target := by
  cases h with
  | builtin typed => exact absurd rfl (hbuiltin typed)
  | @declared e hforce => exact absurd ⟨e, List.mem_of_find?_eq_some hforce, rfl⟩ hnowhere
  | undeclared => rfl

end Targets

end Index

/-! ## Names of versions -/

section Versions

variable {u : CompilationUnit} {c : Config} {f : String} {k : Nat}

theorem exists_component_of_within {ds : List FamilyDeclaration} {line : List ModuleDecl}
    (h : Context.within c ds line = .version f k) :
    ∃ a ∈ Path.ofLine line, versionNumber? a = some k := by
  obtain ⟨m, hm, hk⟩ := exists_version_of_within h
  exact ⟨m.name, List.mem_map_of_mem hm, hk⟩

/-- What is declared as a version lies in a module that is named as that version, or is one. -/
theorem exists_component_of_declared {isModule : Bool} {e : Declared}
    (h : e ∈ (u.index c).table isModule) (he : e.standing = .version f k) :
    ∃ a ∈ e.path, versionNumber? a = some k := by
  cases isModule with
  | true =>
    rcases mem_index_modules.1 h with ⟨d, -, rfl⟩ | ⟨p, -, hp⟩
    · cases he
    · rw [path_of_mem_declaredVersion hp, Place.path_eq]
      unfold Site.declaredVersion at hp
      split at hp
      · cases hp
      · split at hp
        · next d number _ hnumber =>
          obtain rfl := List.mem_singleton.1 hp
          obtain rfl := (Standing.version.inj he).2
          exact ⟨p.module.name, List.mem_append_right _ (List.mem_singleton_self _), hnumber⟩
        · cases hp
  | false =>
    rcases mem_index_types.1 h with ⟨d, -, hd⟩ | ⟨p, -, hp⟩
    · obtain ⟨x, -, rfl⟩ := List.mem_map.1 hd
      cases he
    · obtain ⟨t, -, rfl⟩ := List.mem_map.1 hp
      obtain ⟨a, ha, hk⟩ := exists_component_of_within (standingOf_eq_version_iff.1 he)
      refine ⟨a, ?_, hk⟩
      show a ∈ (p.site c (u.familyDeclarations c)).path ++ [t.name]
      rw [Place.path_site]
      exact List.mem_append_left _ ha

theorem exists_component_of_shows {p : Path} (h : c.ShowsVersion p f k) :
    ∃ a ∈ p, versionNumber? a = some k := by
  obtain ⟨i, hi⟩ := h
  obtain ⟨a, ha, -, hk⟩ := hi.version
  exact ⟨a, List.mem_of_getElem? ha, hk⟩

/-- What resolves to a version has a target with the name of that version in it. -/
theorem Index.Grounds.exists_component {isModule : Bool} {res : Resolution}
    (h : (u.index c).Grounds isModule res) (hversion : res.standing = .version f k) :
    ∃ a ∈ res.target, versionNumber? a = some k := by
  cases h with
  | builtin => cases hversion
  | declared hforce =>
    exact exists_component_of_declared (List.mem_of_find?_eq_some hforce) hversion
  | undeclared =>
    exact exists_component_of_shows (Config.standingByShape_eq_version_iff.1 hversion)

end Versions

end SchemaVersioning
