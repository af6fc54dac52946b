import Mathlib
import SchemaVersioning.Proofs.IllegibleContainers

/-!
# Growth of a container

What becomes of a container that holds a family when a further version is added to it.  An upgrade
function names the latest type through the latest alias or through the highest version, in full or
through an alias beside the container (`namesLatest_iff`), and never through both
(`eq_of_namesThrough`).  So the upgrade functions that named the version that was the highest are
reported, and nothing else is (`growth_reported_exactly`).
-/

namespace SchemaVersioning

/-! ## Ends of paths -/

/-- A path that spells two components or more of the end of a full path ends with the last two. -/
theorem exists_of_spells {p before : Path} {a x : String} (h : p.Spells (before ++ [a, x]) 2) :
    ∃ rest, rest <:+ before ∧ p = rest ++ [a, x] := by
  obtain ⟨hlength, start, hstart⟩ := h
  rcases List.append_eq_append_iff.1 hstart with ⟨rest, hbefore, hp⟩ | ⟨rest, -, hshort⟩
  · exact ⟨rest, ⟨start, hbefore.symm⟩, hp⟩
  · have hrest : rest = [] := by
      have := congrArg List.length hshort
      simp only [List.length_append, List.length_cons, List.length_nil] at this
      exact List.length_eq_zero_iff.1 (by omega)
    subst hrest
    exact ⟨[], List.nil_suffix, by simpa using hshort.symm⟩

theorem Path.Spells.mono {p full : Path} {few many : Nat} (h : p.Spells full many)
    (hle : few ≤ many) : p.Spells full few := ⟨Nat.le_trans hle h.1, h.2⟩

instance (p full : Path) (fewest : Nat) : Decidable (p.Spells full fewest) :=
  inferInstanceAs (Decidable (_ ∧ _))

namespace FamilyDeclaration

variable (d : FamilyDeclaration) (c : Config)

/-! ## Names of the latest type -/

/-- The target of the alias beside the container. -/
def parentAlias? (x : String) : Option Path :=
  ((d.parentTypes.find? (·.name = x)).bind TypeDecl.alias?).map (·.path)

/-- A path names a type of a member of the container, or an alias of it beside the container. -/
def NamesThrough (member x : String) (p : Path) : Prop :=
  p.Spells (d.containerPath ++ [member, x]) 2 ∨
    (d.parentPath ≠ [] ∧
      (∃ e ∈ d.parentAlias? x, Path.Spells e (d.containerPath ++ [member, x]) 3) ∧
      p.Spells (d.parentPath ++ [x]) 2)

instance (member x : String) (p : Path) : Decidable (d.NamesThrough member x p) :=
  inferInstanceAs (Decidable (_ ∨ _))

variable {d c}

/-- The latest type is named through the latest alias or through the highest version. -/
theorem namesLatest_iff {n : Nat} {x : String} {p : Path} : d.NamesLatest c n x p ↔
    d.NamesThrough c.latestName x p ∨ d.NamesThrough (versionName n) x p := by
  have halias : d.ParentAliases c n x ↔
      (∃ e ∈ d.parentAlias? x, Path.Spells e (d.containerPath ++ [c.latestName, x]) 3) ∨
        ∃ e ∈ d.parentAlias? x, Path.Spells e (d.containerPath ++ [versionName n, x]) 3 := by
    unfold ParentAliases parentAlias?
    cases d.parentTypes.find? (·.name = x) with
    | none => simp
    | some t => cases ht : t.alias? <;> simp [ht]
  rw [NamesLatest, halias, or_and_right, and_or_left]
  exact or_assoc.symm.trans or_or_or_comm

/-- What a path that spells the type beside the container consists of. -/
theorem exists_of_parent {x : String} {p : Path} (hne : d.parentPath ≠ [])
    (h : p.Spells (d.parentPath ++ [x]) 2) :
    ∃ rest b, p = rest ++ [b, x] ∧ ∀ a ∈ rest ++ [b], a ∈ d.containerPath := by
  obtain ⟨outer, b, hparent⟩ := (List.eq_nil_or_concat' d.parentPath).resolve_left hne
  rw [hparent, List.append_assoc, List.singleton_append] at h
  obtain ⟨rest, hrest, rfl⟩ := exists_of_spells h
  refine ⟨rest, b, rfl, fun a ha => ?_⟩
  rw [containerPath, hparent]
  rcases List.mem_append.1 ha with ha | ha
  · exact List.mem_append_left _ (List.mem_append_left _ (hrest.subset ha))
  · exact List.mem_append_left _ (List.mem_append_right _ ha)

/-- The component before the last one is the member, if the member itself is spelled. -/
theorem eq_of_append_eq {rest rest' : Path} {a b x : String}
    (h : rest ++ [a, x] = rest' ++ [b, x]) : a = b :=
  (List.cons.inj (List.append_inj' h rfl).2).1

/-- A path does not name the types of two members that are no modules around the container. -/
theorem eq_of_namesThrough {a b x : String} {p : Path} (ha : a ∉ d.containerPath)
    (hb : b ∉ d.containerPath) (h : d.NamesThrough a x p) (h' : d.NamesThrough b x p) : a = b := by
  rcases h with h | ⟨hne, ⟨e, he, hspells⟩, h⟩ <;>
    rcases h' with h' | ⟨hne', ⟨e', he', hspells'⟩, h'⟩
  · obtain ⟨rest, -, rfl⟩ := exists_of_spells h
    obtain ⟨rest', -, heq⟩ := exists_of_spells h'
    exact eq_of_append_eq heq
  · obtain ⟨rest, -, rfl⟩ := exists_of_spells h
    obtain ⟨rest', o, heq, ho⟩ := exists_of_parent hne' h'
    exact absurd (ho a (by simp [eq_of_append_eq heq])) ha
  · obtain ⟨rest', -, rfl⟩ := exists_of_spells h'
    obtain ⟨rest, o, heq, ho⟩ := exists_of_parent hne h
    exact absurd (ho b (by simp [eq_of_append_eq heq])) hb
  · -- The alias beside the container has one target.
    obtain rfl : e = e' := Option.some.inj (he.symm.trans he')
    obtain ⟨rest, -, rfl⟩ := exists_of_spells (hspells.mono (by decide))
    obtain ⟨rest', -, heq⟩ := exists_of_spells (hspells'.mono (by decide))
    exact eq_of_append_eq heq

/-! ## The grown container -/

/-- The module of a version with other values; any other module stays as it is. -/
def withValues (n : Nat) (values : List ValueDecl) (m : ModuleDecl) : ModuleDecl :=
  if versionNumber? m.name = some n then { m with values := values } else m

/-- The container with one more version, and with other values in the version before it. -/
def grown (d : FamilyDeclaration) (n : Nat) (values : List ValueDecl) (next : ModuleDecl) :
    FamilyDeclaration :=
  { d with container :=
    { d.container with modules := d.container.modules.map (withValues n values) ++ [next] } }

/-- A container of `n` versions can grow: the next version has what each version must have, and the
version before it gets correct upgrade functions and keeps its call-site adapters. -/
structure CanGrow (d : FamilyDeclaration) (c : Config) (n : Nat) (values : List ValueDecl)
    (next : ModuleDecl) : Prop where
  number : versionNumber? next.name = some (n + 1)
  types : ∀ x ∈ d.typeNames c, ∃ t ∈ next.types, t.name = x
  codec : d.strategy = .binable → ∃ codec, next.codec = some codec ∧
    (codec.adapter = "of_stringable" ∨ codec.adapter = "of_binable" ∧ codec.wraps.isSome)
  adapters : d.kind = .rpc → ∀ name ∈ callAdapters, ∃ v ∈ next.values, v.name = name
  kept : d.kind = .rpc → ∀ name ∈ callAdapters, ∃ v ∈ values, v.name = name
  upgrades : ∀ x ∈ d.typeNames c, ∃ v, values.find? (·.name = c.upgradeName x) = some v ∧
    d.ConvertsOwn n x v ∧ d.NamesLatest c (n + 1) x v.returns.path

/-- Nothing in the names of the types of a container is mistaken for a version or for the latest
alias. -/
structure Plain (d : FamilyDeclaration) (c : Config) : Prop where
  latest : versionNumber? c.latestName = none
  types : ∀ x ∈ d.typeNames c, versionNumber? x = none
  path : ∀ a ∈ d.containerPath, a ≠ c.latestName ∧ versionNumber? a = none

section Members

variable {n : Nat} {values : List ValueDecl} {next : ModuleDecl}

theorem name_withValues (m : ModuleDecl) : (withValues n values m).name = m.name := by
  unfold withValues
  split <;> rfl

theorem withValues_of_ne {m : ModuleDecl} (h : versionNumber? m.name ≠ some n) :
    withValues n values m = m := if_neg h

theorem withValues_of_eq {m : ModuleDecl} (h : versionNumber? m.name = some n) :
    withValues n values m = { m with values := values } := if_pos h

theorem mem_grown {m : ModuleDecl} : m ∈ (d.grown n values next).container.modules ↔
    (∃ m' ∈ d.container.modules, withValues n values m' = m) ∨ m = next := by
  simp [grown]

theorem numbered_grown (hn : d.Numbered n) (hnext : versionNumber? next.name = some (n + 1)) :
    (d.grown n values next).Numbered (n + 1) := by
  refine ⟨Nat.succ_pos n, ?_⟩
  have hnumbers : (d.grown n values next).container.modules.filterMap
      (fun m => versionNumber? m.name)
        = (d.container.modules.filterMap fun m => versionNumber? m.name) ++ [n + 1] := by
    simp [grown, List.filterMap_append, List.filterMap_map, name_withValues, hnext]
  rw [hnumbers, List.range'_1_concat, Nat.add_comm n 1]
  exact hn.2.append_right _

theorem versionModules_grown (hnext : versionNumber? next.name = some (n + 1)) :
    (d.grown n values next).versionModules c
      = ((d.versionModules c).map fun (k, m) => (k, withValues n values m)) ++ [(n + 1, next)] := by
  have hmember : ∀ m : ModuleDecl, (versionNumber? (withValues n values m).name).map
      (·, withValues n values m) = ((versionNumber? m.name).map (·, m)).map
        fun (k, m) => (k, withValues n values m) := by
    intro m
    rw [name_withValues, Option.map_map]
    rfl
  simp [versionModules_eq, grown, List.filterMap_append, List.filterMap_map, List.map_filterMap,
    Function.comp_def, hmember, hnext]

/-- The grown container has the versions of the container, the last one with other values, and then
the next one. -/
theorem orderedVersions_grown (hn : d.Numbered n)
    (hnext : versionNumber? next.name = some (n + 1)) :
    (d.grown n values next).orderedVersions c
      = (d.orderedVersions c).map (fun (k, m) => (k, withValues n values m))
        ++ [(n + 1, next)] := by
  refine orderedVersions_eq (numbered_grown hn hnext) ?_ ?_
  · rw [versionModules_grown hnext]
    exact ((List.mergeSort_perm _ _).map _).append_right _
  · rw [List.pairwise_append, List.pairwise_map]
    refine ⟨pairwise_orderedVersions hn, List.pairwise_singleton _ _, fun a ha b hb => ?_⟩
    obtain ⟨⟨k, m⟩, hm, rfl⟩ := List.mem_map.1 ha
    obtain rfl := List.mem_singleton.1 hb
    exact Nat.lt_succ_of_le (hn.le (mem_orderedVersions.1 hm)).2

end Members

/-! ## Stale upgrades -/

/-- What is wrong with an upgrade function that leads to a version that is no longer the highest. -/
def staleFault (d : FamilyDeclaration) (n : Nat) (x : String) (v : ValueDecl) : UpgradeFault :=
  if v.returns.path.Spells (d.containerPath ++ [versionName n, x]) 2 then .chained v.signature n
  else .notLatest v.signature

/-- The report of a version whose upgrade function for a type leads to version `n`. -/
def staleFinding? (d : FamilyDeclaration) (c : Config) (n k : Nat) (m : ModuleDecl) (x : String) :
    Option Finding :=
  (m.findValue? (c.upgradeName x)).bind fun v =>
    if d.NamesThrough (versionName n) x v.returns.path then
      some { problem := .badUpgrade k (c.upgradeName x) x c.latestName (d.staleFault n x v)
             subject := d.name ++ "." ++ versionName k
             location := v.location }
    else none

/-- The reports of the upgrade functions that lead to version `n`: one for each version below it and
each type whose upgrade function does. -/
def staleFindings (d : FamilyDeclaration) (c : Config) (n : Nat) : List Finding :=
  (d.orderedVersions c).flatMap fun (k, m) =>
    if k < n then (d.typeNames c).filterMap (d.staleFinding? c n k m) else []

/-- A finding is about the upgrade function of a version for a type. -/
def concerns (k : Nat) (x : String) (finding : Finding) : Bool :=
  match finding.problem with
  | .badUpgrade number _ typeName _ _ => number = k && typeName = x
  | _ => false

/-- An upgrade function whose result names no version, and not the latest type either. -/
theorem upgradeFault?_of_versionless {k : Nat} {x : String} {v : ValueDecl}
    (hown : d.ConvertsOwn k x v) (hlatest : ¬ d.NamesLatest c (d.highest c) x v.returns.path)
    (hnone : v.returns.path.findSome? versionNumber? = none) :
    d.upgradeFault? c k x (some v) = some (.notLatest v.signature) := by
  obtain ⟨e, hparams, hspells⟩ := hown
  rw [← isOwnType_iff] at hspells
  rw [← isLatestType_iff, Bool.not_eq_true] at hlatest
  simp [upgradeFault?, hparams, hspells, hlatest, hnone]

section Stale

variable {n : Nat} {x : String} {p : Path} (hplain : d.Plain c)

include hplain

theorem findSome?_of_spells (h : p.Spells (d.containerPath ++ [versionName n, x]) 2) :
    p.findSome? versionNumber? = some n := by
  obtain ⟨rest, hrest, rfl⟩ := exists_of_spells h
  have hnone : rest.findSome? versionNumber? = none :=
    List.findSome?_eq_none_iff.2 fun a ha => (hplain.path a (hrest.subset ha)).2
  rw [List.findSome?_append, hnone, Option.none_or, List.findSome?_cons, versionNumber?_versionName]

theorem findSome?_of_parent (hx : x ∈ d.typeNames c) (hne : d.parentPath ≠ [])
    (h : p.Spells (d.parentPath ++ [x]) 2) : p.findSome? versionNumber? = none := by
  obtain ⟨rest, b, rfl, hrest⟩ := exists_of_parent hne h
  refine List.findSome?_eq_none_iff.2 fun a ha => ?_
  rw [show rest ++ [b, x] = (rest ++ [b]) ++ [x] by simp, List.mem_append] at ha
  rcases ha with ha | ha
  · exact (hplain.path a (hrest a ha)).2
  · rw [List.mem_singleton.1 ha]
    exact hplain.types x hx

/-- Names of the latest type in a container of `n` versions and in one of `n + 1` versions: what
names version `n` no longer does, anything else still does. -/
theorem namesLatest_succ_iff (h : d.NamesLatest c n x p) :
    (d.NamesLatest c (n + 1) x p ↔ ¬ d.NamesThrough (versionName n) x p) ∧
      (d.NamesThrough c.latestName x p ↔ ¬ d.NamesThrough (versionName n) x p) := by
  have hversion : ∀ k, versionName k ∉ d.containerPath := by
    intro k hk
    have hnone := (hplain.path _ hk).2
    rw [versionNumber?_versionName] at hnone
    cases hnone
  have halias : c.latestName ∉ d.containerPath := fun hmem => (hplain.path _ hmem).1 rfl
  have hnot : d.NamesThrough (versionName n) x p → ¬ d.NamesThrough c.latestName x p := by
    intro hn hl
    have hnone := hplain.latest
    rw [eq_of_namesThrough halias (hversion n) hl hn, versionNumber?_versionName] at hnone
    cases hnone
  have hnot' : d.NamesThrough (versionName n) x p → ¬ d.NamesThrough (versionName (n + 1)) x p := by
    intro hn hs
    have heq := congrArg versionNumber? (eq_of_namesThrough (hversion n) (hversion (n + 1)) hn hs)
    rw [versionNumber?_versionName, versionNumber?_versionName] at heq
    have := Option.some.inj heq
    omega
  rw [namesLatest_iff] at h ⊢
  by_cases hn : d.NamesThrough (versionName n) x p
  · simp [hn, hnot hn, hnot' hn]
  · simp [hn, h.resolve_right hn]

end Stale

/-! ## Problems of the grown container -/

section Grown

variable {n : Nat} {values : List ValueDecl} {next : ModuleDecl} (hsound : d.Sound c n)
  (hgrows : d.CanGrow c n values next) (hplain : d.Plain c)
  (hwritten : ∀ m ∈ d.container.modules, m.name ≠ c.latestName)

include hsound

/-- A grown container still has its tests. -/
theorem testFindings_grown : (d.grown n values next).testFindings c = [] := by
  refine testFindings_eq_nil_iff.2 fun ha => ?_
  rcases hsound.tested ha with ⟨m, hm, hversion, hlatest, htest⟩ | ⟨k, m, hm, t, ht, htest⟩
  · have hsame : withValues n values m = m := withValues_of_ne (by simp [hversion])
    exact Or.inl ⟨m, mem_grown.2 (Or.inl ⟨m, hm, hsame⟩), hversion, hlatest, htest⟩
  · have hmem : withValues n values m ∈ (d.grown n values next).container.modules :=
      mem_grown.2 (Or.inl ⟨m, hm.1, rfl⟩)
    refine Or.inr ⟨k, withValues n values m, ⟨hmem, ?_⟩, t, ?_, htest⟩
    · rw [name_withValues]
      exact hm.2
    · unfold withValues
      split <;> exact ht

include hgrows

theorem highest_grown : (d.grown n values next).highest c = n + 1 :=
  ((numbered_iff (c := c)).1 (numbered_grown hsound.numbered hgrows.number)).1

theorem versionFindings_grown_previous {m : ModuleDecl} (hm : d.HasVersion n m) :
    (d.grown n values next).versionFindings c n (withValues n values m) = [] := by
  rw [withValues_of_eq hm.2]
  refine versionFindings_eq_nil_iff.2 ⟨⟨typeFindings_eq_nil_iff.2 (hsound.types n m hm),
    fun _ => upgradeFindings_eq_nil_iff.2 ?_⟩,
    adapterFinding?_eq_none_iff.2 fun hb => hsound.codecs hb n m hm,
    callAdapterFinding?_eq_none_iff.2 hgrows.kept⟩
  rw [highest_grown hsound hgrows]
  exact hgrows.upgrades

theorem versionFindings_grown_next :
    (d.grown n values next).versionFindings c (n + 1) next = [] :=
  versionFindings_eq_nil_iff.2 ⟨⟨typeFindings_eq_nil_iff.2 hgrows.types,
    fun hne => absurd (highest_grown hsound hgrows).symm hne⟩,
    adapterFinding?_eq_none_iff.2 hgrows.codec, callAdapterFinding?_eq_none_iff.2 hgrows.adapters⟩

theorem memberFindings_grown : (d.grown n values next).memberFindings c = [] := by
  refine memberFindings_eq_nil_iff.2 fun m hm hnone => ?_
  rcases mem_grown.1 hm with ⟨m, hmem, rfl⟩ | rfl
  · rw [name_withValues] at hnone
    rw [withValues_of_ne (by simp [hnone])]
    exact hsound.members m hmem hnone
  · rw [hgrows.number] at hnone
    cases hnone

include hplain hwritten

omit hsound in
/-- A grown container has no hand-written alias of the latest version either. -/
theorem not_isLatestModule_grown (m : ModuleDecl) :
    ¬ (d.grown n values next).IsLatestModule c m := by
  intro hm
  obtain ⟨hmem, hname⟩ := List.mem_filter.1 (List.mem_of_getLast? hm)
  obtain ⟨-, hname⟩ := of_decide_eq_true hname
  rcases mem_grown.1 hmem with ⟨m', hm', rfl⟩ | rfl
  · rw [name_withValues] at hname
    exact hwritten m' hm' hname
  · have hnone := hplain.latest
    rw [← hname, hgrows.number] at hnone
    cases hnone

omit hwritten

/-- An upgrade function that named the latest type is at fault if it names version `n`. -/
theorem upgradeFault?_grown {k : Nat} {x : String} (hx : x ∈ d.typeNames c) {v : ValueDecl}
    (hown : d.ConvertsOwn k x v) (hnames : d.NamesLatest c n x v.returns.path) :
    (d.grown n values next).upgradeFault? c k x (some v)
      = if d.NamesThrough (versionName n) x v.returns.path then some (d.staleFault n x v)
        else none := by
  obtain ⟨hsucc, -⟩ := namesLatest_succ_iff hplain hnames
  have hhigh := highest_grown hsound hgrows
  by_cases hstale : d.NamesThrough (versionName n) x v.returns.path
  · have hnot : ¬ (d.grown n values next).NamesLatest c ((d.grown n values next).highest c) x
        v.returns.path := by
      rw [hhigh]
      exact fun h => hsucc.1 h hstale
    rw [if_pos hstale, staleFault]
    -- The result names version `n` itself, or an alias of it whose name has no version in it.
    split
    · next hdirect =>
      exact upgradeFault?_eq_chained_iff.2
        ⟨hown, hnot, findSome?_of_spells hplain hdirect, by omega, rfl⟩
    · next hindirect =>
      obtain ⟨hne, -, hparent⟩ := hstale.resolve_left hindirect
      exact upgradeFault?_of_versionless hown hnot (findSome?_of_parent hplain hx hne hparent)
  · rw [if_neg hstale]
    refine upgradeFault?_eq_none_iff.2 ⟨v, rfl, hown, ?_⟩
    rw [hhigh]
    exact hsucc.2 hstale

/-- The report about an upgrade function of a version that was not the highest. -/
theorem upgradeFinding?_grown {k : Nat} {m : ModuleDecl} (hm : d.HasVersion k m) (hk : k < n)
    {x : String} (hx : x ∈ d.typeNames c) :
    (d.grown n values next).upgradeFinding? c k m x = d.staleFinding? c n k m x := by
  obtain ⟨v, hv, hown, hnames⟩ := hsound.upgrades k m hm hk x hx
  rw [upgradeFinding?, show upgradeValue? c m x = some v from hv,
    upgradeFault?_grown hsound hgrows hplain hx hown hnames, staleFinding?, hv, Option.bind_some]
  by_cases hstale : d.NamesThrough (versionName n) x v.returns.path
  · rw [if_pos hstale, if_pos hstale]
    rfl
  · rw [if_neg hstale, if_neg hstale]
    rfl

theorem versionFindings_grown_of_lt {k : Nat} {m : ModuleDecl} (hm : d.HasVersion k m)
    (hk : k < n) : (d.grown n values next).versionFindings c k (withValues n values m)
      = (d.typeNames c).filterMap (d.staleFinding? c n k m) := by
  have hsame : withValues n values m = m := withValues_of_ne (by simp [hm.2, Nat.ne_of_lt hk])
  obtain ⟨-, hfindings⟩ := sound_iff.1 hsound
  obtain ⟨-, -, hversions, -⟩ := findings_eq_nil_iff.1 hfindings
  obtain ⟨⟨htype, -⟩, hadapter, hcall⟩ := versionFindings_eq_nil_iff.1 (hversions k m hm)
  have hhigh := highest_grown hsound hgrows
  have hparts : (d.grown n values next).typeFindings c m = [] ∧
      (d.grown n values next).adapterFinding? m = none ∧
      (d.grown n values next).callAdapterFinding? m = none := ⟨htype, hadapter, hcall⟩
  rw [hsame, versionFindings, hparts.1, hparts.2.1, hparts.2.2, if_neg (by omega)]
  simp only [List.nil_append, Option.toList_none, List.append_nil]
  exact List.filterMap_congr fun x hx =>
    upgradeFinding?_grown hsound hgrows hplain hm hk hx

include hwritten

/-- The problems of a grown container are those of the upgrade functions that have become stale. -/
theorem findings_grown : (d.grown n values next).findings c = d.staleFindings c n := by
  have hnoLatest : (d.grown n values next).latestFindings c = [] :=
    latestFindings_eq_nil_iff.2 fun m hm =>
      absurd hm (not_isLatestModule_grown hgrows hplain hwritten m)
  rw [findings, memberFindings_grown hsound hgrows, hnoLatest, testFindings_grown hsound,
    orderedVersions_grown hsound.numbered hgrows.number]
  simp only [List.nil_append, List.append_nil, List.flatMap_append, List.flatMap_map,
    List.flatMap_singleton, versionFindings_grown_next hsound hgrows, staleFindings]
  refine List.flatMap_congr fun version hmem => ?_
  obtain ⟨k, m⟩ := version
  have hm : d.HasVersion k m := mem_orderedVersions.1 hmem
  rcases Nat.lt_or_eq_of_le (hsound.numbered.le hm).2 with hlt | rfl
  · rw [if_pos hlt]
    exact versionFindings_grown_of_lt hsound hgrows hplain hm hlt
  · rw [if_neg (Nat.lt_irrefl k)]
    exact versionFindings_grown_previous hsound hgrows hm

omit hwritten in
/-- Whatever a stale upgrade function leads to can be read. -/
theorem not_illegibleUpgrade_grown
    (hlegible : ∀ m ∈ d.container.modules, overlongVersion? m.name = none) :
    ¬ (d.grown n values next).IllegibleUpgrade c (n + 1) := by
  rintro ⟨k, m', ⟨hmem, hk⟩, hlt, x, hx, v, hv, -, hnot, a, ha, ho⟩
  obtain ⟨number, hnumber⟩ := Option.isSome_iff_exists.1 (isVersionName_of_overlong ho)
  have hfirst : v.returns.path.findSome? versionNumber? = some number := by
    rw [findSome?_versionNumber?, ha]
    exact hnumber
  rcases mem_grown.1 hmem with ⟨m, hm, rfl⟩ | rfl
  · rw [name_withValues] at hk
    rcases Nat.lt_or_eq_of_le (hsound.numbered.le ⟨hm, hk⟩).2 with hk' | rfl
    · -- The upgrade function of an older version named the latest type before.
      rw [withValues_of_ne (by simp [hk, Nat.ne_of_lt hk'])] at hv
      obtain ⟨v', hv', -, hnames⟩ := hsound.upgrades k m ⟨hm, hk⟩ hk' x hx
      obtain rfl : v' = v := Option.some.inj (hv'.symm.trans hv)
      have hstale : d.NamesThrough (versionName n) x v'.returns.path :=
        not_not.1 fun h => hnot ((namesLatest_succ_iff hplain hnames).1.2 h)
      rcases hstale with hdirect | ⟨hne, -, hparent⟩
      · rw [findSome?_of_spells hplain hdirect] at hfirst
        exact hsound.numbered.ne_of_overlong hlegible ho (hnumber.trans hfirst.symm)
      · rw [findSome?_of_parent hplain hx hne hparent] at hfirst
        cases hfirst
    · rw [withValues_of_eq hk] at hv
      obtain ⟨v', hv', -, hnames⟩ := hgrows.upgrades x hx
      obtain rfl : v' = v := Option.some.inj (hv'.symm.trans hv)
      exact hnot hnames
  · rw [hgrows.number] at hk
    have := Option.some.inj hk
    omega

/-- The build of a grown container that can be read is interrupted only by the name of the next
version. -/
theorem illegible_grown_iff (hlegible : ∀ m ∈ d.container.modules, overlongVersion? m.name = none) :
    (d.grown n values next).Illegible c ↔ overlongVersion? next.name ≠ none := by
  constructor
  · rintro (⟨m, hm, ho⟩ | ⟨n', hn', ⟨m, hm, -⟩ | hupgrade⟩)
    · rcases mem_grown.1 hm with ⟨m, hmem, rfl⟩ | rfl
      · rw [name_withValues] at ho
        exact absurd (hlegible m hmem) ho
      · exact ho
    · exact absurd hm (not_isLatestModule_grown hgrows hplain hwritten m)
    · have hhigh := ((numbered_iff (c := c)).1 hn').1
      obtain rfl : n + 1 = n' := (highest_grown hsound hgrows).symm.trans hhigh
      exact absurd hupgrade (not_illegibleUpgrade_grown hsound hgrows hplain hlegible)
  · exact fun h => Or.inl ⟨next, mem_grown.2 (Or.inr rfl), h⟩

end Grown

/-! ## One report for each stale upgrade -/

/-- Where one item of a list alone gives something that counts, the count is that of the item. -/
theorem countP_flatMap_eq {α β : Type} {p : β → Bool} {g : α → List β} {as : List α} {a : α}
    (hnodup : as.Nodup) (ha : a ∈ as) (hother : ∀ b ∈ as, b ≠ a → ∀ y ∈ g b, p y = false) :
    (as.flatMap g).countP p = (g a).countP p := by
  obtain ⟨before, after, rfl⟩ := List.append_of_mem ha
  have hnone : ∀ bs : List α, (∀ b ∈ bs, b ∈ before ++ a :: after ∧ b ≠ a) →
      (bs.flatMap g).countP p = 0 := by
    intro bs hbs
    refine List.countP_eq_zero.2 fun y hy => ?_
    obtain ⟨b, hb, hy⟩ := List.mem_flatMap.1 hy
    simp [hother b (hbs b hb).1 (hbs b hb).2 y hy]
  rw [List.nodup_append, List.nodup_cons] at hnodup
  obtain ⟨-, ⟨hafter, -⟩, hbefore⟩ := hnodup
  rw [List.flatMap_append, List.flatMap_cons, List.countP_append, List.countP_append,
    hnone before fun b hb => ⟨by simp [hb], hbefore b hb a List.mem_cons_self⟩,
    hnone after fun b hb => ⟨by simp [hb], fun h => hafter (h ▸ hb)⟩]
  omega

theorem concerns_of_staleFinding? {n k k' : Nat} {m : ModuleDecl} {x x' : String}
    {finding : Finding} (h : d.staleFinding? c n k m x = some finding) :
    concerns k' x' finding = true ↔ k = k' ∧ x = x' := by
  obtain ⟨v, -, h⟩ := Option.bind_eq_some_iff.1 h
  split at h
  · obtain rfl := Option.some.inj h
    simp [concerns]
  · cases h

/-- A type of a version is reported once, if its upgrade function leads to version `n`. -/
theorem countP_staleFindings {n k : Nat} {m : ModuleDecl} {x : String} {v : ValueDecl}
    (hn : d.Numbered n) (hnames : (d.typeNames c).Nodup) (hm : d.HasVersion k m) (hk : k < n)
    (hx : x ∈ d.typeNames c) (hv : m.findValue? (c.upgradeName x) = some v) :
    (d.staleFindings c n).countP (concerns k x)
      = if d.NamesThrough (versionName n) x v.returns.path then 1 else 0 := by
  have hsorted := pairwise_orderedVersions (c := c) hn
  have hversions : (d.orderedVersions c).Nodup :=
    hsorted.imp fun hlt heq => Nat.ne_of_lt hlt (congrArg Prod.fst heq)
  rw [staleFindings, countP_flatMap_eq hversions (mem_orderedVersions.2 hm)]
  dsimp only
  rw [if_pos hk, List.filterMap_eq_flatMap_toList, countP_flatMap_eq hnames hx, staleFinding?, hv,
    Option.bind_some]
  · split <;> simp [concerns]
  · -- Another type of the version is not the one that is counted.
    intro y _ hne finding hfinding
    rw [Bool.eq_false_iff, ne_eq, concerns_of_staleFinding? (Option.mem_toList.1 hfinding)]
    exact fun h => hne h.2
  · rintro ⟨k', m'⟩ hmem hne finding hfinding
    have hdiff : k' ≠ k := by
      rintro rfl
      exact hne (congrArg _ (eq_of_hasVersion hn (mem_orderedVersions.1 hmem) hm))
    dsimp only at hfinding
    split at hfinding
    · obtain ⟨y, -, hfinding⟩ := List.mem_filterMap.1 hfinding
      rw [Bool.eq_false_iff, ne_eq, concerns_of_staleFinding? hfinding]
      exact fun h => hdiff h.1
    · cases hfinding

theorem mem_staleFindings {n : Nat} {finding : Finding} : finding ∈ d.staleFindings c n ↔
    ∃ k m, d.HasVersion k m ∧ k < n ∧
      ∃ x ∈ d.typeNames c, d.staleFinding? c n k m x = some finding := by
  rw [staleFindings, List.mem_flatMap]
  constructor
  · rintro ⟨⟨k, m⟩, hm, hfinding⟩
    dsimp only at hfinding
    split at hfinding
    · next hk =>
      exact ⟨k, m, mem_orderedVersions.1 hm, hk, List.mem_filterMap.1 hfinding⟩
    · cases hfinding
  · rintro ⟨k, m, hm, hk, hfinding⟩
    refine ⟨(k, m), mem_orderedVersions.2 hm, ?_⟩
    dsimp only
    rw [if_pos hk]
    exact List.mem_filterMap.2 hfinding

/-- Nothing is stale exactly if all upgrade functions name the latest type through the alias. -/
theorem staleFindings_eq_nil_iff {n : Nat} (hsound : d.Sound c n) (hplain : d.Plain c) :
    d.staleFindings c n = [] ↔ ∀ k m, d.HasVersion k m → k < n → ∀ x ∈ d.typeNames c,
      ∃ v, m.findValue? (c.upgradeName x) = some v ∧
        d.NamesThrough c.latestName x v.returns.path := by
  rw [List.eq_nil_iff_forall_not_mem]
  constructor
  · intro hnone k m hm hk x hx
    obtain ⟨v, hv, -, hnames⟩ := hsound.upgrades k m hm hk x hx
    refine ⟨v, hv, (namesLatest_succ_iff hplain hnames).2.2 fun hstale => ?_⟩
    have hsome : (d.staleFinding? c n k m x).isSome := by
      rw [staleFinding?, hv, Option.bind_some, if_pos hstale]
      rfl
    obtain ⟨finding, hfinding⟩ := Option.isSome_iff_exists.1 hsome
    exact hnone finding (mem_staleFindings.2 ⟨k, m, hm, hk, x, hx, hfinding⟩)
  · intro hfresh finding hfinding
    obtain ⟨k, m, hm, hk, x, hx, hfinding⟩ := mem_staleFindings.1 hfinding
    obtain ⟨v, hv, hthrough⟩ := hfresh k m hm hk x hx
    obtain ⟨v', hv', -, hnames⟩ := hsound.upgrades k m hm hk x hx
    obtain rfl : v = v' := Option.some.inj (hv.symm.trans hv')
    have hnot := (namesLatest_succ_iff hplain hnames).2.1 hthrough
    rw [staleFinding?, hv, Option.bind_some, if_neg hnot] at hfinding
    cases hfinding

/-! ## What becomes of the container -/

/-- What the build of a container of `n` versions gives once version `n + 1` is added. -/
structure GrowsExactly (d : FamilyDeclaration) (c : Config) (n : Nat) (values : List ValueDecl)
    (next : ModuleDecl) : Prop where
  /-- It is interrupted exactly if the name of the next version is too long to be read. -/
  read : (d.grown n values next).interruption? c = none ↔ overlongVersion? next.name = none
  /-- It reports the stale upgrade functions. -/
  reported : (d.grown n values next).buildDiagnostics c
    = (d.staleFindings c n).map (·.diagnostic)
  /-- Each type of an older version is reported once if its upgrade function names version `n`, and
  not at all otherwise. -/
  once : ∀ k m, d.HasVersion k m → k < n → ∀ x ∈ d.typeNames c,
    ∃ v, m.findValue? (c.upgradeName x) = some v ∧ (d.staleFindings c n).countP (concerns k x)
      = if d.NamesThrough (versionName n) x v.returns.path then 1 else 0
  /-- Every report is about the upgrade function of an older version. -/
  only : ∀ finding ∈ d.staleFindings c n, finding.diagnostic.rule = .missingUpgradeFunction ∧
    ∃ k m, d.HasVersion k m ∧ k < n ∧ finding.subject = d.name ++ "." ++ versionName k ∧
      ∃ x ∈ d.typeNames c, concerns k x finding = true
  /-- It gives a family exactly if all older versions name the latest type through the alias. -/
  builds : ((d.grown n values next).family? c).isSome ↔
    ∀ k m, d.HasVersion k m → k < n → ∀ x ∈ d.typeNames c,
      ∃ v, m.findValue? (c.upgradeName x) = some v ∧
        d.NamesThrough c.latestName x v.returns.path

theorem only_of_staleFinding? {n k : Nat} {m : ModuleDecl} {x : String} {finding : Finding}
    (h : d.staleFinding? c n k m x = some finding) :
    finding.diagnostic.rule = .missingUpgradeFunction ∧
      finding.subject = d.name ++ "." ++ versionName k := by
  obtain ⟨v, -, h⟩ := Option.bind_eq_some_iff.1 h
  split at h
  · obtain rfl := Option.some.inj h
    exact ⟨rfl, rfl⟩
  · cases h

theorem plain_standard
    (h : ∀ a ∈ d.containerPath, a ≠ Config.standard.latestName ∧ versionNumber? a = none) :
    d.Plain .standard where
  latest := by decide
  types := by
    unfold typeNames
    cases d.kind <;> decide
  path := h

theorem nodup_typeNames_standard : (d.typeNames .standard).Nodup := by
  unfold typeNames
  cases d.kind <;> decide

end FamilyDeclaration

/-! ## A fourth version -/

/-- The function that makes the latest type of that of a version. -/
def latestFunction (returns : TypeExpr) : ValueDecl :=
  ⟨"to_latest", [.ofPath "t" []], returns, [], none⟩

/-- A version with an upgrade function. -/
def upgradingVersion (name : String) (returns : TypeExpr) : ModuleDecl :=
  { ModuleDecl.bare name [.bare "t"] [] with values := [latestFunction returns] }

/-- A container of three versions: the first one names the latest type through the third, the second
one through the alias beside the container. -/
def growingDeclaration : FamilyDeclaration where
  container := { ModuleDecl.bare "Stable" [] [upgradingVersion "V1" (.ofPath "V3" ["t"]),
      upgradingVersion "V2" (.ofPath "Account" ["t"]), .bare "V3" [.bare "t"] []] with
    attributes := ["versioned"] }
  parentPath := ["Account"]
  kind := .type
  strategy := .plain
  functorArities := []
  inTest := false
  parentTypes := [{ TypeDecl.bare "t" with shape := .synonym (.ofPath "Stable" ["Latest", "t"]) }]

/-- Only the first version is reported when a fourth one is added. -/
example : ((growingDeclaration.grown 3 [latestFunction (.ofPath "Latest" ["t"])]
    (.bare "V4" [.bare "t"] [])).findings .standard).map (·.subject) = ["Account.V1"] := by
  cbv

/-- A container of two versions, the second of which has an upgrade function to the first one. -/
def returningDeclaration : FamilyDeclaration where
  container := { ModuleDecl.bare "Stable" [] [upgradingVersion "V1" (.ofPath "Latest" ["t"]),
      upgradingVersion "V2" (.ofPath "V1" ["t"])] with attributes := ["versioned"] }
  parentPath := ["Account"]
  kind := .type
  strategy := .plain
  functorArities := []
  inTest := false
  parentTypes := []

/-- That function and a correct one of the same name after it. -/
def shadowingFunctions : List ValueDecl :=
  [latestFunction (.ofPath "V1" ["t"]), latestFunction (.ofPath "Latest" ["t"])]

end SchemaVersioning
