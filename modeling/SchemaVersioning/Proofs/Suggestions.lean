import SchemaVersioning.Proofs.Grounds

/-!
# Suggestions

What the report of a leaked version suggests in place of the path as written.  The first component
that is named as a version gives way to the name of the latest alias, in the path as written or,
where that has no such component, in the path that it resolves to.  So it is the names of components
that decide, and not what they stand for: the suggested path may be the one that is written, and it
may name a version again (`leaks_suggest_exactly`).
-/

namespace SchemaVersioning

/-! ## Paths without their version -/

/-- A component is the first one of a path that is named as a version. -/
structure Path.FirstVersion (p before : Path) (v : String) (after : Path) : Prop where
  split : p = before ++ v :: after
  named : isVersionName v = true
  first : ∀ a ∈ before, isVersionName a = false

section Paths

variable {p before after : Path} {v : String}

theorem exists_firstVersion (h : p.any isVersionName = true) :
    ∃ before v after, p.FirstVersion before v after := by
  obtain ⟨v, hv⟩ := Option.isSome_iff_exists.1 (List.find?_isSome.2 (List.any_eq_true.1 h))
  obtain ⟨hnamed, before, after, hsplit, hfirst⟩ := List.find?_eq_some_iff_append.1 hv
  exact ⟨before, v, after, hsplit, hnamed, fun a ha => by simpa using hfirst a ha⟩

theorem Path.FirstVersion.any (h : p.FirstVersion before v after) :
    p.any isVersionName = true := by
  rw [h.split]
  simp [h.named]

theorem Path.FirstVersion.toLatest (h : p.FirstVersion before v after) (latestName : String) :
    p.toLatest latestName = before ++ latestName :: after := by
  obtain ⟨rfl, hnamed, hfirst⟩ := h
  induction before with
  | nil => rw [List.nil_append, Path.toLatest, if_pos hnamed, List.nil_append]
  | cons a before ih =>
    have ha : ¬ isVersionName a = true := by simp [hfirst a List.mem_cons_self]
    rw [List.cons_append, Path.toLatest, if_neg ha,
      ih fun b hb => hfirst b (List.mem_cons_of_mem a hb), List.cons_append]

/-- A path is the same without its version exactly if that has the name of the latest alias. -/
theorem toLatest_eq_self_iff {latestName : String} (h : p.any isVersionName = true) :
    p.toLatest latestName = p ↔ ∃ before after, p.FirstVersion before latestName after := by
  constructor
  · intro hsame
    obtain ⟨before, v, after, hv⟩ := exists_firstVersion h
    have hsplit : before ++ latestName :: after = before ++ v :: after := by
      rw [← hv.toLatest latestName, hsame, hv.split]
    obtain rfl : latestName = v := (List.cons.inj (List.append_cancel_left hsplit)).1
    exact ⟨before, after, hv⟩
  · rintro ⟨before, after, hlatest⟩
    rw [hlatest.toLatest latestName, ← hlatest.split]

end Paths

/-! ## Spellings that lead to a version -/

namespace Index

variable {index : Index} {isModule : Bool} {f : String} {k : Nat}

/-- A spelling that goes no further is declared as a version, or it is declared nowhere, begins with
no alias and looks like a version. -/
def EndsAtVersion (index : Index) (isModule : Bool) (τ : Spelling) (f : String) (k : Nat) : Prop :=
  (∃ e, index.lookupSpelling isModule τ = some e ∧ e.standing = .version f k) ∨
    (index.lookupSpelling isModule τ = none ∧ (∀ υ, ¬ index.AliasStep isModule τ υ) ∧
      index.config.ShowsVersion τ.path f k)

/-- A spelling is rewritten to one that ends at a version, and nothing on the way is built in. -/
def LeadsToVersion (index : Index) (isModule : Bool) (σ : Spelling) (f : String) (k : Nat) : Prop :=
  ∃ trail τ, index.Rewrites isModule σ trail τ ∧
    (∀ p ∈ trail ++ [τ.path], index.IsLookedUp isModule p) ∧ index.EndsAtVersion isModule τ f k

theorem EndsAtVersion.rests {τ : Spelling} (h : index.EndsAtVersion isModule τ f k) :
    index.Rests isModule τ := by
  rcases h with ⟨e, hlookup, -⟩ | ⟨-, hnone, -⟩
  · left
    simp [hlookup]
  · exact Or.inr hnone

theorem endsAtVersion_iff {τ : Spelling} (hlooked : index.IsLookedUp isModule τ.path)
    (hrests : index.Rests isModule τ) :
    (index.resolveSpelling isModule τ).standing = .version f k ↔
      index.EndsAtVersion isModule τ f k := by
  unfold EndsAtVersion
  cases hlookup : index.lookupSpelling isModule τ with
  | some e =>
    rw [resolveSpelling, resolvePath_of_lookup hlooked hlookup, declaredResolution_eq_version_iff]
    simp
  | none =>
    have hnone := hrests.resolve_left (not_not.2 hlookup)
    rw [resolveSpelling, resolvePath_of_unknown hlooked hlookup (aliasStep?_eq_none_iff.2 hnone)]
    simp [hnone, Config.standingByShape_eq_version_iff, Config.ShowsVersion]

/-- A rewriting that goes no further decides whether a spelling stands for a version: it must meet
nothing built in, and end at that version. -/
theorem standing_iff_endsAtVersion {σ τ : Spelling} {trail : List Path}
    (hrewrites : index.Rewrites isModule σ trail τ) (hrests : index.Rests isModule τ) :
    (index.resolveSpelling isModule σ).standing = .version f k ↔
      (∀ p ∈ trail ++ [τ.path], index.IsLookedUp isModule p) ∧
        index.EndsAtVersion isModule τ f k := by
  by_cases hlooked : ∀ p ∈ trail ++ [τ.path], index.IsLookedUp isModule p
  · have hlast : index.IsLookedUp isModule τ.path :=
      hlooked τ.path (List.mem_append_right _ (List.mem_singleton_self _))
    rw [resolve_of_rewrites hrewrites fun p hp => hlooked p (List.mem_append_left _ hp),
      endsAtVersion_iff hlast hrests]
    exact ⟨fun h => ⟨hlooked, h⟩, fun h => h.2⟩
  · -- Only types are built in, and a built-in type is no version.
    cases isModule with
    | true => exact absurd (fun _ _ => Or.inl rfl) hlooked
    | false =>
      have hmet : ∃ p ∈ trail ++ [τ.path], index.config.isBuiltin p = true := by
        simpa [IsLookedUp] using hlooked
      rw [standing_of_builtin hrewrites hmet]
      simp only [reduceCtorEq, false_iff, not_and]
      exact fun h => absurd h hlooked

theorem standing_iff_leadsToVersion {σ : Spelling} :
    (index.resolveSpelling isModule σ).standing = .version f k ↔
      index.LeadsToVersion isModule σ f k := by
  constructor
  · intro h
    obtain ⟨trail, τ, hrewrites, hrests⟩ := exists_rewrites index isModule σ
    exact ⟨trail, τ, hrewrites, (standing_iff_endsAtVersion hrewrites hrests).1 h⟩
  · rintro ⟨trail, τ, hrewrites, hlooked, hends⟩
    exact (standing_iff_endsAtVersion hrewrites hends.rests).2 ⟨hlooked, hends⟩

/-- Where a spelling ends at a version, some component of its path or its scope has the name. -/
theorem EndsAtVersion.exists_component {u : CompilationUnit} {c : Config} {τ : Spelling}
    (h : (u.index c).EndsAtVersion isModule τ f k) :
    ∃ a ∈ τ.scope ++ τ.path, versionNumber? a = some k := by
  rcases h with ⟨e, hlookup, he⟩ | ⟨-, -, hshows⟩
  · obtain ⟨⟨i, -, hpath, -, -⟩, hfind⟩ := Table.lookup_eq_some_iff.1 hlookup
    obtain ⟨a, ha, hk⟩ := exists_component_of_declared (List.mem_of_find?_eq_some hfind) he
    refine ⟨a, ?_, hk⟩
    rw [← hpath] at ha
    rcases List.mem_append.1 ha with hscope | hmem
    · exact List.mem_append_left _ (List.mem_of_mem_take hscope)
    · exact List.mem_append_right _ hmem
  · obtain ⟨a, ha, hk⟩ := exists_component_of_shows hshows
    exact ⟨a, List.mem_append_right _ ha, hk⟩

end Index

/-! ## What is suggested -/

/-- The path that the report of a reference suggests. -/
def Index.suggested (index : Index) (r : Reference) : Path :=
  (r.versionedPath (index.resolve r).target).toLatest index.config.latestName

/-- A reference with another path in place of its own. -/
def Reference.respelled (r : Reference) (p : Path) : Reference := { r with path := p }

section Reports

variable {u : CompilationUnit} {c : Config} {r : Reference} {x : Diagnostic}

theorem of_versionLeak? {index : Index} (h : index.versionLeak? r = some x) :
    (∃ f k, (index.resolve r).standing = .version f k) ∧
      x.suggestion = some s!"Use '{(index.suggested r).dotted}' instead" := by
  unfold Index.versionLeak? at h
  dsimp only at h
  split at h
  · next f k hstanding =>
    split at h
    · cases h
    · obtain rfl := Option.some.inj h
      exact ⟨⟨f, k, hstanding⟩, rfl⟩
  · cases h

/-- The path that the suggestion is made from has a component that is named as a version. -/
theorem any_versionedPath {f : String} {k : Nat}
    (h : ((u.index c).resolve r).standing = .version f k) :
    (r.versionedPath ((u.index c).resolve r).target).any isVersionName = true := by
  by_cases hwritten : r.path.any isVersionName = true
  · rw [Reference.versionedPath, if_pos hwritten]
    exact hwritten
  · obtain ⟨a, ha, hk⟩ := ((u.index c).grounds_resolve r).exists_component h
    rw [Reference.versionedPath, if_neg hwritten, List.any_eq_true]
    exact ⟨a, ha, by simp [isVersionName, hk]⟩

/-- What the report of a reference suggests, and what comes of it. -/
structure SuggestsExactly (u : CompilationUnit) (c : Config) (r : Reference) (x : Diagnostic)
    (suggested : Path) : Prop where
  /-- The report names the suggested path. -/
  text : x.suggestion = some s!"Use '{suggested.dotted}' instead"
  /-- The first version name of the path as written, or else of the path that is resolved to, gives
  way to the name of the latest alias. -/
  rewritten : ∃ before v after,
    (r.versionedPath ((u.index c).resolve r).target).FirstVersion before v after ∧
      suggested = before ++ c.latestName :: after
  /-- It is the path as written exactly if the first version name in that is the name of the latest
  alias, or if that has none and is what the resolved path is without its version. -/
  unchanged : suggested = r.path ↔
    (∃ before after, r.path.FirstVersion before c.latestName after) ∨
      r.path.any isVersionName = false ∧
        ((u.index c).resolve r).target.toLatest c.latestName = r.path
  /-- In its place it stands for the versions that it leads to. -/
  versioned : ∀ f k, ((u.index c).resolve (r.respelled suggested)).standing = .version f k ↔
    (u.index c).LeadsToVersion r.isModule ⟨suggested, r.scope, []⟩ f k
  /-- It stands for none if neither what it is rewritten to nor the scope of that has a version
  name. -/
  plain : ∀ trail τ, (u.index c).Rewrites r.isModule ⟨suggested, r.scope, []⟩ trail τ →
    (u.index c).Rests r.isModule τ → (τ.scope ++ τ.path).any isVersionName = false →
      ∀ f k, ((u.index c).resolve (r.respelled suggested)).standing ≠ .version f k
  /-- In its place it is reported exactly if it leads to a version that must not be named there. -/
  reported : ((u.index c).versionLeak? (r.respelled suggested)).isSome ↔
    ∃ f k, (u.index c).LeadsToVersion r.isModule ⟨suggested, r.scope, []⟩ f k ∧
      r.context.mayName f = false

/-- Every report of a reference suggests a path exactly as `SuggestsExactly` says. -/
theorem leaks_suggest_exactly (h : (u.index c).versionLeak? r = some x) :
    SuggestsExactly u c r x ((u.index c).suggested r) := by
  obtain ⟨⟨g, n, hversion⟩, htext⟩ := of_versionLeak? h
  have hany := any_versionedPath hversion
  have hversioned : ∀ f k,
      ((u.index c).resolve (r.respelled ((u.index c).suggested r))).standing = .version f k ↔
        (u.index c).LeadsToVersion r.isModule ⟨(u.index c).suggested r, r.scope, []⟩ f k := by
    intro f k
    rw [← Index.standing_iff_leadsToVersion]
    rfl
  refine ⟨htext, ?_, ?_, hversioned, ?_, ?_⟩
  · obtain ⟨before, v, after, hfirst⟩ := exists_firstVersion hany
    exact ⟨before, v, after, hfirst, hfirst.toLatest c.latestName⟩
  · show (r.versionedPath _).toLatest c.latestName = r.path ↔ _
    by_cases hwritten : r.path.any isVersionName = true
    · rw [Reference.versionedPath, if_pos hwritten, toLatest_eq_self_iff hwritten, hwritten]
      simp
    · have hnone : ∀ before after, ¬ r.path.FirstVersion before c.latestName after :=
        fun _ _ hfirst => hwritten hfirst.any
      rw [Reference.versionedPath, if_neg hwritten]
      simp [hnone, hwritten]
  · intro trail τ hrewrites hrests hplain f k hstanding
    obtain ⟨-, hends⟩ := (Index.standing_iff_endsAtVersion hrewrites hrests).1 hstanding
    obtain ⟨a, ha, hk⟩ := hends.exists_component
    have hnamed : isVersionName a = true := by simp [isVersionName, hk]
    rw [List.any_eq_true.2 ⟨a, ha, hnamed⟩] at hplain
    cases hplain
  · rw [Index.versionLeak?_isSome_iff]
    simp only [hversioned]
    rfl

end Reports

/-! ## A namespace that is named as a version -/

/-- A unit with a container in a namespace, and a value of a type in the second version. -/
def namespacedUnit (outer : String) : CompilationUnit where
  name := "ledger"
  modules := [
    .bare outer [] [.bare "Account" []
      [{ ModuleDecl.bare "Stable" [] [.bare "V1" [.bare "t"] [], .bare "V2" [.bare "t"] []] with
        attributes := ["versioned"] }]],
    { ModuleDecl.bare "App" [] [] with
      values := [⟨"load", [], .ofPath outer ["Account", "Stable", "V2", "t"], [], none⟩] }]

/-- The use of the type. -/
def namespacedReference (outer : String) : Reference where
  path := [outer, "Account", "Stable", "V2", "t"]
  scope := ["App"]
  owner := "App.load"
  context := .ordinary
  definition := false
  exempt := false
  isModule := false
  location := none

/-- The report of the use. -/
def namespacedReport (outer suggested : String) : Diagnostic where
  rule := .specificVersionLeak
  message := s!"type '{outer}.Account.Stable.V2.t' names version V2 of '{outer}.Account' in "
    ++ "ordinary code"
  subject := "App.load"
  location := none
  suggestion := some s!"Use '{suggested}' instead"

/-- The suggestion serves where the version is the only component that is named as one. -/
theorem leaks_suggest_exactly_namespacedUnit :
    ((namespacedUnit "Core").index .standard).versionLeak? (namespacedReference "Core")
        = some (namespacedReport "Core" "Core.Account.Stable.Latest.t") ∧
      SuggestsExactly (namespacedUnit "Core") .standard (namespacedReference "Core")
        (namespacedReport "Core" "Core.Account.Stable.Latest.t")
        (((namespacedUnit "Core").index .standard).suggested (namespacedReference "Core")) ∧
      ((namespacedUnit "Core").index .standard).suggested (namespacedReference "Core")
        = ["Core", "Account", "Stable", "Latest", "t"] ∧
      (((namespacedUnit "Core").index .standard).resolve ((namespacedReference "Core").respelled
        ["Core", "Account", "Stable", "Latest", "t"])).standing = .latest "Core.Account" := by
  have h : ((namespacedUnit "Core").index .standard).versionLeak? (namespacedReference "Core")
      = some (namespacedReport "Core" "Core.Account.Stable.Latest.t") := by decide +kernel
  exact ⟨h, leaks_suggest_exactly h, by decide +kernel, by decide +kernel⟩

/-- Where the namespace is named as a version, it is the namespace that gives way in the suggestion,
and what is suggested is a version as well. -/
theorem namespace_rewritten :
    namespacedReference "V1" ∈ ((namespacedUnit "V1").index .standard).references ∧
      ((namespacedUnit "V1").index .standard).versionLeak? (namespacedReference "V1")
        = some (namespacedReport "V1" "Latest.Account.Stable.V2.t") ∧
      ((namespacedUnit "V1").index .standard).suggested (namespacedReference "V1")
        = ["Latest", "Account", "Stable", "V2", "t"] ∧
      (((namespacedUnit "V1").index .standard).resolve ((namespacedReference "V1").respelled
        ["Latest", "Account", "Stable", "V2", "t"])).standing = .version "Latest.Account" 2 :=
  ⟨by decide +kernel, by decide +kernel, by decide +kernel, by decide +kernel⟩

end SchemaVersioning
