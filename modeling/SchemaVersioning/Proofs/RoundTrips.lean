import Mathlib.Data.List.Sort
import SchemaVersioning.Analysis.Data
import SchemaVersioning.Proofs.DeclarationRoundTrips
import SchemaVersioning.Proofs.Places

/-!
# Round trips

Units, conventions, families and generated declarations are read back from their data, with all
fields written or with the null ones left out (`models_round_trip`).  The things that are well
formed are exactly those that some data is read as.  Models can be built that are nested deeper than
data may be; these are not read back (`deepUnit_not_read_back`).
-/

namespace SchemaVersioning

open Reading Checked

/-! ## Conventions -/

namespace NameSet

theorem mem_ofList {names : List String} {s : String} : s ∈ (ofList names).names ↔ s ∈ names := by
  induction names with
  | nil => rfl
  | cons t rest ih => rw [ofList, mem_insertName, ih, List.mem_cons]

theorem eq_of_names_eq {a b : NameSet} (h : a.names = b.names) : a = b := by
  obtain ⟨names, ascending⟩ := a
  obtain rfl : names = b.names := h
  rfl

/-- A set is that of its members in any order. -/
theorem ofList_of_perm {set : NameSet} {names : List String} (h : names.Perm set.names) :
    ofList names = set := by
  have hperm : (ofList names).names.Perm set.names := by
    rw [List.perm_ext_iff_of_nodup (ofList names).ascending.nodup set.ascending.nodup]
    exact fun s => mem_ofList.trans h.mem_iff
  have hnames : (ofList names).names = set.names :=
    hperm.eq_of_pairwise
      (fun _ _ _ _ hst hts => (String.lt_irrefl _ (String.lt_trans hst hts)).elim)
      (ofList names).ascending set.ascending
  exact eq_of_names_eq hnames

end NameSet

theorem readsBack_nameSet {set : NameSet} {names : List String} (h : names.Perm set.names) :
    ReadsBack (fun v => (textSet v).map NameSet.ofList) (.texts names) set := by
  intro w hw
  obtain ⟨ws, rfl, -⟩ := Value.omits_list_iff.1 hw
  have hnames : textSet (.list ws) = accepted names := readsBack_texts names _ hw
  simp only [hnames, map_accepted, NameSet.ofList_of_perm h]

namespace Config

/-- No name of the conventions is empty. -/
structure WellFormed (c : Config) : Prop where
  container : c.containerName ≠ ""
  latest : c.latestName ≠ ""
  versionedType : c.versionedTypeName ≠ ""
  upgradeFunction : c.upgradeFunctionName ≠ ""
  testModule : c.testModuleName ≠ ""
  query : c.rpcQueryType ≠ ""
  response : c.rpcResponseType ≠ ""

/-- Conventions as data, with the members of the two sets in some order. -/
def written (c : Config) (types constructors : List String) : Value :=
  .record [("container_name", .text c.containerName), ("latest_name", .text c.latestName),
    ("versioned_type_name", .text c.versionedTypeName),
    ("upgrade_function_name", .text c.upgradeFunctionName),
    ("test_module_name", .text c.testModuleName), ("rpc_query_type", .text c.rpcQueryType),
    ("rpc_response_type", .text c.rpcResponseType), ("builtin_types", .texts types),
    ("builtin_type_constructors", .texts constructors),
    ("builtin_module_prefixes", .texts c.builtinModulePrefixes)]

/-- What is written for conventions: the members of a set may come in any order. -/
def Writes (c : Config) (v : Value) : Prop :=
  ∃ types constructors, types.Perm c.builtinTypes.names ∧
    constructors.Perm c.builtinTypeConstructors.names ∧ v = c.written types constructors

theorem writes_toValue (c : Config) : c.Writes c.toValue :=
  ⟨_, _, List.Perm.refl _, List.Perm.refl _, rfl⟩

theorem ne_empty_of_optional {entries : Entries} {name absent s : String} (habsent : absent ≠ "")
    (h : optional entries name absent (fun v _ => nonEmptyText v) = accepted s) : s ≠ "" := by
  rcases optional_eq_accepted h with rfl | ⟨_, _, hread⟩
  · exact habsent
  · exact ne_empty_of_nonEmptyText hread

theorem wellFormed_of_read {v : Value} {c : Config} (h : Config.read v = accepted c) :
    c.WellFormed := by
  obtain ⟨entries, _, h⟩ := model_eq_accepted h
  have hfields := exists_of_accepted (onlyFields_eq_accepted h)
  simp only [exists_seq_accepted, exists_map_accepted] at hfields
  obtain ⟨prefixes, -, constructors, -, types, -, response, hresponse, query, hquery, test, htest,
    upgrade, hupgrade, type, htype, latest, hlatest, container, hcontainer, rfl⟩ := hfields
  exact {
    container := ne_empty_of_optional (by decide) hcontainer
    latest := ne_empty_of_optional (by decide) hlatest
    versionedType := ne_empty_of_optional (by decide) htype
    upgradeFunction := ne_empty_of_optional (by decide) hupgrade
    testModule := ne_empty_of_optional (by decide) htest
    query := ne_empty_of_optional (by decide) hquery
    response := ne_empty_of_optional (by decide) hresponse }

theorem readsBack {c : Config} (h : c.WellFormed) {v : Value} (hv : c.Writes v) :
    ReadsBack Config.read v c := by
  obtain ⟨ts, cs, hts, hcs, rfl⟩ := hv
  refine readsBack_model (by decide) rfl fun es hes => accepts_seq (accepts_seq (accepts_seq
    (accepts_seq (accepts_seq (accepts_seq (accepts_seq (accepts_seq (accepts_seq
      (accepts_map _ ?container) ?latest) ?type) ?upgrade) ?test) ?query) ?response) ?types)
        ?constructors) ?prefixes
  case container =>
    exact optional_of_leaves hes (readsBack_nonEmptyText h.container) (by simp) nofun
  case latest => exact optional_of_leaves hes (readsBack_nonEmptyText h.latest) (by simp) nofun
  case type => exact optional_of_leaves hes (readsBack_nonEmptyText h.versionedType) (by simp) nofun
  case upgrade =>
    exact optional_of_leaves hes (readsBack_nonEmptyText h.upgradeFunction) (by simp) nofun
  case test => exact optional_of_leaves hes (readsBack_nonEmptyText h.testModule) (by simp) nofun
  case query => exact optional_of_leaves hes (readsBack_nonEmptyText h.query) (by simp) nofun
  case response => exact optional_of_leaves hes (readsBack_nonEmptyText h.response) (by simp) nofun
  case types => exact optional_of_leaves hes (readsBack_nameSet hts) (by simp) nofun
  case constructors => exact optional_of_leaves hes (readsBack_nameSet hcs) (by simp) nofun
  case prefixes => exact optional_of_leaves hes (readsBack_texts _) (by simp) nofun

end Config

/-! ## Families -/

structure UpgradeFunction.WellFormedWithin (limit : Nat) (u : UpgradeFunction) : Prop where
  named : u.name ≠ ""
  typeNamed : u.typeName ≠ ""
  parameter : u.parameter.FitsWithin limit 2
  returns : u.returns.FitsWithin limit 2

abbrev UpgradeFunction.WellFormed := UpgradeFunction.WellFormedWithin Nesting.maxDepth

/-- There is always room for the location of an outermost model. -/
theorem fieldFits_outermost (l : Option Location) : Location.FieldFits Nesting.outermost.depth l :=
  fun _ => by decide

theorem UpgradeFunction.wellFormed_of_read {v : Value} {u : UpgradeFunction}
    (h : UpgradeFunction.read v = accepted u) : u.WellFormed := by
  obtain ⟨entries, _, h⟩ := model_eq_accepted h
  have hfields := exists_of_accepted (onlyFields_eq_accepted h)
  simp only [exists_seq_accepted, exists_map_accepted] at hfields
  obtain ⟨location, -, returns, hreturns, parameter, hparameter, typeName, htypeName, name, hname,
    rfl⟩ := hfields
  obtain ⟨_, _, hname⟩ := required_eq_accepted hname
  obtain ⟨_, _, htypeName⟩ := required_eq_accepted htypeName
  obtain ⟨_, _, hparameter⟩ := required_eq_accepted hparameter
  obtain ⟨_, _, hreturns⟩ := required_eq_accepted hreturns
  exact ⟨ne_empty_of_nonEmptyText hname, ne_empty_of_nonEmptyText htypeName,
    fits_of_readPart hparameter, fits_of_readPart hreturns⟩

theorem UpgradeFunction.readsBack {u : UpgradeFunction} (h : u.WellFormed) :
    ReadsBack UpgradeFunction.read u.toValue u := by
  refine readsBack_model (by decide) rfl fun es hes => accepts_seq (accepts_seq (accepts_seq
    (accepts_seq (accepts_map _ ?name) ?typeName) ?parameter) ?returns) ?location
  case name => exact required_of_leaves hes (readsBack_nonEmptyText h.named) (by simp) nofun
  case typeName => exact required_of_leaves hes (readsBack_nonEmptyText h.typeNamed) (by simp) nofun
  case parameter =>
    exact required_of_leaves hes (readsBack_typeExpr h.parameter) (by simp)
      u.parameter.toValue_ne_null
  case returns =>
    exact required_of_leaves hes (readsBack_typeExpr h.returns) (by simp) u.returns.toValue_ne_null
  case location => exact location_of_leaves hes (fieldFits_outermost _) (by simp)

structure TestObligation.WellFormed (t : TestObligation) : Prop where
  path : 1 ≤ t.modulePath.length

theorem TestObligation.wellFormed_of_read {v : Value} {t : TestObligation}
    (h : TestObligation.read v = accepted t) : t.WellFormed := by
  obtain ⟨entries, _, h⟩ := model_eq_accepted h
  have hfields := exists_of_accepted (onlyFields_eq_accepted h)
  simp only [exists_seq_accepted, exists_map_accepted] at hfields
  obtain ⟨location, -, path, hpath, rfl⟩ := hfields
  obtain ⟨_, _, hpath⟩ := required_eq_accepted hpath
  exact ⟨(atLeast_eq_accepted_iff.1 hpath).2⟩

theorem TestObligation.readsBack {t : TestObligation} (h : t.WellFormed) :
    ReadsBack TestObligation.read t.toValue t := by
  refine readsBack_model (by decide) rfl fun es hes => accepts_seq (accepts_map _ ?path) ?location
  case path =>
    exact required_of_leaves hes (readsBack_atLeast (readsBack_texts _) h.path) (by simp) nofun
  case location => exact location_of_leaves hes (fieldFits_outermost _) (by simp)

structure SchemaVersion.WellFormedWithin (limit : Nat) (v : SchemaVersion) : Prop where
  numbered : 1 ≤ v.number
  path : 1 ≤ v.modulePath.length
  typed : 1 ≤ v.types.length
  types : ∀ t ∈ v.types, t.WellFormedWithin limit 0
  codec : v.codec.WellFormedWithin limit 0
  upgrades : ∀ p ∈ v.upgrades, p.2.WellFormedWithin limit
  adapters : ∀ p ∈ v.adapters, p.2.WellFormedWithin limit 0

abbrev SchemaVersion.WellFormed := SchemaVersion.WellFormedWithin Nesting.maxDepth

theorem CodecRef.wellFormed_derived : CodecRef.derived.WellFormed 0 :=
  ⟨by decide, nofun, nofun⟩

theorem SchemaVersion.wellFormed_of_read {data : Value} {v : SchemaVersion}
    (h : SchemaVersion.read data = accepted v) : v.WellFormed := by
  obtain ⟨entries, _, h⟩ := model_eq_accepted h
  have hfields := exists_of_accepted (onlyFields_eq_accepted h)
  simp only [exists_seq_accepted, exists_map_accepted] at hfields
  obtain ⟨location, -, adapters, hadapters, upgrades, hupgrades, codec, hcodec, types, htypes, path,
    hpath, number, hnumber, rfl⟩ := hfields
  obtain ⟨_, _, hnumber⟩ := required_eq_accepted hnumber
  obtain ⟨_, _, hpath⟩ := required_eq_accepted hpath
  obtain ⟨_, _, htypes⟩ := required_eq_accepted htypes
  obtain ⟨htypes, htyped⟩ := atLeast_eq_accepted_iff.1 htypes
  have hcodec : codec.WellFormed 0 := by
    rcases optional_eq_accepted hcodec with rfl | ⟨_, _, hread⟩
    · exact CodecRef.wellFormed_derived
    · exact CodecRef.wellFormed_of_read hread
  have hupgraded : ∀ p ∈ upgrades, p.2.WellFormed :=
    forall_mem_of_optional hupgrades fun h p hp => by
      obtain ⟨_, hread⟩ := dictionary_eq_accepted h p hp
      exact UpgradeFunction.wellFormed_of_read hread
  have hadapted : ∀ p ∈ adapters, p.2.WellFormed 0 :=
    forall_mem_of_optional hadapters fun h p hp => by
      obtain ⟨_, hread⟩ := dictionary_eq_accepted h p hp
      exact ValueDecl.wellFormed_of_read hread
  exact {
    numbered := le_of_natFrom hnumber
    path := (atLeast_eq_accepted_iff.1 hpath).2
    typed := htyped
    types := forall_mem_of_tupleOf htypes TypeDecl.wellFormed_of_read
    codec := hcodec
    upgrades := hupgraded
    adapters := hadapted }

theorem SchemaVersion.readsBack {v : SchemaVersion} (h : v.WellFormed) :
    ReadsBack SchemaVersion.read v.toValue v := by
  refine readsBack_model (by decide) rfl fun es hes => accepts_seq (accepts_seq (accepts_seq
    (accepts_seq (accepts_seq (accepts_seq (accepts_map _ ?number) ?path) ?types) ?codec)
      ?upgrades) ?adapters) ?location
  case number => exact required_of_leaves hes (readsBack_natFrom h.numbered) (by simp) nofun
  case path =>
    exact required_of_leaves hes (readsBack_atLeast (readsBack_texts _) h.path) (by simp) nofun
  case types =>
    have hlist : ReadsBack (TypeDecl.readTuple .outermost) (.list (v.types.map (·.toValue)))
        v.types := readsBack_tupleOf fun t ht => TypeDecl.readsBack (h.types t ht)
    exact required_of_leaves hes (readsBack_atLeast hlist h.typed) (by simp) nofun
  case codec => exact optional_of_leaves hes (CodecRef.readsBack h.codec) (by simp) nofun
  case upgrades =>
    exact optional_of_leaves hes (readsBack_dictionary nofun fun p hp =>
      UpgradeFunction.readsBack (h.upgrades p hp)) (by simp) nofun
  case adapters =>
    exact optional_of_leaves hes (readsBack_dictionary nofun fun p hp =>
      ValueDecl.readsBack (h.adapters p hp)) (by simp) nofun
  case location => exact location_of_leaves hes (fieldFits_outermost _) (by simp)

/-- The fields of the parts keep their bounds, and their models are nested up to a limit. -/
structure FamilyParts.WellFormedWithin (limit : Nat) (f : FamilyParts) : Prop where
  named : f.name ≠ ""
  path : 1 ≤ f.containerPath.length
  typed : 1 ≤ f.typeNames.length
  versions : ∀ v ∈ f.versions, v.WellFormedWithin limit
  test : ∀ t ∈ f.testObligation, t.WellFormed

abbrev FamilyParts.WellFormed := FamilyParts.WellFormedWithin Nesting.maxDepth

theorem FamilyParts.wellFormed_of_read {entries : Entries} {f : FamilyParts}
    (h : FamilyParts.read entries = accepted f) : f.WellFormed := by
  have hfields := exists_of_accepted h
  simp only [FamilyParts.read, exists_seq_accepted, exists_map_accepted] at hfields
  obtain ⟨location, -, inTest, -, arities, -, test, htest, versions, hversions, typeNames,
    htypeNames, strategy, -, kind, -, path, hpath, name, hname, rfl⟩ := hfields
  obtain ⟨_, _, hname⟩ := required_eq_accepted hname
  obtain ⟨_, _, hpath⟩ := required_eq_accepted hpath
  obtain ⟨_, _, hversions⟩ := required_eq_accepted hversions
  have htyped : 1 ≤ typeNames.length := by
    rcases optional_eq_accepted htypeNames with rfl | ⟨_, _, hread⟩
    · decide
    · exact (atLeast_eq_accepted_iff.1 hread).2
  exact {
    named := ne_empty_of_nonEmptyText hname
    path := (atLeast_eq_accepted_iff.1 hpath).2
    typed := htyped
    versions := forall_mem_of_tupleOf hversions SchemaVersion.wellFormed_of_read
    test := forall_mem_of_nullable htest TestObligation.wellFormed_of_read }

namespace Family

/-- The invariants of a family are part of its type; its parts are well formed. -/
def WellFormedWithin (limit : Nat) (f : Family) : Prop := f.toFamilyParts.WellFormedWithin limit

abbrev WellFormed := WellFormedWithin Nesting.maxDepth

theorem toFamilyParts_of_ofParts {parts : FamilyParts} {f : Family}
    (h : ofParts parts = .ok f) : f.toFamilyParts = parts := by
  unfold ofParts at h
  split at h
  · cases h
  · split at h
    · split at h
      · cases h
        rfl
      · cases h
    · cases h

theorem ofParts_toFamilyParts (f : Family) : ofParts f.toFamilyParts = .ok f := by
  rw [ofParts, dif_neg f.nonempty, dif_pos f.numbered, dif_pos f.tested]

theorem wellFormed_of_read {v : Value} {f : Family} (h : Family.read v = accepted f) :
    f.WellFormed := by
  obtain ⟨entries, _, h⟩ := model_eq_accepted h
  obtain ⟨parts, hparts, hmake⟩ := andThen_eq_accepted_iff.1 h
  split at hmake
  · next g hg =>
    cases hmake
    rw [WellFormed, WellFormedWithin, toFamilyParts_of_ofParts hg]
    exact FamilyParts.wellFormed_of_read (onlyFields_eq_accepted hparts)
  · cases hmake

theorem readsBack_kind (kind : FamilyKind) : ReadsBack FamilyKind.read (.text kind.name) kind := by
  refine readsBack_scalar trivial ?_
  cases kind <;> rfl

theorem readsBack_strategy (strategy : CodecStrategy) :
    ReadsBack CodecStrategy.read (.text strategy.name) strategy := by
  refine readsBack_scalar trivial ?_
  cases strategy <;> rfl

/-- The data of parts of a family is read as those parts, before they are checked together. -/
theorem read_fields_of_omits {parts : FamilyParts} (h : parts.WellFormed) {w : Value}
    (hw : parts.toValue.Omits w) : ∃ es, w = .object es ∧ onlyFields
      ["name", "container_path", "kind", "variant", "type_names", "versions", "test_obligation",
        "functor_arities", "in_test", "location"]
      es (FamilyParts.read es) = accepted parts := by
  obtain ⟨es, rfl, hes⟩ := Value.Omits.record hw (by simp)
  refine ⟨es, rfl, (onlyFields_of_leaves hes _).trans (accepts_seq (accepts_seq (accepts_seq
    (accepts_seq (accepts_seq (accepts_seq (accepts_seq (accepts_seq (accepts_seq
      (accepts_map _ ?name) ?path) ?kind) ?strategy) ?typeNames) ?versions) ?test) ?arities)
        ?inTest) ?location)⟩
  case name => exact required_of_leaves hes (readsBack_nonEmptyText h.named) (by simp) nofun
  case path =>
    exact required_of_leaves hes (readsBack_atLeast (readsBack_texts _) h.path) (by simp) nofun
  case kind => exact optional_of_leaves hes (readsBack_kind _) (by simp) nofun
  case strategy => exact optional_of_leaves hes (readsBack_strategy _) (by simp) nofun
  case typeNames =>
    exact optional_of_leaves hes (readsBack_atLeast (readsBack_texts _) h.typed) (by simp) nofun
  case versions =>
    exact required_of_leaves hes
      (readsBack_tupleOf fun v hv => SchemaVersion.readsBack (h.versions v hv)) (by simp) nofun
  case test =>
    exact nullable_of_leaves hes (fun t ht => TestObligation.readsBack (h.test t ht)) (by simp)
      nofun
  case arities =>
    exact optional_of_leaves hes (readsBack_tupleOf fun n _ => readsBack_integer n) (by simp) nofun
  case inTest => exact optional_of_leaves hes (readsBack_boolean _) (by simp) nofun
  case location => exact location_of_leaves hes (fieldFits_outermost _) (by simp)

/-- The data of parts is read as their family, or refused for what keeps them from being one. -/
theorem read_of_omits {parts : FamilyParts} (h : parts.WellFormed) {w : Value}
    (hw : parts.toValue.Omits w) : Family.read w = match ofParts parts with
      | .ok f => accepted f
      | .error fault => refuse (.refused (fault.message parts.name)) := by
  obtain ⟨es, rfl, hfields⟩ := read_fields_of_omits h hw
  rw [Family.read, model, hfields]
  rfl

theorem readsBack {f : Family} (h : f.WellFormed) : ReadsBack Family.read f.toValue f := by
  intro w hw
  rw [read_of_omits h hw, ofParts_toFamilyParts]

end Family

/-! ## Generated declarations -/

namespace GeneratedFamily

/-- The fields of generated declarations keep their bounds, and their models are nested up to a
limit. -/
structure WellFormedWithin (limit : Nat) (g : GeneratedFamily) : Prop where
  named : g.family ≠ ""
  path : 1 ≤ g.containerPath.length
  numbered : 1 ≤ g.latestVersion
  latestModule : g.latestModule.WellFormedWithin limit 2
  operated : 2 ≤ g.operations.length
  operations : ∀ v ∈ g.operations, v.IsMemberWithin limit 0
  ordered : 1 ≤ g.decodeOrder.length

abbrev WellFormed := WellFormedWithin Nesting.maxDepth

theorem wellFormed_of_read {v : Value} {g : GeneratedFamily}
    (h : GeneratedFamily.read v = accepted g) : g.WellFormed := by
  obtain ⟨entries, _, h⟩ := model_eq_accepted h
  have hfields := exists_of_accepted (onlyFields_eq_accepted h)
  simp only [exists_seq_accepted, exists_map_accepted] at hfields
  obtain ⟨order, horder, operations, hoperations, latest, hlatest, number, hnumber, path, hpath,
    name, hname, rfl⟩ := hfields
  obtain ⟨_, _, hname⟩ := required_eq_accepted hname
  obtain ⟨_, _, hpath⟩ := required_eq_accepted hpath
  obtain ⟨_, _, hnumber⟩ := required_eq_accepted hnumber
  obtain ⟨_, _, hlatest⟩ := required_eq_accepted hlatest
  obtain ⟨_, _, hoperations⟩ := required_eq_accepted hoperations
  obtain ⟨_, _, horder⟩ := required_eq_accepted horder
  obtain ⟨hoperations, hoperated⟩ := atLeast_eq_accepted_iff.1 hoperations
  exact {
    named := ne_empty_of_nonEmptyText hname
    path := (atLeast_eq_accepted_iff.1 hpath).2
    numbered := le_of_natFrom hnumber
    latestModule := ModuleDecl.wellFormed_of_readAt _ hlatest
    operated := hoperated
    operations := ValueDecl.forall_isMember_of_readMembers hoperations
    ordered := (atLeast_eq_accepted_iff.1 horder).2 }

theorem readsBack {g : GeneratedFamily} (h : g.WellFormed) :
    ReadsBack GeneratedFamily.read g.toValue g := by
  refine readsBack_model (by decide) rfl fun es hes => accepts_seq (accepts_seq (accepts_seq
    (accepts_seq (accepts_seq (accepts_map _ ?name) ?path) ?number) ?latest) ?operations) ?order
  case name => exact required_of_leaves hes (readsBack_nonEmptyText h.named) (by simp) nofun
  case path =>
    exact required_of_leaves hes (readsBack_atLeast (readsBack_texts _) h.path) (by simp) nofun
  case number => exact required_of_leaves hes (readsBack_natFrom h.numbered) (by simp) nofun
  case latest =>
    have hnull : g.latestModule.toValue ≠ .null := by
      cases g.latestModule
      nofun
    exact required_of_leaves hes (ModuleDecl.readsBack h.latestModule rfl) (by simp) hnull
  case operations =>
    exact required_of_leaves hes
      (readsBack_atLeast (ValueDecl.readsBack_members h.operations) h.operated) (by simp) nofun
  case order =>
    exact required_of_leaves hes
      (readsBack_atLeast (readsBack_tupleOf fun n _ => readsBack_integer n) h.ordered) (by simp)
      nofun

end GeneratedFamily

section Synthesis

variable {f : Family} {c : Config} {depth : Nat}

theorem operationNames_ne_empty (c : Config) (typeName : String) :
    (c.operationNames typeName).1 ≠ "" ∧ (c.operationNames typeName).2 ≠ "" := by
  unfold Config.operationNames
  split
  · decide
  · simp [String.append_eq_empty_iff]

theorem isMember_operation {name : String} {parameter result : TypeExpr} (hname : name ≠ "")
    (hparameter : parameter.Fits 3) (hresult : result.Fits 3) :
    (f.operation name parameter result).IsMember 0 := by
  refine ⟨by decide, hname, fun e he => ?_, hresult, fun _ => by decide⟩
  obtain rfl := List.mem_singleton.1 he
  exact hparameter

theorem isMember_operationsOf {typeName : String} {v : ValueDecl}
    (hv : v ∈ f.operationsOf c typeName) : v.IsMember 0 := by
  have hlatest {depth : Nat} (hroom : depth ≤ Nesting.maxDepth) :
      (TypeExpr.ofPath c.latestName [typeName]).Fits depth := TypeExpr.fits_of_args_eq_nil hroom rfl
  have hbuffer : Family.bufferType.Fits 3 := TypeExpr.fits_of_args_eq_nil (by decide) rfl
  obtain ⟨hencoder, hdecoder⟩ := operationNames_ne_empty c typeName
  rcases List.mem_cons.1 hv with rfl | hv
  · exact isMember_operation hencoder (hlatest (by decide)) hbuffer
  · obtain rfl := List.mem_singleton.1 hv
    refine isMember_operation hdecoder hbuffer (.mk (by decide) fun a ha => ?_)
    obtain rfl := List.mem_singleton.1 ha
    exact hlatest (by decide)

theorem wellFormed_latestModule (hc : c.WellFormed) (hnames : "" ∉ f.typeNames) :
    (f.latestModule c).WellFormed 2 := by
  refine .mk (by decide) hc.latest (fun t ht => ?_) nofun nofun nofun nofun fun _ => by decide
  obtain ⟨name, hname, rfl⟩ := List.mem_map.1 ht
  refine ⟨by decide, fun heq => hnames (heq ▸ hname), fun e he => ?_, nofun, nofun,
    fun _ => by decide⟩
  obtain rfl := Option.some.inj he
  exact TypeExpr.fits_of_args_eq_nil (by decide) rfl

/-- What is generated for a valid family by valid conventions is valid. -/
theorem Family.WellFormed.synthesize (hf : f.WellFormed) (hc : c.WellFormed)
    (hnames : "" ∉ f.typeNames) : (f.synthesize c).WellFormed where
  named := hf.named
  path := hf.path
  numbered := (hf.versions _ (List.getLast_mem _)).numbered
  latestModule := wellFormed_latestModule hc hnames
  operated := by
    obtain ⟨name, rest, hcons⟩ := List.exists_cons_of_length_pos hf.typed
    show 2 ≤ (f.typeNames.flatMap (f.operationsOf c)).length
    rw [hcons, List.flatMap_cons, List.length_append]
    exact Nat.le_add_right 2 _
  operations := fun v hv => by
    obtain ⟨name, _, hv⟩ := List.mem_flatMap.1 hv
    exact isMember_operationsOf hv
  ordered := by
    show 1 ≤ (f.decodeOrder.map Int.ofNat).length
    rw [Family.decodeOrder, List.length_map, List.length_reverse, List.length_map]
    exact List.length_pos_of_ne_nil f.nonempty

end Synthesis

/-! ## Round trips -/

/-- A thing is valid if some data is read as it. -/
def Valid {α : Type} (read : Value → Checked α) (a : α) : Prop := ∃ v, read v = accepted a

/-- What is written for a thing is read as that thing, with all fields and without the null ones. -/
def RoundTrips {α : Type} (read : Value → Checked α) (v : Value) (a : α) : Prop :=
  read v = accepted a ∧ read v.withoutNulls = accepted a

theorem roundTrips_of_readsBack {α : Type} {read : Value → Checked α} {v : Value} {a : α}
    (h : ReadsBack read v a) : RoundTrips read v a :=
  ⟨h v (.same v), h _ v.omits_withoutNulls⟩

/-- Where everything that is read is well formed, and what is well formed is read back, a thing is
valid exactly if it is well formed, and exactly then it is read back. -/
theorem valid_and_roundTrips_iff {α : Type} {read : Value → Checked α} {v : Value} {a : α}
    {WellFormed : α → Prop} (hread : ∀ {w b}, read w = accepted b → WellFormed b)
    (hback : WellFormed a → ReadsBack read v a) :
    (Valid read a ↔ WellFormed a) ∧ (RoundTrips read v a ↔ WellFormed a) := by
  refine ⟨⟨?_, fun h => ⟨v, hback h v (.same v)⟩⟩, ?_, fun h => roundTrips_of_readsBack (hback h)⟩
  · rintro ⟨w, hw⟩
    exact hread hw
  · rintro ⟨hv, -⟩
    exact hread hv

/-- Units, conventions, families and generated declarations are valid, as data is read as them,
exactly if their fields keep their bounds and their models are nested 255 deep at most, and exactly
then they are read back from what is written for them.  The members of the sets of conventions may
come in any order. -/
theorem models_round_trip :
    (∀ u : CompilationUnit, (Valid CompilationUnit.read u ↔ u.WellFormedWithin 255) ∧
      (RoundTrips CompilationUnit.read u.toValue u ↔ u.WellFormedWithin 255)) ∧
    (∀ c : Config, (Valid Config.read c ↔ c.WellFormed) ∧ c.Writes c.toValue ∧
      ∀ v, c.Writes v → (RoundTrips Config.read v c ↔ c.WellFormed)) ∧
    (∀ f : Family, (Valid Family.read f ↔ f.WellFormedWithin 255) ∧
      (RoundTrips Family.read f.toValue f ↔ f.WellFormedWithin 255)) ∧
    (∀ g : GeneratedFamily, (Valid GeneratedFamily.read g ↔ g.WellFormedWithin 255) ∧
      (RoundTrips GeneratedFamily.read g.toValue g ↔ g.WellFormedWithin 255)) := by
  refine ⟨fun u => ?unit, fun c => ?conventions, fun f => ?family, fun g => ?generated⟩
  case unit =>
    exact valid_and_roundTrips_iff CompilationUnit.wellFormed_of_read CompilationUnit.readsBack
  case conventions =>
    refine ⟨(valid_and_roundTrips_iff Config.wellFormed_of_read
      fun h => Config.readsBack h c.writes_toValue).1, c.writes_toValue, fun v hv => ?_⟩
    exact (valid_and_roundTrips_iff Config.wellFormed_of_read fun h => Config.readsBack h hv).2
  case family => exact valid_and_roundTrips_iff Family.wellFormed_of_read Family.readsBack
  case generated =>
    exact valid_and_roundTrips_iff GeneratedFamily.wellFormed_of_read GeneratedFamily.readsBack

/-- A functor with a parameter and with a type that abbreviates an applied variable. -/
def abbreviatedUnit : CompilationUnit where
  name := "ledger"
  modules := [{ ModuleDecl.bare "Make" [{ TypeDecl.bare "t" with
      shape := .synonym ⟨.var "a", [.ofPath "int" []], ["unversioned"], none⟩ }] [] with
    functor := some ⟨1, [⟨"Key", [], []⟩], by decide⟩ }]

/-- A family of one version, with its test. -/
def singleFamily : Family where
  name := "Account"
  containerPath := ["Account", "Stable"]
  kind := .type
  strategy := .asserted
  typeNames := ["t"]
  versions := [⟨1, ["Account", "Stable", "V1"], [TypeDecl.bare "t"], .derived, [], [], none⟩]
  testObligation := some ⟨["Account", "Stable", "Tests"], none⟩
  functorArities := [-1]
  inTest := false
  location := some ⟨"account.ml", 3, 0⟩
  nonempty := by decide
  numbered := by decide
  tested := by decide

theorem abbreviatedUnit_wellFormed : abbreviatedUnit.WellFormed := by
  have htarget : (⟨.var "a", [.ofPath "int" []], ["unversioned"], none⟩ : TypeExpr).Fits 5 := by
    refine .mk (by decide) fun a ha => ?_
    obtain rfl := List.mem_singleton.1 ha
    exact TypeExpr.fits_of_args_eq_nil (by decide) rfl
  have hparameter : (⟨"Key", [], []⟩ : FunctorParameter).WellFormed 2 := ⟨by decide, nofun, nofun⟩
  refine ⟨by decide, fun m hm => ?_⟩
  obtain rfl := List.mem_singleton.1 hm
  refine .mk (by decide) (by decide) (fun t ht => ?_) nofun nofun nofun
    (fun p hp => List.mem_singleton.1 hp ▸ hparameter) nofun
  obtain rfl := List.mem_singleton.1 ht
  refine ⟨by decide, by decide, fun e he => ?_, nofun, nofun, nofun⟩
  obtain rfl := Option.some.inj he
  exact htarget

theorem singleFamily_wellFormed : singleFamily.WellFormed := by
  have htest : (⟨["Account", "Stable", "Tests"], none⟩ : TestObligation).WellFormed := ⟨by decide⟩
  refine ⟨by decide, by decide, by decide, fun v hv => ?_, fun t ht => Option.some.inj ht ▸ htest⟩
  obtain rfl := List.mem_singleton.1 hv
  refine ⟨by decide, by decide, by decide, fun t ht => ?_, CodecRef.wellFormed_derived, nofun,
    nofun⟩
  obtain rfl := List.mem_singleton.1 ht
  exact ⟨by decide, nofun, nofun, nofun, nofun⟩

theorem standard_wellFormed : Config.standard.WellFormed :=
  ⟨by decide, by decide, by decide, by decide, by decide, by decide, by decide⟩

theorem models_round_trip_single :
    (Valid CompilationUnit.read abbreviatedUnit ∧
      RoundTrips CompilationUnit.read abbreviatedUnit.toValue abbreviatedUnit) ∧
    (Valid Config.read .standard ∧ RoundTrips Config.read (Config.standard.written
      Config.standard.builtinTypes.names.reverse ["list", "option", "array"]) .standard) ∧
    (Valid Family.read singleFamily ∧ RoundTrips Family.read singleFamily.toValue singleFamily) ∧
    (Valid GeneratedFamily.read (singleFamily.synthesize .standard) ∧
      RoundTrips GeneratedFamily.read (singleFamily.synthesize .standard).toValue
        (singleFamily.synthesize .standard)) := by
  obtain ⟨hunit, hconfig, hfamily, hgenerated⟩ := models_round_trip
  have hg := singleFamily_wellFormed.synthesize standard_wellFormed (by decide)
  have hwrites : Config.standard.Writes (Config.standard.written
      Config.standard.builtinTypes.names.reverse ["list", "option", "array"]) :=
    ⟨_, _, List.reverse_perm _, by decide, rfl⟩
  exact ⟨⟨(hunit _).1.2 abbreviatedUnit_wellFormed, (hunit _).2.2 abbreviatedUnit_wellFormed⟩,
    ⟨(hconfig _).1.2 standard_wellFormed, ((hconfig _).2.2 _ hwrites).2 standard_wellFormed⟩,
    ⟨(hfamily _).1.2 singleFamily_wellFormed, (hfamily _).2.2 singleFamily_wellFormed⟩,
    ⟨(hgenerated _).1.2 hg, (hgenerated _).2.2 hg⟩⟩

/-- A list of lists, so many times. -/
def listOf : Nat → TypeExpr
  | 0 => .ofPath "int" []
  | n + 1 => ⟨.named "list" [], [listOf n], [], none⟩

theorem fitsWithin_listOf {limit depth n : Nat} :
    (listOf n).FitsWithin limit depth ↔ depth + n ≤ limit := by
  induction n generalizing depth with
  | zero =>
    refine ⟨?_, fun h => .mk h nofun⟩
    rintro ⟨room, -⟩
    exact room
  | succ n ih =>
    constructor
    · rintro ⟨-, args⟩
      have := ih.1 (args _ List.mem_cons_self)
      omega
    · intro h
      refine .mk (by omega) fun a ha => ?_
      obtain rfl := List.mem_singleton.1 ha
      exact ih.2 (by omega)

/-- A unit with a type that abbreviates such a list. -/
def deepUnit : CompilationUnit where
  name := "ledger"
  modules := [.bare "Account" [{ TypeDecl.bare "t" with shape := .synonym (listOf 251) }] []]

/-- The fields of the unit keep their bounds, but it is nested too deep to be read back. -/
theorem deepUnit_not_read_back : (∃ limit, deepUnit.WellFormedWithin limit) ∧
    ¬ RoundTrips CompilationUnit.read deepUnit.toValue deepUnit := by
  refine ⟨⟨256, by decide, fun m hm => ?_⟩, fun h => ?_⟩
  · obtain rfl := List.mem_singleton.1 hm
    refine .mk (by decide) (by decide) (fun t ht => ?_) nofun nofun nofun nofun nofun
    obtain rfl := List.mem_singleton.1 ht
    refine ⟨by decide, by decide, fun e he => ?_, nofun, nofun, nofun⟩
    obtain rfl := Option.some.inj he
    exact fitsWithin_listOf.2 (by decide)
  · obtain ⟨-, modules⟩ := CompilationUnit.wellFormed_of_read h.1
    obtain ⟨-, -, types⟩ := modules _ List.mem_cons_self
    have htarget := (types _ List.mem_cons_self).wellFormed.target _ rfl
    have := fitsWithin_listOf.1 htarget
    rw [Nesting.maxDepth] at this
    omega

end SchemaVersioning
