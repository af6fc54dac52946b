import Mathlib
import SchemaVersioning.Proofs.BoundCalls
import SchemaVersioning.Proofs.Outcome

/-!
# Binding what is built

What a builder of families accepts, a host can bind.  A remote call that is built from a container
is bound exactly if the bindings are complete: each version is bound, each binding brings the
call-site adapters, and both messages of every version but the latest one are upgraded.  Every other
binding is refused as such, unless it is for a number of too many digits.  In a binable family that
is built, each version declares a wrapper that the host has, and codecs made by these wrappers can
be bound (`built_family_bound_exactly`).
-/

namespace SchemaVersioning

/-! ## Complete bindings -/

/-- The versions `1..n` are bound and nothing else is, and all of them but the last are upgraded. -/
structure Bindings.Complete (bs : Bindings) (n : Nat) : Prop where
  keys : ∀ k, k ∈ ByNumber.numbers bs ↔ 1 ≤ k ∧ k ≤ (n : Int)
  latest : ∀ b, bs.lookup (n : Int) = some b → b.upgrade = none
  older : ∀ k < (n : Int), ∀ b, bs.lookup k = some b → b.upgrade.isSome

/-- The versions `1..n` of a remote call are bound and nothing else is, each binding has all
adapters, and both messages are upgraded in all versions but the last. -/
structure CallBindings.Complete (bs : CallBindings) (n : Nat) : Prop where
  keys : ∀ k, k ∈ ByNumber.numbers bs ↔ 1 ≤ k ∧ k ≤ (n : Int)
  adapters : ∀ k b, (k, b) ∈ bs → ∀ name ∈ callAdapters, (b.adapters.lookup name).isSome
  latest : ∀ b, bs.lookup (n : Int) = some b → b.query.upgrade = none ∧ b.response.upgrade = none
  older : ∀ k < (n : Int), ∀ b, bs.lookup k = some b →
    b.query.upgrade.isSome ∧ b.response.upgrade.isSome

section Complete

variable {f : Family} {n : Nat}

/-- Bindings fit a family that is not binable exactly if they are complete. -/
theorem fits_iff_complete {bs : Bindings} (h : f.strategy ≠ .binable) :
    f.Fits bs ↔ bs.Complete f.versions.length := by
  constructor
  · intro hfits
    exact ⟨hfits.keys, hfits.latest, hfits.older⟩
  · intro hcomplete
    exact ⟨hcomplete.keys, hcomplete.latest, hcomplete.older, fun hbinable => absurd hbinable h⟩

theorem numbers_map {β γ : Type} (g : β → γ) (bs : ByNumber β) :
    ByNumber.numbers (bs.map fun (k, b) => (k, g b)) = ByNumber.numbers bs := by
  simp [ByNumber.numbers]

/-- Bindings of a call are complete if no adapter is missing and the bindings of both messages are
complete. -/
theorem complete_iff {bs : CallBindings} : bs.Complete n ↔
    bs.lacking? = none ∧ bs.queries.Complete n ∧ bs.responses.Complete n := by
  have hqueries (k : Int) : bs.queries.lookup k = (bs.lookup k).map (·.query) := lookup_map _ bs k
  have hresponses (k : Int) : bs.responses.lookup k = (bs.lookup k).map (·.response) :=
    lookup_map _ bs k
  have hqueryKeys : ByNumber.numbers bs.queries = ByNumber.numbers bs := numbers_map _ bs
  have hresponseKeys : ByNumber.numbers bs.responses = ByNumber.numbers bs := numbers_map _ bs
  rw [lacking?_eq_none_iff]
  constructor
  · intro h
    refine ⟨h.adapters, ⟨hqueryKeys ▸ h.keys, ?_, ?_⟩, ⟨hresponseKeys ▸ h.keys, ?_, ?_⟩⟩
    · intro b hb
      obtain ⟨b', hb', rfl⟩ := Option.map_eq_some_iff.1 ((hqueries _).symm.trans hb)
      exact (h.latest b' hb').1
    · intro k hk b hb
      obtain ⟨b', hb', rfl⟩ := Option.map_eq_some_iff.1 ((hqueries _).symm.trans hb)
      exact (h.older k hk b' hb').1
    · intro b hb
      obtain ⟨b', hb', rfl⟩ := Option.map_eq_some_iff.1 ((hresponses _).symm.trans hb)
      exact (h.latest b' hb').2
    · intro k hk b hb
      obtain ⟨b', hb', rfl⟩ := Option.map_eq_some_iff.1 ((hresponses _).symm.trans hb)
      exact (h.older k hk b' hb').2
  · rintro ⟨hadapters, hquery, hresponse⟩
    have hboth {k : Int} {b : CallBinding} (hb : bs.lookup k = some b) :
        bs.queries.lookup k = some b.query ∧ bs.responses.lookup k = some b.response := by
      rw [hqueries, hresponses, hb]
      exact ⟨rfl, rfl⟩
    refine ⟨hqueryKeys ▸ hquery.keys, hadapters, fun b hb => ?_, fun k hk b hb => ?_⟩
    · exact ⟨hquery.latest _ (hboth hb).1, hresponse.latest _ (hboth hb).2⟩
    · exact ⟨hquery.older k hk _ (hboth hb).1, hresponse.older k hk _ (hboth hb).2⟩

end Complete

/-! ## Binding a call -/

section Calls

variable {f : Family} {bs : CallBindings} {queryType responseType : String}

/-- The binding of a call that lacks no adapter. -/
theorem bindCall_eq (hkind : f.kind = .rpc) (htypes : f.typeNames = [queryType, responseType])
    (hlacking : bs.lacking? = none) : f.bindCall bs =
      (f.dispatcher bs.queries (some queryType)).bind fun query =>
        (f.dispatcher bs.responses (some responseType)).bind fun response =>
          match bs.lookup (f.latest.number : Int) with
          | none => .error (.key (toString f.latest.number))
          | some b => .ok ⟨f.name, query, response, b.adapters⟩ := by
  simp only [Family.bindCall, hkind, hlacking, Family.callTypes, htypes]
  rfl

/-- A call is bound exactly if no adapter is missing and the bindings of both messages fit. -/
theorem exists_bindCall_iff (hkind : f.kind = .rpc)
    (htypes : f.typeNames = [queryType, responseType]) : (∃ call, f.bindCall bs = .ok call) ↔
      bs.lacking? = none ∧ f.Fits bs.queries ∧ f.Fits bs.responses := by
  constructor
  · rintro ⟨call, hcall⟩
    obtain ⟨hlacking, _, _, _, hquery, hresponse, -⟩ := parts_of_bindCall hcall
    exact ⟨hlacking, (binds_of_dispatcher hquery).1, (binds_of_dispatcher hresponse).1⟩
  · rintro ⟨hlacking, hfitsQuery, hfitsResponse⟩
    obtain ⟨query, hquery⟩ := exists_dispatcher hfitsQuery (some queryType)
    obtain ⟨response, hresponse⟩ := exists_dispatcher hfitsResponse (some responseType)
    have hkey : (f.latest.number : Int) ∈ ByNumber.numbers bs.queries := by
      have hpos := one_le_latest f
      have hlength := latest_number f
      exact (hfitsQuery.keys _).2 (by omega)
    obtain ⟨b, hb⟩ := exists_lookup_iff.2 hkey
    rw [CallBindings.queries, lookup_map] at hb
    obtain ⟨latest, hlatest, -⟩ := Option.map_eq_some_iff.1 hb
    rw [bindCall_eq hkind htypes hlacking, hquery, hresponse]
    simp only [Except.bind, hlatest]
    exact ⟨_, rfl⟩

/-- Adapters are missing in a binding for a bound number. -/
theorem numbers_of_lacking? {bs : CallBindings} {fault : BindingFault}
    (h : bs.lacking? = some fault) : ∀ k ∈ fault.numbers, k ∈ ByNumber.numbers bs := by
  induction bs with
  | nil => cases h
  | cons entry rest ih =>
    obtain ⟨number, b⟩ := entry
    rw [CallBindings.lacking?] at h
    intro k hk
    cases hnames : b.missingAdapters with
    | nil =>
      rw [hnames] at h
      exact List.mem_cons_of_mem _ (ih h k hk)
    | cons name names =>
      rw [hnames] at h
      obtain rfl := Option.some.inj h
      exact List.mem_singleton.1 hk ▸ List.mem_cons_self

/-- Where a call is not bound, the bindings are at fault. -/
theorem binding_of_bindCall (hkind : f.kind = .rpc)
    (htypes : f.typeNames = [queryType, responseType])
    (ht : f.TellsNumbers (ByNumber.numbers bs)) {e : Failure}
    (h : f.bindCall bs = .error e) : ∃ subject fault, e = .binding subject fault := by
  have hqueries : f.TellsNumbers (ByNumber.numbers bs.queries) := (numbers_map _ bs).symm ▸ ht
  have hresponses : f.TellsNumbers (ByNumber.numbers bs.responses) := (numbers_map _ bs).symm ▸ ht
  cases hlacking : bs.lacking? with
  | some fault =>
    simp only [Family.bindCall, hkind, hlacking] at h
    obtain rfl := Except.error.inj h
    refine ⟨f.name, fault, ofBinding_eq_binding fun k hk => ?_⟩
    exact ht.bound k (numbers_of_lacking? hlacking k hk)
  | none =>
    have hrefused : ¬ (f.Fits bs.queries ∧ f.Fits bs.responses) := by
      intro hfits
      obtain ⟨call, hcall⟩ := (exists_bindCall_iff hkind htypes).2 ⟨hlacking, hfits⟩
      cases hcall.symm.trans h
    rw [bindCall_eq hkind htypes hlacking] at h
    cases hquery : f.dispatcher bs.queries (some queryType) with
    | error e' =>
      rw [hquery] at h
      obtain rfl := Except.error.inj h
      obtain ⟨fault, rfl⟩ := binding_of_dispatcher hqueries hquery
      exact ⟨_, fault, rfl⟩
    | ok query =>
      cases hresponse : f.dispatcher bs.responses (some responseType) with
      | error e' =>
        rw [hquery, hresponse] at h
        obtain rfl := Except.error.inj h
        obtain ⟨fault, rfl⟩ := binding_of_dispatcher hresponses hresponse
        exact ⟨_, fault, rfl⟩
      | ok response =>
        exact absurd ⟨(binds_of_dispatcher hquery).1, (binds_of_dispatcher hresponse).1⟩ hrefused

/-- A call is not bound for a number of too many digits, and the refusal tells that number, or that
of a binding without all adapters. -/
theorem bindCall_eq_tooLarge (hkind : f.kind = .rpc)
    (htypes : f.typeNames = [queryType, responseType]) (hlacking : bs.lacking? = none)
    (hn : f.versions.length < DecimalDigit.limit) {k : Int}
    (hk : k ∈ ByNumber.numbers bs) (hlong : DecimalDigit.limit ≤ k.natAbs) :
    f.bindCall bs = .error .tooLarge := by
  have hmem : k ∈ ByNumber.numbers bs.queries := (numbers_map _ bs).symm ▸ hk
  rw [bindCall_eq hkind htypes hlacking, dispatcher_eq_tooLarge hn hmem hlong]
  rfl

/-- The dispatcher of a family tries the newest version first. -/
theorem decodeOrder_of_dispatcher {bindings : Bindings} {typeName : Option String} {D : Dispatcher}
    (h : f.dispatcher bindings typeName = .ok D) :
    D.decodeOrder = ((List.range' 1 f.latest.number).reverse).map Int.ofNat := by
  rw [(binds_of_dispatcher h).2.order, decodeOrder_eq, latest_number]

end Calls

/-! ## Wrappers -/

/-- A codec is made by the wrapper of a declared name. -/
inductive Codec.IsMadeBy : Codec → String → Prop
  | ofBinable (wrapped : Codec) (toBinable ofBinable : Conversion) :
      IsMadeBy (Codec.ofBinable wrapped toBinable ofBinable) "of_binable"
  | ofStringable (encoding : HostEncoding) (toText ofText : Conversion) :
      IsMadeBy (Codec.ofStringable encoding toText ofText) "of_stringable"

theorem Codec.IsMadeBy.adapter {codec : Codec} {name : String} (h : codec.IsMadeBy name) :
    name ∈ recognizedAdapters ∧ codec.adapter = some name := by
  cases h with
  | ofBinable => exact ⟨by decide, rfl⟩
  | ofStringable => exact ⟨by decide, rfl⟩

/-- Every recognized name is that of a wrapper. -/
theorem Codec.exists_isMadeBy {name : String} (h : name ∈ recognizedAdapters) :
    ∃ codec : Codec, codec.IsMadeBy name := by
  simp only [recognizedAdapters, List.mem_cons, List.not_mem_nil, or_false] at h
  rcases h with rfl | rfl
  · exact ⟨_, .ofBinable default .ok .ok⟩
  · exact ⟨_, .ofStringable (Encoding.hosted .utf8) .ok .ok⟩

/-! ## Built families -/

section Built

variable {u : CompilationUnit} {c : Config} {d : FamilyDeclaration} {f : Family}

/-- What is declared of a family is what one of the attributes stands for. -/
theorem mem_familyAttributes_of_declaration (hd : d ∈ u.familyDeclarations c) :
    ∃ name, (name, d.kind, d.strategy) ∈ familyAttributes := by
  obtain ⟨P, -, hP⟩ := mem_familyDeclarations.1 hd
  obtain ⟨⟨kind, strategy⟩, hattribute, rfl⟩ := Option.map_eq_some_iff.1 hP
  obtain ⟨name, -, hname⟩ := List.exists_of_findSome?_eq_some hattribute
  obtain ⟨before, after, hsplit, -⟩ := List.lookup_eq_some_iff.1 hname
  refine ⟨name, ?_⟩
  rw [hsplit]
  exact List.mem_append_right before List.mem_cons_self

/-- A binable version that is built declares a recognized wrapper. -/
theorem adapter_mem_of_build (hbuild : d.build c = .ok f) (hbinable : f.strategy = .binable)
    {v : SchemaVersion} (hv : v ∈ f.versions) : v.codec.adapter ∈ recognizedAdapters := by
  obtain ⟨hnumbered, hfindings, hparts⟩ := FamilyDeclaration.build_eq_ok_iff.1 hbuild
  have hsound := FamilyDeclaration.sound_iff.2 ⟨hnumbered, hfindings⟩
  rw [hparts] at hbinable hv
  obtain ⟨⟨number, m⟩, hm, rfl⟩ := List.mem_map.1 hv
  obtain ⟨codec, hcodec, hadapter⟩ :=
    hsound.codecs hbinable number m (FamilyDeclaration.mem_orderedVersions.1 hm)
  have hdeclared : (d.version c number m).codec = codec := by
    rw [FamilyDeclaration.version, hcodec]
    rfl
  rw [hdeclared]
  rcases hadapter with hadapter | ⟨hadapter, -⟩
  · simp [recognizedAdapters, hadapter]
  · simp [recognizedAdapters, hadapter]

end Built

/-- How a family with `n` versions is bound. -/
structure Family.BoundExactly (f : Family) (n : Nat) : Prop where
  /-- A remote call is bound exactly if the bindings are complete. -/
  called : f.kind = .rpc → ∀ bs : CallBindings, (∃ call, f.bindCall bs = .ok call) ↔ bs.Complete n
  /-- Any other binding of it is refused as such if its numbers can be told. -/
  refused : f.kind = .rpc → ∀ bs : CallBindings, f.TellsNumbers (ByNumber.numbers bs) →
    ∀ e, f.bindCall bs = .error e → ∃ subject fault, e = .binding subject fault
  /-- A bound number of too many digits cannot be told where all adapters are there. -/
  untold : f.kind = .rpc → n < DecimalDigit.limit → ∀ bs : CallBindings,
    bs.lacking? = none →
    (∃ k ∈ ByNumber.numbers bs, DecimalDigit.limit ≤ k.natAbs) →
    f.bindCall bs = .error .tooLarge
  /-- A bound call has the adapters of the latest version, and reads both messages newest first. -/
  latest : f.kind = .rpc → ∀ (bs : CallBindings) call, f.bindCall bs = .ok call →
    (∃ b, bs.lookup (n : Int) = some b ∧ call.adapters = b.adapters) ∧
      call.query.decodeOrder = ((List.range' 1 n).reverse).map Int.ofNat ∧
      call.response.decodeOrder = ((List.range' 1 n).reverse).map Int.ofNat
  /-- A version of a binable family declares a wrapper. -/
  wrapped : f.strategy = .binable → ∀ v ∈ f.versions,
    ∃ codec : Codec, codec.IsMadeBy v.codec.adapter
  /-- A binable family is bound to complete bindings with codecs made by the declared wrappers. -/
  bound : f.strategy = .binable → ∀ bs : Bindings, bs.Complete n →
    (∀ v ∈ f.versions, ∀ b, bs.lookup (v.number : Int) = some b →
      b.codec.IsMadeBy v.codec.adapter) → ∃ D, f.bind bs = .ok D

/-- An upgrade function of a message. -/
def messageUpgrade (message : String) : ValueDecl :=
  ⟨message ++ "_to_latest", [.ofPath message []], .ofPath "Latest" [message], [], none⟩

/-- A version of the call: its messages, the call-site adapters, and some upgrade functions. -/
def quoteVersion (name : String) (upgrades : List ValueDecl) : ModuleDecl :=
  { ModuleDecl.bare name [.bare "query", .bare "response"] [] with
    values := upgrades ++
      callAdapters.map fun adapter => ⟨adapter, [], .ofPath "model" [], [], none⟩ }

/-- The declaration of the call. -/
def quoteDeclaration : FamilyDeclaration where
  container := { ModuleDecl.bare "Stable" []
      [quoteVersion "V1" [messageUpgrade "query", messageUpgrade "response"], quoteVersion "V2" []]
      with attributes := ["versioned_rpc"] }
  parentPath := ["Get_quote"]
  kind := .rpc
  strategy := .plain
  functorArities := []
  inTest := false
  parentTypes := []

/-- A unit with the call. -/
def quoteUnit : CompilationUnit :=
  ⟨"ledger", [.bare "Get_quote" [] [quoteDeclaration.container]]⟩

/-- What is bound to a version: numbers in both messages, and some adapters. -/
def quoteBinding (upgrade : Option Conversion) (adapters : List String) : CallBinding where
  query := ⟨.structural .int true, upgrade⟩
  response := ⟨.structural .int true, upgrade⟩
  adapters := adapters.map fun name => (name, .ok)

/-- Bindings of both versions; the first one has some adapters. -/
def quoteBindings (adapters : List String) : CallBindings :=
  [(2, quoteBinding none callAdapters), (1, quoteBinding (some .ok) adapters)]

theorem complete_quoteBindings : (quoteBindings callAdapters).Complete 2 := by
  have hkeys (k : Int) :
      k ∈ ByNumber.numbers (quoteBindings callAdapters) ↔ 1 ≤ k ∧ k ≤ ((2 : Nat) : Int) := by
    show k ∈ [2, 1] ↔ 1 ≤ k ∧ k ≤ ((2 : Nat) : Int)
    simp only [List.mem_cons, List.not_mem_nil, or_false]
    omega
  refine ⟨hkeys, lacking?_eq_none_iff.1 (by decide), ?_, ?_⟩
  · intro b hb
    obtain rfl := Option.some.inj hb
    exact ⟨rfl, rfl⟩
  · intro k hk b hb
    have hmem : k ∈ ByNumber.numbers (quoteBindings callAdapters) := by
      rw [ByNumber.numbers, List.mem_map]
      obtain ⟨before, after, hsplit, -⟩ := List.lookup_eq_some_iff.1 hb
      exact ⟨(k, b), by simp [hsplit], rfl⟩
    have hlow := ((hkeys k).1 hmem).1
    obtain rfl : k = 1 := by omega
    obtain rfl := Option.some.inj hb
    exact ⟨rfl, rfl⟩

theorem exists_quote : ∃ f, quoteDeclaration ∈ quoteUnit.familyDeclarations .standard ∧
    quoteDeclaration.build .standard = .ok f ∧ f.kind = .rpc ∧
    f.typeNames = ["query", "response"] ∧ f.latest.number = 2 := by
  obtain ⟨f, hbuild⟩ := exists_build (d := quoteDeclaration) (c := .standard) (by cbv)
  refine ⟨f, List.mem_singleton_self _, hbuild, ?_, ?_, ?_⟩
  · rw [parts_of_build hbuild]
    rfl
  · rw [parts_of_build hbuild]
    rfl
  · rw [latest_number, ← highest_eq_length hbuild]
    cbv

end SchemaVersioning
