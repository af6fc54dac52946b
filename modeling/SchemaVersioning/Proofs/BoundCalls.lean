import SchemaVersioning.Proofs.BoundFamilies
import SchemaVersioning.RemoteCall

/-!
# Bound calls

What a remote call carries from one side to the other.  A message is decided by the newest version
whose codec takes it, and its upgraded value goes through the adapter of the receiving side.  A null
value does not: it is taken for an unknown message, and so the receiver's model of it is right only
if the adapter leaves null as it is (`bound_call_carries`).
-/

namespace SchemaVersioning

/-! ## Bindings of the two messages -/

/-- The bindings of the queries. -/
def CallBindings.queries (bs : CallBindings) : Bindings := bs.map fun (n, b) => (n, b.query)

/-- The bindings of the responses. -/
def CallBindings.responses (bs : CallBindings) : Bindings := bs.map fun (n, b) => (n, b.response)

theorem lookup_map {β γ : Type} (g : β → γ) (bs : ByNumber β) (k : Int) :
    (bs.map fun (n, b) => (n, g b)).lookup k = (bs.lookup k).map g := by
  induction bs with
  | nil => rfl
  | cons entry bs ih =>
    obtain ⟨n, b⟩ := entry
    by_cases hk : k = n
    · subst hk
      simp
    · simp only [List.map_cons, List.lookup_cons, beq_false_of_ne hk, ih]

/-! ## One way of a call -/

/-- The receiver's model of a value that was read: of null there is none. -/
def received (read : Conversion) : Value → Except Failure Value
  | .null => .ok .null
  | v => read v

theorem received_eq_iff (read : Conversion) (v : Value) :
    received read v = read v ↔ (v = .null → read .null = .ok .null) := by
  cases v <;> simp [received, eq_comm]

/-- One way of a call carries the models of the sender to those of the receiver: values are written
by `write` and the latest codec, and what the versions make of a message is read by `read`. -/
structure Carries (bs : Bindings) (latest : Codec) (write read : Conversion)
    (encode : Value → Except Failure Buffer) (decode : Buffer → Except Failure Value) : Prop where
  /-- A model is sent as what the latest codec makes of its conversion. -/
  sent : ∀ m, encode m = (write m).bind latest.encode
  /-- The receiver has the conversion of what was sent exactly if that is not null, or if null is
  left as it is. -/
  roundTrip : ∀ m q buffer, write m = .ok q → latest.encode q = .ok buffer →
    latest.decode buffer = .ok q → encode m = .ok buffer ∧
      (decode buffer = read q ↔ (q = .null → read .null = .ok .null))
  /-- The newest version that does not reject a message decides what is received. -/
  decided : ∀ k b buffer, bs.lookup k = some b → bs.RejectedAbove k buffer →
    ¬ b.codec.Rejects buffer → decode buffer
      = ((b.codec.decode buffer).bind (VersionDecoder.mk k b.codec b.upgrade).upgraded).bind
          (received read)
  /-- The upgraded value of a message that a version takes is converted exactly if it is not null,
  or if null is left as it is. -/
  converted : ∀ k b buffer v w, bs.lookup k = some b → bs.RejectedAbove k buffer →
    b.codec.decode buffer = .ok v →
    (VersionDecoder.mk k b.codec b.upgrade).upgraded v = .ok w →
      (decode buffer = read w ↔ (w = .null → read .null = .ok .null))
  /-- A message that every version rejects is unknown. -/
  unknown : ∀ buffer, (∀ k b, bs.lookup k = some b → b.codec.Rejects buffer) →
    decode buffer = .ok .null
  /-- Every message is unknown or decided. -/
  exhaustive : ∀ buffer, (∀ k b, bs.lookup k = some b → b.codec.Rejects buffer) ∨
    ∃ k b, bs.lookup k = some b ∧ bs.RejectedAbove k buffer ∧ ¬ b.codec.Rejects buffer

theorem decode_eq_iff {D : Dispatcher} {read : Conversion} {buffer : Buffer} {w : Value}
    (h : D.deserialize buffer = .ok w) :
    (D.deserialize buffer).bind (received read) = read w ↔ (w = .null → read .null = .ok .null) := by
  rw [h]
  exact received_eq_iff read w

/-- A dispatcher of a family carries the models of one side to the other. -/
theorem Dispatcher.Binds.carries {D : Dispatcher} {f : Family} {bs : Bindings}
    {latest : VersionBinding} (h : D.Binds f bs) (hfits : f.Fits bs)
    (hlatest : bs.lookup (f.versions.length : Int) = some latest) (write read : Conversion) :
    Carries bs latest.codec write read (fun m => (write m).bind D.serialize)
      (fun buffer => (D.deserialize buffer).bind (received read)) where
  sent m := by rw [← h.latestCodec latest hlatest]; rfl
  roundTrip m q buffer hwrite hencode hdecode := by
    obtain ⟨hserialize, hdeserialize, -⟩ :=
      (h.serves hfits).roundTrip latest hlatest q buffer hencode hdecode
    refine ⟨?_, decode_eq_iff hdeserialize⟩
    simp only [hwrite, Except.bind, hserialize]
  decided k b buffer hb hnewer haccept := by
    rw [Dispatcher.deserialize_of_decides (h.decides hfits hb hnewer haccept)]
  converted k b buffer v w hb hnewer hdecode hupgrade := by
    have hdecides := h.decides hfits hb hnewer (Codec.not_rejects_of_decode hdecode)
    have hdeserialize := Dispatcher.deserialize_of_decides hdecides
    rw [hdecode, Except.bind, hupgrade] at hdeserialize
    exact decode_eq_iff hdeserialize
  unknown buffer hall := by
    rw [Dispatcher.deserialize_of_rejectsAll ((h.rejectsAll_iff hfits).2 hall)]
    rfl
  exhaustive buffer := by
    refine (D.rejectsAll_or_decides buffer).imp (h.rejectsAll_iff hfits).1 ?_
    rintro ⟨d, hd⟩
    obtain ⟨b, hb⟩ := h.newest_of_decides hfits hd
    exact ⟨d.number, b, hb⟩

/-! ## Both ways -/

/-- No adapter is missing if all bindings have all of them. -/
theorem lacking?_eq_none_iff {bs : CallBindings} : bs.lacking? = none ↔
    ∀ k b, (k, b) ∈ bs → ∀ name ∈ callAdapters, (b.adapters.lookup name).isSome := by
  have hmissing (b : CallBinding) : b.missingAdapters = [] ↔
      ∀ name ∈ callAdapters, (b.adapters.lookup name).isSome := by
    simp [CallBinding.missingAdapters, List.filter_eq_nil_iff, Option.isSome_iff_ne_none]
  induction bs with
  | nil => simp [CallBindings.lacking?]
  | cons entry rest ih =>
    obtain ⟨number, b⟩ := entry
    rw [CallBindings.lacking?]
    by_cases hb : b.missingAdapters = []
    · simp only [hb]
      refine ih.trans ⟨fun hrest k b' hmem => ?_, fun hall k b' hmem => ?_⟩
      · rcases List.mem_cons.1 hmem with heq | hmem
        · obtain ⟨rfl, rfl⟩ := Prod.mk.inj heq
          exact (hmissing b').1 hb
        · exact hrest k b' hmem
      · exact hall k b' (List.mem_cons_of_mem _ hmem)
    · have hsome : ¬ ∀ name ∈ callAdapters, (b.adapters.lookup name).isSome :=
        fun hall => hb ((hmissing b).2 hall)
      split
      · next hnil => exact absurd hnil hb
      · simp only [reduceCtorEq, false_iff]
        intro hall
        exact hsome (hall number b List.mem_cons_self)

theorem adapter_of_lacking {bs : CallBindings} (h : bs.lacking? = none) {k : Int} {b : CallBinding}
    (hb : bs.lookup k = some b) {name : String} (hname : name ∈ callAdapters) :
    ∃ adapter, b.adapters.lookup name = some adapter := by
  obtain ⟨before, after, rfl, -⟩ := List.lookup_eq_some_iff.1 hb
  exact Option.isSome_iff_exists.1
    (lacking?_eq_none_iff.1 h k b (List.mem_append_right _ List.mem_cons_self) name hname)

theorem bind_eq_ok_iff {α β ε : Type} {x : Except ε α} {g : α → Except ε β} {b : β} :
    x.bind g = .ok b ↔ ∃ a, x = .ok a ∧ g a = .ok b := by
  cases x <;> simp [Except.bind]

/-- What a bound call is made of. -/
theorem parts_of_bindCall {f : Family} {bs : CallBindings} {call : RemoteCall}
    (h : f.bindCall bs = .ok call) :
    bs.lacking? = none ∧ ∃ queryType responseType latest,
      f.dispatcher bs.queries (some queryType) = .ok call.query ∧
      f.dispatcher bs.responses (some responseType) = .ok call.response ∧
      bs.lookup (f.versions.length : Int) = some latest ∧ latest.adapters = call.adapters := by
  unfold Family.bindCall at h
  by_cases hkind : f.kind = .rpc
  · rw [if_neg (not_not.2 hkind)] at h
    cases hlacking : bs.lacking? with
    | some fault => simp [hlacking] at h
    | none =>
      rw [hlacking] at h
      obtain ⟨types, -, h⟩ := bind_eq_ok_iff.1 h
      obtain ⟨query, hquery, h⟩ := bind_eq_ok_iff.1 h
      obtain ⟨response, hresponse, h⟩ := bind_eq_ok_iff.1 h
      rw [latest_number] at h
      cases hlatest : bs.lookup (f.versions.length : Int) with
      | none => simp [hlatest] at h
      | some latest =>
        rw [hlatest] at h
        cases h
        exact ⟨rfl, types.1, types.2, latest, hquery, hresponse, rfl, rfl⟩
  · rw [if_pos hkind] at h
    cases h

/-- A bound call has the adapters of the latest version, and carries the models of the caller to the
callee and those of the callee to the caller. -/
theorem bound_call_carries {f : Family} {bs : CallBindings} {call : RemoteCall}
    (h : f.bindCall bs = .ok call) :
    ∃ latest queryOfCaller calleeOfQuery responseOfCallee callerOfResponse,
      bs.lookup (f.versions.length : Int) = some latest ∧
      latest.adapters.lookup "query_of_caller_model" = some queryOfCaller ∧
      latest.adapters.lookup "callee_model_of_query" = some calleeOfQuery ∧
      latest.adapters.lookup "response_of_callee_model" = some responseOfCallee ∧
      latest.adapters.lookup "caller_model_of_response" = some callerOfResponse ∧
      Carries bs.queries latest.query.codec queryOfCaller calleeOfQuery
        call.encodeQuery call.decodeQuery ∧
      Carries bs.responses latest.response.codec responseOfCallee callerOfResponse
        call.encodeResponse call.decodeResponse := by
  obtain ⟨hlacking, queryType, responseType, latest, hquery, hresponse, hlatest, hadapters⟩ :=
    parts_of_bindCall h
  have hadapter : ∀ name ∈ callAdapters, ∃ adapter, latest.adapters.lookup name = some adapter ∧
      call.adapt name = adapter ∧ call.adaptKnown name = received adapter := by
    intro name hname
    obtain ⟨adapter, hadapter⟩ := adapter_of_lacking hlacking hlatest hname
    have hadapt : call.adapt name = adapter := by
      funext v
      rw [RemoteCall.adapt, ← hadapters, hadapter]
    refine ⟨adapter, hadapter, hadapt, funext fun v => ?_⟩
    rw [← hadapt]
    cases v <;> rfl
  obtain ⟨queryOfCaller, hfind₁, hadapt₁, -⟩ := hadapter "query_of_caller_model" (by decide)
  obtain ⟨calleeOfQuery, hfind₂, -, hadapt₂⟩ := hadapter "callee_model_of_query" (by decide)
  obtain ⟨responseOfCallee, hfind₃, hadapt₃, -⟩ := hadapter "response_of_callee_model" (by decide)
  obtain ⟨callerOfResponse, hfind₄, -, hadapt₄⟩ := hadapter "caller_model_of_response" (by decide)
  obtain ⟨hfitsQuery, hbindsQuery⟩ := binds_of_dispatcher hquery
  obtain ⟨hfitsResponse, hbindsResponse⟩ := binds_of_dispatcher hresponse
  have hlatestQuery : bs.queries.lookup (f.versions.length : Int) = some latest.query := by
    rw [CallBindings.queries, lookup_map, hlatest]
    rfl
  have hlatestResponse : bs.responses.lookup (f.versions.length : Int) = some latest.response := by
    rw [CallBindings.responses, lookup_map, hlatest]
    rfl
  refine ⟨latest, queryOfCaller, calleeOfQuery, responseOfCallee, callerOfResponse, hlatest, hfind₁,
    hfind₂, hfind₃, hfind₄, ?_, ?_⟩
  · have hencode : call.encodeQuery = fun m => (queryOfCaller m).bind call.query.serialize := by
      rw [← hadapt₁]
      rfl
    have hdecode : call.decodeQuery
        = fun buffer => (call.query.deserialize buffer).bind (received calleeOfQuery) := by
      rw [← hadapt₂]
      rfl
    rw [hencode, hdecode]
    exact hbindsQuery.carries hfitsQuery hlatestQuery _ _
  · have hencode : call.encodeResponse
        = fun m => (responseOfCallee m).bind call.response.serialize := by
      rw [← hadapt₃]
      rfl
    have hdecode : call.decodeResponse
        = fun buffer => (call.response.deserialize buffer).bind (received callerOfResponse) := by
      rw [← hadapt₄]
      rfl
    rw [hencode, hdecode]
    exact hbindsResponse.carries hfitsResponse hlatestResponse _ _

/-! ## A query that may be null -/

/-- The call that asks for a balance, in one version. -/
def balanceFamily : Family where
  name := "Get_balance"
  containerPath := ["Get_balance", "Stable"]
  kind := .rpc
  strategy := .plain
  typeNames := ["query", "response"]
  versions := [{
    number := 1
    modulePath := ["Get_balance", "Stable", "V1"]
    types := [.bare "query", .bare "response"]
    codec := ⟨"derived", none, none⟩
    upgrades := []
    adapters := []
    location := none }]
  testObligation := none
  functorArities := []
  inTest := false
  location := none
  nonempty := List.cons_ne_nil _ _
  numbered := rfl
  tested := fun h => nomatch h

/-- Queries are numbers or null. -/
def balanceQuery : Codec := .structural (.optional .int) true

def balanceBindings (calleeOfQuery : Conversion) : CallBindings :=
  [(1, { query := ⟨balanceQuery, none⟩
         response := ⟨.structural .int true, none⟩
         adapters := [("query_of_caller_model", .ok), ("callee_model_of_query", calleeOfQuery),
           ("response_of_callee_model", .ok), ("caller_model_of_response", .ok)] })]

/-- A query that is not null reaches the callee, here increased by one. -/
theorem bound_call_carries_balance :
    ∃ call, balanceFamily.bindCall (balanceBindings (Step.run (.add 1))) = .ok call ∧
      call.encodeQuery (.int 7) = .ok [55] ∧ call.decodeQuery [55] = .ok (.int 8) := by
  obtain ⟨call, hcall⟩ :
      ∃ call, balanceFamily.bindCall (balanceBindings (Step.run (.add 1))) = .ok call := ⟨_, rfl⟩
  obtain ⟨latest, queryOfCaller, calleeOfQuery, -, -, hlatest, hwrite, hread, -, -, hquery, -⟩ :=
    bound_call_carries hcall
  obtain rfl := Option.some.inj hlatest
  obtain rfl := Option.some.inj hwrite
  obtain rfl := Option.some.inj hread
  have hencode : balanceQuery.encode (.int 7) = .ok [55] := by
    with_unfolding_all rfl
  have hdecode : balanceQuery.decode [55] = .ok (.int 7) := by
    with_unfolding_all rfl
  obtain ⟨hsent, hreceived⟩ := hquery.roundTrip (.int 7) (.int 7) [55] rfl hencode hdecode
  exact ⟨call, hcall, hsent, hreceived.2 (fun h => nomatch h)⟩

/-- A callee for which every query is the same. -/
def asked : Conversion := Step.run (.constant (.text "asked"))

/-- A null query, which the latest codec reads back, is taken for an unknown one: the adapter of the
callee, which would give a model of it, does not see it. -/
theorem null_query_misses_adapter :
    ∃ call, balanceFamily.bindCall (balanceBindings asked) = .ok call ∧
      balanceQuery.decode [110, 117, 108, 108] = .ok .null ∧
      call.encodeQuery .null = .ok [110, 117, 108, 108] ∧
      call.decodeQuery [110, 117, 108, 108] ≠ asked .null := by
  obtain ⟨call, hcall, hencode, hdecode⟩ : ∃ call,
      balanceFamily.bindCall (balanceBindings asked) = .ok call ∧
        call.encodeQuery .null = .ok [110, 117, 108, 108] ∧
        call.decodeQuery [110, 117, 108, 108] = .ok .null :=
    ⟨_, rfl, by with_unfolding_all rfl, by with_unfolding_all rfl⟩
  refine ⟨call, hcall, by with_unfolding_all rfl, hencode, fun h => ?_⟩
  cases hdecode.symm.trans h

end SchemaVersioning
