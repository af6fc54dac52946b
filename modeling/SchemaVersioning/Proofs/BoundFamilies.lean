import Mathlib.Data.List.Forall2
import SchemaVersioning.Binding
import SchemaVersioning.Codec.Step
import SchemaVersioning.Family.Synthesis
import SchemaVersioning.Proofs.Dispatching
import SchemaVersioning.Proofs.Numbering
import SchemaVersioning.Proofs.Places

/-!
# Bound families

When bindings fit a family, and what the dispatcher does that they give.  Each check of the binding
finds nothing exactly when its condition holds, so a family that is no remote call is bound exactly
when its bindings fit (`bind_serves_exactly_fitting`).  The dispatcher holds one decoder for each
version, newest first, and so a buffer is read by the newest version that takes it.  Bindings that
do not fit are refused as such, unless the refusal would tell a number of too many digits.
-/

namespace SchemaVersioning

/-- The bindings fit the family: each version has one and nothing else has, every version but the
latest has an upgrade, and the codecs of a binable family are wrappers as declared. -/
structure Family.Fits (f : Family) (bs : Bindings) : Prop where
  keys : ∀ k, k ∈ ByNumber.numbers bs ↔ 1 ≤ k ∧ k ≤ (f.versions.length : Int)
  latest : ∀ b, bs.lookup (f.versions.length : Int) = some b → b.upgrade = none
  older : ∀ k < (f.versions.length : Int), ∀ b, bs.lookup k = some b → b.upgrade.isSome
  adapters : f.strategy = .binable → ∀ v ∈ f.versions, ∀ b, bs.lookup (v.number : Int) = some b →
    v.codec.adapter ∈ recognizedAdapters ∧ b.codec.adapter = some v.codec.adapter

/-- A dispatcher of a family over some bindings: it holds the codec and the upgrade bound to each
version, newest first, and writes with the codec of the latest one. -/
structure Dispatcher.Binds (D : Dispatcher) (f : Family) (bs : Bindings) : Prop where
  order : D.decodeOrder = f.decodeOrder.map Int.ofNat
  decoders : ∀ d ∈ D.decoders, ∃ b, bs.lookup d.number = some b ∧ d.codec = b.codec ∧
    d.upgrade = b.upgrade
  latestCodec : ∀ b, bs.lookup (f.versions.length : Int) = some b → D.latestCodec = b.codec

/-! ## Checks -/

section Checks

variable {f : Family} {bs : Bindings}

theorem mem_versionNumbers {k : Int} :
    k ∈ f.versionNumbers ↔ 1 ≤ k ∧ k ≤ (f.versions.length : Int) := by
  rw [Family.versionNumbers, List.mem_map]
  constructor
  · rintro ⟨v, hv, rfl⟩
    have := number_bounds hv
    omega
  · rintro ⟨hlow, hhigh⟩
    obtain ⟨v, hv, hnumber⟩ := (exists_number_iff (f := f) (k := k.toNat)).2 (by omega)
    exact ⟨v, hv, by omega⟩

theorem mismatch?_eq_none_iff {bound : List Int} :
    f.mismatch? bound = none ↔ ∀ k, k ∈ bound ↔ 1 ≤ k ∧ k ≤ (f.versions.length : Int) := by
  simp only [← mem_versionNumbers]
  unfold Family.mismatch?
  simp only [ite_eq_left_iff, Bool.and_eq_true, List.isEmpty_iff, List.filter_eq_nil_iff,
    reduceCtorEq, imp_false, not_not, Bool.not_eq_true', Bool.not_eq_false, List.contains_iff_mem]
  exact ⟨fun ⟨hmissing, hextra⟩ k => ⟨hextra k, hmissing k⟩,
    fun h => ⟨fun k => (h k).2, fun k => (h k).1⟩⟩

theorem bindingFault?_eq_none_iff {v : SchemaVersion} {b : VersionBinding} :
    f.bindingFault? v b = none ↔
      (v.number = f.versions.length → b.upgrade = none) ∧
      (v.number ≠ f.versions.length → b.upgrade.isSome) ∧
      (f.strategy = .binable →
        v.codec.adapter ∈ recognizedAdapters ∧ b.codec.adapter = some v.codec.adapter) := by
  unfold Family.bindingFault?
  rw [latest_number]
  by_cases hlatest : v.number = f.versions.length <;> cases hupgrade : b.upgrade <;>
    simp [hlatest]

theorem exists_lookup_iff {k : Int} :
    (∃ b, bs.lookup k = some b) ↔ k ∈ ByNumber.numbers bs := by
  rw [← Option.isSome_iff_exists, List.lookup_isSome_iff, ByNumber.numbers, List.mem_map]
  exact exists_congr fun p => and_congr_right fun _ => by rw [beq_iff_eq, eq_comm]

theorem decoderOf_eq_ok_iff {v : SchemaVersion} {d : VersionDecoder} :
    f.decoderOf bs v = .ok d ↔ ∃ b, bs.lookup (v.number : Int) = some b ∧
      f.bindingFault? v b = none ∧ ⟨v.number, b.codec, b.upgrade⟩ = d := by
  unfold Family.decoderOf
  cases bs.lookup (v.number : Int) with
  | none => simp
  | some b => cases hfault : f.bindingFault? v b <;> simp [hfault]

theorem mapM_eq_ok_iff {α β ε : Type} {g : α → Except ε β} {as : List α} {ds : List β} :
    as.mapM g = .ok ds ↔ List.Forall₂ (fun a d => g a = .ok d) as ds := by
  induction as generalizing ds with
  | nil => simp [pure, Except.pure, eq_comm]
  | cons a as ih =>
    rw [List.mapM_cons, List.forall₂_cons_left_iff]
    cases ha : g a with
    | error e => simp [bind, Except.bind]
    | ok d =>
      cases has : as.mapM g with
      | error e => simp [bind, Except.bind, ← ih, has]
      | ok rest => simp [bind, Except.bind, pure, Except.pure, ← ih, has, eq_comm]

theorem exists_of_mapM_eq_error {α β ε : Type} {g : α → Except ε β} {as : List α} {e : ε}
    (h : as.mapM g = .error e) : ∃ a ∈ as, g a = .error e := by
  induction as with
  | nil => cases h
  | cons a as ih =>
    rw [List.mapM_cons] at h
    cases ha : g a with
    | error e' =>
      rw [ha] at h
      obtain rfl := Except.error.inj h
      exact ⟨a, List.mem_cons_self, ha⟩
    | ok b =>
      cases has : as.mapM g with
      | error e' =>
        rw [ha, has] at h
        obtain rfl := Except.error.inj h
        obtain ⟨a', ha', hg⟩ := ih has
        exact ⟨a', List.mem_cons_of_mem _ ha', hg⟩
      | ok bs =>
        rw [ha, has] at h
        cases h

theorem decoders_eq_ok_iff {ds : List VersionDecoder} : f.decoders bs = .ok ds ↔
    (∀ k, k ∈ ByNumber.numbers bs ↔ 1 ≤ k ∧ k ≤ (f.versions.length : Int)) ∧
      List.Forall₂ (fun v d => f.decoderOf bs v = .ok d) f.versions ds := by
  rw [← mismatch?_eq_none_iff, ← mapM_eq_ok_iff, Family.decoders]
  cases f.mismatch? (ByNumber.numbers bs) <;> simp

/-- Bindings fit when their numbers are those of the versions and each gives a decoder. -/
theorem fits_iff : f.Fits bs ↔
    (∀ k, k ∈ ByNumber.numbers bs ↔ 1 ≤ k ∧ k ≤ (f.versions.length : Int)) ∧
      ∀ v ∈ f.versions, ∃ d, f.decoderOf bs v = .ok d := by
  constructor
  · intro h
    refine ⟨h.keys, fun v hv => ?_⟩
    have hbounds := number_bounds hv
    obtain ⟨b, hb⟩ := exists_lookup_iff.2 ((h.keys (v.number : Int)).2 (by omega))
    refine ⟨_, decoderOf_eq_ok_iff.2 ⟨b, hb, bindingFault?_eq_none_iff.2 ⟨?_, ?_, ?_⟩, rfl⟩⟩
    · intro hnumber
      exact h.latest b (hnumber ▸ hb)
    · intro hnumber
      exact h.older v.number (by omega) b hb
    · exact fun hbinable => h.adapters hbinable v hv b hb
  · rintro ⟨hkeys, hdecoders⟩
    have hfault : ∀ v ∈ f.versions, ∀ b, bs.lookup (v.number : Int) = some b →
        f.bindingFault? v b = none := by
      intro v hv b hb
      obtain ⟨d, hd⟩ := hdecoders v hv
      obtain ⟨b', hb', hfault, -⟩ := decoderOf_eq_ok_iff.1 hd
      rwa [Option.some.inj (hb.symm.trans hb')]
    refine ⟨hkeys, fun b hb => ?_, fun k hk b hb => ?_, fun hbinable v hv b hb => ?_⟩
    · have hlatest : bs.lookup (f.latest.number : Int) = some b := by rwa [latest_number]
      exact (bindingFault?_eq_none_iff.1 (hfault _ (latest_mem f) b hlatest)).1 (latest_number f)
    · have hmem := (hkeys k).1 (exists_lookup_iff.1 ⟨b, hb⟩)
      obtain ⟨v, hv, hnumber⟩ := (exists_number_iff (f := f) (k := k.toNat)).2 (by omega)
      obtain rfl : (v.number : Int) = k := by omega
      exact (bindingFault?_eq_none_iff.1 (hfault v hv b hb)).2.1 (by omega)
    · exact (bindingFault?_eq_none_iff.1 (hfault v hv b hb)).2.2 hbinable

end Checks

/-! ## Told numbers -/

section Numbers

variable {f : Family} {bs : Bindings} {fault : BindingFault} {k : Int}

/-- A bound number, or that of a version. -/
def Family.Knows (f : Family) (bound : List Int) (k : Int) : Prop :=
  k ∈ bound ∨ 1 ≤ k ∧ k ≤ (f.versions.length : Int)

theorem mem_ascending {ks : List Int} : k ∈ ascending ks ↔ k ∈ ks :=
  (List.mergeSort_perm ks _).mem_iff

theorem mem_numbers_of_mismatch? {bound : List Int} (h : f.mismatch? bound = some fault) :
    k ∈ fault.numbers ↔
      k ∈ f.versionNumbers ∧ k ∉ bound ∨ k ∈ bound ∧ k ∉ f.versionNumbers := by
  simp only [Family.mismatch?] at h
  split at h
  · cases h
  · obtain rfl := Option.some.inj h
    simp [BindingFault.numbers, mem_ascending]

/-- What is wrong with the binding of a version tells no numbers but its own and the latest one. -/
theorem mem_numbers_of_bindingFault? {v : SchemaVersion} {b : VersionBinding}
    (h : f.bindingFault? v b = some fault) (hk : k ∈ fault.numbers) :
    k = v.number ∨ k = f.latest.number := by
  simp only [Family.bindingFault?] at h
  split at h
  · obtain rfl := Option.some.inj h
    exact Or.inr (List.mem_singleton.1 hk)
  · split at h
    · obtain rfl := Option.some.inj h
      simpa [BindingFault.numbers] using hk
    · split at h
      · obtain rfl := Option.some.inj h
        exact Or.inl (List.mem_singleton.1 hk)
      · cases h

theorem knows_of_decoders (h : f.decoders bs = .error fault) (hk : k ∈ fault.numbers) :
    f.Knows (ByNumber.numbers bs) k := by
  unfold Family.decoders at h
  cases hmismatch : f.mismatch? (ByNumber.numbers bs) with
  | some fault' =>
    rw [hmismatch] at h
    obtain rfl := Except.error.inj h
    rcases (mem_numbers_of_mismatch? hmismatch).1 hk with ⟨hversion, -⟩ | ⟨hbound, -⟩
    · exact Or.inr (mem_versionNumbers.1 hversion)
    · exact Or.inl hbound
  | none =>
    rw [hmismatch] at h
    obtain ⟨v, hv, hdecoder⟩ := exists_of_mapM_eq_error h
    unfold Family.decoderOf at hdecoder
    split at hdecoder
    · obtain rfl := Except.error.inj hdecoder
      obtain rfl := List.mem_singleton.1 hk
      have := number_bounds hv
      exact Or.inr (by omega)
    · split at hdecoder
      · next hfault =>
        obtain rfl := Except.error.inj hdecoder
        have hnumber := number_bounds hv
        have hlatest := latest_number f
        rcases mem_numbers_of_bindingFault? hfault hk with rfl | rfl
        · exact Or.inr (by omega)
        · exact Or.inr (by omega)
      · cases hdecoder

/-- A refusal whose numbers can be told. -/
theorem ofBinding_eq_binding {family : String}
    (h : ∀ k ∈ fault.numbers, k.natAbs < DecimalDigit.limit) :
    Failure.ofBinding family fault = .binding family fault :=
  if_pos (List.all_eq_true.2 fun k hk => DecimalDigit.isShort_iff.2 (h k hk))

theorem ofBinding_eq_tooLarge {family : String} (hk : k ∈ fault.numbers)
    (hlong : DecimalDigit.limit ≤ k.natAbs) :
    Failure.ofBinding family fault = .tooLarge := by
  refine if_neg fun hall => ?_
  have := DecimalDigit.isShort_iff.1 (List.all_eq_true.1 hall k hk)
  omega

end Numbers

/-- The numbers of the versions and the bound numbers have no more than 4300 digits. -/
structure Family.TellsNumbers (f : Family) (bound : List Int) : Prop where
  versions : f.versions.length < DecimalDigit.limit
  bound : ∀ k ∈ bound, k.natAbs < DecimalDigit.limit

theorem Family.TellsNumbers.lt {f : Family} {bound : List Int} (h : f.TellsNumbers bound) {k : Int}
    (hk : f.Knows bound k) : k.natAbs < DecimalDigit.limit := by
  rcases hk with hbound | hversion
  · exact h.bound k hbound
  · have := h.versions
    omega

/-! ## Dispatchers of a family -/

section Dispatchers

variable {f : Family} {bs : Bindings} {typeName : Option String} {D : Dispatcher}

theorem number_of_decoderOf {v : SchemaVersion} {d : VersionDecoder}
    (h : f.decoderOf bs v = .ok d) : d.number = v.number := by
  obtain ⟨b, -, -, rfl⟩ := decoderOf_eq_ok_iff.1 h
  rfl

theorem map_number_of_forall₂ {vs : List SchemaVersion} {ds : List VersionDecoder}
    (h : List.Forall₂ (fun v d => f.decoderOf bs v = .ok d) vs ds) :
    ds.map (·.number) = (vs.map (·.number)).map Int.ofNat := by
  induction h with
  | nil => rfl
  | cons hd _ ih => rw [List.map_cons, List.map_cons, List.map_cons, ih, number_of_decoderOf hd]; rfl

theorem exists_of_forall₂ {α β : Type} {R : α → β → Prop} {as : List α} {bs : List β}
    (h : List.Forall₂ R as bs) : (∀ a ∈ as, ∃ b ∈ bs, R a b) ∧ ∀ b ∈ bs, ∃ a ∈ as, R a b := by
  induction h with
  | nil => simp
  | cons hab _ ih =>
    refine ⟨List.forall_mem_cons.2 ⟨⟨_, List.mem_cons_self, hab⟩, fun a ha => ?_⟩,
      List.forall_mem_cons.2 ⟨⟨_, List.mem_cons_self, hab⟩, fun b hb => ?_⟩⟩
    · obtain ⟨b, hb, hr⟩ := ih.1 a ha
      exact ⟨b, List.mem_cons_of_mem _ hb, hr⟩
    · obtain ⟨a, ha, hr⟩ := ih.2 b hb
      exact ⟨a, List.mem_cons_of_mem _ ha, hr⟩

/-- The dispatcher over the decoders of all versions. -/
theorem dispatcher_of_decoders (typeName : Option String) {ds : List VersionDecoder}
    (h : f.decoders bs = .ok ds) :
    ∃ last hne, ds.getLast? = some last ∧ last.number = (f.versions.length : Int) ∧
      f.dispatcher bs typeName = .ok ⟨f.subject typeName, last.codec, ds.reverse, hne⟩ := by
  obtain ⟨-, hforall⟩ := decoders_eq_ok_iff.1 h
  have hlast : (ds.map (·.number)).getLast? = some (f.latest.number : Int) := by
    rw [map_number_of_forall₂ hforall, List.getLast?_map, List.getLast?_map,
      List.getLast?_eq_some_getLast f.nonempty]
    rfl
  rw [List.getLast?_map, latest_number] at hlast
  obtain ⟨last, hds, hnumber⟩ := Option.map_eq_some_iff.1 hlast
  have hne : ds.reverse ≠ [] := by
    rintro hnil
    rw [List.reverse_eq_nil_iff.1 hnil] at hds
    cases hds
  refine ⟨last, hne, hds, hnumber, ?_⟩
  simp only [Family.dispatcher, h, hds, Dispatcher.ofDecoders, dif_neg hne]

/-- A family has a dispatcher over the bindings that fit it. -/
theorem exists_dispatcher (h : f.Fits bs) (typeName : Option String) :
    ∃ D, f.dispatcher bs typeName = .ok D := by
  obtain ⟨hkeys, hdecoders⟩ := fits_iff.1 h
  have hmapM : ∃ ds, List.Forall₂ (fun v d => f.decoderOf bs v = .ok d) f.versions ds := by
    have : Nonempty VersionDecoder := (hdecoders _ (latest_mem f)).nonempty
    choose! g hg using hdecoders
    exact ⟨f.versions.map g, List.forall₂_map_right_iff.2 (List.forall₂_same.2 hg)⟩
  obtain ⟨ds, hds⟩ := hmapM
  obtain ⟨last, hne, -, -, hD⟩ := dispatcher_of_decoders typeName (decoders_eq_ok_iff.2 ⟨hkeys, hds⟩)
  exact ⟨_, hD⟩

/-- A dispatcher of a family is one over bindings that fit. -/
theorem binds_of_dispatcher (h : f.dispatcher bs typeName = .ok D) : f.Fits bs ∧ D.Binds f bs := by
  cases hds : f.decoders bs with
  | error fault =>
    rw [Family.dispatcher, hds] at h
    cases h
  | ok ds =>
    obtain ⟨last, hne, hlast, hnumber, hD⟩ := dispatcher_of_decoders typeName hds
    obtain rfl := Except.ok.inj (hD.symm.trans h)
    obtain ⟨hkeys, hforall⟩ := decoders_eq_ok_iff.1 hds
    obtain ⟨hversions, hmembers⟩ := exists_of_forall₂ hforall
    have hbound : ∀ d ∈ ds, ∃ b, bs.lookup d.number = some b ∧ d.codec = b.codec ∧
        d.upgrade = b.upgrade := by
      intro d hd
      obtain ⟨v, -, hv⟩ := hmembers d hd
      obtain ⟨b, hb, -, rfl⟩ := decoderOf_eq_ok_iff.1 hv
      exact ⟨b, hb, rfl, rfl⟩
    refine ⟨fits_iff.2 ⟨hkeys, fun v hv => ?_⟩, ?_, ?_, ?_⟩
    · obtain ⟨d, -, hd⟩ := hversions v hv
      exact ⟨d, hd⟩
    · rw [Dispatcher.decodeOrder, List.map_reverse, map_number_of_forall₂ hforall,
        Family.decodeOrder, List.map_reverse]
    · exact fun d hd => hbound d (List.mem_reverse.1 hd)
    · intro b hb
      obtain ⟨b', hb', hcodec, -⟩ := hbound last (List.mem_of_getLast? hlast)
      rw [hnumber, hb] at hb'
      rw [hcodec, Option.some.inj hb']

/-- Where no dispatcher is given, the bindings are at fault. -/
theorem fault_of_dispatcher {e : Failure} (h : f.dispatcher bs typeName = .error e) :
    ∃ fault, f.decoders bs = .error fault ∧ e = .ofBinding (f.subject typeName) fault := by
  cases hds : f.decoders bs with
  | error fault =>
    rw [Family.dispatcher, hds] at h
    exact ⟨fault, rfl, (Except.error.inj h).symm⟩
  | ok ds =>
    obtain ⟨last, hne, -, -, hD⟩ := dispatcher_of_decoders typeName hds
    cases hD.symm.trans h

/-- Where all numbers can be told, the refusal says so. -/
theorem binding_of_dispatcher (ht : f.TellsNumbers (ByNumber.numbers bs)) {e : Failure}
    (h : f.dispatcher bs typeName = .error e) :
    ∃ fault, e = .binding (f.subject typeName) fault := by
  obtain ⟨fault, hds, rfl⟩ := fault_of_dispatcher h
  exact ⟨fault, ofBinding_eq_binding fun k hk => ht.lt (knows_of_decoders hds hk)⟩

/-- A bound number of too many digits is that of no version, and cannot be told. -/
theorem dispatcher_eq_tooLarge (hn : f.versions.length < DecimalDigit.limit) {k : Int}
    (hk : k ∈ ByNumber.numbers bs) (hlong : DecimalDigit.limit ≤ k.natAbs) :
    f.dispatcher bs typeName = .error .tooLarge := by
  have hextra : k ∉ f.versionNumbers := fun hmem => by
    have := mem_versionNumbers.1 hmem
    omega
  cases hmismatch : f.mismatch? (ByNumber.numbers bs) with
  | none => exact absurd (mem_versionNumbers.2 ((mismatch?_eq_none_iff.1 hmismatch k).1 hk)) hextra
  | some fault =>
    have htold : k ∈ fault.numbers := (mem_numbers_of_mismatch? hmismatch).2 (Or.inr ⟨hk, hextra⟩)
    rw [Family.dispatcher, Family.decoders, hmismatch, ← ofBinding_eq_tooLarge htold hlong]

end Dispatchers

/-! ## Buffers -/

/-- The codecs bound to the versions above a number all reject the buffer. -/
def Bindings.RejectedAbove (bs : Bindings) (k : Int) (buffer : Buffer) : Prop :=
  ∀ j b, k < j → bs.lookup j = some b → b.codec.Rejects buffer

namespace Dispatcher.Binds

variable {f : Family} {bs : Bindings} {D : Dispatcher} {k : Int} {b : VersionBinding}
  {buffer : Buffer} {v : Value}

/-- Newer decoders come first. -/
theorem pairwise (h : D.Binds f bs) : D.decoders.Pairwise fun d e => e.number < d.number := by
  have horder : D.decodeOrder.Pairwise fun m n => n < m := by
    rw [h.order, List.pairwise_map]
    exact (pairwise_decodeOrder f).imp fun hlt => Int.ofNat_lt.2 hlt
  exact List.pairwise_map.1 horder

/-- Each version has its decoder. -/
theorem mem_decoders (h : D.Binds f bs) (hfits : f.Fits bs) (hb : bs.lookup k = some b) :
    (⟨k, b.codec, b.upgrade⟩ : VersionDecoder) ∈ D.decoders := by
  have hbounds := (hfits.keys k).1 (exists_lookup_iff.1 ⟨b, hb⟩)
  have hmem : k ∈ D.decodeOrder := by
    rw [h.order, decodeOrder_eq, List.mem_map]
    exact ⟨k.toNat, by rw [List.mem_reverse, List.mem_range'_1]; omega,
      Int.toNat_of_nonneg (by omega)⟩
  obtain ⟨d, hd, rfl⟩ := List.mem_map.1 hmem
  obtain ⟨b', hb', hcodec, hupgrade⟩ := h.decoders d hd
  obtain rfl := Option.some.inj (hb.symm.trans hb')
  rw [← hcodec, ← hupgrade]
  exact hd

/-- The newest version that does not reject a buffer decides about it. -/
theorem decides (h : D.Binds f bs) (hfits : f.Fits bs) (hb : bs.lookup k = some b)
    (hnewer : bs.RejectedAbove k buffer) (haccept : ¬ b.codec.Rejects buffer) :
    D.Decides buffer ⟨k, b.codec, b.upgrade⟩ := by
  obtain ⟨before, after, hsplit⟩ := List.append_of_mem (h.mem_decoders hfits hb)
  have hpairwise := h.pairwise
  rw [hsplit, List.pairwise_append] at hpairwise
  refine ⟨before, after, hsplit, fun e he => ?_, haccept⟩
  obtain ⟨b', hb', hcodec, -⟩ := h.decoders e (by simp [hsplit, he])
  rw [hcodec]
  exact hnewer e.number b' (hpairwise.2.2 e he _ List.mem_cons_self) hb'

/-- A decoder that decides about a buffer is that of the newest version that does not reject it. -/
theorem newest_of_decides (h : D.Binds f bs) (hfits : f.Fits bs) {d : VersionDecoder}
    (hd : D.Decides buffer d) :
    ∃ b, bs.lookup d.number = some b ∧ bs.RejectedAbove d.number buffer ∧
      ¬ b.codec.Rejects buffer := by
  obtain ⟨before, after, hsplit, hbefore, haccept⟩ := hd
  obtain ⟨b, hb, hcodec, -⟩ := h.decoders d (by simp [hsplit])
  refine ⟨b, hb, fun j b' hlt hb' => ?_, hcodec ▸ haccept⟩
  have hmem := h.mem_decoders hfits hb'
  have hpairwise := h.pairwise
  rw [hsplit, List.pairwise_append, List.pairwise_cons] at hpairwise
  rw [hsplit, List.mem_append, List.mem_cons] at hmem
  obtain hmem | rfl | hmem := hmem
  · exact hbefore _ hmem
  · exact absurd hlt (Int.lt_irrefl _)
  · exact absurd (hpairwise.2.1.1 _ hmem) (Int.lt_asymm hlt)

theorem rejectsAll_iff (h : D.Binds f bs) (hfits : f.Fits bs) :
    D.RejectsAll buffer ↔ ∀ k b, bs.lookup k = some b → b.codec.Rejects buffer := by
  constructor
  · intro hall k b hb
    exact hall _ (h.mem_decoders hfits hb)
  · intro hall d hd
    obtain ⟨b, hb, hcodec, -⟩ := h.decoders d hd
    rw [hcodec]
    exact hall _ _ hb

/-- A buffer that the codec of a version takes and those above it reject is read as of that version,
and its value is upgraded once. -/
theorem deserializeWithVersion_eq (h : D.Binds f bs) (hfits : f.Fits bs)
    (hb : bs.lookup k = some b) (hnewer : bs.RejectedAbove k buffer)
    (hdecode : b.codec.decode buffer = .ok v) :
    D.deserializeWithVersion buffer
      = ((⟨k, b.codec, b.upgrade⟩ : VersionDecoder).upgraded v).map fun w => some (k, w) := by
  have hdecides := h.decides hfits hb hnewer (Codec.not_rejects_of_decode hdecode)
  rw [deserializeWithVersion_of_decides hdecides, VersionDecoder.reading_of_decode hdecode]
  cases (⟨k, b.codec, b.upgrade⟩ : VersionDecoder).upgraded v <;> rfl

/-- No version is newer than the latest one. -/
theorem rejectedAbove_latest (hfits : f.Fits bs) :
    bs.RejectedAbove (f.versions.length : Int) buffer := by
  intro j b hlt hb
  have := (hfits.keys j).1 (exists_lookup_iff.1 ⟨b, hb⟩)
  omega

end Dispatcher.Binds

/-! ## Binding a family -/

/-- A dispatcher serves a family over some bindings: its decoders are tried newest first, what the
latest codec reads back is read back, and a buffer that only the codecs up to some version take is
read by that version's codec and upgraded once, directly to the latest version. -/
structure Dispatcher.Serves (D : Dispatcher) (f : Family) (bs : Bindings) : Prop where
  newestFirst : D.decodeOrder = ((List.range' 1 f.versions.length).reverse).map Int.ofNat
  generated : ∀ c, "" ∉ f.typeNames → ∃ g, f.generate c = .accepted g
  synthesized : ∀ c g, f.generate c = .accepted g → D.decodeOrder = g.decodeOrder
  roundTrip : ∀ b, bs.lookup (f.versions.length : Int) = some b → ∀ v buffer,
    b.codec.encode v = .ok buffer → b.codec.decode buffer = .ok v →
      D.serialize v = .ok buffer ∧ D.deserialize buffer = .ok v ∧
        D.deserializeWithVersion buffer = .ok (some (f.versions.length, v))
  upgrade : ∀ k < (f.versions.length : Int), ∀ b upgrade, bs.lookup k = some b →
    b.upgrade = some upgrade → ∀ x buffer, b.codec.encode x = .ok buffer →
      b.codec.decode buffer = .ok x → bs.RejectedAbove k buffer →
        D.deserializeWithVersion buffer = (upgrade x).map fun w => some (k, w)

theorem Dispatcher.Binds.serves {D : Dispatcher} {f : Family} {bs : Bindings} (h : D.Binds f bs)
    (hfits : f.Fits bs) : D.Serves f bs where
  newestFirst := by rw [h.order, decodeOrder_eq]
  generated c hnames := ⟨f.synthesize c, Family.generate_eq_accepted_iff.2 ⟨hnames, rfl⟩⟩
  synthesized _ _ hg := by
    obtain ⟨-, rfl⟩ := Family.generate_eq_accepted_iff.1 hg
    exact h.order
  roundTrip b hb v buffer hencode hdecode := by
    have hread := h.deserializeWithVersion_eq hfits hb (rejectedAbove_latest hfits) hdecode
    rw [hfits.latest b hb] at hread
    refine ⟨?_, ?_, hread⟩
    · rw [Dispatcher.serialize, h.latestCodec b hb, hencode]
    · rw [Dispatcher.deserialize, hread]
      rfl
  upgrade k hk b upgrade hb hupgrade x buffer _ hdecode hnewer := by
    rw [h.deserializeWithVersion_eq hfits hb hnewer hdecode, hupgrade]
    rfl

/-- Notes of the first version are any text, those of the second one begin with a mark. -/
def noteCodec : Nat → Codec
  | 1 => Codec.ofStringable Encoding.ascii.hosted (Step.run .identity) (Step.run .identity)
  | _ => Codec.ofStringable Encoding.ascii.hosted (Step.run (.prepend "2:")) (Step.run (.strip "2:"))

/-- A version of the family of notes. -/
def noteVersion (number : Nat) : SchemaVersion where
  number := number
  modulePath := ["Note", "Stable", versionName number]
  types := [.bare "t"]
  codec := ⟨"of_stringable", none, none⟩
  upgrades := []
  adapters := []
  location := none

/-- A binable family of two versions. -/
def noteFamily : Family where
  name := "Note"
  containerPath := ["Note", "Stable"]
  kind := .type
  strategy := .binable
  typeNames := ["t"]
  versions := [noteVersion 1, noteVersion 2]
  testObligation := none
  functorArities := []
  inTest := false
  location := none
  nonempty := List.cons_ne_nil _ _
  numbered := rfl
  tested := fun h => nomatch h

/-- The codecs of the family, in no particular order. -/
def noteBindings : Bindings :=
  [(2, ⟨noteCodec 2, none⟩), (1, ⟨noteCodec 1, some (Step.run (.prepend "old "))⟩)]

theorem noteBindings_fit : noteFamily.Fits noteBindings := by
  refine fits_iff.2 ⟨fun k => ?_, ?_⟩
  · show k ∈ [2, 1] ↔ 1 ≤ k ∧ k ≤ ((2 : Nat) : Int)
    simp only [List.mem_cons, List.not_mem_nil, or_false]
    omega
  · exact List.forall_mem_cons.2 ⟨⟨_, rfl⟩, List.forall_mem_cons.2 ⟨⟨_, rfl⟩, by simp⟩⟩

/-- The family of notes with a type without a name. -/
def unnamedNotes : Family := { noteFamily with typeNames := [""] }

theorem bind_note_eq_tooLarge {k : Nat} (hlong : DecimalDigit.limit ≤ k)
    (b : VersionBinding) : noteFamily.bind [((k : Int), b)] = .error .tooLarge := by
  have hversions : noteFamily.versions.length < DecimalDigit.limit :=
    DecimalDigit.isShort_iff.1 (by decide)
  rw [Family.bind, if_neg (by decide)]
  exact dispatcher_eq_tooLarge hversions List.mem_cons_self hlong

end SchemaVersioning
