import SchemaVersioning.Proofs.CodecRoundTrips
import SchemaVersioning.Proofs.UnknownBuffers

/-!
# Failures of nested codecs

How a codec that wraps others, to any depth, fails.  Of its layers one fails at most on a buffer:
everything within that layer reads the buffer, and everything around it passes the failure on
(`decode_eq_error`).  If its conversions only refuse values, and its encoding only refuses buffers,
the codec gives a value or a decoding failure with the name of that layer; any other failure of a
conversion or of the encoding, such as that the host knows none of its name, stays what it is.  So a
dispatcher over such codecs fails exactly when the upgrade of the version that it reads does
(`nested_failure_of_one_layer`).
-/

namespace SchemaVersioning

open Codec (refusalOf issuesText)

/-- A conversion fails only by refusing a value: because of the value itself or its type. -/
def Conversion.Refusing (conversion : Conversion) : Prop :=
  ∀ v f, conversion v = .error f → f.isRefusal

/-! ## Layers -/

/-- A codec that leaves buffers to a validator, which gives a value or so many issues. -/
structure ValidatingCodec where
  codec : Codec
  validate : Buffer → Except Nat Value
  decode_eq : ∀ buffer, codec.decode buffer =
    (validate buffer).mapError fun count => .decode codec.name (issuesText count)

/-- A codec that reads a text from buffers and converts it. -/
structure TextCodec where
  codec : Codec
  read : Buffer → Except Failure String
  ofText : Conversion
  decode_eq : ∀ buffer, codec.decode buffer =
    ((read buffer).bind fun s => ofText (.text s)).mapError (refusalOf codec.name)

/-- A text codec refuses a buffer that holds no text in its encoding as it would a value. -/
def TextCodec.Refusing (base : TextCodec) : Prop :=
  ∀ buffer f, base.read buffer = .error f → f.isRefusal

/-- The validator of a shape. -/
def ValidatingCodec.ofShape (shape : Shape) (strict : Bool) : ValidatingCodec where
  codec := .structural shape strict
  validate buffer :=
    match Codec.data? buffer with
    | none => .error 1
    | some v =>
      match shape.check strict v with
      | .accepted v => .ok v
      | .rejected issues => .error issues.length
  decode_eq buffer := by
    show Codec.decodeShape _ shape strict buffer = _
    unfold Codec.decodeShape
    cases Codec.data? buffer with
    | none => rfl
    | some v => cases hcheck : shape.check strict v <;> simp only [hcheck] <;> rfl

/-- The text codec of an encoding. -/
def TextCodec.ofEncoding (encoding : HostEncoding) (toText ofText : Conversion) : TextCodec where
  codec := .ofStringable encoding toText ofText
  read := encoding.decode
  ofText := ofText
  decode_eq buffer := by
    unfold Codec.ofStringable
    dsimp only
    cases encoding.decode buffer <;> rfl

/-- The known encodings only refuse buffers. -/
theorem TextCodec.refusing_ofEncoding (encoding : Encoding) (toText ofText : Conversion) :
    (ofEncoding encoding.hosted toText ofText).Refusing := by
  intro buffer f h
  change (encoding.decode buffer).mapError Failure.undecodable = .error f at h
  cases hread : encoding.decode buffer with
  | ok s => simp [hread, Except.mapError] at h
  | error fault =>
    rw [hread] at h
    obtain rfl := Except.error.inj h
    rfl

/-- A codec by its layers: a wrapper around another layer, or one that wraps none. -/
inductive NestedCodec where
  | validating (base : ValidatingCodec)
  | text (base : TextCodec)
  | binable (wrapped : NestedCodec) (toBinable ofBinable : Conversion)

namespace NestedCodec

/-- The codec with these layers. -/
def codec : NestedCodec → Codec
  | validating base => base.codec
  | text base => base.codec
  | binable wrapped toBinable ofBinable => .ofBinable wrapped.codec toBinable ofBinable

/-- The conversions that decoding calls. -/
def conversions : NestedCodec → List Conversion
  | validating _ => []
  | text base => [base.ofText]
  | binable wrapped _ ofBinable => ofBinable :: wrapped.conversions

/-- The text codec inside of all wrappers, if there is one. -/
def textBase? : NestedCodec → Option TextCodec
  | validating _ => none
  | text base => some base
  | binable wrapped _ _ => wrapped.textBase?

/-- The conversions that decoding calls only refuse values, the encoding only refuses buffers. -/
structure Refusing (C : NestedCodec) : Prop where
  conversions : ∀ conversion ∈ C.conversions, conversion.Refusing
  texts : ∀ base, C.textBase? = some base → base.Refusing

/-- A layer of a codec, together with everything within that layer. -/
inductive Within (layer : NestedCodec) : NestedCodec → Prop
  | self : Within layer layer
  | wrapped {C : NestedCodec} {toBinable ofBinable : Conversion} (h : Within layer C) :
      Within layer (.binable C toBinable ofBinable)

/-- What is wrong with a buffer in a layer: its validator finds so many issues, or its text or its
conversion fails. -/
inductive Fault where
  | issues (count : Nat)
  | raised (f : Failure)

namespace Fault

/-- The value is refused. -/
def isRefusal : Fault → Bool
  | issues _ => true
  | raised f => f.isRefusal

/-- What a layer of that name makes of a fault. -/
def reported (name : String) : Fault → Failure
  | issues count => .decode name (issuesText count)
  | raised f => refusalOf name f

theorem reported_of_isRefusal {fault : Fault} (h : fault.isRefusal) (name : String) :
    ∃ reason, fault.reported name = .decode name reason := by
  cases fault with
  | issues count => exact ⟨issuesText count, rfl⟩
  | raised f => exact ⟨f.text, if_pos h⟩

end Fault

/-- A layer fails by itself: everything within it reads the buffer. -/
inductive Fails (buffer : Buffer) : NestedCodec → Fault → Prop
  | invalid {base : ValidatingCodec} {count : Nat} (h : base.validate buffer = .error count) :
      Fails buffer (.validating base) (.issues count)
  | unreadable {base : TextCodec} {f : Failure} (h : base.read buffer = .error f) :
      Fails buffer (.text base) (.raised f)
  | illegible {base : TextCodec} {s : String} {f : Failure} (hread : base.read buffer = .ok s)
      (h : base.ofText (.text s) = .error f) : Fails buffer (.text base) (.raised f)
  | inconvertible {wrapped : NestedCodec} {toBinable ofBinable : Conversion} {v : Value}
      {f : Failure} (hread : wrapped.codec.decode buffer = .ok v) (h : ofBinable v = .error f) :
      Fails buffer (.binable wrapped toBinable ofBinable) (.raised f)

/-! ## The order of layers -/

section Order

variable {a b C : NestedCodec}

theorem Within.trans (hab : a.Within b) (hbC : b.Within C) : a.Within C := by
  induction hbC with
  | self => exact hab
  | wrapped _ ih => exact .wrapped ih

/-- Of two layers of a codec one is within the other. -/
theorem Within.total (ha : a.Within C) (hb : b.Within C) : a.Within b ∨ b.Within a := by
  induction ha with
  | self => exact .inr hb
  | wrapped h ih =>
    cases hb with
    | self => exact .inl (.wrapped h)
    | wrapped hb => exact ih hb

/-- A wrapper has a longer name than anything within it. -/
theorem Within.eq_or_length_name_lt (h : a.Within C) :
    a = C ∨ a.codec.name.length < C.codec.name.length := by
  induction h with
  | self => exact .inl rfl
  | @wrapped C toBinable ofBinable _ ih =>
    have hname : (binable C toBinable ofBinable).codec.name.length = C.codec.name.length + 11 := by
      show ("OfBinable(" ++ C.codec.name ++ ")").length = _
      simp only [String.length_append]
      show 10 + C.codec.name.length + 1 = _
      omega
    right
    rcases ih with rfl | hlt
    · omega
    · omega

theorem Within.eq_of_name (ha : a.Within C) (hb : b.Within C) (h : a.codec.name = b.codec.name) :
    a = b := by
  have hlength : a.codec.name.length = b.codec.name.length := congrArg _ h
  rcases ha.total hb with hab | hba
  · exact hab.eq_or_length_name_lt.resolve_right (by omega)
  · exact (hba.eq_or_length_name_lt.resolve_right (by omega)).symm

end Order

/-! ## One layer fails -/

section Failing

variable {C layer : NestedCodec} {buffer : Buffer} {fault : Fault}

/-- A layer that fails by itself fails with what it makes of its fault. -/
theorem Fails.decode_eq (h : C.Fails buffer fault) :
    C.codec.decode buffer = .error (fault.reported C.codec.name) := by
  cases h with
  | @invalid base count h => rw [codec, base.decode_eq, h]; rfl
  | @unreadable base f h => rw [codec, base.decode_eq, h]; rfl
  | @illegible base s f hread h =>
    rw [codec, base.decode_eq, hread]
    show (base.ofText (.text s)).mapError _ = _
    rw [h]
    rfl
  | @inconvertible wrapped toBinable ofBinable v f hread h =>
    show (wrapped.codec.decode buffer >>= fun v => (ofBinable v).mapError _) = _
    rw [hread]
    show (ofBinable v).mapError _ = _
    rw [h]
    rfl

/-- What a layer fails with, everything around it passes on. -/
theorem decode_eq_error (hlayer : layer.Within C) (h : layer.Fails buffer fault) :
    C.codec.decode buffer = .error (fault.reported layer.codec.name) := by
  induction hlayer with
  | self => exact h.decode_eq
  | wrapped _ ih => exact Codec.decode_ofBinable_error ih

/-- A buffer is read, or some layer fails on it. -/
theorem read_or_fails (C : NestedCodec) (buffer : Buffer) :
    (∃ v, C.codec.decode buffer = .ok v) ∨
      ∃ (layer : NestedCodec) (fault : Fault), layer.Within C ∧ layer.Fails buffer fault := by
  induction C with
  | validating base =>
    cases hvalidate : base.validate buffer with
    | ok v => exact .inl ⟨v, by rw [codec, base.decode_eq, hvalidate]; rfl⟩
    | error count => exact .inr ⟨_, _, .self, .invalid hvalidate⟩
  | text base =>
    cases hread : base.read buffer with
    | error f => exact .inr ⟨_, _, .self, .unreadable hread⟩
    | ok s =>
      cases hconvert : base.ofText (.text s) with
      | error f => exact .inr ⟨_, _, .self, .illegible hread hconvert⟩
      | ok v =>
        refine .inl ⟨v, ?_⟩
        rw [codec, base.decode_eq, hread]
        show (base.ofText (.text s)).mapError _ = _
        rw [hconvert]
        rfl
  | binable wrapped toBinable ofBinable ih =>
    rcases ih with ⟨v, hread⟩ | ⟨layer, fault, hlayer, hfails⟩
    · cases hconvert : ofBinable v with
      | ok w => exact .inl ⟨w, Codec.decode_ofBinable hread hconvert⟩
      | error f => exact .inr ⟨_, _, .self, .inconvertible hread hconvert⟩
    · exact .inr ⟨layer, fault, .wrapped hlayer, hfails⟩

/-- Everything within a layer that fails reads the buffer. -/
theorem Fails.reads_within (h : C.Fails buffer fault) (hlayer : layer.Within C)
    (hne : layer ≠ C) : ∃ v, layer.codec.decode buffer = .ok v := by
  cases hlayer with
  | self => exact absurd rfl hne
  | wrapped hlayer =>
    cases h with
    | inconvertible hread _ =>
      refine (layer.read_or_fails buffer).resolve_right ?_
      rintro ⟨deeper, fault, hdeeper, hfails⟩
      cases (decode_eq_error (hdeeper.trans hlayer) hfails).symm.trans hread

theorem Fails.fault_unique {fault' : Fault} (h : C.Fails buffer fault)
    (h' : C.Fails buffer fault') : fault = fault' := by
  cases h <;> cases h' <;> simp_all

/-- One layer fails at most. -/
theorem Fails.layer_unique {layer' : NestedCodec} {fault' : Fault} (hlayer : layer.Within C)
    (hlayer' : layer'.Within C) (h : layer.Fails buffer fault) (h' : layer'.Fails buffer fault') :
    layer = layer' := by
  by_contra hne
  rcases hlayer.total hlayer' with hwithin | hwithin
  · obtain ⟨v, hread⟩ := h'.reads_within hwithin hne
    cases hread.symm.trans h.decode_eq
  · obtain ⟨v, hread⟩ := h.reads_within hwithin (Ne.symm hne)
    cases hread.symm.trans h'.decode_eq

theorem Refusing.of_within (h : C.Refusing) (hlayer : layer.Within C) : layer.Refusing := by
  induction hlayer with
  | self => exact h
  | wrapped _ ih =>
    have hconversions := fun conversion hmem =>
      h.conversions conversion (List.mem_cons_of_mem _ hmem)
    exact ih ⟨hconversions, h.texts⟩

/-- Where the conversions only refuse values, so do the layers. -/
theorem Fails.isRefusal (h : C.Fails buffer fault) (hrefusing : C.Refusing) : fault.isRefusal := by
  cases h with
  | invalid => rfl
  | @unreadable base f h => exact hrefusing.texts base rfl buffer f h
  | illegible _ h => exact hrefusing.conversions _ (List.mem_singleton_self _) _ _ h
  | inconvertible _ h => exact hrefusing.conversions _ List.mem_cons_self _ _ h

/-- Where the conversions only refuse values, a buffer is read or refused in the name of the layer
that fails. -/
theorem Refusing.read_or_refused (h : C.Refusing) (buffer : Buffer) :
    (∃ v, C.codec.decode buffer = .ok v) ∨
      ∃ (layer : NestedCodec) (fault : Fault) (reason : String), layer.Within C ∧
        layer.Fails buffer fault ∧
          C.codec.decode buffer = .error (.decode layer.codec.name reason) := by
  refine (C.read_or_fails buffer).imp_right ?_
  rintro ⟨layer, fault, hlayer, hfails⟩
  have hrefusal := hfails.isRefusal (h.of_within hlayer)
  obtain ⟨reason, hreported⟩ := Fault.reported_of_isRefusal hrefusal layer.codec.name
  exact ⟨layer, fault, reason, hlayer, hfails, hreported ▸ decode_eq_error hlayer hfails⟩

end Failing

end NestedCodec

/-! ## Dispatchers -/

/-- The codecs of a dispatcher are nested ones whose conversions and encodings only refuse. -/
def Dispatcher.Refusing (D : Dispatcher) : Prop :=
  ∀ d ∈ D.decoders, ∃ C : NestedCodec, d.codec = C.codec ∧ C.Refusing

namespace Dispatcher

variable {D : Dispatcher} {d : VersionDecoder} {buffer : Buffer}

/-- A decoder that decides about a buffer has read it. -/
theorem Decides.reads (h : D.Decides buffer d) (hrefusing : D.Refusing) :
    ∃ v, d.codec.decode buffer = .ok v := by
  obtain ⟨C, hcodec, hC⟩ := hrefusing d h.mem
  obtain ⟨before, after, -, -, hnot⟩ := h
  refine (hC.read_or_refused buffer).elim (fun hread => hcodec ▸ hread) ?_
  rintro ⟨layer, -, reason, -, -, hrefused⟩
  exact absurd ⟨layer.codec.name, reason, hcodec ▸ hrefused⟩ hnot

/-- Only the upgrade of the version that is read fails. -/
theorem deserialize_eq_error_iff_upgrade (hrefusing : D.Refusing) {e : Failure} :
    D.deserialize buffer = .error e ↔ ∃ d upgrade v, D.Decides buffer d ∧
      d.upgrade = some upgrade ∧ d.codec.decode buffer = .ok v ∧ upgrade v = .error e := by
  constructor
  · intro h
    rcases D.rejectsAll_or_decides buffer with hall | ⟨d, hd⟩
    · cases h.symm.trans (deserialize_of_rejectsAll hall)
    · obtain ⟨v, hread⟩ := hd.reads hrefusing
      rw [deserialize_of_decides hd, hread] at h
      change d.upgraded v = .error e at h
      unfold VersionDecoder.upgraded at h
      cases hupgrade : d.upgrade with
      | none => simp [hupgrade] at h
      | some upgrade =>
        rw [hupgrade] at h
        exact ⟨d, upgrade, v, hd, hupgrade, hread, h⟩
  · rintro ⟨d, upgrade, v, hd, hupgrade, hread, hfailed⟩
    rw [deserialize_of_decides hd, hread]
    show d.upgraded v = .error e
    rw [VersionDecoder.upgraded, hupgrade]
    exact hfailed

end Dispatcher

/-! ## The contract -/

/-- What a nested codec makes of a buffer. -/
structure NestedCodec.Answers (C : NestedCodec) (buffer : Buffer) : Prop where
  /-- A value is read exactly if no layer fails. -/
  read : (∃ v, C.codec.decode buffer = .ok v) ↔
    ¬ ∃ (layer : NestedCodec) (fault : Fault), layer.Within C ∧ layer.Fails buffer fault
  /-- If conversions and encoding only refuse, there is a value or a decoding failure with the name
  of a layer that fails. -/
  refused : C.Refusing → (∃ v, C.codec.decode buffer = .ok v) ∨
    ∃ (layer : NestedCodec) (fault : Fault) (reason : String), layer.Within C ∧
      layer.Fails buffer fault ∧ C.codec.decode buffer = .error (.decode layer.codec.name reason)
  /-- What a layer fails with passes unchanged through every layer around it. -/
  passed : ∀ (layer : NestedCodec) (fault : Fault), layer.Fails buffer fault →
    ∀ outer : NestedCodec, layer.Within outer → outer.Within C →
      outer.codec.decode buffer = .error (fault.reported layer.codec.name)
  /-- A failure that is no refusal propagates as it is. -/
  propagated : ∀ (layer : NestedCodec) (f : Failure), layer.Within C →
    layer.Fails buffer (.raised f) → f.isRefusal = false → C.codec.decode buffer = .error f
  /-- Everything within the layer that fails reads the buffer. -/
  innermost : ∀ (layer : NestedCodec) (fault : Fault), layer.Within C → layer.Fails buffer fault →
    ∀ inner : NestedCodec, inner.Within layer → inner ≠ layer →
      ∃ v, inner.codec.decode buffer = .ok v
  /-- One layer fails at most, in one way. -/
  unique : ∀ (layer layer' : NestedCodec) (fault fault' : Fault), layer.Within C →
    layer'.Within C → layer.Fails buffer fault → layer'.Fails buffer fault' →
      layer = layer' ∧ fault = fault'
  /-- A name is that of one layer. -/
  named : ∀ layer layer' : NestedCodec, layer.Within C → layer'.Within C →
    layer.codec.name = layer'.codec.name → layer = layer'

theorem NestedCodec.answers (C : NestedCodec) (buffer : Buffer) : C.Answers buffer where
  read := by
    refine ⟨?_, (C.read_or_fails buffer).resolve_right⟩
    rintro ⟨v, hread⟩ ⟨layer, fault, hlayer, hfails⟩
    cases (decode_eq_error hlayer hfails).symm.trans hread
  refused h := h.read_or_refused buffer
  passed _ _ hfails _ hlayer _ := decode_eq_error hlayer hfails
  propagated layer f hlayer hfails hf := by
    rw [decode_eq_error hlayer hfails, Fault.reported, refusalOf, hf]
    rfl
  innermost _ _ _ hfails _ hinner hne := hfails.reads_within hinner hne
  unique layer layer' fault fault' hlayer hlayer' hfails hfails' := by
    obtain rfl := Fails.layer_unique hlayer hlayer' hfails hfails'
    exact ⟨rfl, hfails.fault_unique hfails'⟩
  named _ _ hlayer hlayer' hname := hlayer.eq_of_name hlayer' hname

/-- An amount is a positive number in ASCII. -/
def amountCodec : NestedCodec :=
  .binable (.text (.ofEncoding Encoding.ascii.hosted (Step.run .showInt) (Step.run .parseInt))) .ok
    (Step.run .positive)

/-- An amount in a wrapper that converts nothing. -/
def wrappedAmountCodec : NestedCodec := .binable amountCodec .ok .ok

/-- An amount whose conversion asks for a rate that is not there. -/
def ratedAmountCodec : NestedCodec := .binable amountCodec .ok (Step.run (.fail (.key "rate")))

/-- Two versions of amounts: the older one is a text in JSON, and is never upgraded. -/
def amountDispatcher : Dispatcher where
  family := "Amount"
  latestCodec := wrappedAmountCodec.codec
  decoders :=
    [⟨2, wrappedAmountCodec.codec, none⟩,
      ⟨1, .structural .text true, some (Step.run (.fail (.runtime "no rates")))⟩]
  nonempty := List.cons_ne_nil _ _

/-- A check of a value refuses it. -/
theorem isRefusal_of_check {p : Prop} [Decidable p] {message : String} {v : Value} {f : Failure}
    (h : (if p then .error (.value message) else .ok v) = Except.error f) : f.isRefusal := by
  split at h
  · obtain rfl := Except.error.inj h
    rfl
  · cases h

theorem refusing_parseInt : Conversion.Refusing (Step.run .parseInt) := by
  intro v f h
  cases v with
  | text s =>
    simp only [Step.run, Step.integerOfText] at h
    split at h
    · obtain rfl := Except.error.inj h
      rfl
    · rw [apply_ite (Except.map Value.int)] at h
      exact isRefusal_of_check h
  | _ =>
    simp only [Step.run] at h
    obtain rfl := Except.error.inj h
    rfl

theorem refusing_positive : Conversion.Refusing (Step.run .positive) := by
  intro v f h
  cases v with
  | int _ | bool _ | real _ =>
    simp only [Step.run, Step.integerOf?] at h
    exact isRefusal_of_check h
  | _ =>
    simp only [Step.run, Step.integerOf?] at h
    obtain rfl := Except.error.inj h
    rfl

theorem refusing_wrappedAmountCodec : wrappedAmountCodec.Refusing where
  conversions conversion hmem := by
    change conversion ∈ [.ok, Step.run .positive, Step.run .parseInt] at hmem
    simp only [List.mem_cons, List.not_mem_nil, or_false] at hmem
    rcases hmem with rfl | rfl | rfl
    · rintro v f ⟨⟩
    · exact refusing_positive
    · exact refusing_parseInt
  texts base hbase := by
    obtain rfl := Option.some.inj hbase
    exact TextCodec.refusing_ofEncoding _ _ _

/-- Texts in an encoding that the host does not know. -/
def strangeCodec : NestedCodec := .text (.ofEncoding (.unknown "nope") .ok .ok)

end SchemaVersioning
