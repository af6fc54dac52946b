import SchemaVersioning.Proofs.BoundCalls

/-!
# Unknown buffers

How a dispatcher tells of a buffer that no version has written.  Together with its version, nothing
is read exactly if the codec of every version rejects the buffer.  The value alone is null then; but
null may also be a value of the latest version, and it is read as it is.  So a null value means an
unknown buffer exactly if no version makes null of that buffer (`unknown_signalled_exactly`).
-/

namespace SchemaVersioning

/-! ## What is read -/

theorem VersionDecoder.reading_eq_ok_iff {d : VersionDecoder} {buffer : Buffer} {k : Int}
    {w : Value} : d.reading buffer = .ok (k, w) ↔
      d.number = k ∧ ∃ v, d.codec.decode buffer = .ok v ∧ d.upgraded v = .ok w := by
  show (d.codec.decode buffer).bind (fun v => (d.upgraded v).bind fun w' => .ok (d.number, w')) = _
    ↔ _
  simp only [bind_eq_ok_iff, Except.ok.injEq, Prod.mk.injEq]
  constructor
  · rintro ⟨v, hdecode, w', hupgrade, hk, rfl⟩
    exact ⟨hk, v, hdecode, hupgrade⟩
  · rintro ⟨hk, v, hdecode, hupgrade⟩
    exact ⟨v, hdecode, w, hupgrade, hk, rfl⟩

namespace Dispatcher

section Readings

variable {D : Dispatcher} {d : VersionDecoder} {buffer : Buffer} {k : Int} {w : Value}

/-- What is read is what the decoder that decides makes of the buffer. -/
theorem Decides.eq_some_iff (h : D.Decides buffer d) :
    D.deserializeWithVersion buffer = .ok (some (k, w)) ↔
      d.number = k ∧ ∃ v, d.codec.decode buffer = .ok v ∧ d.upgraded v = .ok w := by
  rw [deserializeWithVersion_of_decides h, ← VersionDecoder.reading_eq_ok_iff]
  cases d.reading buffer <;> simp [Except.map]

theorem Decides.mem (h : D.Decides buffer d) : d ∈ D.decoders := by
  obtain ⟨before, after, hsplit, -⟩ := h
  rw [hsplit]
  exact List.mem_append_right before List.mem_cons_self

end Readings

/-! ## The value alone -/

section Values

variable {D : Dispatcher} {buffer : Buffer}

theorem deserialize_eq_ok_iff {w : Value} :
    D.deserialize buffer = .ok w ↔
      (∃ k, D.deserializeWithVersion buffer = .ok (some (k, w))) ∨
        D.deserializeWithVersion buffer = .ok none ∧ w = .null := by
  unfold deserialize
  cases D.deserializeWithVersion buffer with
  | error f => simp [Except.map]
  | ok found =>
    cases found with
    | none => simp [Except.map, eq_comm]
    | some found => simp [Except.map, Prod.ext_iff]

theorem deserialize_eq_null_iff :
    D.deserialize buffer = .ok .null ↔
      D.deserializeWithVersion buffer = .ok none ∨
        ∃ k, D.deserializeWithVersion buffer = .ok (some (k, .null)) := by
  rw [deserialize_eq_ok_iff, or_comm]
  simp

theorem deserialize_eq_error_iff {e : Failure} :
    D.deserialize buffer = .error e ↔ D.deserializeWithVersion buffer = .error e := by
  unfold deserialize
  cases D.deserializeWithVersion buffer <;> simp [Except.map]

end Values

/-! ## Bound dispatchers -/

/-- What a dispatcher over some bindings tells of a buffer. -/
structure Signals (D : Dispatcher) (bs : Bindings) (buffer : Buffer) : Prop where
  /-- With the version, nothing is read exactly if the codec of every version rejects the buffer. -/
  unknown : D.deserializeWithVersion buffer = .ok none ↔
    ∀ k b, bs.lookup k = some b → b.codec.Rejects buffer
  /-- With the version, a value is read exactly if the newest version that does not reject the
  buffer reads it and makes that value of it. -/
  known : ∀ k w, D.deserializeWithVersion buffer = .ok (some (k, w)) ↔
    ∃ b v, bs.lookup k = some b ∧ bs.RejectedAbove k buffer ∧ b.codec.decode buffer = .ok v ∧
      (VersionDecoder.mk k b.codec b.upgrade).upgraded v = .ok w
  /-- A buffer that some version accepts is not unknown. -/
  accepted : ∀ k b v, bs.lookup k = some b → b.codec.decode buffer = .ok v →
    D.deserializeWithVersion buffer ≠ .ok none
  /-- The value alone is null exactly if the buffer is unknown or if null is its value. -/
  null : D.deserialize buffer = .ok .null ↔
    D.deserializeWithVersion buffer = .ok none ∨
      ∃ k, D.deserializeWithVersion buffer = .ok (some (k, .null))
  /-- So null tells of an unknown buffer exactly if no version makes null of this one. -/
  apart : (D.deserialize buffer = .ok .null ↔
      ∀ k b, bs.lookup k = some b → b.codec.Rejects buffer) ↔
    ∀ k, D.deserializeWithVersion buffer ≠ .ok (some (k, .null))
  /-- A failure that is no rejection ends both readings. -/
  failed : ∀ e, D.deserialize buffer = .error e ↔ D.deserializeWithVersion buffer = .error e

namespace Binds

variable {f : Family} {bs : Bindings} {D : Dispatcher} {buffer : Buffer}

/-- What is read with its version is what the newest version that does not reject makes of it. -/
theorem deserializeWithVersion_eq_some_iff (h : D.Binds f bs) (hfits : f.Fits bs) {k : Int}
    {w : Value} :
    D.deserializeWithVersion buffer = .ok (some (k, w)) ↔
      ∃ b v, bs.lookup k = some b ∧ bs.RejectedAbove k buffer ∧ b.codec.decode buffer = .ok v ∧
        (VersionDecoder.mk k b.codec b.upgrade).upgraded v = .ok w := by
  constructor
  · intro hread
    rcases D.rejectsAll_or_decides buffer with hall | ⟨d, hd⟩
    · rw [deserializeWithVersion_of_rejectsAll hall] at hread
      cases hread
    · obtain ⟨rfl, v, hdecode, hupgrade⟩ := hd.eq_some_iff.1 hread
      obtain ⟨b, hb, hnewer, -⟩ := h.newest_of_decides hfits hd
      obtain ⟨b', hb', hcodec, hup⟩ := h.decoders d hd.mem
      obtain rfl := Option.some.inj (hb.symm.trans hb')
      refine ⟨b, v, hb, hnewer, ?_, ?_⟩
      · rwa [← hcodec]
      · rwa [← hcodec, ← hup]
  · rintro ⟨b, v, hb, hnewer, hdecode, hupgrade⟩
    rw [h.deserializeWithVersion_eq hfits hb hnewer hdecode, hupgrade]
    rfl

theorem deserializeWithVersion_eq_none_iff (h : D.Binds f bs) (hfits : f.Fits bs) :
    D.deserializeWithVersion buffer = .ok none ↔
      ∀ k b, bs.lookup k = some b → b.codec.Rejects buffer :=
  Dispatcher.deserializeWithVersion_eq_none_iff.trans (h.rejectsAll_iff hfits)

theorem signals (h : D.Binds f bs) (hfits : f.Fits bs) (buffer : Buffer) :
    D.Signals bs buffer where
  unknown := h.deserializeWithVersion_eq_none_iff hfits
  known _ _ := h.deserializeWithVersion_eq_some_iff hfits
  accepted k b v hb hdecode hnone := by
    have hall := (h.deserializeWithVersion_eq_none_iff hfits).1 hnone
    exact Codec.not_rejects_of_decode hdecode (hall k b hb)
  null := deserialize_eq_null_iff
  apart := by
    rw [deserialize_eq_null_iff, ← h.deserializeWithVersion_eq_none_iff hfits]
    constructor
    · intro hiff k hnull
      have hnone := hiff.1 (Or.inr ⟨k, hnull⟩)
      cases hnone.symm.trans hnull
    · intro hnull
      exact or_iff_left fun ⟨k, hk⟩ => hnull k hk
  failed _ := deserialize_eq_error_iff

end Binds

end Dispatcher

theorem binds_of_bind {f : Family} {bs : Bindings} {D : Dispatcher} (h : f.bind bs = .ok D) :
    f.Fits bs ∧ D.Binds f bs := by
  unfold Family.bind at h
  by_cases hkind : f.kind = .rpc
  · rw [if_pos hkind] at h
    cases h
  · rw [if_neg hkind] at h
    exact binds_of_dispatcher h

/-- A dispatcher of a family tells with the version of a buffer whether it is unknown, and with the
value alone as far as no version makes null of the buffer. -/
theorem unknown_signalled_exactly {f : Family} {bs : Bindings} {D : Dispatcher}
    (h : f.bind bs = .ok D) (buffer : Buffer) : D.Signals bs buffer := by
  obtain ⟨hfits, hbinds⟩ := binds_of_bind h
  exact hbinds.signals hfits buffer

/-! ## A limit that may be absent -/

/-- A version of the family of limits. -/
def limitVersion (number : Nat) : SchemaVersion where
  number := number
  modulePath := ["Limit", "Stable", versionName number]
  types := [.bare "t"]
  codec := ⟨"derived", none, none⟩
  upgrades := []
  adapters := []
  location := none

/-- Only asserted families need a test obligation. -/
theorem plain_without_obligation :
    CodecStrategy.plain = .asserted → (none : Option TestObligation).isSome := by decide

/-- A family of two versions. -/
def limitFamily : Family where
  name := "Limit"
  containerPath := ["Limit", "Stable"]
  kind := .type
  strategy := .plain
  typeNames := ["t"]
  versions := [limitVersion 1, limitVersion 2]
  testObligation := none
  functorArities := []
  inTest := false
  location := none
  nonempty := List.cons_ne_nil _ _
  numbered := rfl
  tested := plain_without_obligation

/-- The first version writes a text, which stands for no limit; the second one a number or null. -/
def limitBindings : Bindings :=
  [(1, ⟨.structural .text true, some (Step.run (.constant .null))⟩),
    (2, ⟨.structural (.optional .int) true, none⟩)]

/-- An empty buffer is unknown, and a number is not taken for an unknown buffer. -/
theorem unknown_signalled_exactly_limits :
    ∃ D, limitFamily.bind limitBindings = .ok D ∧ D.Signals limitBindings [] ∧
      D.Signals limitBindings [55] ∧ D.deserialize [] = .ok .null ∧
      D.deserializeWithVersion [] = .ok none ∧ D.deserialize [55] = .ok (.int 7) := by
  obtain ⟨D, hD, hempty, hnone, hseven⟩ : ∃ D, limitFamily.bind limitBindings = .ok D ∧
      D.deserialize [] = .ok .null ∧ D.deserializeWithVersion [] = .ok none ∧
        D.deserialize [55] = .ok (.int 7) :=
    ⟨_, rfl, by with_unfolding_all rfl, by with_unfolding_all rfl, by with_unfolding_all rfl⟩
  exact ⟨D, hD, unknown_signalled_exactly hD [], unknown_signalled_exactly hD [55], hempty, hnone,
    hseven⟩

/-- A limit that the second version reads as null, and a text that the first one upgrades to null,
are read as an unknown buffer is, though a version accepts them. -/
theorem null_limit_reads_as_unknown :
    ∃ D, limitFamily.bind limitBindings = .ok D ∧
      D.deserialize [110, 117, 108, 108] = .ok .null ∧
      D.deserializeWithVersion [110, 117, 108, 108] = .ok (some (2, .null)) ∧
      (¬ ∀ k b, limitBindings.lookup k = some b → b.codec.Rejects [110, 117, 108, 108]) ∧
      D.deserialize [34, 34] = .ok .null ∧
      D.deserializeWithVersion [34, 34] = .ok (some (1, .null)) := by
  refine ⟨_, rfl, by with_unfolding_all rfl, by with_unfolding_all rfl, fun hall => ?_,
    by with_unfolding_all rfl, by with_unfolding_all rfl⟩
  have hdecode : (Codec.structural (.optional .int) true).decode [110, 117, 108, 108]
      = .ok .null := by
    with_unfolding_all rfl
  exact Codec.not_rejects_of_decode hdecode (hall 2 _ rfl)

end SchemaVersioning
