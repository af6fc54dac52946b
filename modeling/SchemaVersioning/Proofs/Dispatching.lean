import Mathlib.Logic.Basic
import SchemaVersioning.Dispatch

/-!
# Which decoder decides

A decoder rejects a buffer when it fails with a decoding failure.  The first decoder that does not
reject a buffer decides about it: its answer, upgraded, is the answer of the dispatcher
(`deserializeWithVersion_of_decides`), and there is no such decoder exactly when the buffer is
unknown (`deserializeWithVersion_eq_none_iff`).
-/

namespace SchemaVersioning

/-! ## One decoder -/

/-- The codec refuses the buffer: it fails with a decoding failure. -/
def Codec.Rejects (codec : Codec) (buffer : Buffer) : Prop :=
  ∃ name reason, codec.decode buffer = .error (.decode name reason)

theorem Codec.not_rejects_of_decode {codec : Codec} {buffer : Buffer} {v : Value}
    (h : codec.decode buffer = .ok v) : ¬ codec.Rejects buffer := by
  rintro ⟨name, reason, hreject⟩
  cases h.symm.trans hreject

namespace VersionDecoder

/-- The version and the upgraded value that a decoder reads from a buffer. -/
def reading (d : VersionDecoder) (buffer : Buffer) : Except Failure (Int × Value) := do
  let v ← d.codec.decode buffer
  let w ← d.upgraded v
  .ok (d.number, w)

theorem reading_of_decode {d : VersionDecoder} {buffer : Buffer} {v : Value}
    (h : d.codec.decode buffer = .ok v) :
    d.reading buffer = (d.upgraded v).map fun w => (d.number, w) := by
  rw [reading, h]
  rfl

end VersionDecoder

/-! ## A line of decoders -/

namespace Attempt

variable {buffer : Buffer} {d : VersionDecoder} {rest : List VersionDecoder}

/-- A rejection passes the buffer on to the next decoder. -/
theorem found_run_of_rejects (h : d.codec.Rejects buffer) :
    (run buffer (d :: rest)).found = (run buffer rest).found := by
  obtain ⟨name, reason, h⟩ := h
  rw [run_cons, h]
  rfl

/-- A decoder that does not reject the buffer gives the answer, whatever comes after it. -/
theorem found_run_of_not_rejects (h : ¬ d.codec.Rejects buffer) :
    (run buffer (d :: rest)).found = (d.reading buffer).map some := by
  rw [run_cons, VersionDecoder.reading]
  cases hdecode : d.codec.decode buffer with
  | ok v => cases hupgrade : d.upgraded v <;> simp [found, bind, Except.bind, Except.map, hupgrade]
  | error f =>
    cases f with
    | decode name reason => exact absurd ⟨name, reason, hdecode⟩ h
    | _ => rfl

theorem found_run_append {before : List VersionDecoder}
    (h : ∀ e ∈ before, e.codec.Rejects buffer) :
    (run buffer (before ++ rest)).found = (run buffer rest).found := by
  induction before with
  | nil => rfl
  | cons e before ih =>
    obtain ⟨he, hbefore⟩ := List.forall_mem_cons.1 h
    rw [List.cons_append, found_run_of_rejects he, ih hbefore]

end Attempt

/-! ## Dispatchers -/

namespace Dispatcher

variable {D : Dispatcher} {buffer : Buffer}

/-- The first decoder that does not reject a buffer. -/
def Decides (D : Dispatcher) (buffer : Buffer) (d : VersionDecoder) : Prop :=
  ∃ before after, D.decoders = before ++ d :: after ∧ (∀ e ∈ before, e.codec.Rejects buffer) ∧
    ¬ d.codec.Rejects buffer

/-- No decoder takes the buffer. -/
def RejectsAll (D : Dispatcher) (buffer : Buffer) : Prop :=
  ∀ d ∈ D.decoders, d.codec.Rejects buffer

/-- Every decoder rejects a buffer, or one of them decides about it. -/
theorem rejectsAll_or_decides (D : Dispatcher) (buffer : Buffer) :
    D.RejectsAll buffer ∨ ∃ d, D.Decides buffer d := by
  classical
  cases h : D.decoders.find? fun d => !decide (d.codec.Rejects buffer) with
  | none =>
    refine Or.inl fun d hd => ?_
    simpa using List.find?_eq_none.1 h d hd
  | some d =>
    obtain ⟨hd, before, after, hsplit, hbefore⟩ := List.find?_eq_some_iff_append.1 h
    exact Or.inr ⟨d, before, after, hsplit, by simpa using hbefore, by simpa using hd⟩

/-- The decoder that decides about a buffer gives the answer. -/
theorem deserializeWithVersion_of_decides {d : VersionDecoder} (h : D.Decides buffer d) :
    D.deserializeWithVersion buffer = (d.reading buffer).map some := by
  obtain ⟨before, after, hsplit, hbefore, hd⟩ := h
  rw [deserializeWithVersion, attempt, hsplit, Attempt.found_run_append hbefore,
    Attempt.found_run_of_not_rejects hd]

theorem deserializeWithVersion_of_rejectsAll (h : D.RejectsAll buffer) :
    D.deserializeWithVersion buffer = .ok none := by
  rw [deserializeWithVersion, attempt, ← List.append_nil D.decoders, Attempt.found_run_append h]
  rfl

/-- A buffer is unknown exactly when every decoder rejects it. -/
theorem deserializeWithVersion_eq_none_iff :
    D.deserializeWithVersion buffer = .ok none ↔ D.RejectsAll buffer := by
  refine ⟨fun h => ?_, deserializeWithVersion_of_rejectsAll⟩
  refine (D.rejectsAll_or_decides buffer).resolve_right fun ⟨d, hd⟩ => ?_
  rw [deserializeWithVersion_of_decides hd] at h
  cases hreading : d.reading buffer <;> simp [hreading, Except.map] at h

/-- The value that a dispatcher reads from a buffer that some decoder decides about. -/
theorem deserialize_of_decides {d : VersionDecoder} (h : D.Decides buffer d) :
    D.deserialize buffer = (d.codec.decode buffer).bind d.upgraded := by
  rw [deserialize, deserializeWithVersion_of_decides h, VersionDecoder.reading]
  cases hdecode : d.codec.decode buffer with
  | error f => rfl
  | ok v => cases hupgrade : d.upgraded v <;> simp [bind, Except.bind, Except.map, hupgrade]

theorem deserialize_of_rejectsAll (h : D.RejectsAll buffer) : D.deserialize buffer = .ok .null := by
  rw [deserialize, deserializeWithVersion_of_rejectsAll h]
  rfl

end Dispatcher

end SchemaVersioning
