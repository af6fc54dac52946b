import SchemaVersioning.Proofs.Dispatching

/-!
# Calls of a dispatcher

Which decoders and upgrades a dispatcher calls.  In a host that records every call, the decoders up
to the one that decides are asked once each, in order; then the upgrade of the deciding one is called
once on the value that it has read, and nothing is called after that (`dispatched_exactly`).  What
decides does not depend on the decoders behind it, nor on those that reject the buffer before it.
-/

namespace SchemaVersioning

/-- A call of a decoder or of an upgrade, by the place of the decoder in the order. -/
inductive Call where
  | decode (place : Nat) (buffer : Buffer)
  | upgrade (place : Nat) (v : Value)

/-- A computation that records the calls that it makes. -/
abbrev Recorded : Type → Type := StateM (List Call)

/-- A result whose computation is recorded as a call. -/
def record {α : Type} (call : Call) (result : α) : Recorded α := fun calls =>
  (result, calls ++ [call])

namespace VersionDecoder

/-- The decoder at a place of the order, in a host that records its calls. -/
def recorded (d : VersionDecoder) (place : Nat) : HostedDecoder Recorded where
  number := d.number
  decode buffer := record (.decode place buffer) (d.codec.decode buffer)
  upgrade := d.upgrade.map fun upgrade v => record (.upgrade place v) (upgrade v)

/-- The decoders from a place of the order on, in a host that records their calls. -/
def recordedFrom (place : Nat) (decoders : List VersionDecoder) : List (HostedDecoder Recorded) :=
  (decoders.zipIdx place).map fun (d, place) => d.recorded place

end VersionDecoder

open VersionDecoder

/-- The calls that ask the decoders at some places of the order for a buffer. -/
def decodings (place count : Nat) (buffer : Buffer) : List Call :=
  (List.range' place count).map (.decode · buffer)

namespace Attempt

variable {buffer : Buffer} {d : VersionDecoder} {rest : List VersionDecoder} {place : Nat}
  {calls : List Call}

/-- The attempt on a buffer and the calls that it makes, behind those that were made before. -/
def observedFrom (place : Nat) (buffer : Buffer) (decoders : List VersionDecoder)
    (calls : List Call) : Attempt × List Call :=
  runIn buffer (recordedFrom place decoders) calls

/-! ## One decoder -/

theorem observedFrom_of_rejects {name reason : String}
    (h : d.codec.decode buffer = .error (.decode name reason)) :
    observedFrom place buffer (d :: rest) calls =
      let observed := observedFrom (place + 1) buffer rest (calls ++ [.decode place buffer])
      (⟨⟨d.number, reason⟩ :: observed.1.rejections, observed.1.verdict⟩, observed.2) := by
  simp only [observedFrom, recordedFrom, List.zipIdx_cons, List.map_cons, runIn, recorded, bind,
    StateT.bind, record, h]
  rfl

theorem observedFrom_of_failed {f : Failure} (h : d.codec.decode buffer = .error f)
    (hf : ¬ d.codec.Rejects buffer) :
    observedFrom place buffer (d :: rest) calls
      = (⟨[], .failed f⟩, calls ++ [.decode place buffer]) := by
  simp only [observedFrom, recordedFrom, List.zipIdx_cons, List.map_cons, runIn, recorded, bind,
    StateT.bind, record, h]
  cases f with
  | decode name reason => exact absurd ⟨name, reason, h⟩ hf
  | _ => rfl

theorem observedFrom_of_kept {v : Value} (h : d.codec.decode buffer = .ok v)
    (hupgrade : d.upgrade = none) :
    observedFrom place buffer (d :: rest) calls
      = (⟨[], .decoded d.number v⟩, calls ++ [.decode place buffer]) := by
  simp only [observedFrom, recordedFrom, List.zipIdx_cons, List.map_cons, runIn, recorded, bind,
    StateT.bind, record, h, hupgrade]
  rfl

theorem observedFrom_of_upgraded {v : Value} {upgrade : Conversion}
    (h : d.codec.decode buffer = .ok v) (hupgrade : d.upgrade = some upgrade) :
    (observedFrom place buffer (d :: rest) calls).2
      = calls ++ [.decode place buffer, .upgrade place v] := by
  simp only [observedFrom, recordedFrom, List.zipIdx_cons, List.map_cons, runIn, recorded, bind,
    StateT.bind, record, h, hupgrade, Option.map_some]
  cases upgrade v <;> exact List.append_assoc calls _ _

/-! ## A line of decoders -/

/-- A host that records the calls reads the same from a buffer as a host without effects. -/
theorem found_observedFrom (decoders : List VersionDecoder) :
    (observedFrom place buffer decoders calls).1.found = (run buffer decoders).found := by
  induction decoders generalizing place calls with
  | nil => rfl
  | cons d rest ih =>
    by_cases hrejects : d.codec.Rejects buffer
    · rw [found_run_of_rejects hrejects]
      obtain ⟨name, reason, h⟩ := hrejects
      rw [observedFrom_of_rejects h]
      exact ih
    · rw [found_run_of_not_rejects hrejects]
      cases hdecode : d.codec.decode buffer with
      | error f =>
        rw [observedFrom_of_failed hdecode hrejects, reading, hdecode]
        rfl
      | ok v =>
        rw [reading_of_decode hdecode]
        cases hupgrade : d.upgrade with
        | none =>
          rw [observedFrom_of_kept hdecode hupgrade, upgraded, hupgrade]
          rfl
        | some upgrade =>
          simp only [observedFrom, recordedFrom, List.zipIdx_cons, List.map_cons, runIn, recorded,
            bind, StateT.bind, record, hdecode, hupgrade, Option.map_some, upgraded]
          cases upgrade v <;> rfl

theorem decodings_succ (place count : Nat) (buffer : Buffer) :
    decodings place (count + 1) buffer
      = .decode place buffer :: decodings (place + 1) count buffer := by
  simp [decodings, List.range'_succ]

/-- Decoders that reject a buffer are asked once each, before the others are. -/
theorem calls_append {before : List VersionDecoder} (h : ∀ e ∈ before, e.codec.Rejects buffer) :
    (observedFrom place buffer (before ++ rest) calls).2
      = (observedFrom (place + before.length) buffer rest
          (calls ++ decodings place before.length buffer)).2 := by
  induction before generalizing place calls with
  | nil => simp [decodings]
  | cons e before ih =>
    obtain ⟨⟨name, reason, he⟩, hbefore⟩ := List.forall_mem_cons.1 h
    have hplace : place + (before.length + 1) = place + 1 + before.length := by omega
    rw [List.cons_append, observedFrom_of_rejects he, List.length_cons, decodings_succ, hplace]
    simp only [ih hbefore, List.append_assoc, List.singleton_append]

end Attempt

/-! ## Dispatchers -/

namespace Dispatcher

variable (D : Dispatcher) (buffer : Buffer)

/-- What a dispatcher reads from a buffer in a host that records the calls, and those calls. -/
def observed : Except Failure (Option (Int × Value)) × List Call :=
  let observed := Attempt.observedFrom 0 buffer D.decoders []
  (observed.1.found, observed.2)

/-- The calls that a dispatcher makes to read a buffer. -/
def calls : List Call := (D.observed buffer).2

/-- A decoder decides about a buffer, behind some that reject it: it is asked after those, its
upgrade is called on the value that it reads, and the outcome of the last call is the outcome. -/
structure DecidedBy (before : List VersionDecoder) (d : VersionDecoder) : Prop where
  /-- A failure of the decoder that is no rejection is the outcome. -/
  failed : ∀ f, d.codec.decode buffer = .error f →
    D.deserializeWithVersion buffer = .error f ∧
      D.calls buffer = decodings 0 (before.length + 1) buffer
  /-- Without an upgrade, the outcome is the value that the decoder reads. -/
  kept : ∀ v, d.codec.decode buffer = .ok v → d.upgrade = none →
    D.deserializeWithVersion buffer = .ok (some (d.number, v)) ∧
      D.calls buffer = decodings 0 (before.length + 1) buffer
  /-- An upgrade is called once, and its value or any failure of it is the outcome. -/
  upgraded : ∀ v upgrade, d.codec.decode buffer = .ok v → d.upgrade = some upgrade →
    D.deserializeWithVersion buffer = (upgrade v).map (fun w => some (d.number, w)) ∧
      D.calls buffer
        = decodings 0 (before.length + 1) buffer ++ [.upgrade before.length v]
  /-- Other decoders behind the one that decides, and other rejecting ones before it, are not seen
  in the outcome. -/
  stable : ∀ (D' : Dispatcher) (before' after' : List VersionDecoder),
    D'.decoders = before' ++ d :: after' → (∀ e ∈ before', e.codec.Rejects buffer) →
      D'.deserializeWithVersion buffer = D.deserializeWithVersion buffer

variable {D buffer} {before after : List VersionDecoder} {d : VersionDecoder}

theorem observed_fst : (D.observed buffer).1 = D.deserializeWithVersion buffer :=
  Attempt.found_observedFrom D.decoders

theorem calls_of_rejectsAll (h : D.RejectsAll buffer) :
    D.calls buffer = decodings 0 D.decoders.length buffer := by
  have happend : (Attempt.observedFrom 0 buffer (D.decoders ++ []) []).2 = _ :=
    Attempt.calls_append h
  rw [List.append_nil] at happend
  exact happend

theorem decidedBy (hsplit : D.decoders = before ++ d :: after)
    (hbefore : ∀ e ∈ before, e.codec.Rejects buffer) (hd : ¬ d.codec.Rejects buffer) :
    D.DecidedBy buffer before d := by
  have hdecides : D.Decides buffer d := ⟨before, after, hsplit, hbefore, hd⟩
  have hcalls : D.calls buffer = (Attempt.observedFrom before.length buffer (d :: after)
      (decodings 0 before.length buffer)).2 := by
    have happend : (Attempt.observedFrom 0 buffer (before ++ d :: after) []).2 = _ :=
      Attempt.calls_append hbefore
    rw [← hsplit, Nat.zero_add] at happend
    exact happend
  have hlast : decodings 0 before.length buffer ++ [.decode before.length buffer]
      = decodings 0 (before.length + 1) buffer := by
    simp [decodings, List.range'_concat]
  constructor
  case failed =>
    intro f hf
    rw [deserializeWithVersion_of_decides hdecides, hcalls,
      Attempt.observedFrom_of_failed hf hd, hlast, reading, hf]
    exact ⟨rfl, rfl⟩
  case kept =>
    intro v hv hupgrade
    rw [deserializeWithVersion_of_decides hdecides, hcalls,
      Attempt.observedFrom_of_kept hv hupgrade, hlast, reading_of_decode hv,
      VersionDecoder.upgraded, hupgrade]
    exact ⟨rfl, rfl⟩
  case upgraded =>
    intro v upgrade hv hupgrade
    rw [deserializeWithVersion_of_decides hdecides, hcalls,
      Attempt.observedFrom_of_upgraded hv hupgrade, ← hlast, reading_of_decode hv]
    refine ⟨?_, by simp⟩
    simp only [VersionDecoder.upgraded, hupgrade]
    cases upgrade v <;> rfl
  case stable =>
    intro D' before' after' hsplit' hbefore'
    rw [deserializeWithVersion_of_decides hdecides,
      deserializeWithVersion_of_decides ⟨before', after', hsplit', hbefore', hd⟩]

end Dispatcher

/-- A dispatcher tries its decoders in order.  Recording its calls changes nothing of what it reads.
If every decoder rejects the buffer, each is asked once, no upgrade is called, and nothing is read.
Otherwise the first decoder that does not reject the buffer decides about it. -/
theorem dispatched_exactly (D : Dispatcher) (buffer : Buffer) :
    (D.observed buffer).1 = D.deserializeWithVersion buffer ∧
    (D.RejectsAll buffer → D.deserializeWithVersion buffer = .ok none ∧
      D.calls buffer = decodings 0 D.decoders.length buffer) ∧
    (∀ before d after, D.decoders = before ++ d :: after →
      (∀ e ∈ before, e.codec.Rejects buffer) → ¬ d.codec.Rejects buffer →
        D.DecidedBy buffer before d) ∧
    (D.RejectsAll buffer ∨ ∃ before d after, D.decoders = before ++ d :: after ∧
      (∀ e ∈ before, e.codec.Rejects buffer) ∧ ¬ d.codec.Rejects buffer) := by
  refine ⟨Dispatcher.observed_fst, fun h => ?_, fun before d after => Dispatcher.decidedBy, ?_⟩
  · exact ⟨Dispatcher.deserializeWithVersion_of_rejectsAll h, Dispatcher.calls_of_rejectsAll h⟩
  · refine (D.rejectsAll_or_decides buffer).imp_right ?_
    rintro ⟨d, before, after, hsplit, hbefore, hd⟩
    exact ⟨before, d, after, hsplit, hbefore, hd⟩

end SchemaVersioning
