import SchemaVersioning.Codec

/-!
# Dispatchers

A dispatcher reads buffers that any version of a family has written.  Its decoders are tried in
order; the first one that accepts the buffer decides, and its upgrade turns the value into one of
the latest version.  Only a decoding failure counts as a rejection; any other failure of a decoder
and every failure of an upgrade ends the search.
-/

namespace SchemaVersioning

/-- The decoder of one version, with the upgrade to the latest one where there is one. -/
structure VersionDecoder where
  number : Int
  codec : Codec
  upgrade : Option Conversion

/-- The value of the latest version that a decoded value stands for. -/
def VersionDecoder.upgraded (d : VersionDecoder) (v : Value) : Except Failure Value :=
  match d.upgrade with
  | none => .ok v
  | some upgrade => upgrade v

/-! ## Hosts -/

/-- A decoder in a host: to decode and to upgrade are computations of the host, which may have
effects. -/
structure HostedDecoder (m : Type → Type) where
  number : Int
  decode : Buffer → m (Except Failure Value)
  upgrade : Option (Value → m (Except Failure Value))

/-- A decoder in a host in which it has no effects. -/
def VersionDecoder.hosted (m : Type → Type) [Monad m] (d : VersionDecoder) : HostedDecoder m where
  number := d.number
  decode buffer := pure (d.codec.decode buffer)
  upgrade := d.upgrade.map fun upgrade v => pure (upgrade v)

/-! ## Attempts -/

/-- A decoder's refusal of a buffer. -/
structure Rejection where
  number : Int
  reason : String
deriving DecidableEq, Repr

/-- What decides about a buffer. -/
inductive Verdict where
  | decoded (number : Int) (v : Value)
  | unknown
  | failed (f : Failure)

/-- The refusals that came first, and the verdict. -/
structure Attempt where
  rejections : List Rejection
  verdict : Verdict

namespace Attempt

/-- The attempt in which decoders are tried in order on a buffer, in any host. -/
def runIn {m : Type → Type} [Monad m] (buffer : Buffer) : List (HostedDecoder m) → m Attempt
  | [] => pure ⟨[], .unknown⟩
  | d :: rest => do
    match ← d.decode buffer with
    | .error (.decode _ reason) =>
      let attempt ← runIn buffer rest
      pure ⟨⟨d.number, reason⟩ :: attempt.rejections, attempt.verdict⟩
    | .error f => pure ⟨[], .failed f⟩
    | .ok v =>
      match d.upgrade with
      | none => pure ⟨[], .decoded d.number v⟩
      | some upgrade =>
        match ← upgrade v with
        | .ok w => pure ⟨[], .decoded d.number w⟩
        | .error f => pure ⟨[], .failed f⟩

/-- The attempt in which decoders are tried in order on a buffer. -/
def run (buffer : Buffer) (decoders : List VersionDecoder) : Attempt :=
  Id.run (runIn buffer (decoders.map (·.hosted Id)))

theorem run_nil (buffer : Buffer) : run buffer [] = ⟨[], .unknown⟩ := rfl

theorem run_cons (buffer : Buffer) (d : VersionDecoder) (rest : List VersionDecoder) :
    run buffer (d :: rest) =
      match d.codec.decode buffer with
      | .error (.decode _ reason) =>
        ⟨⟨d.number, reason⟩ :: (run buffer rest).rejections, (run buffer rest).verdict⟩
      | .error f => ⟨[], .failed f⟩
      | .ok v =>
        match d.upgraded v with
        | .ok w => ⟨[], .decoded d.number w⟩
        | .error f => ⟨[], .failed f⟩ := by
  cases hdecode : d.codec.decode buffer with
  | error f => cases f <;> simp [run, runIn, VersionDecoder.hosted, hdecode]
  | ok v =>
    cases hupgrade : d.upgrade with
    | none => simp [run, runIn, VersionDecoder.hosted, VersionDecoder.upgraded, hdecode, hupgrade]
    | some upgrade =>
      cases hresult : upgrade v <;>
        simp [run, runIn, VersionDecoder.hosted, VersionDecoder.upgraded, hdecode, hupgrade, hresult]

/-- The version and the value of a known buffer, nothing for an unknown one. -/
def found (a : Attempt) : Except Failure (Option (Int × Value)) :=
  match a.verdict with
  | .decoded number v => .ok (some (number, v))
  | .unknown => .ok none
  | .failed f => .error f

end Attempt

/-! ## Dispatchers -/

/-- The codec of a family: values are written by the latest codec and read by any decoder. -/
structure Dispatcher where
  family : String
  latestCodec : Codec
  decoders : List VersionDecoder
  nonempty : decoders ≠ []

namespace Dispatcher

/-- The dispatcher over some decoders, of which there must be one. -/
def ofDecoders (family : String) (latestCodec : Codec) (decoders : List VersionDecoder) :
    Except Failure Dispatcher :=
  if h : decoders = [] then .error (.value s!"family '{family}' has no decoders")
  else .ok ⟨family, latestCodec, decoders, h⟩

/-- The numbers of the decoders in the order in which they are tried. -/
def decodeOrder (d : Dispatcher) : List Int := d.decoders.map (·.number)

/-- The highest number among the decoders. -/
def latest (d : Dispatcher) : Int :=
  match d.decodeOrder with
  | [] => 0
  | n :: rest => rest.foldl max n

def serialize (d : Dispatcher) (v : Value) : Except Failure Buffer := d.latestCodec.encode v

def attempt (d : Dispatcher) (buffer : Buffer) : Attempt := .run buffer d.decoders

/-- Reads a buffer: the version that wrote it and its value in the latest version. -/
def deserializeWithVersion (d : Dispatcher) (buffer : Buffer) :
    Except Failure (Option (Int × Value)) :=
  (d.attempt buffer).found

/-- Reads a buffer; an unknown one reads as null. -/
def deserialize (d : Dispatcher) (buffer : Buffer) : Except Failure Value :=
  (d.deserializeWithVersion buffer).map fun found =>
    match found with
    | none => .null
    | some (_, v) => v

/-- Numbers in parentheses, a single one with a comma after it. -/
def orderText : List Int → String
  | [n] => s!"({n},)"
  | numbers => "(" ++ ", ".intercalate (numbers.map toString) ++ ")"

/-- The description of a dispatcher. -/
def text (d : Dispatcher) : String :=
  s!"VersionedCodec({Quoted.quote d.family}, order={orderText d.decodeOrder})"

end Dispatcher

end SchemaVersioning
