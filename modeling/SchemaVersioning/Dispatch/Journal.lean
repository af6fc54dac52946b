import SchemaVersioning.RemoteCall
import SchemaVersioning.Telemetry.Journal

/-!
# Journals of dispatchers

What binding a family and reading a buffer leave in a journal: an event for each binding that
succeeds, one for each decoder that rejects a buffer, and one for the outcome.
-/

namespace SchemaVersioning

open Event

/-- The events of trying the decoders of a dispatcher on a buffer. -/
def Dispatcher.readEvents (d : Dispatcher) (buffer : Buffer) : List Event :=
  let attempt := d.attempt buffer
  let origin := [("component", .text "VersionedCodec"), ("family", .text d.family)]
  let rejected := attempt.rejections.map fun r =>
    debug "decoder_rejected_buffer"
      (origin ++ [("version", .int r.number), ("reason", .text r.reason)])
  let decided := match attempt.verdict with
    | .decoded number _ => [debug "buffer_decoded" (origin ++ [("version", .int number)])]
    | .unknown =>
      [debug "buffer_not_decoded"
        (origin ++ [("tried", .nat d.decoders.length), ("size", .nat buffer.length)])]
    | .failed _ => []
  rejected ++ decided

namespace Family

variable (f : Family)

/-- The event of binding a family, or one of its types. -/
def boundEvents (bs : Bindings) (typeName : Option String) : List Event :=
  match f.dispatcher bs typeName with
  | .error _ => []
  | .ok d =>
    [debug "family_bound" [("family", .text d.family), ("versions", .nat d.decoders.length),
      ("latest", .nat f.latest.number)]]

/-- The events of binding a family that is no remote call. -/
def bindEvents (bs : Bindings) : List Event :=
  if f.kind = .rpc then [] else f.boundEvents bs none

/-- The events of binding the two types of a remote call, up to the first that fails. -/
def callTypeEvents (bs : CallBindings) : List Event :=
  match f.callTypes with
  | .error _ => []
  | .ok (queryType, responseType) =>
    let query := f.boundEvents (bs.map fun (n, b) => (n, b.query)) (some queryType)
    if query.isEmpty then []
    else query ++ f.boundEvents (bs.map fun (n, b) => (n, b.response)) (some responseType)

/-- The events of binding a remote call. -/
def bindCallEvents (bs : CallBindings) : List Event :=
  if f.kind ≠ .rpc ∨ bs.lacking?.isSome then []
  else
    match f.bindCall bs with
    | .error _ => f.callTypeEvents bs
    | .ok call =>
      f.callTypeEvents bs ++
        [debug "rpc_bound" [("family", .text call.family), ("latest", .nat f.latest.number)]]

end Family

end SchemaVersioning
