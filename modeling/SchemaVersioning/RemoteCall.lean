import SchemaVersioning.Binding

/-!
# Remote calls

A remote call has one dispatcher for its queries and one for its responses.  Adapters of the latest
version convert between these and the models of the caller and of the callee.
-/

namespace SchemaVersioning

/-- What the host supplies for a version of a remote call. -/
structure CallBinding where
  query : VersionBinding
  response : VersionBinding
  adapters : List (String × Conversion)

/-- Bindings of a remote call by version number. -/
abbrev CallBindings := ByNumber CallBinding

namespace CallBinding

/-- The adapters that are not there. -/
def missingAdapters (b : CallBinding) : List String :=
  callAdapters.filter fun name => (b.adapters.lookup name).isNone

end CallBinding

/-- A bound remote call. -/
structure RemoteCall where
  family : String
  query : Dispatcher
  response : Dispatcher
  adapters : List (String × Conversion)

namespace RemoteCall

variable (call : RemoteCall)

/-- Applies the adapter of a name. -/
def adapt (name : String) (v : Value) : Except Failure Value :=
  match call.adapters.lookup name with
  | some adapter => adapter v
  | none => .error (.key name)

/-- Applies the adapter of a name, but not to null. -/
def adaptKnown (name : String) (v : Value) : Except Failure Value :=
  match v with
  | .null => .ok .null
  | v => call.adapt name v

/-- Writes the query of a caller. -/
def encodeQuery (v : Value) : Except Failure Buffer := do
  call.query.serialize (← call.adapt "query_of_caller_model" v)

/-- Reads a query for the callee; an unknown one reads as null. -/
def decodeQuery (buffer : Buffer) : Except Failure Value := do
  call.adaptKnown "callee_model_of_query" (← call.query.deserialize buffer)

/-- Writes the response of a callee. -/
def encodeResponse (v : Value) : Except Failure Buffer := do
  call.response.serialize (← call.adapt "response_of_callee_model" v)

/-- Reads a response for the caller; an unknown one reads as null. -/
def decodeResponse (buffer : Buffer) : Except Failure Value := do
  call.adaptKnown "caller_model_of_response" (← call.response.deserialize buffer)

end RemoteCall

/-! ## Binding -/

/-- The first binding that lacks adapters. -/
def CallBindings.lacking? : CallBindings → Option BindingFault
  | [] => none
  | (number, b) :: rest =>
    match b.missingAdapters with
    | [] => lacking? rest
    | names => some (.missingAdapters number names)

/-- The two types of a remote call. -/
def Family.callTypes (f : Family) : Except Failure (String × String) :=
  match f.typeNames with
  | [query, response] => .ok (query, response)
  | names => .error (.notPair names.length)

/-- The remote call of a family over some bindings. -/
def Family.bindCall (f : Family) (bs : CallBindings) : Except Failure RemoteCall :=
  if f.kind ≠ .rpc then .error (.ofBinding f.name .noRemoteCall)
  else
    match bs.lacking? with
    | some fault => .error (.ofBinding f.name fault)
    | none => do
      let (queryType, responseType) ← f.callTypes
      let query ← f.dispatcher (bs.map fun (n, b) => (n, b.query)) (some queryType)
      let response ← f.dispatcher (bs.map fun (n, b) => (n, b.response)) (some responseType)
      match bs.lookup (f.latest.number : Int) with
      | none => .error (.key (toString f.latest.number))
      | some b => .ok ⟨f.name, query, response, b.adapters⟩

end SchemaVersioning
