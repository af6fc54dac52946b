import SchemaVersioning.Codec.Shape
import SchemaVersioning.Failure
import SchemaVersioning.Json.Reader
import SchemaVersioning.Json.Writer

/-!
# Codecs

A codec is a pair of an encoder and a decoder.  A decoder that cannot read a buffer fails with
`Failure.decode`; any other failure is an error of the host.  `structural` derives a codec from a
shape, `ofBinable` wraps another codec by a pair of conversions, `ofStringable` a text form in any
encoding of the host.
-/

namespace SchemaVersioning

/-- A conversion of the host, which may fail. -/
abbrev Conversion := Value → Except Failure Value

/-! ## Encodings of the host -/

/-- What the host knows under the name of a text encoding: how buffers are read as texts and texts
are written as buffers, either of which may fail. -/
structure HostEncoding where
  name : String
  decode : Buffer → Except Failure String
  encode : String → Except Failure Buffer

/-- An encoding as the host knows it. -/
def Encoding.hosted (encoding : Encoding) : HostEncoding where
  name := encoding.name
  decode buffer := (encoding.decode buffer).mapError .undecodable
  encode s :=
    match encoding.encode s with
    | some buffer => .ok buffer
    | none =>
      .error (.host ⟨"UnicodeEncodeError", true⟩ s!"'{encoding.name}' codec can't encode characters")

/-- A name under which the host knows no encoding. -/
def HostEncoding.unknown (name : String) : HostEncoding :=
  let failure := Failure.host ⟨"LookupError", false⟩ ("unknown encoding: " ++ name)
  { name := name
    decode := fun _ => .error failure
    encode := fun _ => .error failure }

/-! ## Codecs -/

/-- An encoder and a decoder.  `ofData` reads a value of the codec from the data of the host, and
`adapter` names the wrapper that made it, if one did. -/
structure Codec where
  name : String
  adapter : Option String
  ofData : Value → Checked Value
  encode : Value → Except Failure Buffer
  decode : Buffer → Except Failure Value

namespace Codec

/-- The deepest nesting of a buffer's lists and objects. -/
def maxDepth : Nat := 200

/-! ## Structural codecs -/

def issuesText (count : Nat) : String := s!"{count} validation error(s)"

/-- The data that a buffer holds as JSON. -/
def data? (buffer : Buffer) : Option Value :=
  match Encoding.utf8.decode buffer with
  | .ok text => Json.read? maxDepth text.toList
  | .error _ => none

/-- The data of a buffer as a value of a shape. -/
def decodeShape (name : String) (shape : Shape) (strict : Bool) (buffer : Buffer) :
    Except Failure Value :=
  match data? buffer with
  | none => .error (.decode name (issuesText 1))
  | some v =>
    match shape.check strict v with
    | .accepted v => .ok v
    | .rejected issues => .error (.decode name (issuesText issues.length))

def encodeJson (v : Value) : Buffer := (Json.compact v).toList.flatMap Encoding.encodeChar

/-- Reads data of the host, which is handed over as JSON: data that nests too many lists and objects
is refused before it is looked at. -/
def readShape (shape : Shape) (v : Value) : Checked Value :=
  match Json.spacedEnd maxDepth 0 v with
  | .error column => Checked.refuse (.tooNested (column + 1))
  | .ok _ => shape.check true v

/-- The codec that follows from a shape. -/
def structural (shape : Shape) (strict : Bool) : Codec :=
  let name := s!"PydanticCodec({shape.name})"
  { name := name
    adapter := none
    ofData := readShape shape
    encode := fun v => .ok (encodeJson v)
    decode := decodeShape name shape strict }

/-! ## Wrappers -/

/-- A failure of a conversion while decoding: a refusal of the value becomes a decoding failure of
the named codec. -/
def refusalOf (name : String) (f : Failure) : Failure :=
  if f.isRefusal then .decode name f.text else f

/-- A codec whose values are those of another one, converted. -/
def ofBinable (wrapped : Codec) (toBinable ofBinable : Conversion) : Codec :=
  let name := s!"OfBinable({wrapped.name})"
  { name := name
    adapter := some "of_binable"
    ofData := .accepted
    encode := fun v => do wrapped.encode (← toBinable v)
    decode := fun buffer => do
      let binable ← wrapped.decode buffer
      (ofBinable binable).mapError (refusalOf name) }

/-- The bytes of a text form. -/
def encodeText (encoding : HostEncoding) : Value → Except Failure Buffer
  | .text s => encoding.encode s
  | v => .error (.noAttribute v.kindName "encode")

/-- A codec whose values have a text form. -/
def ofStringable (encoding : HostEncoding) (toText ofText : Conversion) : Codec :=
  let name := s!"OfStringable(encoding={Quoted.quote encoding.name})"
  { name := name
    adapter := some "of_stringable"
    ofData := .accepted
    encode := fun v => do encodeText encoding (← toText v)
    decode := fun buffer =>
      match encoding.decode buffer with
      | .error f => .error (refusalOf name f)
      | .ok text => (ofText (.text text)).mapError (refusalOf name) }

instance : Inhabited Codec := ⟨structural .int true⟩

end Codec

end SchemaVersioning
