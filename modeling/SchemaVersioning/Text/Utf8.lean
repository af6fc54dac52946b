import SchemaVersioning.Text.Quoted

/-!
# Text encodings

Buffers are lists of bytes.  `decode` reads one as text in a given encoding, or names the first
bytes that are not text, with the reason; `encode` writes a text, or fails where the encoding
lacks one of its characters.
-/

namespace SchemaVersioning

/-- A serialized value. -/
abbrev Buffer := List UInt8

/-- How texts are written as bytes. -/
inductive Encoding where
  | utf8
  | ascii
  | latin1
deriving DecidableEq, Repr

namespace Encoding

/-- The common name of an encoding. -/
def name : Encoding → String
  | utf8 => "utf-8"
  | ascii => "ascii"
  | latin1 => "latin-1"

/-- Why bytes are not text. -/
inductive Reason where
  | startByte
  | continuationByte
  | endOfData
  | notAscii
deriving DecidableEq, Repr

/-- The wording of a reason. -/
def Reason.text : Reason → String
  | startByte => "invalid start byte"
  | continuationByte => "invalid continuation byte"
  | endOfData => "unexpected end of data"
  | notAscii => "ordinal not in range(128)"

/-- The bytes at which decoding stopped: their offset, the bytes, and the reason. -/
structure Fault where
  encoding : Encoding
  position : Nat
  bytes : List UInt8
  reason : Reason
deriving DecidableEq, Repr

/-- The report of a fault, by its one byte or by the range of its bytes. -/
def Fault.message (f : Fault) : String :=
  let what := match f.bytes with
    | [b] => s!"byte 0x{String.ofList (hexDigits 2 b.toNat)} in position {f.position}"
    | bytes => s!"bytes in position {f.position}-{f.position + bytes.length - 1}"
  s!"'{f.encoding.name}' codec can't decode {what}: {f.reason.text}"

/-! ## UTF-8 -/

/-- How many bytes a character takes that starts with this byte; zero for no character. -/
def sequenceLength (b : UInt8) : Nat :=
  let n := b.toNat
  if n < 0x80 then 1 else if n < 0xC2 then 0 else if n < 0xE0 then 2
  else if n < 0xF0 then 3 else if n < 0xF5 then 4 else 0

def isContinuation (b : UInt8) : Bool := 0x80 ≤ b.toNat && b.toNat < 0xC0

/-- Whether the second byte keeps the character out of shorter forms, of the surrogates and of
the numbers beyond the last code point. -/
def isSecond (first second : UInt8) : Bool :=
  isContinuation second &&
    match first.toNat with
    | 0xE0 => 0xA0 ≤ second.toNat
    | 0xED => second.toNat < 0xA0
    | 0xF0 => 0x90 ≤ second.toNat
    | 0xF4 => second.toNat < 0x90
    | _ => true

/-- The number that the payload bits of a character's bytes spell. -/
def payload (first : UInt8) (rest : List UInt8) : Nat :=
  let top := match rest.length with
    | 0 => first.toNat
    | 1 => first.toNat - 0xC0
    | 2 => first.toNat - 0xE0
    | _ => first.toNat - 0xF0
  rest.foldl (fun n b => n * 64 + (b.toNat - 0x80)) top

/-- The continuation bytes that follow a first byte and agree with it. -/
def continuations (first : UInt8) (rest : List UInt8) : List UInt8 :=
  match rest.take (sequenceLength first - 1) with
  | [] => []
  | second :: more =>
    if isSecond first second then second :: more.takeWhile isContinuation else []

/-- The text of a buffer that begins at `position`. -/
def decodeUtf8 (position : Nat) : Buffer → Except Fault (List Char)
  | [] => .ok []
  | b :: rest =>
    let needed := sequenceLength b - 1
    let more := continuations b rest
    if sequenceLength b = 0 then .error ⟨utf8, position, [b], .startByte⟩
    else if more.length = needed then do
      let cs ← decodeUtf8 (position + 1 + needed) (rest.drop needed)
      .ok (Char.ofNat (payload b more) :: cs)
    else if more.length = rest.length then .error ⟨utf8, position, b :: more, .endOfData⟩
    else .error ⟨utf8, position, b :: more, .continuationByte⟩
termination_by buffer => buffer.length
decreasing_by simp only [List.length_drop, List.length_cons]; omega

/-- The bytes of a character. -/
def encodeChar (c : Char) : List UInt8 :=
  let n := c.toNat
  if n < 0x80 then [UInt8.ofNat n]
  else if n < 0x800 then [UInt8.ofNat (0xC0 + n / 64), UInt8.ofNat (0x80 + n % 64)]
  else if n < 0x10000 then
    [UInt8.ofNat (0xE0 + n / 4096), UInt8.ofNat (0x80 + n / 64 % 64), UInt8.ofNat (0x80 + n % 64)]
  else
    [UInt8.ofNat (0xF0 + n / 262144), UInt8.ofNat (0x80 + n / 4096 % 64),
      UInt8.ofNat (0x80 + n / 64 % 64), UInt8.ofNat (0x80 + n % 64)]

/-! ## Encodings of one byte a character -/

/-- The text of a buffer in which each byte is a character below `limit`. -/
def decodeBytes (encoding : Encoding) (limit position : Nat) : Buffer → Except Fault (List Char)
  | [] => .ok []
  | b :: rest =>
    if b.toNat < limit then do
      .ok (Char.ofNat b.toNat :: (← decodeBytes encoding limit (position + 1) rest))
    else .error ⟨encoding, position, [b], .notAscii⟩

/-- The bytes of a text whose characters lie below `limit`. -/
def encodeBytes (limit : Nat) (cs : List Char) : Option Buffer :=
  if cs.all (·.toNat < limit) then some (cs.map fun c => UInt8.ofNat c.toNat) else none

/-! ## All encodings -/

/-- The text that a buffer holds in an encoding. -/
def decode (encoding : Encoding) (buffer : Buffer) : Except Fault String :=
  String.ofList <$> match encoding with
    | utf8 => decodeUtf8 0 buffer
    | ascii => decodeBytes ascii 128 0 buffer
    | latin1 => decodeBytes latin1 256 0 buffer

/-- The bytes of a text in an encoding, if it has them. -/
def encode (encoding : Encoding) (text : String) : Option Buffer :=
  match encoding with
  | utf8 => some (text.toList.flatMap encodeChar)
  | ascii => encodeBytes 128 text.toList
  | latin1 => encodeBytes 256 text.toList

end Encoding

end SchemaVersioning
