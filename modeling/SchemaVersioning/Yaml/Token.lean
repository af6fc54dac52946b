import SchemaVersioning.Text.Utf8
import SchemaVersioning.Yaml.ScalarText

/-!
# Tokens of a document

The marks, words and scalars that a document is made of, and the readers of its anchors, tags and
directives.  The end of a document's tokens is the end of their list.
-/

namespace SchemaVersioning.Yaml

/-- A line that begins with a percent sign. -/
inductive Directive where
  | version (major : Nat)
  | handle (name start : String)
  | unknown
deriving DecidableEq, Repr

/-- A token.  A tag is a handle and what follows it; a tag without a handle is already whole. -/
inductive Token where
  | directive (d : Directive)
  | documentStart
  | documentEnd
  | blockSequenceStart
  | blockMappingStart
  | blockEnd
  | flowSequenceStart
  | flowSequenceEnd
  | flowMappingStart
  | flowMappingEnd
  | blockEntry
  | flowEntry
  | key
  | value
  | aliasTo (anchor : String)
  | anchor (name : String)
  | tag (handle : Option String) (suffix : String)
  | scalar (plain : Bool) (text : ScalarText)
deriving DecidableEq, Repr

/-! ## Anchors -/

/-- Whether the name of an anchor may end here. -/
def endsName : Option Char → Bool
  | none => true
  | some c => endsWord (some c) || "?:,]\x7d%@\x60".toList.contains c

/-- The name behind the mark of an anchor or an alias. -/
def anchorName (c : Cursor) : Except Fault (String × Cursor) :=
  let (name, c) := c.span isNameChar
  if name.isEmpty || !endsName c.peek then
    .error (.malformed "expected an alphabetic or numeric character")
  else .ok (String.ofList name, c)

/-! ## Tags -/

/-- A character of a resource identifier, or of an escape in it. -/
def isUriChar (c : Char) : Bool :=
  ('0' ≤ c && c ≤ '9') || ('A' ≤ c && c ≤ 'Z') || ('a' ≤ c && c ≤ 'z')
    || "-;/?:@&=+$,_.!~*'()[]%".toList.contains c

/-- The text of an identifier with escapes; `bytes` are those of the escapes just before it. -/
def unescapeUri (bytes : Buffer) : List Char → Except Fault (List Char)
  | '%' :: high :: low :: rest =>
    match Json.hexNumber? [high, low] with
    | none => .error (.malformed "expected a URI escape sequence of two hexadecimal numbers")
    | some n => unescapeUri (bytes ++ [UInt8.ofNat n]) rest
  | cs =>
    match Encoding.decodeUtf8 0 bytes, cs with
    | .error _, _ => .error (.malformed "found an invalid URI escape sequence")
    | .ok text, [] => .ok text
    | .ok text, c :: rest =>
      if c = '%' then .error (.malformed "expected a URI escape sequence of two hexadecimal numbers")
      else do .ok (text ++ c :: (← unescapeUri [] rest))

/-- A resource identifier. -/
def uri (c : Cursor) : Except Fault (String × Cursor) :=
  let (run, c) := c.span isUriChar
  if run.isEmpty then .error (.malformed "expected a URI")
  else do .ok (String.ofList (← unescapeUri [] run), c)

/-- The handle of a tag, with both its marks. -/
def tagHandle (c : Cursor) : Except Fault (String × Cursor) :=
  if c.peek ≠ some '!' then .error (.malformed "expected '!'")
  else if c.peekAt 1 = some ' ' then .ok ("!", c.next)
  else
    let (name, c) := c.next.span isNameChar
    if c.peek ≠ some '!' then .error (.malformed "expected '!'")
    else .ok (String.ofList ('!' :: name ++ ['!']), c.next)

/-- Whether the tag at its first mark has a second one. -/
def hasHandle (c : Cursor) : Bool :=
  ((c.rest.drop 1).takeWhile fun ch => !endsTag (some ch)).contains '!'

/-- A tag at its mark. -/
def tag (c : Cursor) : Except Fault (Token × Cursor) := do
  let (token, c) ←
    if c.peekAt 1 = some '<' then do
      let (name, c) ← uri (c.skip 2)
      if c.peek = some '>' then .ok (Token.tag none name, c.next)
      else .error (Fault.malformed "expected '>'")
    else if endsWord (c.peekAt 1) then .ok (Token.tag none "!", c.next)
    else do
      let (handle, c) ← if hasHandle c then tagHandle c else .ok ("!", c.next)
      let (suffix, c) ← uri c
      .ok (Token.tag (some handle) suffix, c)
  if endsTag c.peek then .ok (token, c) else .error (.malformed "expected ' '")

/-! ## Directives -/

/-- A run of digits as a number. -/
def digits (c : Cursor) : Except Fault (Nat × Cursor) :=
  let (run, c) := c.span Json.isDigit
  if run.isEmpty then .error (.malformed "expected a digit")
  else if DecimalDigit.maxCount < run.length then
    .error (.value (DecimalDigit.tooManyText run.length))
  else .ok (Json.digitsNumber run, c)

/-- The value of a version directive. -/
def versionDirective (c : Cursor) : Except Fault (Directive × Cursor) := do
  let (major, c) ← digits c.skipSpaces
  if c.peek ≠ some '.' then .error (Fault.malformed "expected a digit or '.'")
  let (_, c) ← digits c.next
  if endsTag c.peek then .ok (.version major, c) else .error (.malformed "expected a digit or ' '")

/-- The value of a directive that gives a handle its meaning. -/
def handleDirective (c : Cursor) : Except Fault (Directive × Cursor) := do
  let (name, c) ← tagHandle c.skipSpaces
  if c.peek ≠ some ' ' then .error (Fault.malformed "expected ' '")
  let (start, c) ← uri c.skipSpaces
  if endsTag c.peek then .ok (.handle name start, c) else .error (.malformed "expected ' '")

/-- A directive at its mark, with the rest of its line. -/
def directive (c : Cursor) : Except Fault (Token × Cursor) := do
  let (name, c) := c.next.span isNameChar
  if name.isEmpty || !endsTag c.peek then
    .error (Fault.malformed "expected an alphabetic or numeric character")
  let (d, c) ← match String.ofList name with
    | "YAML" => versionDirective c
    | "TAG" => handleDirective c
    | _ => .ok (.unknown, c.skipLine)
  .ok (.directive d, ← c.skipEmptyLine)

end SchemaVersioning.Yaml
