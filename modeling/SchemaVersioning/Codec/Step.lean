import SchemaVersioning.Codec
import SchemaVersioning.Display

/-!
# Conversion steps

A small language of conversions between plain values, with which a host describes its upgrade
functions and the two directions of a codec.  A step refuses a value of the wrong kind.
-/

namespace SchemaVersioning

/-- Where the field of a built object comes from. -/
inductive FieldSource where
  | field (name : String)
  | constant (v : Value)

/-- A conversion of plain values. -/
inductive Step where
  | identity
  | constant (v : Value)
  | fail (f : Failure)
  | get (field : String)
  | build (fields : List (String × FieldSource))
  | pack (fields : List String)
  | unpack (fields : List String)
  | positive
  | add (n : Int)
  | parseInt
  | showInt
  | prepend (text : String)
  | strip (text : String)
  | chain (steps : List Step)
  | typed (step : Step) (shape : Shape)
deriving Inhabited

namespace Step

/-- The value of a field that must be there. -/
def fieldOf (field : String) (v : Value) : Except Failure Value :=
  match v with
  | .object entries =>
    match Entries.find? field entries with
    | some v => .ok v
    | none => .error (.key field)
  | .null => .error (.type "'NoneType' object is not subscriptable")
  | .list _ => .error (.type "list indices must be integers or slices, not str")
  | .text _ => .error (.type "string indices must be integers, not 'str'")
  | v => .error (.type s!"'{v.kindName}' object is not subscriptable")

/-- The integer that a value is; a boolean counts as one. -/
def integerOf? : Value → Option Int
  | .int n => some n
  | .bool b => some (if b then 1 else 0)
  | _ => none

/-- The integer of a plain numeral: digits without needless zeros, after a minus sign or none. -/
def integerOfText (s : String) : Except Failure Int :=
  match IntegerText.plainNumeral? s.toList with
  | none => .error (.value s!"not an integer: {s}")
  | some (negative, digits) =>
    if DecimalDigit.maxCount < digits.length then
      .error (.value (DecimalDigit.tooManyText digits.length))
    else .ok (IntegerText.numeralValue negative digits)

/-- An object of fields that are taken from another one or are always the same. -/
def buildFrom (v : Value) : List (String × FieldSource) → Except Failure (List (Key × Value))
  | [] => .ok []
  | (name, .constant w) :: rest => do .ok ((.text name, w) :: (← buildFrom v rest))
  | (name, .field source) :: rest => do
    let w ← fieldOf source v
    .ok ((.text name, w) :: (← buildFrom v rest))

/-- The parts of a value that has parts: items, characters or keys. -/
def partsOf? : Value → Option (List Value)
  | .list items => some items
  | .text s => some (s.toList.map fun c => .text (String.singleton c))
  | .object entries => some ((Entries.ofList entries).map fun (key, _) => .text key.shown)
  | _ => none

/-- The object that names the items of a list. -/
def unpackList (fields : List String) (items : List Value) : Except Failure Value :=
  if items.length = fields.length then
    .ok (.object (Entries.ofList ((fields.map Key.text).zip items)))
  else .error (.value s!"expected {fields.length} items")

mutual

/-- The result of a conversion. -/
def run : Step → Conversion
  | identity, v => .ok v
  | constant w, _ => .ok w
  | fail f, _ => .error f
  | get field, v => fieldOf field v
  | build fields, v => do .ok (.object (Entries.ofList (← buildFrom v fields)))
  | pack fields, v => do .ok (.list (← fields.mapM fun field => fieldOf field v))
  | unpack fields, v =>
    match partsOf? v with
    | some parts => unpackList fields parts
    | none => .error (.type s!"object of type '{v.kindName}' has no len()")
  | positive, v =>
    match integerOf? v, v with
    | some n, _ => if n ≤ 0 then .error (.value "must be positive") else .ok v
    | none, .real x => if x.isNotPositive then .error (.value "must be positive") else .ok v
    | none, v =>
      .error (.type s!"'<=' not supported between instances of '{v.kindName}' and 'int'")
  | add n, v =>
    match integerOf? v, v with
    | some m, _ => .ok (.int (m + n))
    | none, .real x => .ok (.real (x.add (.ofInt n)))
    | none, .text _ => .error (.type "can only concatenate str (not \"int\") to str")
    | none, .list _ => .error (.type "can only concatenate list (not \"int\") to list")
    | none, v => .error (.type s!"unsupported operand type(s) for +: '{v.kindName}' and 'int'")
  | parseInt, v =>
    match v with
    | .text s => (integerOfText s).map .int
    | v => .error (.type s!"expected string or bytes-like object, got '{v.kindName}'")
  | showInt, v => (Display.text v).map .text
  | prepend text, v =>
    match v with
    | .text s => .ok (.text (text ++ s))
    | v => .error (.type s!"can only concatenate str (not \"{v.kindName}\") to str")
  | strip text, v =>
    match v with
    | .text s =>
      if text.toList.isPrefixOf s.toList then
        .ok (.text (String.ofList (s.toList.drop text.length)))
      else .error (.value "missing prefix")
    | v => .error (.noAttribute v.kindName "startswith")
  | chain steps, v => runAll steps v
  | typed step shape, v => do
    match shape.check true (← run step v) with
    | .accepted w => .ok w
    | .rejected issues => .error (.invalid issues)

/-- The result of conversions one after another. -/
def runAll : List Step → Conversion
  | [], v => .ok v
  | step :: rest, v => do runAll rest (← run step v)

end

end Step

end SchemaVersioning
