import SchemaVersioning.Reading.Object

/-!
# Shapes of serialized values

A shape says which data a structural codec takes: scalars, lists, dictionaries, optional values,
tuples of a fixed length, and records with named fields.  `Shape.check` reads data as a value of a
shape.  A strict check takes every scalar as it is, a lenient one also takes integers and booleans
in other clothes; the fields of a record come out in the order of their declaration.  Of several
entries with one key the last one counts, but all entries of a dictionary must fit.
-/

namespace SchemaVersioning

open Reading Checked

mutual

/-- The structure of a value type. -/
inductive Shape where
  | int
  | text
  | bool
  | list (item : Shape)
  | dictionary (item : Shape)
  | optional (inner : Shape)
  | tuple (items : List Shape)
  | record (name : String) (closed : Bool) (fields : List ShapeField)

/-- A field of a record; one with a value of its own may be absent. -/
inductive ShapeField where
  | mk (name : String) (shape : Shape) (absent : Option Value)

end

instance : Inhabited Shape := ⟨.int⟩

/-- The name of a field. -/
def ShapeField.name : ShapeField → String
  | mk name _ _ => name

namespace Shape

/-- The name of a shape: its constructor, or the name of the record. -/
def name : Shape → String
  | int => "int"
  | text => "str"
  | bool => "bool"
  | list _ => "list"
  | dictionary _ => "dict"
  | optional _ => "Optional"
  | tuple _ => "tuple"
  | record name _ _ => name

/-! ## Scalars -/

/-- An integer; a strict one is written as an integer. -/
def checkInteger (strict : Bool) (v : Value) : Checked Value :=
  if strict then
    match v with
    | .int n => accepted (.int n)
    | _ => refuse .notInteger
  else (integer v).map .int

/-- A boolean; a strict one is written as a boolean. -/
def checkBoolean (strict : Bool) (v : Value) : Checked Value :=
  if strict then
    match v with
    | .bool b => accepted (.bool b)
    | _ => refuse .notBoolean
  else (boolean v).map .bool

def checkText (v : Value) : Checked Value := (Reading.text v).map .text

/-! ## Compound values -/

/-- The items of a list, each under its index. -/
def checkEach (check : Value → Checked Value) : Nat → List Value → Checked (List Value)
  | _, [] => accepted []
  | n, v :: rest =>
    (((check v).under (.index n)).map List.cons).combine (checkEach check (n + 1) rest)

/-- An item of a tuple that is not there. -/
def missingAt (n : Nat) : Checked Value := (refuse .missing).under (.index n)

mutual

/-- The value of a shape that data denotes. -/
def check (strict : Bool) : Shape → Value → Checked Value
  | int, v => checkInteger strict v
  | text, v => checkText v
  | bool, v => checkBoolean strict v
  | list item, v =>
    match v with
    | .list vs => (checkEach (fun v => check strict item v) 0 vs).map .list
    | _ => refuse .arrayForList
  | dictionary item, v =>
    match v with
    | .object entries =>
      (dictionaryEntries (fun v => check strict item v) entries).map fun entries =>
        .object (Entries.ofList (entries.map fun (name, v) => (.text name, v)))
    | _ => refuse .objectForDictionary
  | optional inner, v =>
    match v with
    | .null => accepted .null
    | v => check strict inner v
  | tuple items, v =>
    match v with
    | .list vs =>
      if items.length < vs.length then refuse (.tooMany items.length vs.length)
      else (checkTuple strict 0 items vs).map .list
    | _ => refuse .arrayForTuple
  | record _ closed fields, v =>
    match v with
    | .object entries =>
      let known := checkFields strict fields (Entries.ofList entries)
      let known := if closed then onlyFields (fields.map (·.name)) entries known else known
      known.map Value.record
    | _ => refuse .objectForModel

/-- The items of a tuple, in order. -/
def checkTuple (strict : Bool) : Nat → List Shape → List Value → Checked (List Value)
  | _, [], _ => accepted []
  | n, _ :: shapes, [] => ((missingAt n).map List.cons).combine (checkTuple strict (n + 1) shapes [])
  | n, shape :: shapes, v :: rest =>
    (((check strict shape v).under (.index n)).map List.cons).combine
      (checkTuple strict (n + 1) shapes rest)

/-- The fields of a record, in the order of their declaration. -/
def checkFields (strict : Bool) : List ShapeField → Entries → Checked (List (String × Value))
  | [], _ => accepted []
  | ⟨name, shape, absent⟩ :: rest, entries =>
    let value := match entries.find? name, absent with
      | some v, _ => (check strict shape v).under (.field name)
      | none, some v => accepted v
      | none, none => (refuse .missing).under (.field name)
    (value.map fun v => List.cons (name, v)).combine (checkFields strict rest entries)

end

end Shape

end SchemaVersioning
