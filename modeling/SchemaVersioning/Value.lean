import SchemaVersioning.Number.Binary64
import SchemaVersioning.Text.Surrogate
import SchemaVersioning.Text.Utf8

/-!
# Values

The data that documents, buffers and answers are made of: null, booleans, integers of any size,
doubles, texts, lists and objects.  A document can also hold sets, byte strings, dates, keys that
are no text, texts with unpaired code units, and parts that contain themselves; most models refuse
these.
-/

namespace SchemaVersioning

/-- The key of an object entry.  A broken key is a text with surrogates. -/
inductive Key where
  | text (name : String)
  | other (shown : String)
  | broken (points : List Nat)
deriving DecidableEq, Repr, Inhabited

/-- A key as it appears in the path of an issue. -/
def Key.shown : Key → String
  | text name => name
  | other shown => shown
  | broken points => keptText points

/-- A calendar date, or a date with a time of day. -/
inductive Moment where
  | date
  | datetime
deriving DecidableEq, Repr

/-- Plain data.  The entries of an object keep their order and have distinct keys, unless the object
is read from a text that repeats a key.  A broken text has surrogates among its code points.  A part
that contains itself is unfolded to some depth, and each of its occurrences is marked with its
identity. -/
inductive Value where
  | null
  | bool (b : Bool)
  | int (n : Int)
  | real (x : Binary64)
  | text (s : String)
  | broken (points : List Nat)
  | list (items : List Value)
  | object (entries : List (Key × Value))
  | set (items : List Value)
  | bytes (buffer : Buffer)
  | moment (m : Moment) (shown : String)
  | cyclic (identity : Nat) (content : Value)
deriving Inhabited

namespace Value

/-- An object whose keys are all texts. -/
def record (entries : List (String × Value)) : Value :=
  object (entries.map fun (name, v) => (Key.text name, v))

def texts (items : List String) : Value := list (items.map text)

def nat (n : Nat) : Value := int n

/-- The value, or null. -/
def ofOption {α : Type} (f : α → Value) : Option α → Value
  | none => null
  | some a => f a

/-- The value without the mark of a part that contains itself. -/
def bare : Value → Value
  | cyclic _ content => bare content
  | v => v

/-- The value without the mark is not larger. -/
theorem sizeOf_bare_le : ∀ v : Value, sizeOf (bare v) ≤ sizeOf v
  | cyclic _ content => by
    have := sizeOf_bare_le content
    simp only [bare, cyclic.sizeOf_spec]
    omega
  | null | bool _ | int _ | real _ | text _ | broken _ | list _ | object _ | set _ | bytes _
  | moment _ _ => by simp [bare]

/-- The short name of a value's kind. -/
def kindName : Value → String
  | null => "NoneType"
  | bool _ => "bool"
  | int _ => "int"
  | real _ => "float"
  | text _ => "str"
  | broken _ => "str"
  | list _ => "list"
  | object _ => "dict"
  | set _ => "set"
  | bytes _ => "bytes"
  | moment .date _ => "date"
  | moment .datetime _ => "datetime"
  | cyclic _ content => kindName content

end Value

/-! ## Entries -/

/-- The entries of an object, in order. -/
abbrev Entries := List (Key × Value)

namespace Entries

/-- The value under a text key. -/
def find? (name : String) : Entries → Option Value
  | [] => none
  | (key, v) :: rest => if key = .text name then some v else find? name rest

/-- The entries with a value put under a key: in the key's place if it is there, else at the end. -/
def insert (key : Key) (v : Value) : Entries → Entries
  | [] => [(key, v)]
  | (k, old) :: rest => if k = key then (k, v) :: rest else (k, old) :: insert key v rest

/-- Entries read one after another; a later value takes the place of an earlier one. -/
def ofList (pairs : List (Key × Value)) : Entries :=
  pairs.foldl (fun entries (key, v) => entries.insert key v) []

/-- A value found in the entries is smaller than they are. -/
theorem sizeOf_lt_of_find? {name : String} {v : Value} :
    ∀ {entries : Entries}, find? name entries = some v → sizeOf v < sizeOf entries
  | (key, w) :: rest, h => by
    unfold find? at h
    split at h
    · cases h
      simp only [List.cons.sizeOf_spec, Prod.mk.sizeOf_spec]
      omega
    · have := sizeOf_lt_of_find? h
      simp only [List.cons.sizeOf_spec]
      omega

end Entries

namespace Value

/-- The value under a text key of an object. -/
def get? (v : Value) (name : String) : Option Value :=
  match v with
  | object entries => Entries.find? name entries
  | _ => none

mutual

/-- The value without the null entries of its objects, at every depth. -/
def withoutNulls : Value → Value
  | list items => list (withoutNullsItems items)
  | object entries => object (withoutNullsEntries entries)
  | v => v

/-- `withoutNulls` on the items of a list. -/
def withoutNullsItems : List Value → List Value
  | [] => []
  | v :: rest => withoutNulls v :: withoutNullsItems rest

/-- `withoutNulls` on the entries of an object. -/
def withoutNullsEntries : List (Key × Value) → List (Key × Value)
  | [] => []
  | (key, v) :: rest =>
    match v with
    | null => withoutNullsEntries rest
    | _ => (key, withoutNulls v) :: withoutNullsEntries rest

end

end Value

end SchemaVersioning
