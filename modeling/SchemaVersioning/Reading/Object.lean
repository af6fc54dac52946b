import SchemaVersioning.Reading.Nesting
import SchemaVersioning.Reading.Scalar

/-!
# Reading lists and objects

Readers of the parts of a value are given each part with the fact that it is smaller than the
whole, so that a model may occur inside itself.  The issues of an object come in the order in which
its fields are asked for, and those of unknown entries last, in the order of the data.
-/

namespace SchemaVersioning.Reading

open Checked

variable {α : Type}

/-- Reads a value that is smaller than a bound. -/
abbrev PartReader (bound : Nat) (α : Type) := (v : Value) → sizeOf v < bound → Checked α

/-! ## Lists -/

/-- The outcomes of the items, each under its index. -/
def items (bound : Nat) (read : PartReader bound α) :
    (vs : List Value) → sizeOf vs ≤ bound → Nat → Checked (List α)
  | [], _, _ => accepted []
  | v :: rest, h, n =>
    let first := (read v (by simp at h; omega)).under (.index n)
    (first.map List.cons).combine (items bound read rest (by simp at h; omega) (n + 1))

/-- A list whose items are read one by one. -/
def tupleOf (v : Value) (read : PartReader (sizeOf v) α) : Checked (List α) :=
  match v with
  | .list vs => items _ read vs (by simp) 0
  | .set vs => items _ read vs (by simp) 0
  | .cyclic _ content =>
    tupleOf content fun item h => read item (by simp only [Value.cyclic.sizeOf_spec]; omega)
  | _ => refuse .notTuple

def textTuple (v : Value) : Checked (List String) := tupleOf v fun item _ => text item

/-- A list with at least so many items. -/
def atLeast (needed : Nat) (list : Checked (List α)) : Checked (List α) :=
  list.andThen fun xs =>
    if xs.length < needed then refuse (.tooFew needed xs.length) else accepted xs

/-- A set of texts, in the order of the data. -/
def textSet (v : Value) : Checked (List String) :=
  match v.bare with
  | .list _ => textTuple v
  | .set _ => textTuple v
  | _ => refuse .notSet

/-! ## Objects -/

/-- A field that must be there. -/
def required (entries : Entries) (name : String) (read : PartReader (sizeOf entries) α) :
    Checked α :=
  Checked.under (.field name) <|
    match h : entries.find? name with
    | none => refuse .missing
    | some v => read v (Entries.sizeOf_lt_of_find? h)

/-- A field that has a value of its own when it is absent. -/
def optional (entries : Entries) (name : String) (absent : α)
    (read : PartReader (sizeOf entries) α) : Checked α :=
  match h : entries.find? name with
  | none => accepted absent
  | some v => (read v (Entries.sizeOf_lt_of_find? h)).under (.field name)

/-- The entries that belong to no field. -/
def strangers (known : List String) : Entries → List Issue
  | [] => []
  | (.text name, _) :: rest =>
    if known.contains name then strangers known rest
    else ⟨[.field name], .unexpected⟩ :: strangers known rest
  | (key, _) :: rest => ⟨[.field key.shown], .keyNotText⟩ :: strangers known rest

/-- Whether a key is a text with surrogates. -/
def isBroken : Key → Bool
  | .broken _ => true
  | _ => false

/-- Fields that have been read, and no others.  An object with a broken key is refused as a
whole. -/
def onlyFields (known : List String) (entries : Entries) (fields : Checked α) : Checked α :=
  if entries.any fun (key, _) => isBroken key then refuse .notUnicode
  else
    match strangers known entries, fields with
    | [], fields => fields
    | issues, accepted _ => rejected issues
    | issues, rejected more => rejected (more ++ issues)

/-- The value as an object that stands for a model. -/
def model (name : String) (v : Value) (read : (entries : Entries) → sizeOf entries < sizeOf v →
    Checked α) : Checked α :=
  match v with
  | .object entries => read entries (by simp)
  | .cyclic _ content =>
    model name content fun entries h => read entries (by simp only [Value.cyclic.sizeOf_spec]; omega)
  | _ => refuse (.notModel name)

/-- A further condition on a model whose fields are in order. -/
def condition (check : α → Option String) (fields : Checked α) : Checked α :=
  fields.andThen fun a =>
    match check a with
    | none => accepted a
    | some reason => refuse (.refused reason)

/-- The entries of a dictionary, each value under its key. -/
def dictionaryEntries (read : Value → Checked α) : Entries → Checked (List (String × α))
  | [] => accepted []
  | (key, v) :: rest =>
    let first := (read v).under (.field key.shown)
    (first.map fun a => List.cons (key.shown, a)).combine (dictionaryEntries read rest)

/-- A dictionary with values of one kind. -/
def dictionary (read : Value → Checked α) (v : Value) : Checked (List (String × α)) :=
  match v.bare with
  | .object entries => dictionaryEntries read entries
  | _ => refuse .notDictionary

end SchemaVersioning.Reading
