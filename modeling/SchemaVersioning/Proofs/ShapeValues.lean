import Mathlib.Data.List.Induction
import Mathlib.Data.List.Nodup
import SchemaVersioning.Codec.Shape
import SchemaVersioning.Proofs.JsonReading
import SchemaVersioning.Proofs.Omissions

/-!
# Values of a shape

Which values have a shape (`Shape.Holds`), said apart from how data is checked.  Such a value is data
that can be written in JSON, and both the strict and the lenient check take it as it is
(`check_of_holds`).
-/

namespace SchemaVersioning

open Checked Reading

namespace Shape

mutual

/-- The value is one of the shape, with integers that are not too long.  A record has each field of
its shape once, in the order of their declaration. -/
def Holds : Shape → Value → Prop
  | int, v => ∃ n, v = .int n ∧ IsShort n
  | text, v => ∃ s, v = .text s
  | bool, v => ∃ b, v = .bool b
  | list item, v => ∃ vs, v = .list vs ∧ ∀ w ∈ vs, Holds item w
  | dictionary item, v =>
    ∃ entries, v = .record entries ∧ (entries.map (·.1)).Nodup ∧ ∀ e ∈ entries, Holds item e.2
  | optional inner, v => v = .null ∨ Holds inner v
  | tuple items, v => ∃ vs, v = .list vs ∧ HoldInTurn items vs
  | record _ _ fields, v =>
    ∃ entries, v = .record entries ∧ (entries.map (·.1)).Nodup ∧ HoldByName fields entries

/-- The values are of the shapes, one by one. -/
def HoldInTurn : List Shape → List Value → Prop
  | [], vs => vs = []
  | shape :: shapes, vs => ∃ v rest, vs = v :: rest ∧ Holds shape v ∧ HoldInTurn shapes rest

/-- The entries are those of the fields, one by one. -/
def HoldByName : List ShapeField → List (String × Value) → Prop
  | [], es => es = []
  | ⟨name, shape, _⟩ :: fields, es =>
    ∃ v rest, es = (name, v) :: rest ∧ Holds shape v ∧ HoldByName fields rest

end

/-! ## Data -/

theorem allData_of_forall {vs : List Value} (h : ∀ v ∈ vs, v.IsData) : Value.AllData vs := by
  induction vs with
  | nil => trivial
  | cons v vs ih =>
    exact ⟨h v List.mem_cons_self, ih fun w hw => h w (List.mem_cons_of_mem _ hw)⟩

theorem isData_record {es : List (String × Value)} (h : ∀ e ∈ es, e.2.IsData) :
    (Value.record es).IsData := by
  show Value.EntriesData _
  induction es with
  | nil => trivial
  | cons e es ih =>
    exact ⟨h e List.mem_cons_self, ih fun w hw => h w (List.mem_cons_of_mem _ hw)⟩

mutual

/-- A value of a shape is data. -/
theorem isData_of_holds : ∀ {shape : Shape} {v : Value}, shape.Holds v → v.IsData
  | int, _, ⟨_, rfl, hn⟩ => hn
  | text, _, ⟨_, rfl⟩ => trivial
  | bool, _, ⟨_, rfl⟩ => trivial
  | list _, _, ⟨_, rfl, h⟩ => allData_of_forall fun w hw => isData_of_holds (h w hw)
  | dictionary _, _, ⟨_, rfl, _, h⟩ => isData_record fun e he => isData_of_holds (h e he)
  | optional _, _, .inl rfl => trivial
  | optional _, _, .inr h => isData_of_holds h
  | tuple _, _, ⟨_, rfl, h⟩ => allData_of_forall (isData_of_holdInTurn h)
  | record _ _ _, _, ⟨_, rfl, _, h⟩ => isData_record (isData_of_holdByName h)

theorem isData_of_holdInTurn : ∀ {shapes : List Shape} {vs : List Value},
    HoldInTurn shapes vs → ∀ v ∈ vs, v.IsData
  | [], _, rfl, _, hv => absurd hv List.not_mem_nil
  | _ :: _, _, ⟨_, _, rfl, hfirst, hrest⟩, v, hv => by
    rcases List.mem_cons.1 hv with rfl | hv
    · exact isData_of_holds hfirst
    · exact isData_of_holdInTurn hrest v hv

theorem isData_of_holdByName : ∀ {fields : List ShapeField} {es : List (String × Value)},
    HoldByName fields es → ∀ e ∈ es, e.2.IsData
  | [], _, rfl, _, he => absurd he List.not_mem_nil
  | ⟨_, _, _⟩ :: _, _, ⟨_, _, rfl, hfirst, hrest⟩, e, he => by
    rcases List.mem_cons.1 he with rfl | he
    · exact isData_of_holds hfirst
    · exact isData_of_holdByName hrest e he

end

/-! ## Entries with distinct keys -/

theorem insert_new {key : Key} {v : Value} : ∀ {es : Entries}, key ∉ es.map (·.1) →
    es.insert key v = es ++ [(key, v)]
  | [], _ => rfl
  | (k, old) :: rest, h => by
    obtain ⟨hne, hrest⟩ := not_or.1 (mt List.mem_cons.2 h)
    rw [Entries.insert, if_neg (Ne.symm hne), insert_new hrest, List.cons_append]

/-- Entries with distinct keys are kept as they are. -/
theorem ofList_eq_self {es : Entries} (h : (es.map (·.1)).Nodup) : Entries.ofList es = es := by
  induction es using List.reverseRecOn with
  | nil => rfl
  | append_singleton es e ih =>
    rw [List.map_append, List.nodup_append] at h
    obtain ⟨hes, -, hnew⟩ := h
    have hkey : e.1 ∉ es.map (·.1) := fun hmem => hnew _ hmem _ List.mem_cons_self rfl
    rw [Entries.ofList] at ih ⊢
    rw [List.foldl_append, ih hes]
    exact insert_new hkey

theorem nodup_keys {es : List (String × Value)} (h : (es.map (·.1)).Nodup) :
    ((es.map fun (name, v) => (Key.text name, v)).map (·.1)).Nodup := by
  have hkeys : (es.map fun (name, v) => (Key.text name, v)).map (·.1)
      = (es.map (·.1)).map Key.text := by
    simp
  rw [hkeys]
  exact h.map fun _ _ => Key.text.inj

theorem find?_record {es : List (String × Value)} (h : (es.map (·.1)).Nodup) {name : String}
    {v : Value} (hmem : (name, v) ∈ es) :
    Entries.find? name (es.map fun (name, v) => (Key.text name, v)) = some v := by
  induction es with
  | nil => cases hmem
  | cons e es ih =>
    obtain ⟨hnot, hrest⟩ := List.nodup_cons.1 h
    rw [List.map_cons, Entries.find?]
    rcases List.mem_cons.1 hmem with rfl | hmem
    · exact if_pos rfl
    · rw [if_neg, ih hrest hmem]
      intro heq
      exact hnot (List.mem_map.2 ⟨_, hmem, (Key.text.inj heq).symm⟩)

/-! ## Checks -/

theorem checkEach_of_forall {check : Value → Checked Value} {vs : List Value}
    (h : ∀ v ∈ vs, check v = accepted v) (n : ℕ) : checkEach check n vs = accepted vs := by
  induction vs generalizing n with
  | nil => rfl
  | cons v vs ih =>
    rw [checkEach, h v List.mem_cons_self, ih fun w hw => h w (List.mem_cons_of_mem _ hw)]
    rfl

theorem dictionaryEntries_of_forall {read : Value → Checked Value} {es : List (String × Value)}
    (h : ∀ e ∈ es, read e.2 = accepted e.2) :
    dictionaryEntries read (es.map fun (name, v) => (Key.text name, v)) = accepted es := by
  induction es with
  | nil => rfl
  | cons e es ih =>
    rw [List.map_cons, dictionaryEntries, h e List.mem_cons_self,
      ih fun w hw => h w (List.mem_cons_of_mem _ hw)]
    rfl

theorem length_of_holdInTurn : ∀ {shapes : List Shape} {vs : List Value},
    HoldInTurn shapes vs → vs.length = shapes.length
  | [], _, rfl => rfl
  | _ :: _, _, ⟨_, _, rfl, _, hrest⟩ => congrArg (· + 1) (length_of_holdInTurn hrest)

theorem names_of_holdByName : ∀ {fields : List ShapeField} {es : List (String × Value)},
    HoldByName fields es → es.map (·.1) = fields.map (·.name)
  | [], _, rfl => rfl
  | ⟨name, _, _⟩ :: _, _, ⟨_, _, rfl, _, hrest⟩ =>
    congrArg (name :: ·) (names_of_holdByName hrest)

/-- A record with no fields but its own has no strange ones. -/
theorem onlyFields_record {es : List (String × Value)} {α : Type} (r : Checked α) :
    onlyFields (es.map (·.1)) (es.map fun (name, v) => (Key.text name, v)) r = r := by
  have hknown : ∀ key ∈ (es.map fun (name, v) => (Key.text name, v)).map (·.1),
      ∃ name ∈ es.map (·.1), key = .text name := by
    intro key hkey
    rw [List.map_map] at hkey
    obtain ⟨e, he, rfl⟩ := List.mem_map.1 hkey
    exact ⟨e.1, List.mem_map_of_mem he, rfl⟩
  obtain ⟨hs, hb⟩ := strangers_eq_nil _ hknown
  unfold onlyFields
  rw [hs, hb]
  rfl

variable {strict : Bool}

mutual

/-- Both checks take a value of the shape as it is. -/
theorem check_of_holds : ∀ {shape : Shape} {v : Value}, shape.Holds v →
    shape.check strict v = accepted v
  | int, _, ⟨n, rfl, _⟩ => by cases strict <;> rfl
  | text, _, ⟨_, rfl⟩ => rfl
  | bool, _, ⟨_, rfl⟩ => by cases strict <;> rfl
  | list item, _, ⟨vs, rfl, h⟩ => by
    rw [check, checkEach_of_forall fun w hw => check_of_holds (h w hw)]
    rfl
  | dictionary item, _, ⟨es, rfl, hnodup, h⟩ => by
    rw [Value.record, check, dictionaryEntries_of_forall fun e he => check_of_holds (h e he),
      map_accepted, ofList_eq_self (nodup_keys hnodup)]
  | optional _, _, .inl rfl => rfl
  | optional inner, v, .inr h => by
    have hinner := check_of_holds h
    cases v with
    | null => rfl
    | _ => exact hinner
  | tuple items, _, ⟨vs, rfl, h⟩ => by
    rw [check, if_neg (by rw [length_of_holdInTurn h]; omega), checkTuple_of_holds 0 h]
    rfl
  | record name closed fields, _, ⟨es, rfl, hnodup, h⟩ => by
    have hfields := checkFields_of_holds h (es.map fun (name, v) => (Key.text name, v))
      fun e he => find?_record hnodup he
    rw [Value.record, check, ofList_eq_self (nodup_keys hnodup), hfields]
    cases closed with
    | false => rfl
    | true =>
      rw [if_pos rfl, ← names_of_holdByName h, onlyFields_record]
      rfl

theorem checkTuple_of_holds : ∀ (n : ℕ) {shapes : List Shape} {vs : List Value},
    HoldInTurn shapes vs → checkTuple strict n shapes vs = accepted vs
  | _, [], _, rfl => rfl
  | n, shape :: shapes, _, ⟨v, rest, rfl, hfirst, hrest⟩ => by
    rw [checkTuple, check_of_holds hfirst, checkTuple_of_holds (n + 1) hrest]
    rfl

theorem checkFields_of_holds : ∀ {fields : List ShapeField} {es : List (String × Value)},
    HoldByName fields es → ∀ all : Entries, (∀ e ∈ es, all.find? e.1 = some e.2) →
      checkFields strict fields all = accepted es
  | [], _, rfl, _, _ => rfl
  | ⟨name, shape, absent⟩ :: fields, _, ⟨v, rest, rfl, hfirst, hrest⟩, all, hall => by
    have hfind : all.find? name = some v := hall _ List.mem_cons_self
    simp only [checkFields, hfind, check_of_holds hfirst,
      checkFields_of_holds hrest all fun e he => hall e (List.mem_cons_of_mem _ he), under_accepted,
      map_accepted, combine_accepted]

end

end Shape

end SchemaVersioning
