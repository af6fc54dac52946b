import SchemaVersioning.Reading.Checked

/-!
# Nesting of models

Models that occur inside themselves are read with a record of the models that are open around them.
It bounds how deep they may be nested, and it finds a part of the data that contains itself: such a
part may not be entered a second time as a model of the same name.
-/

namespace SchemaVersioning

/-- The models that are open around a piece of data: how many count, and which parts that contain
themselves were entered as which model. -/
structure Nesting where
  depth : Nat
  entered : List (Nat × String)
deriving DecidableEq, Repr

namespace Nesting

/-- Nothing is open. -/
def outermost : Nesting := ⟨0, []⟩

def maxDepth : Nat := 255

/-- What is open inside a piece of data that is entered as a model and counts for some levels, or
why it may not be entered. -/
def enter (outer : Nesting) (levels : Nat) (model : String) (v : Value) : Except Cause Nesting :=
  match v with
  | .cyclic identity _ =>
    if outer.entered.contains (identity, model) then .error .cyclic
    else if maxDepth < outer.depth + levels then .error .tooDeep
    else .ok ⟨outer.depth + levels, (identity, model) :: outer.entered⟩
  | _ =>
    if maxDepth < outer.depth + levels then .error .tooDeep
    else .ok ⟨outer.depth + levels, outer.entered⟩

/-- Reads a piece of data inside the models that are open around it. -/
def reading {α : Type} (outer : Nesting) (levels : Nat) (model : String) (v : Value)
    (read : Nesting → Checked α) : Checked α :=
  match outer.enter levels model v with
  | .ok inner => read inner
  | .error cause => Checked.refuse cause

/-- Entering never leaves the bound. -/
theorem depth_le_of_enter {outer inner : Nesting} {levels : Nat} {model : String} {v : Value}
    (h : outer.enter levels model v = .ok inner) : inner.depth ≤ maxDepth := by
  unfold enter at h
  split at h
  · split at h
    · cases h
    · split at h
      · cases h
      · cases h; simp only; omega
  · split at h
    · cases h
    · cases h; simp only; omega

end Nesting

end SchemaVersioning
