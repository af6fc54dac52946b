import SchemaVersioning.Reading.Issue

/-!
# Checked data

The outcome of reading data as something: the thing, or all issues that were found.  Two outcomes
combine to one that has the issues of both, so a record reports every bad field at once.
-/

namespace SchemaVersioning

/-- What reading data gave. -/
inductive Checked (α : Type) where
  | accepted (a : α)
  | rejected (issues : List Issue)
deriving Repr

namespace Checked

variable {α β : Type}

/-- The outcome with the accepted thing changed. -/
def map (f : α → β) : Checked α → Checked β
  | accepted a => accepted (f a)
  | rejected issues => rejected issues

/-- An accepted function applied to an accepted argument; the issues of both otherwise. -/
def combine (f : Checked (α → β)) (a : Checked α) : Checked β :=
  match f, a with
  | accepted f, accepted a => accepted (f a)
  | accepted _, rejected issues => rejected issues
  | rejected issues, accepted _ => rejected issues
  | rejected issues, rejected more => rejected (issues ++ more)

instance : Functor Checked where
  map := map

instance : Applicative Checked where
  pure := accepted
  seq f a := combine f (a ())

def refuse (cause : Cause) : Checked α := rejected [⟨[], cause⟩]

/-- The outcome for the part of the data behind a step. -/
def under (segment : Segment) : Checked α → Checked α
  | accepted a => accepted a
  | rejected issues => rejected (issues.map fun i => { i with path := segment :: i.path })

/-- A further check of an accepted thing. -/
def andThen (a : Checked α) (check : α → Checked β) : Checked β :=
  match a with
  | accepted a => check a
  | rejected issues => rejected issues

/-- The outcomes of all items, in order. -/
def collect : List (Checked α) → Checked (List α)
  | [] => accepted []
  | a :: rest => (a.map List.cons).combine (collect rest)

/-- The accepted thing or the issues. -/
def toExcept : Checked α → Except (List Issue) α
  | accepted a => .ok a
  | rejected issues => .error issues

@[simp] theorem map_accepted (f : α → β) (a : α) : map f (accepted a) = accepted (f a) := rfl

@[simp] theorem combine_accepted (f : α → β) (a : α) :
    combine (accepted f) (accepted a) = accepted (f a) := rfl

@[simp] theorem under_accepted (s : Segment) (a : α) : under s (accepted a) = accepted a := rfl

@[simp] theorem andThen_accepted (a : α) (check : α → Checked β) :
    andThen (accepted a) check = check a := rfl

end Checked

end SchemaVersioning
