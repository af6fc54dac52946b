/-!
# Sets of names

A set of names is the list of its members in ascending order, so equal sets are equal lists.
-/

namespace SchemaVersioning

/-- Distinct names in ascending order. -/
structure NameSet where
  names : List String
  ascending : names.Pairwise (· < ·)

namespace NameSet

/-- A name put into its place. -/
def insertName (s : String) : List String → List String
  | [] => [s]
  | t :: rest =>
    if s < t then s :: t :: rest
    else if s = t then t :: rest
    else t :: insertName s rest

theorem mem_insertName {s x : String} {names : List String} :
    x ∈ insertName s names ↔ x = s ∨ x ∈ names := by
  induction names with
  | nil => simp [insertName]
  | cons t rest ih =>
    unfold insertName
    split
    · simp
    · split
      · next h => subst h; simp
      · simp only [List.mem_cons, ih, or_left_comm]

theorem pairwise_insertName (s : String) {names : List String} (h : names.Pairwise (· < ·)) :
    (insertName s names).Pairwise (· < ·) := by
  induction names with
  | nil => simp [insertName]
  | cons t rest ih =>
    rw [List.pairwise_cons] at h
    unfold insertName
    split
    · next hst =>
      refine List.pairwise_cons.2 ⟨?_, List.pairwise_cons.2 h⟩
      intro x hx
      rcases List.mem_cons.1 hx with rfl | hx
      · exact hst
      · exact String.lt_trans hst (h.1 x hx)
    · split
      · exact List.pairwise_cons.2 h
      · next hst hne =>
        refine List.pairwise_cons.2 ⟨?_, ih h.2⟩
        intro x hx
        rcases mem_insertName.1 hx with rfl | hx
        · refine Decidable.byContradiction fun hlt => hne ?_
          exact String.le_antisymm (String.not_lt.1 hlt) (String.not_lt.1 hst)
        · exact h.1 x hx

/-- The set of the names of a list. -/
def ofList : List String → NameSet
  | [] => ⟨[], List.Pairwise.nil⟩
  | s :: rest => ⟨insertName s (ofList rest).names, pairwise_insertName s (ofList rest).ascending⟩

def contains (set : NameSet) (s : String) : Bool := set.names.contains s

end NameSet

end SchemaVersioning
