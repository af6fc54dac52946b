import SchemaVersioning.Declaration

/-!
# Dotted names

A dotted name is split at each of its dots, and a path is written with a dot between any two
components.  The two undo each other: every text is made up of the components that it is split into,
and of no others (`Path.makesUp_iff`).
-/

namespace SchemaVersioning

/-- A path has components without dots that make up a text with dots between them. -/
structure Path.MakesUp (p : Path) (s : String) : Prop where
  nonempty : p ≠ []
  plain : ∀ a ∈ p, '.' ∉ a.toList
  dotted : p.dotted = s

/-- The components are those of the library's split. -/
theorem splitDots_eq (component cs : List Char) :
    (splitDots component cs).1 :: (splitDots component cs).2
      = (List.splitOnPPrepend (· == '.') cs component).map String.ofList := by
  induction cs generalizing component with
  | nil => rfl
  | cons c cs ih =>
    by_cases hdot : c = '.'
    · rw [splitDots, if_pos hdot, List.splitOnPPrepend_cons_pos (by simpa using hdot),
        ← List.splitOnPPrepend_nil_right, List.map_cons, ← ih []]
    · rw [splitDots, if_neg hdot, List.splitOnPPrepend_cons_neg (by simpa using hdot), ih]

namespace Path

theorem toList_dotted (p : Path) : p.dotted.toList = ['.'].intercalate (p.map String.toList) :=
  String.toList_intercalate

theorem ofDotted_eq (s : String) : ofDotted s = (s.toList.splitOn '.').map String.ofList :=
  splitDots_eq [] s.toList

theorem map_toList_ofDotted (s : String) :
    (ofDotted s).map String.toList = s.toList.splitOn '.' := by
  rw [ofDotted_eq, List.map_map]
  simp [Function.comp_def]

theorem ofDotted_ne_nil (s : String) : ofDotted s ≠ [] := List.cons_ne_nil _ _

theorem dotted_ofDotted (s : String) : (ofDotted s).dotted = s := by
  apply String.toList_inj.1
  rw [toList_dotted, map_toList_ofDotted, List.intercalate_splitOn]

theorem ofDotted_dotted {p : Path} (hne : p ≠ []) (hdots : ∀ a ∈ p, '.' ∉ a.toList) :
    ofDotted p.dotted = p := by
  rw [ofDotted_eq, toList_dotted,
    List.splitOn_intercalate '.' (by simpa using hdots) (by simpa using hne), List.map_map]
  simp [Function.comp_def]

/-- A name without dots has one component. -/
theorem ofDotted_of_not_mem {s : String} (h : '.' ∉ s.toList) : ofDotted s = [s] := by
  rw [ofDotted_eq, List.splitOn_eq_singleton h]
  simp

/-- What is split off has no dot. -/
theorem not_mem_of_mem_splitDots {component cs : List Char} (h : '.' ∉ component) {a : String}
    (ha : a ∈ (splitDots component cs).1 :: (splitDots component cs).2) : '.' ∉ a.toList := by
  induction cs generalizing component with
  | nil =>
    rw [List.mem_singleton.1 ha]
    simpa [splitDots] using h
  | cons c cs ih =>
    by_cases hdot : c = '.'
    · rw [splitDots, if_pos hdot] at ha
      rcases List.mem_cons.1 ha with rfl | ha
      · simpa using h
      · exact ih List.not_mem_nil ha
    · rw [splitDots, if_neg hdot] at ha
      apply ih _ ha
      simpa [hdot, eq_comm] using h

theorem makesUp_ofDotted (s : String) : (ofDotted s).MakesUp s where
  nonempty := ofDotted_ne_nil s
  plain _ ha := not_mem_of_mem_splitDots List.not_mem_nil ha
  dotted := dotted_ofDotted s

/-- A text is made up of the components that it is split into and of no others. -/
theorem makesUp_iff {p : Path} {s : String} : p.MakesUp s ↔ p = ofDotted s := by
  constructor
  · rintro ⟨hne, hplain, rfl⟩
    exact (ofDotted_dotted hne hplain).symm
  · rintro rfl
    exact makesUp_ofDotted s

/-- Empty components are components, wherever they stand. -/
example : ofDotted ".a..b." = ["", "a", "", "b", ""] := by decide

end Path

end SchemaVersioning
