import SchemaVersioning.Proofs.DeclarationRoundTrips
import SchemaVersioning.Proofs.DottedNames

/-!
# Short forms of type expressions

A type expression may be written as a dotted text, or as an object whose path is a dotted text or a
list of components; arguments may be written in any of these ways, each in its own.  All of them are
read as the expression that is built of the dotted names, unless more than `Nesting.maxDepth`
expressions are nested in one another: such data is refused for its depth alone
(`written_forms_agree`).
-/

namespace SchemaVersioning

open Reading Checked

/-! ## Limited depth -/

/-- A thing is accepted where there is room for it, and is refused for its depth alone where there
is none. -/
inductive Checked.AcceptedWithin {α : Type} (room : Prop) (a : α) : Checked α → Prop
  | accepted (h : room) : AcceptedWithin room a (accepted a)
  | tooDeep {issues : List Issue} (h : ¬ room) (refused : issues ≠ [])
      (deep : ∀ i ∈ issues, i.cause = .tooDeep) : AcceptedWithin room a (rejected issues)

namespace Checked.AcceptedWithin

variable {α β : Type} {room more : Prop} {a : α} {r : Checked α}

theorem of_iff (h : AcceptedWithin room a r) (hroom : room ↔ more) : AcceptedWithin more a r :=
  propext hroom ▸ h

theorem eq_accepted (h : AcceptedWithin room a r) (hroom : room) : r = Checked.accepted a := by
  cases h with
  | accepted _ => rfl
  | tooDeep hnone => exact absurd hroom hnone

theorem eq_rejected (h : AcceptedWithin room a r) (hroom : ¬ room) :
    ∃ issues, r = rejected issues ∧ issues ≠ [] ∧ ∀ i ∈ issues, i.cause = .tooDeep := by
  cases h with
  | accepted h => exact absurd h hroom
  | tooDeep _ refused deep => exact ⟨_, rfl, refused, deep⟩

theorem under (h : AcceptedWithin room a r) (s : Segment) : AcceptedWithin room a (r.under s) := by
  cases h with
  | accepted h => exact .accepted h
  | tooDeep h refused deep =>
    apply tooDeep h
    · simpa using refused
    · intro i hi
      obtain ⟨j, hj, rfl⟩ := List.mem_map.1 hi
      exact deep j hj

theorem map (h : AcceptedWithin room a r) (f : α → β) : AcceptedWithin room (f a) (r.map f) := by
  cases h with
  | accepted h => exact .accepted h
  | tooDeep h refused deep => exact .tooDeep h refused deep

theorem combine {f : α → β} {rf : Checked (α → β)} (hf : AcceptedWithin room f rf)
    (ha : AcceptedWithin more a r) : AcceptedWithin (room ∧ more) (f a) (rf.combine r) := by
  cases hf with
  | accepted hroom =>
    cases ha with
    | accepted hmore => exact .accepted ⟨hroom, hmore⟩
    | tooDeep hmore refused deep => exact .tooDeep (fun h => hmore h.2) refused deep
  | tooDeep hroom refused deep =>
    have hneither : ¬ (room ∧ more) := fun h => hroom h.1
    cases ha with
    | accepted _ => exact .tooDeep hneither refused deep
    | tooDeep _ _ deeper =>
      apply tooDeep hneither (List.append_ne_nil_of_left_ne_nil refused _)
      intro i hi
      rcases List.mem_append.1 hi with hi | hi
      · exact deep i hi
      · exact deeper i hi

/-- The items of a list are accepted where there is room for each of them. -/
theorem items {fits : α → Prop} {written : α → Value → Prop} {read : Value → Checked α}
    {xs : List α} {vs : List Value} (h : List.Forall₂ written xs vs)
    (hread : ∀ x, ∀ v ∈ vs, written x v → AcceptedWithin (fits x) x (read v)) {bound : Nat}
    (hsize : sizeOf vs ≤ bound) (n : Nat) :
    AcceptedWithin (∀ x ∈ xs, fits x) xs (items bound (fun v _ => read v) vs hsize n) := by
  induction h generalizing n with
  | nil => exact .accepted (by simp)
  | @cons x v _ vs hfirst _ ih =>
    have hhead := hread x v List.mem_cons_self hfirst
    have hrest := ih (fun y w hw => hread y w (List.mem_cons_of_mem _ hw))
      (by simp at hsize; omega) (n + 1)
    have hboth := ((hhead.under (.index n)).map List.cons).combine hrest
    exact hboth.of_iff List.forall_mem_cons.symm

/-- A part that does not contain itself is entered where there is room for its levels. -/
theorem reading {outer : Nesting} {levels : Nat} {model : String} {v : Value}
    {inside : Nesting → Checked α} (hv : ∀ identity content, v ≠ .cyclic identity content)
    (h : ∀ inner : Nesting, inner.depth = outer.depth + levels →
      AcceptedWithin room a (inside inner)) :
    AcceptedWithin (outer.depth + levels ≤ Nesting.maxDepth ∧ room) a
      (outer.reading levels model v inside) := by
  by_cases hdeep : Nesting.maxDepth < outer.depth + levels
  · have henter : outer.enter levels model v = .error .tooDeep := by
      unfold Nesting.enter
      split
      · exact absurd rfl (hv _ _)
      · exact if_pos hdeep
    simp only [Nesting.reading, henter]
    apply tooDeep (fun h => absurd h.1 (Nat.not_le.2 hdeep)) (List.cons_ne_nil _ _)
    intro i hi
    rw [List.mem_singleton.1 hi]
  · have henter : outer.enter levels model v = .ok ⟨outer.depth + levels, outer.entered⟩ := by
      unfold Nesting.enter
      split
      · exact absurd rfl (hv _ _)
      · exact if_neg hdeep
    simp only [Nesting.reading, henter]
    exact (h _ rfl).of_iff (and_iff_right (Nat.not_lt.1 hdeep)).symm

end Checked.AcceptedWithin

/-! ## Heights -/

namespace TypeExpr

mutual

/-- How many expressions are nested in one another, counting the expression itself. -/
def height : TypeExpr → Nat
  | ⟨_, args, _, _⟩ => heightAll args + 1

/-- The greatest height of some expressions. -/
def heightAll : List TypeExpr → Nat
  | [] => 0
  | e :: rest => max (height e) (heightAll rest)

end

theorem fits_iff {depth : Nat} {e : TypeExpr} :
    e.Fits depth ↔ depth ≤ Nesting.maxDepth ∧ ∀ a ∈ e.args, a.Fits (depth + 1) := by
  constructor
  · rintro ⟨room, args⟩
    exact ⟨room, args⟩
  · rintro ⟨room, args⟩
    exact .mk room args

mutual

theorem fits_iff_height {depth : Nat} : ∀ e : TypeExpr,
    e.Fits depth ↔ depth + e.height ≤ Nesting.maxDepth + 1
  | ⟨head, args, attributes, location⟩ => by
    rw [fits_iff, height]
    by_cases hroom : depth ≤ Nesting.maxDepth
    · rw [forall_fits_iff_heightAll (by omega) args]
      omega
    · omega

theorem forall_fits_iff_heightAll {depth : Nat} (hdepth : depth ≤ Nesting.maxDepth + 1) :
    ∀ es : List TypeExpr,
      (∀ e ∈ es, e.Fits depth) ↔ depth + heightAll es ≤ Nesting.maxDepth + 1
  | [] => by simpa [heightAll] using hdepth
  | e :: rest => by
    rw [List.forall_mem_cons, fits_iff_height e, forall_fits_iff_heightAll hdepth rest, heightAll]
    omega

end

end TypeExpr

/-! ## Written forms -/

/-- A text that is short for a type variable. -/
def StartsWithQuote (s : String) : Prop := s.toList.head? = some '\''

instance (s : String) : Decidable (StartsWithQuote s) :=
  inferInstanceAs (Decidable (s.toList.head? = some '\''))

/-- The ways to write the path of a dotted name in an object. -/
inductive Path.WrittenAs (s : String) : Value → Prop
  | text : WrittenAs s (.text s)
  | components {p : Path} (made : p.MakesUp s) : WrittenAs s (.texts p)

/-- An object has the path of a dotted name, and arguments if it has any other entry. -/
structure Entries.HasPath (es : Entries) (s : String) : Prop where
  path : ∃ v, es.find? "path" = some v ∧ Path.WrittenAs s v
  only : ∀ key ∈ es.map (·.1), key = .text "path" ∨ key = .text "args"

/-- The ways to write an expression. -/
inductive TypeExpr.WrittenAs : TypeExpr → Value → Prop
  | name {s : String} (unquoted : ¬ StartsWithQuote s) : WrittenAs (.of s []) (.text s)
  | quoted (name : String) : WrittenAs (.ofHead (.var name)) (.text ("'" ++ name))
  | plain {s : String} {es : Entries} (object : es.HasPath s) (bare : es.find? "args" = none) :
      WrittenAs (.of s []) (.object es)
  | applied {s : String} {es : Entries} {args : List TypeExpr} {vs : List Value}
      (object : es.HasPath s) (found : es.find? "args" = some (.list vs))
      (items : List.Forall₂ WrittenAs args vs) : WrittenAs (.of s args) (.object es)

theorem Head.ofShorthand_of_not_startsWithQuote {s : String} (h : ¬ StartsWithQuote s) :
    ofShorthand s = ofDotted s := by
  unfold ofShorthand
  split
  · next heq => exact absurd (congrArg List.head? heq) h
  · rfl

theorem Head.ofShorthand_quote (name : String) : ofShorthand ("'" ++ name) = .var name := by
  have hlist : ("'" ++ name).toList = '\'' :: name.toList := String.toList_append
  rw [ofShorthand, hlist]
  simp

theorem Head.dotted_ofShorthand (s : String) : (ofShorthand s).dotted = s := by
  unfold ofShorthand
  split
  · next name heq =>
    apply String.toList_inj.1
    rw [heq, dotted, String.toList_append, String.toList_ofList]
    simp
  · exact Path.dotted_ofDotted s

namespace Entries.HasPath

variable {es : Entries} {s : String}

theorem known (h : es.HasPath s) : ∀ key ∈ es.map (·.1),
    ∃ name ∈ ["path", "var", "args", "attributes", "location"], key = .text name := by
  intro key hkey
  rcases h.only key hkey with rfl | rfl
  · exact ⟨"path", by decide, rfl⟩
  · exact ⟨"args", by decide, rfl⟩

theorem find?_eq_none (h : es.HasPath s) (name : String) (hpath : name ≠ "path")
    (hargs : name ≠ "args") : es.find? name = none := by
  apply Entries.find?_eq_none
  intro hmem
  rcases h.only _ hmem with heq | heq
  · exact hpath (Key.text.inj heq)
  · exact hargs (Key.text.inj heq)

end Entries.HasPath

namespace TypeExpr

theorem read_path {s : String} {v : Value} (h : Path.WrittenAs s v) :
    readPath v = accepted (Path.ofDotted s) := by
  cases h with
  | text => rfl
  | components made =>
    rw [Path.makesUp_iff.1 made]
    exact readsBack_path _ _ (.same _)

/-- Whether an object is read hangs on the depth of its arguments alone. -/
theorem acceptedWithin_object {levels : Nat} {outer : Nesting} {s : String} {es : Entries}
    {args : List TypeExpr} (h : es.HasPath s)
    (hargs : ∀ inner : Nesting, inner.depth = outer.depth + levels →
      AcceptedWithin (∀ a ∈ args, a.Fits (outer.depth + levels + 1)) args
        (optional es "args" [] fun v _ => tupleOf v fun item _ => readAt 1 inner item)) :
    AcceptedWithin ((of s args).Fits (outer.depth + levels)) (of s args)
      (readAt levels outer (.object es)) := by
  have hpath : optional es "path" [] (fun v _ => readPath v) = accepted (Path.ofDotted s) := by
    obtain ⟨v, found, written⟩ := h.path
    rw [optional_of_found found, read_path written, under_accepted]
  rw [fits_iff, readAt]
  refine AcceptedWithin.reading (by simp) fun inner hinner => ?_
  have hinside := hargs inner hinner
  simp only [model]
  rw [onlyFields_of_known h.known, hpath,
    optional_of_absent (h.find?_eq_none "var" (by decide) (by decide)),
    optional_of_absent (h.find?_eq_none "attributes" (by decide) (by decide)),
    optional_of_absent (h.find?_eq_none "location" (by decide) (by decide))]
  -- The other fields are accepted by now, so the outcome is that of the arguments.
  generalize (optional es "args" [] fun v _ => tupleOf v fun item _ => readAt 1 inner item) = r
    at hinside ⊢
  cases hinside with
  | accepted h => exact .accepted h
  | tooDeep h refused deep => exact .tooDeep h refused deep

/-- A short form is read where there is room for it. -/
theorem acceptedWithin_text (levels : Nat) (outer : Nesting) (s : String) :
    AcceptedWithin ((ofHead (Head.ofShorthand s)).Fits (outer.depth + levels))
      (ofHead (Head.ofShorthand s)) (readAt levels outer (.text s)) := by
  rw [fits_iff, readAt]
  refine AcceptedWithin.reading (by simp) fun inner _ => ?_
  exact .accepted (by simp [ofHead])

/-- What is read from data in which an expression is written, at any depth.  The recursion is on the
data, as that of the reader is: the arguments are read from smaller parts of it. -/
theorem acceptedWithin_readAt {levels : Nat} {outer : Nesting} (v : Value) {e : TypeExpr}
    (h : e.WrittenAs v) :
    AcceptedWithin (e.Fits (outer.depth + levels)) e (readAt levels outer v) := by
  cases h with
  | @name s unquoted =>
    have htext := acceptedWithin_text levels outer s
    rwa [Head.ofShorthand_of_not_startsWithQuote unquoted] at htext
  | quoted name =>
    have htext := acceptedWithin_text levels outer ("'" ++ name)
    rwa [Head.ofShorthand_quote] at htext
  | plain object bare =>
    apply acceptedWithin_object object
    intro inner _
    rw [optional_of_absent bare]
    exact .accepted (by simp)
  | @applied s es args vs object found items =>
    apply acceptedWithin_object object
    intro inner hinner
    rw [optional_of_found found, ← hinner]
    apply AcceptedWithin.under
    apply AcceptedWithin.items items
    intro a item hmem hitem
    have hsize : sizeOf item < sizeOf (Value.object es) := by
      have hmember := List.sizeOf_lt_of_mem hmem
      have hlist := Entries.sizeOf_lt_of_find? found
      simp only [Value.list.sizeOf_spec] at hlist
      simp only [Value.object.sizeOf_spec]
      omega
    exact acceptedWithin_readAt item hitem
termination_by sizeOf v
decreasing_by exact hsize

theorem acceptedWithin_read {v : Value} {e : TypeExpr} (h : e.WrittenAs v) :
    AcceptedWithin (e.height ≤ Nesting.maxDepth) e (read v) := by
  apply (acceptedWithin_readAt v h).of_iff
  rw [fits_iff_height]
  simp only [Nesting.outermost]
  omega

/-- A dotted name without arguments is read from each of its written forms. -/
theorem read_of {s : String} {v : Value} (h : (of s []).WrittenAs v) :
    read v = accepted (of s []) := by
  have hheight : (of s []).height = 1 := rfl
  apply (acceptedWithin_read h).eq_accepted
  rw [hheight]
  decide

theorem read_text (s : String) : read (.text s) = accepted (ofHead (Head.ofShorthand s)) := by
  rw [read, readAt]
  rfl

/-- An object with nothing but the path of a dotted name. -/
theorem writtenAs_record {s : String} {v : Value} (h : Path.WrittenAs s v) :
    (of s []).WrittenAs (.record [("path", v)]) := by
  apply WrittenAs.plain _ rfl
  exact ⟨⟨v, rfl, h⟩, by simp⟩

/-- An object with the path of a dotted name and arguments. -/
theorem writtenAs_record_args {s : String} {v : Value} {args : List TypeExpr} {vs : List Value}
    (h : Path.WrittenAs s v) (hargs : List.Forall₂ WrittenAs args vs) :
    (of s args).WrittenAs (.record [("path", v), ("args", .list vs)]) := by
  apply WrittenAs.applied _ rfl hargs
  exact ⟨⟨v, rfl, h⟩, by simp⟩

theorem startsWithQuote_of_dotted {first : String} {rest : List String}
    (h : StartsWithQuote (Path.dotted (first :: rest))) : StartsWithQuote first := by
  unfold StartsWithQuote at h ⊢
  rw [Path.toList_dotted, List.map_cons] at h
  cases hfirst : first.toList with
  | nil =>
    rw [hfirst] at h
    cases rest <;> simp [List.intercalate_cons_cons] at h
  | cons c cs =>
    rw [hfirst] at h
    cases rest <;> simpa [List.intercalate_cons_cons] using h

/-- A head whose path has no dots is denoted by what it is shown as. -/
theorem ofShorthand_dotted {h : Head} (hdots : ∀ a ∈ h.path, '.' ∉ a.toList)
    (hquote : ∀ a ∈ h.path.head?, ¬ StartsWithQuote a) : Head.ofShorthand h.dotted = h := by
  cases h with
  | var name => exact Head.ofShorthand_quote name
  | named first rest =>
    have hname : ¬ StartsWithQuote (Path.dotted (first :: rest)) :=
      fun h => hquote first rfl (startsWithQuote_of_dotted h)
    show Head.ofShorthand (Path.dotted (first :: rest)) = _
    have hpath : Path.ofDotted (Path.dotted (first :: rest)) = first :: rest :=
      Path.ofDotted_dotted (List.cons_ne_nil _ _) hdots
    obtain ⟨hfirst, hrest⟩ := List.cons.inj hpath
    rw [Head.ofShorthand_of_not_startsWithQuote hname]
    exact congrArg₂ Head.named hfirst hrest

end TypeExpr

/-- Every text is read as an expression that is shown as the text.  The written forms of an
expression are all read as this expression, unless too many expressions are nested in one another;
then they are refused for their depth. -/
theorem written_forms_agree :
    (∀ s : String, ∃ e, TypeExpr.read (.text s) = accepted e ∧ e.dotted = s) ∧
    (∀ s : String, ¬ StartsWithQuote s →
      TypeExpr.read (.text s) = accepted (.of s []) ∧
      TypeExpr.read (.record [("path", .text s)]) = accepted (.of s []) ∧
      ∃ p : Path, (∀ q : Path, q.MakesUp s ↔ q = p) ∧
        TypeExpr.read (.record [("path", .texts p)]) = accepted (.of s [])) ∧
    (∀ (e : TypeExpr) (v : Value), e.WrittenAs v →
      (e.height ≤ Nesting.maxDepth → TypeExpr.read v = accepted e) ∧
      (Nesting.maxDepth < e.height → ∃ issues, TypeExpr.read v = rejected issues ∧
        issues ≠ [] ∧ ∀ i ∈ issues, i.cause = .tooDeep)) ∧
    (∀ e : TypeExpr, e.args = [] → e.attributes = [] → e.location = none →
      (∀ a ∈ e.path, '.' ∉ a.toList) → (∀ a ∈ e.path.head?, ¬ StartsWithQuote a) →
      TypeExpr.read (.text e.dotted) = accepted e) := by
  refine ⟨fun s => ?_, fun s hs => ?_, fun e v h => ?_, ?_⟩
  · exact ⟨_, TypeExpr.read_text s, Head.dotted_ofShorthand s⟩
  · have htext := TypeExpr.read_of (TypeExpr.writtenAs_record (.text (s := s)))
    have hcomponents := TypeExpr.read_of
      (TypeExpr.writtenAs_record (.components (Path.makesUp_ofDotted s)))
    exact ⟨TypeExpr.read_of (.name hs), htext, _, fun q => Path.makesUp_iff, hcomponents⟩
  · have hread := TypeExpr.acceptedWithin_read h
    exact ⟨hread.eq_accepted, fun hdeep => hread.eq_rejected (Nat.not_le.2 hdeep)⟩
  · rintro ⟨head, args, attributes, location⟩ rfl rfl rfl hdots hquote
    rw [TypeExpr.read_text, TypeExpr.dotted, TypeExpr.ofShorthand_dotted hdots hquote]
    rfl

/-- A map whose arguments are written in different ways. -/
def mixedData : Value :=
  .record [
    ("path", .texts ["Stdlib", "Map", "t"]),
    ("args", .list [
      .text "int",
      .record [("path", .texts ["Account", "t"])],
      .record [("path", .text "option"), ("args", .list [.text "'a"])]])]

def mixedExpr : TypeExpr :=
  .of "Stdlib.Map.t" [.of "int" [], .of "Account.t" [], .of "option" [.ofHead (.var "a")]]

theorem writtenAs_mixedData : mixedExpr.WrittenAs mixedData := by
  have hmap : Path.WrittenAs "Stdlib.Map.t" (.texts ["Stdlib", "Map", "t"]) :=
    .components (Path.makesUp_iff.2 (by decide))
  have haccount : Path.WrittenAs "Account.t" (.texts ["Account", "t"]) :=
    .components (Path.makesUp_iff.2 (by decide))
  apply TypeExpr.writtenAs_record_args hmap
  apply List.Forall₂.cons (.name (by decide))
  apply List.Forall₂.cons (TypeExpr.writtenAs_record haccount)
  exact .cons (TypeExpr.writtenAs_record_args .text (.cons (.quoted "a") .nil)) .nil

theorem written_forms_agree_mixedData :
    TypeExpr.read mixedData = accepted mixedExpr ∧
      TypeExpr.read (.text mixedExpr.dotted) = accepted (.ofPath "Stdlib" ["Map", "t"]) ∧
      ∃ e, TypeExpr.read (.text "'") = accepted e ∧ e.dotted = "'" := by
  obtain ⟨htexts, -, hforms, hdotted⟩ := written_forms_agree
  refine ⟨?_, ?_, htexts "'"⟩
  · exact (hforms mixedExpr mixedData writtenAs_mixedData).1 (by decide)
  · exact hdotted (.ofPath "Stdlib" ["Map", "t"]) rfl rfl rfl (by decide) (by decide)

/-- A type applied to a type, so many times. -/
def listTower : Nat → TypeExpr
  | 0 => .of "int" []
  | n + 1 => .of "list" [listTower n]

/-- The data in which such an expression is written. -/
def listTowerData : Nat → Value
  | 0 => .record [("path", .text "int")]
  | n + 1 => .record [("path", .text "list"), ("args", .list [listTowerData n])]

theorem writtenAs_listTowerData : ∀ n, (listTower n).WrittenAs (listTowerData n)
  | 0 => TypeExpr.writtenAs_record .text
  | n + 1 => TypeExpr.writtenAs_record_args .text (.cons (writtenAs_listTowerData n) .nil)

theorem height_listTower (n : Nat) : (listTower n).height = n + 1 := by
  induction n with
  | zero => rfl
  | succ n ih => simp [listTower, TypeExpr.of, TypeExpr.height, TypeExpr.heightAll, ih]

/-- Expressions can be built that are nested too deep to be read from what they are written in. -/
theorem listTower_255_refused :
    (listTower 255).WrittenAs (listTowerData 255) ∧
      ∀ e, TypeExpr.read (listTowerData 255) ≠ accepted e := by
  have hwritten := writtenAs_listTowerData 255
  have hdeep : ¬ (listTower 255).height ≤ Nesting.maxDepth := by
    rw [height_listTower]
    decide
  obtain ⟨issues, hread, -⟩ := (TypeExpr.acceptedWithin_read hwritten).eq_rejected hdeep
  refine ⟨hwritten, fun e he => ?_⟩
  cases hread.symm.trans he

end SchemaVersioning
