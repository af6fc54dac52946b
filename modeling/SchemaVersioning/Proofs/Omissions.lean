import Mathlib.Data.List.Forall2
import SchemaVersioning.Reading.Object

/-!
# Omitted nulls

Data is written with all its fields, and with null for what is absent.  Any of its null entries may
be left out, at any depth (`Value.Omits`).  A reader reads a thing back from data if it does so
whatever is left out (`ReadsBack`), and the readers of parts hand this on to those of wholes.
-/

namespace SchemaVersioning

/-! ## Leaving out null entries -/

/-- Some of the null entries are left out, and the values of the others are changed. -/
inductive Entries.Thinned (changes : Value → Value → Prop) : Entries → Entries → Prop
  | nil : Thinned changes [] []
  | kept {key : Key} {v w : Value} {es fs : Entries} (changed : changes v w)
      (rest : Thinned changes es fs) : Thinned changes ((key, v) :: es) ((key, w) :: fs)
  | omitted {key : Key} {es fs : Entries} (rest : Thinned changes es fs) :
      Thinned changes ((key, .null) :: es) fs

/-- Some of the null entries of the objects in a value are left out. -/
inductive Value.Omits : Value → Value → Prop
  | same (v : Value) : Omits v v
  | list {vs ws : List Value} (items : List.Forall₂ Omits vs ws) : Omits (.list vs) (.list ws)
  | object {es fs : Entries} (entries : Entries.Thinned Omits es fs) :
      Omits (.object es) (.object fs)

/-- A value that has no parts from which an entry could be left out. -/
def Value.IsScalar : Value → Prop
  | list _ | object _ => False
  | _ => True

namespace Value

theorem eq_of_omits_scalar {v w : Value} (hv : v.IsScalar) (h : v.Omits w) : w = v := by
  cases h with
  | same => rfl
  | list | object => exact hv.elim

theorem eq_null_of_omits {v : Value} (h : v.Omits null) : v = null := by
  cases h
  rfl

theorem omits_list_iff {vs : List Value} {w : Value} :
    (list vs).Omits w ↔ ∃ ws, w = list ws ∧ List.Forall₂ Omits vs ws := by
  constructor
  · intro h
    cases h with
    | same => exact ⟨vs, rfl, List.forall₂_same.2 fun v _ => .same v⟩
    | list items => exact ⟨_, rfl, items⟩
  · rintro ⟨ws, rfl, items⟩
    exact .list items

theorem thinned_self : ∀ es : Entries, es.Thinned Omits es
  | [] => .nil
  | (_, v) :: rest => .kept (.same v) (thinned_self rest)

theorem omits_object_iff {es : Entries} {w : Value} :
    (object es).Omits w ↔ ∃ fs, w = object fs ∧ es.Thinned Omits fs := by
  constructor
  · intro h
    cases h with
    | same => exact ⟨es, rfl, thinned_self es⟩
    | object entries => exact ⟨_, rfl, entries⟩
  · rintro ⟨fs, rfl, entries⟩
    exact .object entries

mutual

/-- All null entries may be left out. -/
theorem omits_withoutNulls : ∀ v : Value, v.Omits v.withoutNulls
  | list items => .list (omits_withoutNullsItems items)
  | object entries => .object (thinned_withoutNullsEntries entries)
  | null | bool _ | int _ | real _ | text _ | broken _ | set _ | bytes _ | moment _ _
  | cyclic _ _ => .same _

theorem omits_withoutNullsItems : ∀ vs : List Value, List.Forall₂ Omits vs (withoutNullsItems vs)
  | [] => .nil
  | v :: rest => .cons (omits_withoutNulls v) (omits_withoutNullsItems rest)

theorem thinned_withoutNullsEntries : ∀ es : Entries, es.Thinned Omits (withoutNullsEntries es)
  | [] => .nil
  | (key, v) :: rest => by
    have hrest := thinned_withoutNullsEntries rest
    have hv := omits_withoutNulls v
    cases v with
    | null => exact .omitted hrest
    | _ => exact .kept hv hrest

end

end Value

/-! ## Fields that are left -/

/-- The entries that are left of the named fields of an object. -/
structure Entries.Leaves (fields : List (String × Value)) (es : Entries) : Prop where
  distinct : (fields.map (·.1)).Nodup
  thinned : Entries.Thinned Value.Omits (fields.map fun (name, v) => (Key.text name, v)) es

namespace Entries

theorem Thinned.mem_keys {changes : Value → Value → Prop} {es fs : Entries}
    (h : es.Thinned changes fs) {key : Key} (hkey : key ∈ fs.map (·.1)) : key ∈ es.map (·.1) := by
  induction h with
  | nil => exact hkey
  | kept _ _ ih =>
    rcases List.mem_cons.1 hkey with rfl | hkey
    · exact List.mem_cons_self
    · exact List.mem_cons_of_mem _ (ih hkey)
  | omitted _ ih => exact List.mem_cons_of_mem _ (ih hkey)

theorem find?_eq_none {name : String} {es : Entries} (h : Key.text name ∉ es.map (·.1)) :
    es.find? name = none := by
  induction es with
  | nil => rfl
  | cons e rest ih =>
    obtain ⟨hne, hrest⟩ := not_or.1 (mt List.mem_cons.2 h)
    rw [find?, if_neg (Ne.symm hne), ih hrest]

/-- A field that is written is found unless it is null and left out. -/
theorem Leaves.find? {fields : List (String × Value)} {es : Entries} (h : Leaves fields es)
    {name : String} {v : Value} (hmem : (name, v) ∈ fields) :
    v = .null ∧ es.find? name = none ∨ ∃ w, es.find? name = some w ∧ v.Omits w := by
  obtain ⟨hd, ht⟩ := h
  induction fields generalizing es with
  | nil => cases hmem
  | cons field rest ih =>
    obtain ⟨first, written⟩ := field
    obtain ⟨hnot, hrest⟩ := List.nodup_cons.1 hd
    have hne : (name, v) ∈ rest → Key.text first ≠ Key.text name := fun hmem heq =>
      hnot (List.mem_map.2 ⟨_, hmem, (Key.text.inj heq).symm⟩)
    cases ht with
    | @kept _ _ w _ fs changed ht =>
      rcases List.mem_cons.1 hmem with heq | hmem
      · obtain ⟨rfl, rfl⟩ := Prod.mk.inj heq
        exact Or.inr ⟨w, by rw [Entries.find?, if_pos rfl], changed⟩
      · rw [Entries.find?, if_neg (hne hmem)]
        exact ih hmem hrest ht
    | omitted ht =>
      rcases List.mem_cons.1 hmem with heq | hmem
      · obtain ⟨rfl, rfl⟩ := Prod.mk.inj heq
        refine Or.inl ⟨rfl, find?_eq_none fun hkey => hnot ?_⟩
        simpa using ht.mem_keys hkey
      · exact ih hmem hrest ht

end Entries

theorem Value.Omits.record {fields : List (String × Value)} {w : Value}
    (h : (Value.record fields).Omits w) (hd : (fields.map (·.1)).Nodup) :
    ∃ es, w = .object es ∧ Entries.Leaves fields es := by
  obtain ⟨es, rfl, ht⟩ := omits_object_iff.1 h
  exact ⟨es, rfl, hd, ht⟩

/-! ## Accepted combinations -/

namespace Checked

variable {α β : Type}

theorem map_eq_accepted_iff {f : α → β} {a : Checked α} {b : β} :
    a.map f = accepted b ↔ ∃ x, a = accepted x ∧ f x = b := by
  cases a <;> simp [Checked.map]

theorem combine_eq_accepted_iff {f : Checked (α → β)} {a : Checked α} {b : β} :
    f.combine a = accepted b ↔ ∃ g, f = accepted g ∧ ∃ x, a = accepted x ∧ g x = b := by
  cases f <;> cases a <;> simp [combine]

theorem under_eq_accepted_iff {s : Segment} {a : Checked α} {b : α} :
    a.under s = accepted b ↔ a = accepted b := by
  cases a <;> simp [under]

theorem andThen_eq_accepted_iff {a : Checked α} {check : α → Checked β} {b : β} :
    a.andThen check = accepted b ↔ ∃ x, a = accepted x ∧ check x = accepted b := by
  cases a <;> simp [andThen]

theorem exists_of_accepted {a : Checked α} {x : α} (h : a = accepted x) :
    ∃ y, a = accepted y ∧ y = x := ⟨x, h, rfl⟩

theorem exists_map_accepted {f : α → β} {a : Checked α} {P : β → Prop} :
    (∃ y, f <$> a = accepted y ∧ P y) ↔ ∃ x, a = accepted x ∧ P (f x) := by
  constructor
  · rintro ⟨_, h, hP⟩
    obtain ⟨x, hx, rfl⟩ := map_eq_accepted_iff.1 h
    exact ⟨x, hx, hP⟩
  · rintro ⟨x, rfl, hP⟩
    exact ⟨f x, rfl, hP⟩

/-- The fields of an accepted model are accepted, the last one first. -/
theorem exists_seq_accepted {f : Checked (α → β)} {a : Checked α} {P : β → Prop} :
    (∃ y, f <*> a = accepted y ∧ P y) ↔
      ∃ x, a = accepted x ∧ ∃ g, f = accepted g ∧ P (g x) := by
  constructor
  · rintro ⟨_, h, hP⟩
    obtain ⟨g, hg, x, hx, rfl⟩ := combine_eq_accepted_iff.1 h
    exact ⟨x, hx, g, hg, hP⟩
  · rintro ⟨x, rfl, g, rfl, hP⟩
    exact ⟨g x, rfl, hP⟩

/-- The first field of a model is accepted. -/
theorem accepts_map {a : Checked α} {x : α} (f : α → β) (ha : a = accepted x) :
    f <$> a = accepted (f x) := by rw [ha]; rfl

/-- One field more of a model is accepted. -/
theorem accepts_seq {f : Checked (α → β)} {g : α → β} {a : Checked α} {x : α}
    (hf : f = accepted g) (ha : a = accepted x) : f <*> a = accepted (g x) := by rw [hf, ha]; rfl

end Checked

/-! ## What readers accept -/

namespace Reading

open Checked

variable {α : Type}

theorem items_eq_accepted {bound : Nat} {read : PartReader bound α} :
    ∀ {vs : List Value} {h : sizeOf vs ≤ bound} {n : Nat} {xs : List α},
      items bound read vs h n = accepted xs → ∀ x ∈ xs, ∃ v hv, read v hv = accepted x
  | [], _, _, _, heq, x, hx => by cases heq; cases hx
  | v :: rest, _, _, _, heq, x, hx => by
    simp only [items, combine_eq_accepted_iff, map_eq_accepted_iff, under_eq_accepted_iff] at heq
    obtain ⟨_, ⟨y, hy, rfl⟩, ys, hys, rfl⟩ := heq
    rcases List.mem_cons.1 hx with rfl | hx
    · exact ⟨v, _, hy⟩
    · exact items_eq_accepted hys x hx

/-- What is in a list that is read is read from an item. -/
theorem tupleOf_eq_accepted : ∀ {v : Value} {read : PartReader (sizeOf v) α} {xs : List α},
    tupleOf v read = accepted xs → ∀ x ∈ xs, ∃ item h, read item h = accepted x
  | .list _, _, _, heq => items_eq_accepted heq
  | .set _, _, _, heq => items_eq_accepted heq
  | .cyclic _ content, _, _, heq => fun x hx => by
    rw [tupleOf] at heq
    obtain ⟨item, _, h⟩ := tupleOf_eq_accepted heq x hx
    exact ⟨item, _, h⟩
  | .null, _, _, heq | .bool _, _, _, heq | .int _, _, _, heq | .real _, _, _, heq
  | .text _, _, _, heq | .broken _, _, _, heq | .object _, _, _, heq | .bytes _, _, _, heq
  | .moment _ _, _, _, heq => nomatch heq

theorem atLeast_eq_accepted_iff {needed : Nat} {list : Checked (List α)} {xs : List α} :
    atLeast needed list = accepted xs ↔ list = accepted xs ∧ needed ≤ xs.length := by
  rw [atLeast, andThen_eq_accepted_iff]
  constructor
  · rintro ⟨ys, hys, h⟩
    split at h
    · cases h
    · next hlength =>
      obtain rfl := accepted.inj h
      exact ⟨hys, Nat.not_lt.1 hlength⟩
  · rintro ⟨h, hlength⟩
    exact ⟨xs, h, if_neg (Nat.not_lt.2 hlength)⟩

theorem ne_empty_of_nonEmptyText {v : Value} {s : String} (h : nonEmptyText v = accepted s) :
    s ≠ "" := by
  obtain ⟨t, _, h⟩ := andThen_eq_accepted_iff.1 h
  split at h
  · cases h
  · next hne => rwa [← accepted.inj h]

theorem le_of_natFrom {bound : Nat} {v : Value} {n : Nat} (h : natFrom bound v = accepted n) :
    bound ≤ n := by
  obtain ⟨i, hi, rfl⟩ := map_eq_accepted_iff.1 h
  obtain ⟨j, _, hj⟩ := andThen_eq_accepted_iff.1 hi
  split at hj
  · cases hj
  · next hbound =>
    obtain rfl := accepted.inj hj
    omega

theorem nullable_eq_accepted {read : Value → Checked α} {v : Value} {o : Option α}
    (h : nullable read v = accepted o) : ∀ a ∈ o, read v = accepted a := by
  rintro a rfl
  unfold nullable at h
  split at h
  · cases h
  · obtain ⟨x, hx, heq⟩ := map_eq_accepted_iff.1 h
    rwa [← Option.some.inj heq]

theorem required_eq_accepted {entries : Entries} {name : String}
    {read : PartReader (sizeOf entries) α} {a : α}
    (h : required entries name read = accepted a) : ∃ v hv, read v hv = accepted a := by
  rw [required, under_eq_accepted_iff] at h
  split at h
  · cases h
  · exact ⟨_, _, h⟩

theorem optional_eq_accepted {entries : Entries} {name : String} {absent : α}
    {read : PartReader (sizeOf entries) α} {a : α}
    (h : optional entries name absent read = accepted a) :
    a = absent ∨ ∃ v hv, read v hv = accepted a := by
  unfold optional at h
  split at h
  · exact Or.inl (accepted.inj h).symm
  · exact Or.inr ⟨_, _, under_eq_accepted_iff.1 h⟩

/-- What is in the list of a field that may be absent is read from an item. -/
theorem forall_mem_of_optional {entries : Entries} {name : String}
    {read : Value → Checked (List α)} {xs : List α} {P : α → Prop}
    (h : optional entries name [] (fun v _ => read v) = accepted xs)
    (hread : ∀ {v ys}, read v = accepted ys → ∀ x ∈ ys, P x) : ∀ x ∈ xs, P x := by
  rcases optional_eq_accepted h with rfl | ⟨v, _, hv⟩
  · exact fun x hx => nomatch hx
  · exact hread hv

theorem forall_mem_of_tupleOf {v : Value} {read : Value → Checked α} {xs : List α} {P : α → Prop}
    (h : (tupleOf v fun item _ => read item) = accepted xs)
    (hread : ∀ {item x}, read item = accepted x → P x) : ∀ x ∈ xs, P x := by
  intro x hx
  obtain ⟨item, _, hitem⟩ := tupleOf_eq_accepted h x hx
  exact hread hitem

/-- What a field holds that may be null or absent is read from its value. -/
theorem forall_mem_of_nullable {entries : Entries} {name : String} {read : Value → Checked α}
    {o : Option α} {P : α → Prop}
    (h : optional entries name none (fun v _ => nullable read v) = accepted o)
    (hread : ∀ {v a}, read v = accepted a → P a) : ∀ a ∈ o, P a := by
  rcases optional_eq_accepted h with rfl | ⟨v, _, hv⟩
  · exact fun a ha => nomatch ha
  · exact fun a ha => hread (nullable_eq_accepted hv a ha)

theorem model_eq_accepted {name : String} {a : α} : ∀ {v : Value}
    {read : (entries : Entries) → sizeOf entries < sizeOf v → Checked α},
    model name v read = accepted a → ∃ entries h, read entries h = accepted a
  | .object entries, _, heq => ⟨entries, _, heq⟩
  | .cyclic _ content, _, heq => by
    rw [model] at heq
    obtain ⟨entries, _, h⟩ := model_eq_accepted heq
    exact ⟨entries, _, h⟩
  | .null, _, heq | .bool _, _, heq | .int _, _, heq | .real _, _, heq | .text _, _, heq
  | .broken _, _, heq | .list _, _, heq | .set _, _, heq | .bytes _, _, heq
  | .moment _ _, _, heq => nomatch heq

theorem onlyFields_eq_accepted {known : List String} {entries : Entries} {fields : Checked α}
    {a : α} (h : onlyFields known entries fields = accepted a) : fields = accepted a := by
  unfold onlyFields at h
  split at h
  · cases h
  · split at h
    · exact h
    · cases h
    · cases h

theorem dictionaryEntries_eq_accepted {read : Value → Checked α} :
    ∀ {entries : Entries} {ps : List (String × α)}, dictionaryEntries read entries = accepted ps →
      ∀ p ∈ ps, ∃ v, read v = accepted p.2
  | [], _, heq, p, hp => by cases heq; cases hp
  | (key, v) :: rest, _, heq, p, hp => by
    simp only [dictionaryEntries, combine_eq_accepted_iff, map_eq_accepted_iff,
      under_eq_accepted_iff] at heq
    obtain ⟨_, ⟨a, ha, rfl⟩, qs, hqs, rfl⟩ := heq
    rcases List.mem_cons.1 hp with rfl | hp
    · exact ⟨v, ha⟩
    · exact dictionaryEntries_eq_accepted hqs p hp

theorem dictionary_eq_accepted {read : Value → Checked α} {v : Value} {ps : List (String × α)}
    (h : dictionary read v = accepted ps) : ∀ p ∈ ps, ∃ w, read w = accepted p.2 := by
  unfold dictionary at h
  split at h
  · exact dictionaryEntries_eq_accepted h
  · cases h

theorem reading_eq_accepted {outer : Nesting} {levels : Nat} {name : String} {v : Value}
    {read : Nesting → Checked α} {a : α} (h : outer.reading levels name v read = accepted a) :
    ∃ inner : Nesting, inner.depth = outer.depth + levels ∧ inner.depth ≤ Nesting.maxDepth ∧
      read inner = accepted a := by
  unfold Nesting.reading at h
  split at h
  · next inner henter =>
    refine ⟨inner, ?_, Nesting.depth_le_of_enter henter, h⟩
    unfold Nesting.enter at henter
    split at henter
    · split at henter
      · cases henter
      · split at henter
        · cases henter
        · rw [← Except.ok.inj henter]
    · split at henter
      · cases henter
      · rw [← Except.ok.inj henter]
  · cases h

/-! ## Reading back -/

/-- A reader that reads a thing from a value, whatever null entries are left out. -/
def ReadsBack (read : Value → Checked α) (v : Value) (a : α) : Prop :=
  ∀ w, v.Omits w → read w = accepted a

section Parts

variable {read : Value → Checked α}

theorem readsBack_scalar {v : Value} {a : α} (hv : v.IsScalar) (h : read v = accepted a) :
    ReadsBack read v a := fun _ hw => Value.eq_of_omits_scalar hv hw ▸ h

theorem readsBack_text (s : String) : ReadsBack Reading.text (.text s) s :=
  readsBack_scalar trivial rfl

theorem readsBack_nonEmptyText {s : String} (h : s ≠ "") : ReadsBack nonEmptyText (.text s) s :=
  readsBack_scalar trivial (if_neg h)

theorem readsBack_integer (n : Int) : ReadsBack integer (.int n) n := readsBack_scalar trivial rfl

theorem readsBack_natFrom {bound n : Nat} (h : bound ≤ n) :
    ReadsBack (natFrom bound) (.nat n) n := by
  have hbound : integerFrom bound (.nat n) = accepted (n : Int) := if_neg (by omega)
  exact readsBack_scalar trivial (by rw [natFrom, hbound]; rfl)

theorem readsBack_boolean (b : Bool) : ReadsBack boolean (.bool b) b :=
  readsBack_scalar trivial rfl

theorem readsBack_items {write : α → Value} {bound : Nat} :
    ∀ {xs : List α}, (∀ x ∈ xs, ReadsBack read (write x) x) → ∀ {ws : List Value},
      List.Forall₂ Value.Omits (xs.map write) ws → ∀ (h : sizeOf ws ≤ bound) (n : Nat),
        items bound (fun item _ => read item) ws h n = accepted xs
  | [], _, _, .nil, _, _ => rfl
  | x :: rest, hread, _, .cons hw hrest, _, _ => by
    rw [items, readsBack_items (fun y hy => hread y (List.mem_cons_of_mem _ hy)) hrest,
      hread x List.mem_cons_self _ hw]
    rfl

/-- A list whose items are read back is read back. -/
theorem readsBack_tupleOf {write : α → Value} {xs : List α}
    (h : ∀ x ∈ xs, ReadsBack read (write x) x) :
    ReadsBack (fun v => tupleOf v fun item _ => read item) (.list (xs.map write)) xs := by
  intro w hw
  obtain ⟨ws, rfl, hitems⟩ := Value.omits_list_iff.1 hw
  exact readsBack_items h hitems _ 0

theorem readsBack_texts (ss : List String) : ReadsBack textTuple (.texts ss) ss :=
  readsBack_tupleOf fun s _ => readsBack_text s

theorem readsBack_atLeast {needed : Nat} {read : Value → Checked (List α)} {v : Value}
    {xs : List α} (h : ReadsBack read v xs) (hlength : needed ≤ xs.length) :
    ReadsBack (fun v => atLeast needed (read v)) v xs :=
  fun w hw => atLeast_eq_accepted_iff.2 ⟨h w hw, hlength⟩

/-- What is written for an absent thing is null, and read as such. -/
theorem readsBack_nullable {write : α → Value} {o : Option α} (hwrite : ∀ a, write a ≠ .null)
    (h : ∀ a ∈ o, ReadsBack read (write a) a) :
    ReadsBack (nullable read) (.ofOption write o) o := by
  cases o with
  | none => exact readsBack_scalar trivial rfl
  | some a =>
    intro w hw
    have hread : read w = accepted a := h a rfl w hw
    have hnull : w ≠ .null := fun heq => hwrite a (Value.eq_null_of_omits (heq ▸ hw))
    unfold nullable
    split
    · exact absurd rfl hnull
    · rw [hread]
      rfl

theorem readsBack_dictionary {write : α → Value} (hwrite : ∀ a, write a ≠ .null)
    {ps : List (String × α)} (h : ∀ p ∈ ps, ReadsBack read (write p.2) p.2) :
    ReadsBack (dictionary read) (.record (ps.map fun (name, a) => (name, write a))) ps := by
  intro w hw
  obtain ⟨es, rfl, ht⟩ := Value.omits_object_iff.1 hw
  clear hw
  show dictionaryEntries read es = accepted ps
  induction ps generalizing es with
  | nil => cases ht; rfl
  | cons p rest ih =>
    obtain ⟨name, a⟩ := p
    have hrest : ∀ p ∈ rest, ReadsBack read (write p.2) p.2 :=
      fun p hp => h p (List.mem_cons_of_mem _ hp)
    have hnull := hwrite a
    simp only [List.map_cons] at ht
    generalize hv : write a = v at ht hnull
    cases ht with
    | @kept _ _ w _ fs changed ht =>
      have hfirst : read w = accepted a := h (name, a) List.mem_cons_self w (hv ▸ changed)
      rw [dictionaryEntries, ih hrest fs ht, hfirst]
      rfl
    | omitted ht => exact absurd rfl hnull

end Parts

section Fields

variable {fields : List (String × Value)} {es : Entries} {read : Value → Checked α} {name : String}
  {v : Value} {a : α}

theorem required_of_leaves (h : es.Leaves fields) (hread : ReadsBack read v a)
    (hmem : (name, v) ∈ fields) (hv : v ≠ .null) :
    required es name (fun v _ => read v) = accepted a := by
  rw [required, under_eq_accepted_iff]
  rcases h.find? hmem with ⟨heq, -⟩ | ⟨w, hfound, hw⟩
  · exact absurd heq hv
  · split
    · next hnone => cases hnone.symm.trans hfound
    · next u hsome => exact hread u (Option.some.inj (hsome.symm.trans hfound) ▸ hw)

theorem optional_of_absent {absent : α} {read : PartReader (sizeOf es) α}
    (h : es.find? name = none) : optional es name absent read = accepted absent := by
  unfold optional
  split
  · rfl
  · next hsome => cases h.symm.trans hsome

theorem optional_of_found {absent : α} {read : PartReader (sizeOf es) α}
    (h : es.find? name = some v) :
    optional es name absent read = (read v (Entries.sizeOf_lt_of_find? h)).under (.field name) := by
  unfold optional
  split
  · next hnone => cases hnone.symm.trans h
  · next w hsome =>
    obtain rfl := Option.some.inj (hsome.symm.trans h)
    rfl

/-- A field is read back that is null only for what it is read as when it is absent. -/
theorem optional_of_leaves {absent : α} (h : es.Leaves fields) (hread : ReadsBack read v a)
    (hmem : (name, v) ∈ fields) (habsent : v = .null → a = absent) :
    optional es name absent (fun v _ => read v) = accepted a := by
  rcases h.find? hmem with ⟨heq, hnone⟩ | ⟨w, hfound, hw⟩
  · rw [optional_of_absent hnone, habsent heq]
  · rw [optional_of_found hfound, under_eq_accepted_iff]
    exact hread w hw

theorem nullable_of_leaves {write : α → Value} {o : Option α} (h : es.Leaves fields)
    (hread : ∀ a ∈ o, ReadsBack read (write a) a)
    (hmem : (name, .ofOption write o) ∈ fields) (hwrite : ∀ a, write a ≠ .null) :
    optional es name none (fun v _ => nullable read v) = accepted o := by
  refine optional_of_leaves h (readsBack_nullable hwrite hread) hmem fun hnull => ?_
  cases o with
  | none => rfl
  | some a => exact absurd hnull (hwrite a)

theorem strangers_eq_nil {known : List String} (fs : Entries)
    (h : ∀ key ∈ fs.map (·.1), ∃ name ∈ known, key = .text name) :
    strangers known fs = [] ∧ (fs.any fun (key, _) => isBroken key) = false := by
  induction fs with
  | nil => exact ⟨rfl, rfl⟩
  | cons e rest ih =>
    obtain ⟨key, w⟩ := e
    obtain ⟨name, hname, rfl⟩ := h key List.mem_cons_self
    obtain ⟨hs, hb⟩ := ih fun key hkey => h key (List.mem_cons_of_mem _ hkey)
    rw [strangers, if_pos (by simpa using hname), List.any_cons, hb]
    exact ⟨hs, rfl⟩

theorem onlyFields_of_known {known : List String}
    (h : ∀ key ∈ es.map (·.1), ∃ name ∈ known, key = .text name) (r : Checked α) :
    onlyFields known es r = r := by
  obtain ⟨hs, hb⟩ := strangers_eq_nil es h
  unfold onlyFields
  rw [hs, hb]
  rfl

theorem onlyFields_of_leaves (h : es.Leaves fields) (r : Checked α) :
    onlyFields (fields.map (·.1)) es r = r := by
  apply onlyFields_of_known
  intro key hkey
  have hmem := h.thinned.mem_keys hkey
  simp only [List.map_map, List.mem_map, Function.comp_apply] at hmem
  obtain ⟨field, hfield, rfl⟩ := hmem
  exact ⟨field.1, List.mem_map_of_mem hfield, rfl⟩

/-- A model is read back inside others if there is room for it. -/
theorem readsBack_reading {outer : Nesting} {levels : Nat} {model : String}
    {inside : Nesting → Value → Checked α} (hroom : outer.depth + levels ≤ Nesting.maxDepth)
    (hinside : ∀ inner : Nesting, inner.depth = outer.depth + levels →
      ReadsBack (inside inner) (.object es) a) :
    ReadsBack (fun v => outer.reading levels model v fun inner => inside inner v) (.object es)
      a := by
  intro w hw
  obtain ⟨fs, rfl, -⟩ := Value.omits_object_iff.1 hw
  have henter : outer.enter levels model (.object fs)
      = .ok ⟨outer.depth + levels, outer.entered⟩ := by
    rw [Nesting.enter, if_neg (Nat.not_lt.2 hroom)]
    nofun
  simp only [Nesting.reading, henter]
  exact hinside _ rfl _ hw

/-- A model is accepted if its fields are read back from what is left of them. -/
theorem model_of_omits {model : String} {known : List String} {fieldsOf : Entries → Checked α}
    {w : Value} (hw : (Value.record fields).Omits w) (hdistinct : known.Nodup)
    (hknown : known = fields.map (·.1))
    (h : ∀ es : Entries, es.Leaves fields → fieldsOf es = accepted a) :
    Reading.model model w (fun es _ => onlyFields known es (fieldsOf es)) = accepted a := by
  subst hknown
  obtain ⟨es, rfl, hes⟩ := hw.record hdistinct
  exact (onlyFields_of_leaves hes _).trans (h es hes)

theorem readsBack_model {model : String} {known : List String} {fieldsOf : Entries → Checked α}
    (hdistinct : known.Nodup) (hknown : known = fields.map (·.1))
    (h : ∀ es : Entries, es.Leaves fields → fieldsOf es = accepted a) :
    ReadsBack (fun v => Reading.model model v fun es _ => onlyFields known es (fieldsOf es))
      (.record fields) a :=
  fun _ hw => model_of_omits hw hdistinct hknown h

/-- A model with a condition on its fields. -/
theorem readsBack_model_andThen {β : Type} {model : String} {known : List String}
    {fieldsOf : Entries → Checked β} {check : β → Checked α} (b : β) (hdistinct : known.Nodup)
    (hknown : known = fields.map (·.1))
    (h : ∀ es : Entries, es.Leaves fields → fieldsOf es = accepted b)
    (hcheck : check b = accepted a) :
    ReadsBack (fun v => Reading.model model v fun es _ =>
      (onlyFields known es (fieldsOf es)).andThen check) (.record fields) a := by
  intro w hw
  subst hknown
  obtain ⟨es, rfl, hes⟩ := hw.record hdistinct
  refine andThen_eq_accepted_iff.2 ⟨b, ?_, hcheck⟩
  exact (onlyFields_of_leaves hes _).trans (h es hes)

end Fields

end Reading

end SchemaVersioning
