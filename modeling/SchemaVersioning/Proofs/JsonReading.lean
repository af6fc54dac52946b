import Mathlib.Data.Nat.Notation
import SchemaVersioning.Json.Reader
import SchemaVersioning.Json.Writer
import SchemaVersioning.Proofs.VersionNames

/-!
# Data in JSON

What is written in JSON is read back as it was, if its lists and objects do not nest too deep, and
is not read at all if they do (`read?_compact`).  Texts, numerals and words end where they are
written to end, and a list or an object is read part by part.
-/

namespace SchemaVersioning

/-! ## Data -/

/-- The integer has no more decimal digits than are read. -/
def IsShort (n : ℤ) : Prop := DecimalDigit.isShort n.natAbs = true

namespace Value

mutual

/-- The value is made of null, booleans, integers that are not too long, texts, lists and objects
with texts as keys. -/
def IsData : Value → Prop
  | null => True
  | bool _ => True
  | int n => IsShort n
  | text _ => True
  | list items => AllData items
  | object entries => EntriesData entries
  | _ => False

/-- `IsData` for the items of a list. -/
def AllData : List Value → Prop
  | [] => True
  | v :: rest => IsData v ∧ AllData rest

/-- `IsData` for the entries of an object. -/
def EntriesData : List (Key × Value) → Prop
  | [] => True
  | (.text _, v) :: rest => IsData v ∧ EntriesData rest
  | _ => False

end

mutual

/-- How deep the lists and objects of a value nest that are not empty. -/
def nesting : Value → ℕ
  | list items => nestingItems items
  | object entries => nestingEntries entries
  | _ => 0

/-- The nesting of a list. -/
def nestingItems : List Value → ℕ
  | [] => 0
  | v :: rest => max (nesting v + 1) (nestingItems rest)

/-- The nesting of an object. -/
def nestingEntries : List (Key × Value) → ℕ
  | [] => 0
  | (_, v) :: rest => max (nesting v + 1) (nestingEntries rest)

end

end Value

namespace Json

/-! ## Texts -/

theorem hexNumber?_hexDigits {n : ℕ} (h : n < 0x20) :
    hexNumber? (hexDigits 4 n) = some n := by
  revert n
  decide

/-- A control character is read from its number. -/
theorem readText_control {c : Char} (h : c.toNat < 0x20) (cs : List Char) :
    readText ('\\' :: 'u' :: (hexDigits 4 c.toNat ++ cs))
      = (readText cs).map fun (s, rest) => (c :: s, rest) := by
  have hread := hexNumber?_hexDigits h
  simp only [hexDigits, List.nil_append, List.cons_append] at hread ⊢
  have hhigh : ¬ (0xD800 ≤ c.toNat ∧ c.toNat < 0xDC00) := by omega
  have hlow : ¬ (0xDC00 ≤ c.toNat ∧ c.toNat < 0xE000) := by omega
  rw [readText, hread, Option.bind_eq_bind, Option.bind_some, if_neg hhigh, if_neg hlow,
    Char.ofNat_toNat]
  cases readText cs <;> rfl

/-- A character that needs no escape is read as it stands. -/
theorem readText_plain {c : Char} (hquote : c ≠ '"') (hback : c ≠ '\\') (h : 0x20 ≤ c.toNat)
    (cs : List Char) :
    readText (c :: cs) = (readText cs).map fun (s, rest) => (c :: s, rest) := by
  have hplain : ¬ (c.toNat < 0x20 ∨ c = '\\') := by
    rintro (hlt | rfl)
    · omega
    · exact hback rfl
  rw [readText]
  · rw [if_neg hplain]
    cases readText cs <;> rfl
  all_goals simp_all

/-- A character is read as it is written. -/
theorem readText_escape (c : Char) (cs : List Char) :
    readText (escape .minimal c ++ cs) = (readText cs).map fun (s, rest) => (c :: s, rest) := by
  unfold escape
  iterate 7
    split
    · subst c
      rw [List.cons_append, List.cons_append, List.nil_append, readText]
      · cases readText cs <;> rfl
      · rintro _ _ _ _ _ ⟨⟩
  split
  · next hcontrol =>
    have hc : c.toNat < 0x20 := by simpa using hcontrol
    have hunit : utf16 c = [c.toNat] := if_pos (by omega)
    rw [hunit, List.flatMap_singleton]
    exact readText_control hc cs
  · next hquote hback _ _ _ _ _ hplain =>
    exact readText_plain hquote hback (by simpa using hplain) cs

/-- A text is read up to its closing quote. -/
theorem readText_flatMap (cs rest : List Char) :
    readText (cs.flatMap (escape .minimal) ++ '"' :: rest) = some (cs, rest) := by
  induction cs with
  | nil => rfl
  | cons c cs ih => rw [List.flatMap_cons, List.append_assoc, readText_escape, ih]; rfl

/-! ## Numbers -/

/-- What may follow a value: nothing, or the sign that ends an item or the whole. -/
def EndsValue (cs : List Char) : Prop := ∀ c ∈ cs.head?, c = ',' ∨ c = ']' ∨ c = '\x7d'

theorem endsValue_nil : EndsValue [] := by simp [EndsValue]

theorem isDigit_toDigits {n : ℕ} {c : Char} (h : c ∈ Nat.toDigits 10 n) : isDigit c = true := by
  have := Nat.isDigit_of_mem_toDigits (by decide) (Nat.le_refl 10) h
  simpa [isDigit, Char.isDigit, Char.le_def] using this

theorem digitsNumber_toDigits (n : ℕ) : digitsNumber (Nat.toDigits 10 n) = n := by
  rcases Nat.lt_or_ge n 10 with hlt | hge
  · rw [Nat.toDigits_of_lt_base hlt]
    revert n
    decide
  · have ih := digitsNumber_toDigits (n / 10)
    have hlast : ∀ d < 10, (Nat.digitChar d).toNat - 48 = d := by decide
    rw [Nat.toDigits_of_base_le (by decide) hge, digitsNumber, List.foldl_append, ← digitsNumber,
      ih, List.foldl_cons, List.foldl_nil, hlast _ (Nat.mod_lt n (by decide))]
    omega

/-- A numeral has no needless zero at its front. -/
theorem head?_toDigits (n : ℕ) :
    (Nat.toDigits 10 n).length = 1 ∨ (Nat.toDigits 10 n).head? ≠ some '0' := by
  rcases Nat.eq_zero_or_pos n with rfl | hpos
  · exact Or.inl rfl
  · obtain ⟨c, rest, -, hdigits, hlow, -⟩ := exists_read_toDigits n hpos
    refine Or.inr ?_
    rw [hdigits, List.head?_cons, ne_eq, Option.some.injEq]
    rintro rfl
    exact absurd hlow (by decide)

theorem isWhole_toDigits {n : ℕ} (h : DecimalDigit.isShort n = true) :
    isWhole (Nat.toDigits 10 n) = true := by
  have hne : Nat.toDigits 10 n ≠ [] := Nat.toDigits_ne_nil
  have hlength : (Nat.toDigits 10 n).length ≤ DecimalDigit.maxCount := of_decide_eq_true h
  simp only [isWhole, Bool.and_eq_true, Bool.or_eq_true, Bool.not_eq_true',
    List.isEmpty_eq_false_iff, beq_iff_eq, bne_iff_ne, decide_eq_true_eq]
  exact ⟨⟨hne, head?_toDigits n⟩, hlength⟩

/-- The digits in front of what ends a value are all its digits. -/
theorem takeWhile_isDigit {digits rest : List Char} (h : ∀ c ∈ digits, isDigit c = true)
    (hrest : EndsValue rest) :
    (digits ++ rest).takeWhile isDigit = digits ∧ (digits ++ rest).dropWhile isDigit = rest := by
  have hstop : rest.takeWhile isDigit = [] ∧ rest.dropWhile isDigit = rest := by
    cases rest with
    | nil => exact ⟨rfl, rfl⟩
    | cons c rest =>
      have hc : isDigit c = false := by
        rcases hrest c rfl with rfl | rfl | rfl <;> rfl
      simp [hc]
  rw [List.takeWhile_append_of_pos h, List.dropWhile_append_of_pos h, hstop.1, hstop.2]
  simp

theorem readFraction_of_endsValue {rest : List Char} (h : EndsValue rest) :
    readFraction rest = some (none, rest) := by
  cases rest with
  | nil => rfl
  | cons c rest => rcases h c rfl with rfl | rfl | rfl <;> rfl

theorem readExponent_of_endsValue {rest : List Char} (h : EndsValue rest) :
    readExponent rest = some (none, rest) := by
  cases rest with
  | nil => rfl
  | cons c rest => rcases h c rfl with rfl | rfl | rfl <;> rfl

/-- An unsigned numeral, and a numeral behind a minus sign, are read as integers. -/
theorem readNumber_toDigits {n : ℕ} {rest : List Char}
    (hshort : DecimalDigit.isShort n = true) (hrest : EndsValue rest) :
    readNumber (Nat.toDigits 10 n ++ rest) = some (.int n, rest) ∧
    readNumber ('-' :: (Nat.toDigits 10 n ++ rest)) = some (.int (-n), rest) := by
  obtain ⟨htake, hdrop⟩ := takeWhile_isDigit (fun c => isDigit_toDigits (n := n)) hrest
  have hunsigned : ∀ more, Nat.toDigits 10 n ++ rest ≠ '-' :: more := by
    intro more heq
    obtain ⟨c, digits, hdigits⟩ :=
      List.exists_cons_of_ne_nil (Nat.toDigits_ne_nil (n := n) (b := 10))
    have hc : isDigit c = true := isDigit_toDigits (hdigits ▸ List.mem_cons_self)
    rw [hdigits, List.cons_append] at heq
    rw [(List.cons.inj heq).1] at hc
    exact absurd hc (by decide)
  constructor
  · rw [readNumber]
    · simp [htake, hdrop, isWhole_toDigits hshort, readFraction_of_endsValue hrest,
        readExponent_of_endsValue hrest, digitsNumber_toDigits]
    · exact hunsigned
  · rw [readNumber]
    simp [htake, hdrop, isWhole_toDigits hshort, readFraction_of_endsValue hrest,
      readExponent_of_endsValue hrest, digitsNumber_toDigits]

theorem toList_nat (n : ℕ) : (toString n).toList = Nat.toDigits 10 n := by
  rw [show toString n = n.repr from rfl, Nat.repr_eq_ofList_toDigits, String.toList_ofList]

theorem toList_negSucc (n : ℕ) :
    (toString (Int.negSucc n)).toList = '-' :: Nat.toDigits 10 (n + 1) := by
  rw [show toString (Int.negSucc n) = "-" ++ toString (n + 1) from rfl, String.toList_append,
    toList_nat]
  rfl

/-- An integer is read as it is written. -/
theorem readNumber_int {n : ℤ} {rest : List Char} (hshort : IsShort n) (hrest : EndsValue rest) :
    readNumber ((toString n).toList ++ rest) = some (.int n, rest) := by
  cases n with
  | ofNat n =>
    rw [show toString (Int.ofNat n) = toString n from rfl, toList_nat]
    exact (readNumber_toDigits hshort hrest).1
  | negSucc n =>
    rw [toList_negSucc]
    exact (readNumber_toDigits hshort hrest).2

/-! ## Values -/

theorem skipBlanks_cons {c : Char} (h : isBlank c = false) (cs : List Char) :
    skipBlanks (c :: cs) = c :: cs := by simp [skipBlanks, h]

theorem exists_cons_int (n : ℤ) :
    ∃ c more, (toString n).toList = c :: more ∧ (isDigit c = true ∨ c = '-') := by
  cases n with
  | ofNat n =>
    obtain ⟨c, more, hdigits⟩ :=
      List.exists_cons_of_ne_nil (Nat.toDigits_ne_nil (n := n) (b := 10))
    exact ⟨c, more, (toList_nat n).trans hdigits,
      Or.inl (isDigit_toDigits (hdigits ▸ List.mem_cons_self))⟩
  | negSucc n => exact ⟨'-', Nat.toDigits 10 (n + 1), toList_negSucc n, Or.inr rfl⟩

theorem not_isBlank_of_isDigit {c : Char} (h : isDigit c = true ∨ c = '-') :
    isBlank c = false := by
  rcases h with h | rfl
  · by_contra hblank
    simp only [Bool.not_eq_false, isBlank, Bool.or_eq_true, decide_eq_true_eq] at hblank
    rcases hblank with ((rfl | rfl) | rfl) | rfl <;> exact absurd h (by decide)
  · rfl

/-- A written value begins with a character that is neither blank nor closes a list. -/
theorem exists_cons_compactChars {v : Value} (h : v.IsData) :
    ∃ c more, compactChars v = c :: more ∧ isBlank c = false ∧ c ≠ ']' := by
  cases v with
  | null => exact ⟨'n', _, rfl, rfl, by decide⟩
  | bool b => cases b <;> exact ⟨_, _, rfl, rfl, by decide⟩
  | int n =>
    obtain ⟨c, more, htext, hc⟩ := exists_cons_int n
    refine ⟨c, more, htext, not_isBlank_of_isDigit hc, ?_⟩
    rintro rfl
    exact absurd hc (by decide)
  | text s => exact ⟨'"', _, rfl, rfl, by decide⟩
  | list items => exact ⟨'[', _, by rw [compactChars], rfl, by decide⟩
  | object entries => exact ⟨'\x7b', _, by rw [compactChars], rfl, by decide⟩
  | _ => exact h.elim

/-- Behind no blanks, a digit or a minus sign begins a number. -/
theorem readValue_number {c : Char} (h : isDigit c = true ∨ c = '-') (fuel depth : ℕ)
    (cs : List Char) : readValue (fuel + 1) depth (c :: cs) = readNumber (c :: cs) := by
  rw [readValue, skipBlanks_cons (not_isBlank_of_isDigit h)]
  split
  case h_7 => rfl
  all_goals
    next heq =>
      obtain ⟨rfl, -⟩ := List.cons.inj heq
      exact absurd h (by decide)

theorem readValue_quoted (s : String) (fuel depth : ℕ) (rest : List Char) :
    readValue (fuel + 1) depth (quoted .minimal s ++ rest) = some (.text s, rest) := by
  rw [quoted, List.append_assoc, List.cons_append, List.singleton_append, readValue,
    skipBlanks_cons rfl]
  simp [readText_flatMap]

/-- Behind an opening bracket the items of a list are read, one level deeper. -/
theorem readValue_items {cs : List Char} (hskip : skipBlanks cs = cs)
    (hopen : ∀ more, cs ≠ ']' :: more) (fuel depth : ℕ) :
    readValue (fuel + 1) depth ('[' :: cs)
      = if depth = 0 then none
        else (readItems fuel (depth - 1) cs).map fun (items, rest) => (.list items, rest) := by
  rw [readValue, skipBlanks_cons rfl]
  simp only [hskip]

/-- Behind an opening brace and a quote the entries of an object are read, one level deeper. -/
theorem readValue_entries (cs : List Char) (fuel depth : ℕ) :
    readValue (fuel + 1) depth ('\x7b' :: '"' :: cs)
      = if depth = 0 then none
        else (readEntries fuel (depth - 1) ('"' :: cs)).map fun (entries, rest) =>
          (.object entries, rest) := by
  rw [readValue, skipBlanks_cons rfl]
  simp only [skipBlanks_cons (show isBlank '"' = false from rfl)]
  split
  · next heq => exact absurd (List.cons.inj heq).1 (by decide)
  · rfl

/-- The items of a list that is not empty are written behind neither blanks nor a bracket. -/
theorem skipBlanks_compactItems {items : List Value} (h : Value.AllData items) (hne : items ≠ [])
    (rest : List Char) :
    skipBlanks (compactItems items ++ rest) = compactItems items ++ rest ∧
    ∀ more, compactItems items ++ rest ≠ ']' :: more := by
  obtain ⟨v, vs, rfl⟩ := List.exists_cons_of_ne_nil hne
  obtain ⟨c, more, hcs, hblank, hc⟩ := exists_cons_compactChars h.1
  have hfront : ∃ tail, compactItems (v :: vs) = c :: tail := by
    cases vs with
    | nil => exact ⟨_, by rw [compactItems, hcs, List.cons_append]⟩
    | cons w vs => exact ⟨_, by rw [compactItems, hcs, List.cons_append]; simp⟩
  obtain ⟨tail, htail⟩ := hfront
  rw [htail, List.cons_append]
  exact ⟨skipBlanks_cons hblank _, fun _ heq => hc (List.cons.inj heq).1⟩

/-- The entries of an object that is not empty begin with a quote. -/
theorem exists_cons_compactEntries {entries : List (Key × Value)} (h : entries ≠ []) :
    ∃ tail, compactEntries entries = '"' :: tail := by
  obtain ⟨e, es, rfl⟩ := List.exists_cons_of_ne_nil h
  cases es with
  | nil => exact ⟨_, by rw [compactEntries, quoted, List.cons_append, List.cons_append]; rfl⟩
  | cons f es =>
    exact ⟨_, (compactEntries.eq_3 e.1 e.2 (f :: es) (by simp)).trans (by rw [quoted]; rfl)⟩

/-- What is read one level deeper fits if and only if the whole fits. -/
theorem map_ite_nesting {α β : Type} (f : α → β) (a : α) (n depth : ℕ) (h : 0 < n) :
    (if depth = 0 then none else (if n ≤ depth - 1 + 1 then some a else none).map f)
      = if n ≤ depth then some (f a) else none := by
  rcases Nat.eq_zero_or_pos depth with rfl | hpos
  · rw [if_pos rfl, if_neg (by omega)]
  · rw [if_neg (by omega), Nat.sub_add_cancel hpos]
    split <;> rfl

mutual

/-- A value is read as it was written if it does not nest too deep, and not at all if it does. -/
theorem readValue_compact : ∀ {v : Value}, v.IsData → ∀ {fuel depth : ℕ} {rest : List Char},
    2 * (compactChars v).length ≤ fuel → EndsValue rest →
      readValue fuel depth (compactChars v ++ rest)
        = if v.nesting ≤ depth then some (v, rest) else none
  | .null, _, fuel + 1, _, rest, _, _ => by
    simp [compactChars, scalar, Value.nesting, readValue, skipBlanks_cons, isBlank, dropWord]
    rfl
  | .bool b, _, fuel + 1, _, rest, _, _ => by
    cases b <;>
      simp [compactChars, scalar, Value.nesting, readValue, skipBlanks_cons, isBlank, dropWord] <;>
      rfl
  | .int n, h, fuel + 1, _, rest, _, hrest => by
    obtain ⟨c, more, htext, hc⟩ := exists_cons_int n
    have hread := readNumber_int h hrest
    rw [show compactChars (.int n) = (toString n).toList from rfl]
    rw [htext, List.cons_append] at hread ⊢
    simp [readValue_number hc, hread, Value.nesting]
  | .text s, _, fuel + 1, _, rest, _, _ => by
    rw [show compactChars (.text s) = quoted .minimal s from rfl, readValue_quoted]
    simp [Value.nesting]
  | .list [], _, fuel + 1, _, rest, _, _ => by
    simp [compactChars, compactItems, Value.nesting, Value.nestingItems, readValue, skipBlanks_cons,
      isBlank]
  | .list (v :: vs), h, fuel + 1, depth, rest, hfuel, _ => by
    obtain ⟨hskip, hopen⟩ := skipBlanks_compactItems h (List.cons_ne_nil v vs) rest
    have hlength : 2 * (compactItems (v :: vs)).length ≤ fuel + 1 := by
      rw [compactChars, List.length_cons] at hfuel
      omega
    have hnesting : 0 < Value.nestingItems (v :: vs) := by
      rw [Value.nestingItems]
      omega
    rw [compactChars, List.cons_append, readValue_items hskip hopen,
      readItems_compact (List.cons_ne_nil v vs) h hlength, map_ite_nesting _ _ _ _ hnesting,
      Value.nesting]
  | .object [], _, fuel + 1, _, rest, _, _ => by
    simp [compactChars, compactEntries, Value.nesting, Value.nestingEntries, readValue,
      skipBlanks_cons, isBlank]
  | .object ((key, v) :: es), h, fuel + 1, depth, rest, hfuel, _ => by
    obtain ⟨tail, htail⟩ := exists_cons_compactEntries (List.cons_ne_nil (key, v) es)
    have hlength : 2 * (compactEntries ((key, v) :: es)).length ≤ fuel + 1 := by
      rw [compactChars, List.length_cons] at hfuel
      omega
    have hnesting : 0 < Value.nestingEntries ((key, v) :: es) := by
      rw [Value.nestingEntries]
      omega
    have hread : readEntries fuel (depth - 1) (compactEntries ((key, v) :: es) ++ rest) = _ :=
      readEntries_compact (List.cons_ne_nil (key, v) es) h hlength
    rw [htail, List.cons_append] at hread
    rw [compactChars, htail, List.cons_append, List.cons_append, readValue_entries, hread,
      map_ite_nesting _ _ _ _ hnesting, Value.nesting]
  | v, h, 0, _, _, hfuel, _ => by
    obtain ⟨c, more, hcs, -⟩ := exists_cons_compactChars h
    simp [hcs] at hfuel

/-- The items of a list are read one by one. -/
theorem readItems_compact : ∀ {items : List Value}, items ≠ [] → Value.AllData items →
    ∀ {fuel depth : ℕ} {rest : List Char}, 2 * (compactItems items).length ≤ fuel + 1 →
      readItems fuel depth (compactItems items ++ rest)
        = if Value.nestingItems items ≤ depth + 1 then some (items, rest) else none
  | [v], _, ⟨hv, _⟩, fuel + 1, depth, rest, hfuel => by
    have hends : EndsValue (']' :: rest) := by simp [EndsValue]
    rw [compactItems, List.length_append, List.length_singleton] at hfuel
    rw [compactItems, List.append_assoc, List.singleton_append, readItems,
      readValue_compact hv (by omega) hends]
    by_cases hdepth : v.nesting ≤ depth
    · rw [if_pos hdepth, if_pos (by simp only [Value.nestingItems]; omega)]
      simp [skipBlanks_cons, isBlank]
    · rw [if_neg hdepth, if_neg (by simp only [Value.nestingItems]; omega)]
      rfl
  | v :: w :: items, _, ⟨hv, hitems⟩, fuel + 1, depth, rest, hfuel => by
    have hwrite : compactItems (v :: w :: items)
        = compactChars v ++ ',' :: compactItems (w :: items) := by rw [compactItems]; simp
    have hnesting : Value.nestingItems (v :: w :: items)
        = max (v.nesting + 1) (Value.nestingItems (w :: items)) := by rw [Value.nestingItems]
    have hends : EndsValue (',' :: (compactItems (w :: items) ++ rest)) := by simp [EndsValue]
    rw [hwrite, List.length_append, List.length_cons] at hfuel
    rw [hwrite, hnesting, List.append_assoc, List.cons_append, readItems,
      readValue_compact hv (by omega) hends]
    by_cases hdepth : v.nesting ≤ depth
    · simp only [if_pos hdepth, Option.bind_eq_bind, Option.bind_some,
        skipBlanks_cons (show isBlank ',' = false from rfl),
        readItems_compact (List.cons_ne_nil w items) hitems (by omega : _ ≤ fuel + 1)]
      by_cases hrest : Value.nestingItems (w :: items) ≤ depth + 1
      · rw [if_pos hrest, if_pos (by omega), Option.map_some]
      · rw [if_neg hrest, if_neg (by omega), Option.map_none]
    · rw [if_neg hdepth, if_neg (by omega)]
      rfl
  | v :: items, _, h, 0, _, _, hfuel => by
    obtain ⟨c, more, hcs, -⟩ := exists_cons_compactChars h.1
    cases items <;> simp [compactItems, hcs] at hfuel <;> omega

/-- The entries of an object are read one by one. -/
theorem readEntries_compact : ∀ {entries : List (Key × Value)}, entries ≠ [] →
    Value.EntriesData entries →
    ∀ {fuel depth : ℕ} {rest : List Char}, 2 * (compactEntries entries).length ≤ fuel + 1 →
      readEntries fuel depth (compactEntries entries ++ rest)
        = if Value.nestingEntries entries ≤ depth + 1 then some (entries, rest) else none
  | [(.text name, v)], _, ⟨hv, _⟩, fuel + 1, depth, rest, hfuel => by
    have hends : EndsValue ('\x7d' :: rest) := by simp [EndsValue]
    have hwrite : compactEntries [(.text name, v)] = '"' :: (name.toList.flatMap (escape .minimal)
        ++ '"' :: ':' :: (compactChars v ++ ['\x7d'])) := by
      rw [compactEntries, quoted]
      simp [Key.shown]
    rw [hwrite] at hfuel ⊢
    simp only [List.length_append, List.length_cons, List.length_nil] at hfuel
    simp only [List.cons_append, List.append_assoc, List.nil_append, readEntries,
      skipBlanks_cons (show isBlank '"' = false from rfl), readText_flatMap,
      skipBlanks_cons (show isBlank ':' = false from rfl), Option.bind_eq_bind, Option.bind_some,
      readValue_compact hv (by omega : _ ≤ fuel) hends, String.ofList_toList]
    by_cases hdepth : v.nesting ≤ depth
    · rw [if_pos hdepth, if_pos (by simp only [Value.nestingEntries]; omega)]
      simp [skipBlanks_cons, isBlank]
    · rw [if_neg hdepth, if_neg (by simp only [Value.nestingEntries]; omega)]
      rfl
  | (.text name, v) :: e :: entries, _, ⟨hv, hentries⟩, fuel + 1, depth, rest, hfuel => by
    have hends : EndsValue (',' :: (compactEntries (e :: entries) ++ rest)) := by simp [EndsValue]
    have hwrite : compactEntries ((.text name, v) :: e :: entries)
        = '"' :: (name.toList.flatMap (escape .minimal)
          ++ '"' :: ':' :: (compactChars v ++ ',' :: compactEntries (e :: entries))) := by
      rw [compactEntries, quoted] <;> simp [Key.shown]
    have hnesting : Value.nestingEntries ((.text name, v) :: e :: entries)
        = max (v.nesting + 1) (Value.nestingEntries (e :: entries)) := by rw [Value.nestingEntries]
    rw [hwrite] at hfuel ⊢
    simp only [List.length_append, List.length_cons] at hfuel
    simp only [List.cons_append, List.append_assoc, readEntries, hnesting,
      skipBlanks_cons (show isBlank '"' = false from rfl), readText_flatMap,
      skipBlanks_cons (show isBlank ':' = false from rfl), Option.bind_eq_bind, Option.bind_some,
      readValue_compact hv (by omega : _ ≤ fuel) hends, String.ofList_toList]
    by_cases hdepth : v.nesting ≤ depth
    · simp only [if_pos hdepth, Option.bind_some,
        skipBlanks_cons (show isBlank ',' = false from rfl),
        readEntries_compact (List.cons_ne_nil e entries) hentries (by omega : _ ≤ fuel + 1)]
      by_cases hrest : Value.nestingEntries (e :: entries) ≤ depth + 1
      · rw [if_pos hrest, if_pos (by omega), Option.map_some]
      · rw [if_neg hrest, if_neg (by omega), Option.map_none]
    · rw [if_neg hdepth, if_neg (by omega)]
      rfl
  | e :: entries, _, _, 0, _, _, hfuel => by
    obtain ⟨tail, htail⟩ := exists_cons_compactEntries (List.cons_ne_nil e entries)
    rw [htail, List.length_cons] at hfuel
    omega

end

/-- Data that is written in JSON is read back as it was if it does not nest too deep, and is not
read at all if it does. -/
theorem read?_compact {v : Value} (h : v.IsData) (depth : ℕ) :
    read? depth (compact v).toList = if v.nesting ≤ depth then some v else none := by
  have hread : readValue (2 * (compactChars v).length + 2) depth (compactChars v ++ []) = _ :=
    readValue_compact h (by omega) endsValue_nil
  rw [List.append_nil] at hread
  rw [compact, String.toList_ofList, read?, hread]
  by_cases hdepth : v.nesting ≤ depth
  · rw [if_pos hdepth, if_pos hdepth]
    rfl
  · rw [if_neg hdepth, if_neg hdepth]

end Json

end SchemaVersioning
