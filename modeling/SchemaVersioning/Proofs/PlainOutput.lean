import SchemaVersioning.CommandLine.PlainText
import SchemaVersioning.Json.Writer
import SchemaVersioning.Proofs.JsonReading

/-!
# Plain output

A text without escape characters and carriage returns is printed as it is (`plainText_of_isPlain`).
Data that is written in ASCII over several lines is such a text (`isPlain_indented`).
-/

namespace SchemaVersioning

namespace CommandLine

/-- No character begins a control sequence or returns the carriage. -/
def IsPlain (cs : List Char) : Prop := ∀ c ∈ cs, c ≠ '\x1b' ∧ c ≠ '\r'

@[simp] theorem isPlain_nil : IsPlain [] := nofun

@[simp] theorem isPlain_cons {c : Char} {cs : List Char} :
    IsPlain (c :: cs) ↔ (c ≠ '\x1b' ∧ c ≠ '\r') ∧ IsPlain cs :=
  List.forall_mem_cons

@[simp] theorem isPlain_append {cs ds : List Char} :
    IsPlain (cs ++ ds) ↔ IsPlain cs ∧ IsPlain ds :=
  List.forall_mem_append

@[simp] theorem isPlain_replicate {n : ℕ} {c : Char} (h : c ≠ '\x1b' ∧ c ≠ '\r') :
    IsPlain (List.replicate n c) := fun _ hd => List.eq_of_mem_replicate hd ▸ h

theorem IsPlain.of_subset {cs ds : List Char} (h : IsPlain cs) (hsub : ds ⊆ cs) : IsPlain ds :=
  fun c hc => h c (hsub hc)

/-! ## Printing -/

theorem dropSequences_of_isPlain {cs : List Char} (h : IsPlain cs) : dropSequences cs = cs := by
  induction cs with
  | nil => rw [dropSequences]
  | cons c cs ih =>
    obtain ⟨hc, hcs⟩ := isPlain_cons.1 h
    rw [dropSequences, if_neg fun hstart => hc.1 hstart.1, ih hcs]

theorem unifyLineFeeds_of_isPlain {cs : List Char} (h : IsPlain cs) : unifyLineFeeds cs = cs := by
  induction cs with
  | nil => rw [unifyLineFeeds]
  | cons c cs ih =>
    obtain ⟨hc, hcs⟩ := isPlain_cons.1 h
    rw [unifyLineFeeds, ih hcs]
    rintro rest rfl
    exact absurd rfl hc.2

/-- A plain text is printed as it is. -/
theorem plainText_of_isPlain {s : String} (h : IsPlain s.toList) : plainText s = s := by
  rw [plainText, dropSequences_of_isPlain h, unifyLineFeeds_of_isPlain h, String.ofList_toList]

end CommandLine

/-! ## Numbers -/

open CommandLine

theorem isPlain_toDigits (n : ℕ) : IsPlain (Nat.toDigits 10 n) := by
  intro c hc
  have hdigit : Json.isDigit c = true := Json.isDigit_toDigits hc
  constructor <;> rintro rfl <;> exact absurd hdigit (by decide)

@[simp] theorem isPlain_nat (n : ℕ) : IsPlain (toString n).toList := by
  rw [Json.toList_nat]
  exact isPlain_toDigits n

@[simp] theorem isPlain_int (n : ℤ) : IsPlain (toString n).toList := by
  cases n with
  | ofNat n => exact isPlain_nat n
  | negSucc n =>
    rw [Json.toList_negSucc]
    exact isPlain_cons.2 ⟨by decide, isPlain_toDigits (n + 1)⟩

theorem isPlain_hexDigits (width n : ℕ) : IsPlain (hexDigits width n) := by
  induction width generalizing n with
  | zero => exact isPlain_nil
  | succ width ih =>
    have hdigit : ∀ d < 16, hexDigit d ≠ '\x1b' ∧ hexDigit d ≠ '\r' := by decide
    rw [hexDigits, isPlain_append]
    exact ⟨ih _, by simpa using hdigit _ (Nat.mod_lt n (by decide))⟩

theorem isPlain_decimalText (digits : ℕ) (exponent : ℤ) :
    IsPlain (Binary64.decimalText digits exponent).toList := by
  have hzeros : ∀ n, IsPlain (List.replicate n '0') := fun n => isPlain_replicate (by decide)
  have hsign : ∀ e : ℤ, IsPlain (if e < 0 then "-" else "+").toList := fun e => by
    split <;> simp
  have hsize : ∀ s : String, IsPlain s.toList →
      IsPlain (if s.length < 2 then "0" ++ s else s).toList := fun s hs => by
    split <;> simp [hs]
  have htail : ∀ ds, IsPlain ds →
      IsPlain (if ds.isEmpty = true then "" else "." ++ String.ofList ds).toList := fun ds hds => by
    split <;> simp [hds]
  have hdigits := isPlain_nat digits
  simp only [Binary64.decimalText]
  generalize (toString digits).toList = ds at hdigits
  have htake : ∀ n, IsPlain (ds.take n) := fun n => hdigits.of_subset (List.take_subset n ds)
  have hdrop : ∀ n, IsPlain (ds.drop n) := fun n => hdigits.of_subset (List.drop_subset n ds)
  split
  · split
    · simp [hdigits, hzeros]
    · split <;> simp [hdigits, hzeros, htake, hdrop]
  · simp only [String.toList_append, String.toList_ofList, isPlain_append]
    exact ⟨⟨⟨⟨htake 1, htail _ (hdrop 1)⟩, by simp⟩, hsign _⟩, hsize _ (isPlain_nat _)⟩

theorem isPlain_real (x : Binary64) : IsPlain x.text.toList := by
  cases x with
  | finite negative m e =>
    have hsign : IsPlain (if negative = true then "-" else "").toList := by split <;> simp
    simp only [Binary64.text]
    split
    · simp [hsign]
    · simp [hsign, isPlain_decimalText]
  | infinite negative => cases negative <;> simp [Binary64.text]
  | notANumber => simp [Binary64.text]

/-! ## Data -/

namespace Json

theorem isPlain_flatMap {α : Type} {f : α → List Char} {xs : List α}
    (h : ∀ x ∈ xs, IsPlain (f x)) : IsPlain (xs.flatMap f) := by
  intro c hc
  obtain ⟨x, hx, hc⟩ := List.mem_flatMap.1 hc
  exact h x hx c hc

/-- What is written in ASCII for a character are characters that are printed. -/
theorem isPlain_escape (c : Char) : IsPlain (escape .ascii c) := by
  unfold escape
  iterate 7
    split
    · simp
  split
  · exact isPlain_flatMap fun unit _ => by simp [isPlain_hexDigits]
  · next hcontrol =>
    have hc : ¬ c.toNat < 0x20 := fun h => hcontrol (Or.inl h)
    refine isPlain_cons.2 ⟨⟨?_, ?_⟩, isPlain_nil⟩ <;> rintro rfl <;> exact hc (by decide)

theorem isPlain_quoted (s : String) : IsPlain (quoted .ascii s) := by
  simp [quoted, isPlain_flatMap fun c (_ : c ∈ s.toList) => isPlain_escape c]

theorem isPlain_scalar (v : Value) : IsPlain (scalar .ascii v) := by
  cases v with
  | bool b => cases b <;> simp [scalar]
  | int n => exact isPlain_int n
  | real x => exact isPlain_real x
  | text s => exact isPlain_quoted s
  | broken points =>
    have hpoint : ∀ n ∈ points, IsPlain (escapePoint .ascii n) := fun n _ => by
      unfold escapePoint
      split
      · simp [isPlain_hexDigits]
      · exact isPlain_escape _
    simp [scalar, isPlain_flatMap hpoint]
  | moment m shown => exact isPlain_quoted shown
  | _ => simp [scalar]

theorem isPlain_newline (depth : ℕ) : IsPlain (newline depth) := by
  simp [newline]

mutual

theorem isPlain_indentedChars : ∀ (v : Value) (depth : ℕ), IsPlain (indentedChars .ascii depth v)
  | .list [], _ => by simp [indentedChars]
  | .list (v :: vs), depth => by
    rw [indentedChars]
    · simp [isPlain_indentedItems (v :: vs) depth]
    · simp
  | .object [], _ => by simp [indentedChars]
  | .object (e :: es), depth => by
    rw [indentedChars]
    · simp [isPlain_indentedEntries (e :: es) depth]
    · simp
  | .null, _ | .bool _, _ | .int _, _ | .real _, _ | .text _, _ | .broken _, _ | .set _, _
  | .bytes _, _ | .moment _ _, _ | .cyclic _ _, _ => by
    rw [indentedChars] <;> simp [isPlain_scalar]

theorem isPlain_indentedItems : ∀ (vs : List Value) (depth : ℕ),
    IsPlain (indentedItems .ascii depth vs)
  | [], depth => by simp [indentedItems, isPlain_newline]
  | [v], depth => by
    simp [indentedItems, isPlain_newline, isPlain_indentedChars v (depth + 1)]
  | v :: w :: vs, depth => by
    have hv := isPlain_indentedChars v (depth + 1)
    have hvs := isPlain_indentedItems (w :: vs) depth
    rw [indentedItems] <;> simp [isPlain_newline, hv, hvs]

theorem isPlain_indentedEntries : ∀ (es : List (Key × Value)) (depth : ℕ),
    IsPlain (indentedEntries .ascii depth es)
  | [], depth => by simp [indentedEntries, isPlain_newline]
  | [(key, v)], depth => by
    simp [indentedEntries, isPlain_newline, isPlain_quoted, isPlain_indentedChars v (depth + 1)]
  | (key, v) :: e :: es, depth => by
    have hv := isPlain_indentedChars v (depth + 1)
    have hes := isPlain_indentedEntries (e :: es) depth
    rw [indentedEntries] <;> simp [isPlain_newline, isPlain_quoted, hv, hes]

end

/-- Data that is written in ASCII is printed as it is. -/
theorem isPlain_indented (v : Value) : IsPlain (indented .ascii v).toList := by
  rw [indented, String.toList_ofList]
  exact isPlain_indentedChars v 0

end Json

end SchemaVersioning
