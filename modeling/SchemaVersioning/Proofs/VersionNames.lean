import Mathlib.Tactic.IntervalCases
import Mathlib.Tactic.Ring
import SchemaVersioning.Family.VersionName

/-!
# Numbers of version names

A numeral of `n` digits without leading zeros denotes a number below `10 ^ n` that is at least
`10 ^ (n - 1)`.  So a version whose number has too many digits to be read is never the same version
as one whose number can be read (`versionNumber?_ne_of_overlong`).  The name that is written for a
number is read as that number (`versionNumber?_versionName`).
-/

namespace SchemaVersioning

namespace DecimalDigit

theorem value?_lt {c : Char} {v : Nat} (h : value? c = some v) : v < 10 := by
  obtain ⟨first, hf, rfl⟩ := Option.map_eq_some_iff.1 h
  have hc := List.find?_some hf
  simp only [decide_eq_true_eq] at hc
  omega

theorem lt_of_mapM_value? {cs : List Char} {digits : List Nat}
    (h : cs.mapM value? = some digits) : digits.length = cs.length ∧ ∀ d ∈ digits, d < 10 := by
  induction cs generalizing digits with
  | nil =>
    obtain rfl : [] = digits := by simpa using h
    simp
  | cons c cs ih =>
    rw [List.mapM_cons] at h
    obtain ⟨d, hd, h⟩ := Option.bind_eq_some_iff.1 h
    obtain ⟨rest, hrest, h⟩ := Option.bind_eq_some_iff.1 h
    obtain rfl : d :: rest = digits := Option.some.inj h
    obtain ⟨hlen, hlt⟩ := ih hrest
    exact ⟨by simp [hlen], by simpa using ⟨value?_lt hd, hlt⟩⟩

/-- Reading further digits after a number. -/
theorem foldl_bounds {digits : List Nat} (h : ∀ d ∈ digits, d < 10) (start : Nat) :
    start * 10 ^ digits.length ≤ digits.foldl (fun n d => 10 * n + d) start ∧
      digits.foldl (fun n d => 10 * n + d) start < (start + 1) * 10 ^ digits.length := by
  induction digits generalizing start with
  | nil => simp
  | cons d digits ih =>
    obtain ⟨hlow, hhigh⟩ := ih (fun e he => h e (List.mem_cons_of_mem _ he)) (10 * start + d)
    have hd : d < 10 := h d List.mem_cons_self
    simp only [List.foldl_cons, List.length_cons, pow_succ]
    constructor
    · calc start * (10 ^ digits.length * 10)
          = 10 * start * 10 ^ digits.length := by ring
        _ ≤ (10 * start + d) * 10 ^ digits.length := Nat.mul_le_mul_right _ (by omega)
        _ ≤ _ := hlow
    · calc digits.foldl (fun n d => 10 * n + d) (10 * start + d)
          < (10 * start + d + 1) * 10 ^ digits.length := hhigh
        _ ≤ (10 * (start + 1)) * 10 ^ digits.length := Nat.mul_le_mul_right _ (by omega)
        _ = (start + 1) * (10 ^ digits.length * 10) := by ring

end DecimalDigit

open DecimalDigit

/-- The size of the number that a numeral denotes, by the number of its digits. -/
theorem numeralNumber?_bounds {cs : List Char} {n : Nat} (h : numeralNumber? cs = some n) :
    n < 10 ^ cs.length ∧ (1 < cs.length → 10 ^ (cs.length - 1) ≤ n) := by
  unfold numeralNumber? at h
  split at h
  · obtain rfl : 0 = n := by simpa using h
    simp
  · next c rest _ =>
    split at h
    · next hc =>
      obtain ⟨digits, hdigits, rfl⟩ := Option.map_eq_some_iff.1 h
      obtain ⟨hlen, hlt⟩ := lt_of_mapM_value? hdigits
      have hlow : (49 : Nat) ≤ c.toNat := hc.1
      have hhigh : c.toNat ≤ (57 : Nat) := hc.2
      have hfold := foldl_bounds hlt (c.toNat - 48)
      have hnum : number ((c.toNat - 48) :: digits)
          = digits.foldl (fun n d => 10 * n + d) (c.toNat - 48) := by simp [number]
      rw [hnum]
      simp only [List.length_cons, Nat.add_sub_cancel, ← hlen]
      constructor
      · calc _ < (c.toNat - 48 + 1) * 10 ^ digits.length := hfold.2
          _ ≤ 10 * 10 ^ digits.length := Nat.mul_le_mul_right _ (by omega)
          _ = 10 ^ (digits.length + 1) := by ring
      · intro _
        calc 10 ^ digits.length = 1 * 10 ^ digits.length := (Nat.one_mul _).symm
          _ ≤ (c.toNat - 48) * 10 ^ digits.length := Nat.mul_le_mul_right _ (by omega)
          _ ≤ _ := hfold.1
    · simp at h
  · simp at h

theorem versionNumber?_lt {name : String} {n : Nat} (h : versionNumber? name = some n)
    (ho : overlongVersion? name = none) : n < 10 ^ maxCount := by
  unfold versionNumber? at h
  unfold overlongVersion? at ho
  split at h
  · next numeral heq =>
    simp only [heq, h, Option.isSome_some, Bool.and_true, decide_eq_true_eq, ite_eq_right_iff,
      reduceCtorEq, imp_false, Nat.not_lt] at ho
    exact lt_of_lt_of_le (numeralNumber?_bounds h).1 (Nat.pow_le_pow_right (by omega) ho)
  · simp at h

theorem le_versionNumber? {name : String} {n : Nat} (h : versionNumber? name = some n)
    (ho : overlongVersion? name ≠ none) : 10 ^ maxCount ≤ n := by
  unfold versionNumber? at h
  unfold overlongVersion? at ho
  split at h
  · next numeral heq =>
    simp only [heq, h, Option.isSome_some, Bool.and_true, decide_eq_true_eq, ne_eq,
      ite_eq_right_iff, reduceCtorEq, imp_false, Decidable.not_not] at ho
    have hlong : 1 < (dropFinalNewline numeral).length := lt_of_le_of_lt (by decide) ho
    exact le_trans (Nat.pow_le_pow_right (by omega) (by omega)) ((numeralNumber?_bounds h).2 hlong)
  · simp at h

/-- A version that can be read is not one that cannot. -/
theorem versionNumber?_ne_of_overlong {a b : String} {n : Nat} (ha : overlongVersion? a ≠ none)
    (hb : overlongVersion? b = none) (hn : versionNumber? b = some n) :
    versionNumber? a ≠ some n := by
  intro h
  exact absurd (versionNumber?_lt hn hb) (Nat.not_lt.2 (le_versionNumber? h ha))

theorem isVersionName_of_overlong {name : String} (h : overlongVersion? name ≠ none) :
    isVersionName name = true := by
  unfold overlongVersion? at h
  unfold isVersionName versionNumber?
  split at h
  · next numeral _ =>
    cases hnum : numeralNumber? (dropFinalNewline numeral) with
    | some n => rfl
    | none => simp [hnum] at h
  · simp at h

/-! ## Names that are written -/

theorem value?_digitChar {d : Nat} (h : d < 10) : value? d.digitChar = some d := by
  interval_cases d <;> decide

/-- The decimal digits of a positive number are read as that number. -/
theorem exists_read_toDigits (n : Nat) (h : 0 < n) : ∃ c rest digits,
    Nat.toDigits 10 n = c :: rest ∧ '1' ≤ c ∧ c ≤ '9' ∧ rest.mapM value? = some digits ∧
      number ((c.toNat - 48) :: digits) = n := by
  rcases Nat.lt_or_ge n 10 with hlt | hge
  · rw [Nat.toDigits_of_lt_base hlt]
    refine ⟨n.digitChar, [], [], rfl, ?_, ?_, rfl, ?_⟩ <;> interval_cases n <;> decide
  · obtain ⟨c, rest, digits, hdigits, hlow, hhigh, hread, hnumber⟩ :=
      exists_read_toDigits (n / 10) (by omega)
    have hmod := value?_digitChar (Nat.mod_lt n (by decide : 0 < 10))
    refine ⟨c, rest ++ [(n % 10).digitChar], digits ++ [n % 10], ?_, hlow, hhigh, ?_, ?_⟩
    · rw [Nat.toDigits_of_base_le (by decide) hge, hdigits, List.cons_append]
    · rw [List.mapM_append, hread]
      simp [hmod]
    · rw [← List.cons_append, number, List.foldl_append, ← number, hnumber]
      simp only [List.foldl_cons, List.foldl_nil]
      omega

theorem dropFinalNewline_toDigits (n : Nat) :
    dropFinalNewline (Nat.toDigits 10 n) = Nat.toDigits 10 n := by
  refine if_neg fun h => ?_
  have hdigit := Nat.isDigit_of_mem_toDigits (by decide) (Nat.le_refl 10) (List.mem_of_getLast? h)
  simp at hdigit

theorem toList_versionName (n : Nat) : (versionName n).toList = 'V' :: Nat.toDigits 10 n := by
  rw [show versionName n = "V" ++ n.repr from rfl, String.toList_append,
    Nat.repr_eq_ofList_toDigits, String.toList_ofList, String.toList_ofList, List.singleton_append]

theorem dot_not_mem_versionName (n : Nat) : '.' ∉ (versionName n).toList := by
  rw [toList_versionName, List.mem_cons, not_or]
  refine ⟨by decide, fun h => ?_⟩
  have hdigit := Nat.isDigit_of_mem_toDigits (by decide) (Nat.le_refl 10) h
  simp at hdigit

/-- The name of a version is read as its number. -/
theorem versionNumber?_versionName (n : Nat) : versionNumber? (versionName n) = some n := by
  rw [versionNumber?, toList_versionName]
  show numeralNumber? (dropFinalNewline (Nat.toDigits 10 n)) = some n
  rw [dropFinalNewline_toDigits]
  rcases Nat.eq_zero_or_pos n with rfl | hpos
  · decide
  · obtain ⟨c, rest, digits, hdigits, hlow, hhigh, hread, hnumber⟩ := exists_read_toDigits n hpos
    rw [hdigits, numeralNumber?]
    · rw [if_pos ⟨hlow, hhigh⟩, hread, Option.map_some, hnumber]
    · rintro rfl
      exact absurd hlow (by decide)

/-! ## A version name with many digits -/

/-- The version name whose number consists of ones. -/
def onesName (n : Nat) : String := String.ofList ('V' :: List.replicate n '1')

theorem dot_not_mem_onesName (n : Nat) : '.' ∉ (onesName n).toList := by
  simp [onesName, List.mem_replicate]

theorem mapM_value?_ones (n : Nat) :
    (List.replicate n '1').mapM value? = some (List.replicate n 1) := by
  induction n with
  | zero => rfl
  | succ n ih =>
    rw [List.replicate_succ, List.replicate_succ, List.mapM_cons, ih]
    rfl

theorem overlongVersion?_onesName {n : Nat} (h : maxCount < n) :
    overlongVersion? (onesName n) = some n := by
  obtain ⟨k, rfl⟩ : ∃ k, n = k + 1 := ⟨n - 1, by omega⟩
  have hdrop : dropFinalNewline (List.replicate (k + 1) '1') = List.replicate (k + 1) '1' := by
    simp [dropFinalNewline, List.getLast?_replicate]
  have hnumeral : (numeralNumber? (List.replicate (k + 1) '1')).isSome := by
    rw [List.replicate_succ, numeralNumber?, mapM_value?_ones]
    · rfl
    · simp
  simp only [overlongVersion?, onesName, String.toList_ofList, hdrop, hnumeral, Bool.and_true,
    List.length_replicate, decide_eq_true_eq, h, if_true]

end SchemaVersioning
