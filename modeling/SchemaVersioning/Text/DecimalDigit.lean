/-!
# Decimal digits

The characters of the Unicode class `Nd`.  They come in runs of ten consecutive code points, from
the zero to the nine of one script, so the zeros determine the class and the value of each digit.
Numbers are read with the digits of Unicode 14; patterns also know the digits that later versions
up to 16 have added.
-/

namespace SchemaVersioning.DecimalDigit

/-- The code points of the zeros of all scripts. -/
def zeros : List Nat :=
  [0x30, 0x660, 0x6f0, 0x7c0, 0x966, 0x9e6, 0xa66, 0xae6, 0xb66, 0xbe6, 0xc66, 0xce6, 0xd66,
   0xde6, 0xe50, 0xed0, 0xf20, 0x1040, 0x1090, 0x17e0, 0x1810, 0x1946, 0x19d0, 0x1a80, 0x1a90,
   0x1b50, 0x1bb0, 0x1c40, 0x1c50, 0xa620, 0xa8d0, 0xa900, 0xa9d0, 0xa9f0, 0xaa50, 0xabf0,
   0xff10, 0x104a0, 0x10d30, 0x11066, 0x110f0, 0x11136, 0x111d0, 0x112f0, 0x11450, 0x114d0,
   0x11650, 0x116c0, 0x11730, 0x118e0, 0x11950, 0x11c50, 0x11d50, 0x11da0, 0x16a60, 0x16ac0,
   0x16b50, 0x1d7ce, 0x1d7d8, 0x1d7e2, 0x1d7ec, 0x1d7f6, 0x1e140, 0x1e2f0, 0x1e950, 0x1fbf0]

/-- The value of a decimal digit of any script. -/
def value? (c : Char) : Option Nat :=
  (zeros.find? fun first => first ≤ c.toNat ∧ c.toNat < first + 10).map (c.toNat - ·)

/-- Membership in the class `Nd`. -/
def isDigit (c : Char) : Bool := (value? c).isSome

/-- The code points of the zeros of the scripts that came after Unicode 14. -/
def recentZeros : List Nat :=
  [0x10d40, 0x116d0, 0x116da, 0x11bf0, 0x11f50, 0x16130, 0x16d70, 0x1ccf0, 0x1e4f0, 0x1e5f1]

/-- Membership in the class `Nd` of Unicode 16. -/
def isRecentDigit (c : Char) : Bool :=
  isDigit c || recentZeros.any fun first => first ≤ c.toNat && c.toNat < first + 10

def maxCount : Nat := 4300

/-- The least number whose numeral has too many digits. -/
def limit : Nat := Nat.pow 10 maxCount

/-- Whether the numeral of a number has no more digits than that. -/
def isShort (n : Nat) : Bool := (Nat.toDigits 10 n).length ≤ maxCount

theorem isShort_iff {n : Nat} : isShort n = true ↔ n < limit := by
  have hcount : 0 < maxCount := by decide
  unfold isShort limit
  generalize maxCount = count at hcount ⊢
  rw [decide_eq_true_eq]
  exact Nat.length_toDigits_le_iff (by decide) hcount

theorem isShort_of_le {m n : Nat} (h : m ≤ n) (hn : isShort n = true) : isShort m = true :=
  isShort_iff.2 (Nat.lt_of_le_of_lt h (isShort_iff.1 hn))

/-- What is said of a numeral that has too many digits. -/
def tooManyText (count : Nat) : String :=
  s!"Exceeds the limit ({maxCount} digits) for integer string conversion: value has {count} "
    ++ "digits; use sys.set_int_max_str_digits() to increase the limit"

/-- What is said of a number whose numeral would have too many digits. -/
def tooLargeText : String :=
  s!"Exceeds the limit ({maxCount} digits) for integer string conversion; "
    ++ "use sys.set_int_max_str_digits() to increase the limit"

/-- The number that a list of digit values denotes, the most significant first. -/
def number (digits : List Nat) : Nat := digits.foldl (fun n d => 10 * n + d) 0

end SchemaVersioning.DecimalDigit
