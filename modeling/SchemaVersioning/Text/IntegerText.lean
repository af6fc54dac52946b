import SchemaVersioning.Text.DecimalDigit

/-!
# Integers written as text

The lenient reader of integers.  A plain numeral is read as it stands.  Of any other text the
surrounding blanks, a sign, leading zeros, a fraction of zeros and single underscores between digits
are taken away; what remains must be a plain numeral of not too many digits.
-/

namespace SchemaVersioning.IntegerText

/-- The characters of the Unicode property `White_Space`. -/
def isBlank (c : Char) : Bool :=
  let n := c.toNat
  (9 ≤ n && n ≤ 13) || n = 32 || n = 0x85 || n = 0xA0 || n = 0x1680 || (0x2000 ≤ n && n ≤ 0x200A)
    || n = 0x2028 || n = 0x2029 || n = 0x202F || n = 0x205F || n = 0x3000

/-- The text without blanks at its ends. -/
def trim (cs : List Char) : List Char :=
  ((cs.dropWhile isBlank).reverse.dropWhile isBlank).reverse

def isDigit (c : Char) : Bool := '0' ≤ c && c ≤ '9'

/-! ## Plain numerals -/

/-- The digits and the sign of a plain numeral. -/
def plainNumeral? (cs : List Char) : Option (Bool × List Char) :=
  let (negative, digits) := match cs with
    | '-' :: rest => (true, rest)
    | _ => (false, cs)
  if digits.isEmpty || !digits.all isDigit || (digits.length != 1 && digits.head? == some '0') then
    none
  else some (negative, digits)

/-- The integer that a plain numeral denotes. -/
def numeralValue (negative : Bool) (digits : List Char) : Int :=
  let n := DecimalDigit.number (digits.map fun c => c.toNat - 48)
  if negative then -(n : Int) else n

/-- Whether a text begins with a numeral of too many digits, whatever follows it. -/
def startsTooLong (cs : List Char) : Bool :=
  let digits := match cs with
    | '-' :: rest => rest
    | _ => cs
  digits.head? != some '0' && DecimalDigit.maxCount < (digits.takeWhile isDigit).length

/-! ## What may be taken away -/

/-- A plus sign is dropped unless a minus sign follows it. -/
def dropPlus? : List Char → Option (List Char)
  | '+' :: '-' :: _ => none
  | '+' :: rest => some rest
  | cs => some cs

/-- A minus sign that no other sign follows, and the rest. -/
def dropMinus? : List Char → Option (Bool × List Char)
  | '-' :: '-' :: _ => none
  | '-' :: '+' :: _ => none
  | '-' :: rest => some (true, rest)
  | cs => some (false, cs)

/-- What follows a leading zero: its further zeros and underscores are skipped, the last of them
stays before a point or at the end. -/
def skipZeros (last : Char) : List Char → Option (List Char)
  | [] => some [last]
  | c :: rest =>
    if c = '0' ∨ c = '_' then skipZeros c rest
    else if isDigit c ∨ c = '-' then some (c :: rest)
    else if c = '.' then some (last :: c :: rest)
    else none

/-- The text without leading zeros; it must begin with a digit or a minus sign. -/
def dropLeadingZeros? : List Char → Option (List Char)
  | [] => none
  | c :: rest =>
    if c = '0' then skipZeros c rest
    else if isDigit c ∨ c = '-' then some (c :: rest)
    else none

/-- The text without a fraction of zeros. -/
def dropZeroFraction (cs : List Char) : List Char :=
  match cs.dropWhile (· ≠ '.') with
  | '.' :: '0' :: fraction =>
    if fraction.all (· = '0') then cs.takeWhile (· ≠ '.') else cs
  | _ => cs

/-- Whether two underscores stand side by side. -/
def hasDoubleUnderscore : List Char → Bool
  | '_' :: '_' :: _ => true
  | _ :: rest => hasDoubleUnderscore rest
  | [] => false

/-- The text without its underscores, which may only be single and inside. -/
def dropUnderscores (cs : List Char) : List Char :=
  if cs.head? = some '_' ∨ cs.getLast? = some '_' ∨ hasDoubleUnderscore cs then cs
  else cs.filter (· ≠ '_')

/-- The plain numeral that is left when all that may be taken away is gone. -/
def cleaned? (cs : List Char) : Option (Bool × List Char) := do
  let cs ← dropPlus? (trim cs)
  let (negative, cs) ← dropMinus? cs
  let cs := dropUnderscores (dropZeroFraction (← dropLeadingZeros? cs))
  let (sign, digits) ← plainNumeral? (if negative then '-' :: cs else cs)
  if DecimalDigit.maxCount < digits.length then none else some (sign, digits)

/-- The numeral that a text stands for. -/
def numeral? (cs : List Char) : Option (Bool × List Char) :=
  (plainNumeral? cs).orElse fun _ => cleaned? cs

end SchemaVersioning.IntegerText
