/-!
# Binary floating-point numbers

A double is kept exactly, as an integer times a power of two; equal doubles have equal parts.
`ofDecimal` rounds a decimal to the nearest double (ties to even), `add` and `mul` round the exact
result, `toInt?` says which doubles are integers, and `text` writes the shortest decimal that reads
back as the same double.
-/

namespace SchemaVersioning

/-- A double: an exact dyadic number, an infinity, or not a number. -/
inductive Binary64 where
  | finite (negative : Bool) (mantissa : Nat) (exponent : Int)
  | infinite (negative : Bool)
  | notANumber
deriving DecidableEq, Repr, Inhabited

namespace Binary64

/-! ## Rounding -/

/-- The quotient rounded to the nearest integer, a half to the even one. -/
def roundHalfEven (num den : Nat) : Nat :=
  let q := num / den
  let r := num % den
  if 2 * r < den then q
  else if den < 2 * r then q + 1
  else if q % 2 = 0 then q else q + 1

/-- The largest `k` with `2 ^ k ≤ num / den`, for positive arguments. -/
def log2Ratio (num den : Nat) : Int :=
  let k : Int := (Nat.log2 num : Int) - (Nat.log2 den : Int)
  let below :=
    if 0 ≤ k then num < den * Nat.pow 2 k.toNat else num * Nat.pow 2 (-k).toNat < den
  if below then k - 1 else k

/-- A rounded mantissa of at most fifty-four bits, with its exponent. -/
def ofMantissa (negative : Bool) (m : Nat) (q : Int) : Binary64 :=
  if m = 0 then finite negative 0 0
  else
    let (m, q) := if m = Nat.pow 2 53 then (Nat.pow 2 52, q + 1) else (m, q)
    if 971 < q then infinite negative else finite negative m q

/-- The double nearest to `num / den`. -/
def ofRatio (negative : Bool) (num den : Nat) : Binary64 :=
  if num = 0 then finite negative 0 0
  else
    let q : Int := max (-1074) (log2Ratio num den - 52)
    ofMantissa negative
      (if 0 ≤ q then roundHalfEven num (den * Nat.pow 2 q.toNat)
        else roundHalfEven (num * Nat.pow 2 (-q).toNat) den) q

/-- The double nearest to `digits · 10 ^ exponent`. -/
def ofDecimal (negative : Bool) (digits : Nat) (exponent : Int) : Binary64 :=
  if digits = 0 then finite negative 0 0
  else
    let magnitude : Int := exponent + (toString digits).length
    if magnitude > 400 then infinite negative
    else if magnitude < -400 then finite negative 0 0
    else if 0 ≤ exponent then ofRatio negative (digits * Nat.pow 10 exponent.toNat) 1
    else ofRatio negative digits (Nat.pow 10 (-exponent).toNat)

/-! ## Arithmetic -/

/-- The double nearest to `m · 2 ^ e`. -/
def ofDyadic (negative : Bool) (m : Nat) (e : Int) : Binary64 :=
  if 0 ≤ e then ofRatio negative (m * Nat.pow 2 e.toNat) 1
  else ofRatio negative m (Nat.pow 2 (-e).toNat)

def signedMantissa (negative : Bool) (m : Nat) : Int := if negative then -(m : Int) else m

/-- The sum, rounded. -/
def add : Binary64 → Binary64 → Binary64
  | finite n m e, finite n' m' e' =>
    let low := min e e'
    let sum := signedMantissa n (m * Nat.pow 2 (e - low).toNat)
      + signedMantissa n' (m' * Nat.pow 2 (e' - low).toNat)
    if sum = 0 then finite (n && n') 0 0 else ofDyadic (sum < 0) sum.natAbs low
  | infinite n, infinite n' => if n = n' then infinite n else notANumber
  | infinite n, finite _ _ _ => infinite n
  | finite _ _ _, infinite n => infinite n
  | _, _ => notANumber

/-- The product, rounded. -/
def mul : Binary64 → Binary64 → Binary64
  | finite n m e, finite n' m' e' => ofDyadic (n != n') (m * m') (e + e')
  | infinite n, infinite n' => infinite (n != n')
  | infinite n, finite n' m _ => if m = 0 then notANumber else infinite (n != n')
  | finite n m _, infinite n' => if m = 0 then notANumber else infinite (n != n')
  | _, _ => notANumber

/-- The double with the opposite sign. -/
def neg : Binary64 → Binary64
  | finite n m e => finite (!n) m e
  | infinite n => infinite (!n)
  | notANumber => notANumber

def ofInt (n : Int) : Binary64 := ofRatio (n < 0) n.natAbs 1

/-- Whether a double is zero or below. -/
def isNotPositive : Binary64 → Bool
  | finite negative m _ => negative || m = 0
  | infinite negative => negative
  | notANumber => false

/-! ## Integers among the doubles -/

/-- The magnitude as a ratio of natural numbers. -/
def ratio (mantissa : Nat) (exponent : Int) : Nat × Nat :=
  if 0 ≤ exponent then (mantissa * Nat.pow 2 exponent.toNat, 1)
  else (mantissa, Nat.pow 2 (-exponent).toNat)

/-- The integer that a double is, if it is one. -/
def toInt? : Binary64 → Option Int
  | finite negative m e =>
    let (num, den) := ratio m e
    if num % den = 0 then some (if negative then -((num / den : Nat) : Int) else (num / den : Nat))
    else none
  | _ => none

/-! ## Text -/

/-- The decimal `digits · 10 ^ exponent` as text: positional between `0.0001` and `10 ^ 16`,
scientific elsewhere. -/
def decimalText (digits : Nat) (exponent : Int) : String :=
  let ds := (toString digits).toList
  let point : Int := exponent + ds.length
  if -4 < point ∧ point ≤ 16 then
    if point ≤ 0 then
      "0." ++ String.ofList (List.replicate (-point).toNat '0' ++ ds)
    else if 0 ≤ exponent then
      String.ofList (ds ++ List.replicate exponent.toNat '0') ++ ".0"
    else
      String.ofList (ds.take point.toNat) ++ "." ++ String.ofList (ds.drop point.toNat)
  else
    let e := point - 1
    let sign := if e < 0 then "-" else "+"
    let size := toString e.natAbs
    let tail := ds.drop 1
    String.ofList (ds.take 1) ++ (if tail.isEmpty then "" else "." ++ String.ofList tail)
      ++ "e" ++ sign ++ (if size.length < 2 then "0" ++ size else size)

/-- Trailing zeros of the digits move into the exponent. -/
def stripZeros : Nat → Nat → Int → Nat × Int
  | 0, digits, exponent => (digits, exponent)
  | fuel + 1, digits, exponent =>
    if digits ≠ 0 ∧ digits % 10 = 0 then stripZeros fuel (digits / 10) (exponent + 1)
    else (digits, exponent)

/-- The decimals of `count` significant digits next to a positive ratio, the nearer one first: their
digits, and their common exponent. -/
def nearDecimals (num den count : Nat) : List Nat × Int :=
  let guess : Int :=
    if num < den then -((toString (den / num)).length : Int) + 1
    else ((toString (num / den)).length : Int)
  let e : Int := guess - count
  let (num, den) :=
    if 0 ≤ e then (num, den * Nat.pow 10 e.toNat) else (num * Nat.pow 10 (-e).toNat, den)
  let nearest := roundHalfEven num den
  let below := num / den
  (if nearest = below then [below, below + 1] else [nearest, below], e)

/-- The first count of digits, from `count` on, with a decimal that reads back; of two such decimals
the nearer one. -/
def shortest (num den : Nat) (target : Binary64) : Nat → Nat → Nat × Int
  | 0, count =>
    let (ds, e) := nearDecimals num den count
    (ds.headD 0, e)
  | fuel + 1, count =>
    let (ds, e) := nearDecimals num den count
    match ds.find? fun d => ofDecimal false d e = target with
    | some d => (d, e)
    | none => shortest num den target fuel (count + 1)

/-- The shortest decimal text that reads back as the double. -/
def text : Binary64 → String
  | finite negative m e =>
    let sign := if negative then "-" else ""
    if m = 0 then sign ++ "0.0"
    else
      let (num, den) := ratio m e
      let (d, x) := shortest num den (ofRatio false num den) 18 1
      let (d, x) := stripZeros 20 d x
      sign ++ decimalText d x
  | infinite negative => if negative then "-inf" else "inf"
  | notANumber => "nan"

end Binary64

end SchemaVersioning
