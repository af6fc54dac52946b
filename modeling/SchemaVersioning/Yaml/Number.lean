import SchemaVersioning.Json.Reader
import SchemaVersioning.Text.IntegerText
import SchemaVersioning.Text.LowerCase
import SchemaVersioning.Yaml.ScalarText
import SchemaVersioning.Yaml.Tag

/-!
# Numbers of documents

Whole numbers are written in base two, eight, ten, sixteen or sixty, and real numbers in base ten or
sixty.  Underscores in them are ignored, digits may be those of any script, and blanks may surround
a number as well as each of its places in base sixty.  Texts are given by their code points.
-/

namespace SchemaVersioning.Yaml.Number

/-! ## Characters -/

/-- The ASCII spelling of code points: digits of all scripts become ASCII digits, and blanks become
spaces.  A question mark stands for the first one that has no such spelling, and ends the text. -/
def spelled : List Nat → List Char
  | [] => []
  | n :: rest =>
    let c := Char.ofNat n
    if n < 0x7F then c :: spelled rest
    else if IntegerText.isBlank c then ' ' :: spelled rest
    else
      match DecimalDigit.value? c with
      | some d => Char.ofNat (48 + d) :: spelled rest
      | none => ['?']

/-- The ASCII form of a text; an ASCII text stays as it is. -/
def asciiForm (text : List Nat) : List Char :=
  if text.all (· < 0x80) then text.map Char.ofNat else spelled text

def isSpace (c : Char) : Bool := c = ' ' || ('\t' ≤ c && c ≤ '\r')

def withoutMarks (text : List Nat) : List Nat := text.filter (· ≠ '_'.toNat)

/-- Whether a number is negative, and its text behind the sign. -/
def signed : List Nat → Except Fault (Bool × List Nat)
  | [] => .error .noDigit
  | n :: rest =>
    if n = '-'.toNat then .ok (true, rest)
    else if n = '+'.toNat then .ok (false, rest)
    else .ok (false, n :: rest)

def places (text : List Nat) : List (List Nat) := Tag.partsBetween ':'.toNat text

/-! ## Whole numbers -/

def isDigitOf (base : Nat) (c : Char) : Bool := (Json.hexValue? c).any (· < base)

/-- The number that digits of a base spell. -/
def ofDigits (base : Nat) (digits : List Char) : Nat :=
  digits.foldl (fun n c => base * n + (Json.hexValue? c).getD 0) 0

/-- The digits behind the mark of a base, which may be left out. -/
def dropBaseMark (base : Nat) : List Char → List Char
  | '0' :: mark :: rest =>
    if (base = 2 ∧ (mark = 'b' ∨ mark = 'B')) ∨ (base = 8 ∧ (mark = 'o' ∨ mark = 'O'))
        ∨ (base = 16 ∧ (mark = 'x' ∨ mark = 'X')) then rest
    else '0' :: mark :: rest
  | cs => cs

/-- The most characters of a text that are shown when it is no whole number. -/
def shownWidth : Nat := 200

/-- A whole number in a base, with a sign or without. -/
def integer (base : Nat) (text : List Nat) : Except Fault Int :=
  let cs := (asciiForm text).dropWhile isSpace
  let body := dropBaseMark base (Tag.dropSign cs)
  let digits := body.takeWhile (isDigitOf base)
  if base = 10 ∧ DecimalDigit.maxCount < digits.length then
    .error (.value (DecimalDigit.tooManyText digits.length))
  else if digits.isEmpty || !(body.drop digits.length).all isSpace then
    let shown := String.ofList ((Quoted.quotePoints text).take shownWidth)
    .error (.value s!"invalid literal for int() with base {base}: {shown}")
  else
    let n := ofDigits base digits
    .ok (if cs.head? = some '-' then -(n : Int) else n)

/-- A whole number without its sign and underscores; its first characters tell the base. -/
def wholeMagnitude (text : List Nat) : Except Fault Int :=
  match text.map Char.ofNat with
  | [] => .error .noDigit
  | ['0'] => .ok 0
  | '0' :: 'b' :: _ => integer 2 (text.drop 2)
  | '0' :: 'x' :: _ => integer 16 (text.drop 2)
  | '0' :: _ => integer 8 text
  | _ => do
    let numbers ← (places text).mapM (integer 10)
    .ok (numbers.foldl (fun n place => 60 * n + place) 0)

/-- A whole number. -/
def whole (text : List Nat) : Except Fault Int := do
  let (negative, body) ← signed (withoutMarks text)
  let n ← wholeMagnitude body
  .ok (if negative then -n else n)

/-! ## Real numbers -/

/-- The double that the digits of a decimal denote: a whole part, a fraction and an exponent. -/
def ofDecimalChars? (negative : Bool) (cs : List Char) : Option Binary64 := do
  let integral := cs.takeWhile Json.isDigit
  let (fraction, rest) := match cs.drop integral.length with
    | '.' :: rest => (rest.takeWhile Json.isDigit, rest.dropWhile Json.isDigit)
    | rest => ([], rest)
  let exponent ← match rest with
    | [] => some 0
    | 'e' :: rest =>
      let digits := Tag.dropSign rest
      if Tag.isRun Json.isDigit digits then
        let n := Json.digitsNumber digits
        some (if rest.head? = some '-' then -(n : Int) else n)
      else none
    | _ => none
  if integral.isEmpty && fraction.isEmpty then none
  else
    some (.ofDecimal negative (Json.digitsNumber (integral ++ fraction))
      (exponent - fraction.length))

/-- The double that a text in lower case denotes: a decimal, an infinity or no number. -/
def double? (cs : List Char) : Option Binary64 :=
  let body := Tag.dropSign cs
  let negative := cs.head? = some '-'
  match String.ofList body with
  | "inf" => some (.infinite negative)
  | "infinity" => some (.infinite negative)
  | "nan" => some .notANumber
  | _ => ofDecimalChars? negative body

/-- A decimal, with a sign or without. -/
def decimal (text : List Nat) : Except Fault Binary64 :=
  let cs := (asciiForm text).dropWhile isSpace
  match double? (cs.reverse.dropWhile isSpace).reverse with
  | some x => .ok x
  | none =>
    let shown := String.ofList (Quoted.quotePoints text)
    .error (.value s!"could not convert string to float: {shown}")

/-- The sum of the places of a number in base sixty, the last place first; each place is rounded. -/
def sumOfPlaces (sum : Binary64) (base : Nat) : List Binary64 → Except Fault Binary64
  | [] => .ok sum
  | digit :: rest =>
    match Binary64.ofInt base with
    | .infinite _ => .error .placeTooLarge
    | b => sumOfPlaces (sum.add (digit.mul b)) (60 * base) rest

/-- A real number without its sign and underscores; nothing for the number called `.nan`. -/
def realMagnitude (text : List Nat) : Except Fault (Option Binary64) := do
  if text = ".inf".toList.map Char.toNat then .ok (some (.infinite false))
  else if text = ".nan".toList.map Char.toNat then .ok none
  else
    match ← (places text).mapM decimal with
    | [x] => .ok (some x)
    | digits => some <$> sumOfPlaces (.finite false 0 0) 1 digits.reverse

/-- A real number; nothing for the number called `.nan`. -/
def real (text : List Nat) : Except Fault (Option Binary64) := do
  let (negative, body) ← signed (LowerCase.lower (withoutMarks text))
  let x ← realMagnitude body
  .ok (if negative then x.map Binary64.neg else x)

end SchemaVersioning.Yaml.Number
