import SchemaVersioning.Reading.Checked
import SchemaVersioning.Text.IntegerText

/-!
# Reading scalars

Readers of texts, integers, booleans, doubles and names from a fixed choice.  They are lenient:
integers and booleans may be written as texts or as numbers of another kind.
-/

namespace SchemaVersioning.Reading

open Checked

/-- A text, or the bytes of one. -/
def text : Value → Checked String
  | .text s => accepted s
  | .broken points => accepted (keptText points)
  | .bytes b =>
    match Encoding.utf8.decode b with
    | .ok s => accepted s
    | .error _ => refuse .notUnicode
  | _ => refuse .notText

/-- A text without surrogates, or the bytes of one. -/
def wholeText : Value → Checked String
  | .broken _ => refuse .notUnicode
  | v => text v

/-- A text with at least one character. -/
def nonEmptyText (v : Value) : Checked String :=
  (wholeText v).andThen fun s => if s = "" then refuse .emptyText else accepted s

/-- Reads what a scalar is written as: a text, bytes of a text, or another value.  Bytes that are no
text are refused for the given cause. -/
def written {α : Type} (bad : Cause) (v : Value) (ofText : String → Checked α)
    (other : Value → Checked α) : Checked α :=
  match v with
  | .text s => ofText s
  | .broken _ => refuse .notUnicode
  | .bytes b =>
    match Encoding.utf8.decode b with
    | .ok s => ofText s
    | .error _ => refuse bad
  | v => other v

/-- Whether a double's integer fits into the machine integers that it is converted by. -/
def isMachineInteger (n : Int) : Bool := -(Nat.pow 2 63 : Int) ≤ n && n < (Nat.pow 2 63 : Int)

/-- The integer that a double is. -/
def integerOfReal (x : Binary64) : Checked Int :=
  match x with
  | .finite .. =>
    match x.toInt? with
    | none => refuse .fractional
    | some n => if n.natAbs < Nat.pow 2 63 then accepted n else refuse .tooLarge
  | _ => refuse .notFinite

/-- The integer that a text denotes. -/
def integerOfText (s : String) : Checked Int :=
  if IntegerText.startsTooLong s.toList then refuse .tooLarge
  else
    match IntegerText.numeral? s.toList with
    | none => refuse .integerText
    | some (negative, digits) => accepted (IntegerText.numeralValue negative digits)

/-- An integer. -/
def integer (v : Value) : Checked Int :=
  written .integerText v integerOfText fun
    | .int n => accepted n
    | .bool b => accepted (if b then 1 else 0)
    | .real x => integerOfReal x
    | _ => refuse .notInteger

/-- An integer not below a bound. -/
def integerFrom (bound : Int) (v : Value) : Checked Int :=
  (integer v).andThen fun n => if n < bound then refuse (.below bound) else accepted n

def natFrom (bound : Nat) (v : Value) : Checked Nat := (integerFrom bound v).map Int.toNat

/-- The texts that denote a boolean, in lower case. -/
def booleanOfText? (s : String) : Option Bool :=
  if ["0", "off", "f", "false", "n", "no"].contains s then some false
  else if ["1", "on", "t", "true", "y", "yes"].contains s then some true
  else none

/-- The boolean that a number is. -/
def booleanOfInt (n : Int) : Checked Bool :=
  if n = 0 then accepted false
  else if n = 1 then accepted true
  else if isMachineInteger n then refuse .booleanText
  else refuse .notBoolean

/-- The boolean that a text denotes. -/
def booleanOfText (s : String) : Checked Bool :=
  match booleanOfText? s.toLower with
  | some b => accepted b
  | none => refuse .booleanText

/-- A boolean. -/
def boolean (v : Value) : Checked Bool :=
  written .booleanText v booleanOfText fun
    | .bool b => accepted b
    | .int n => booleanOfInt n
    | .real x =>
      match integerOfReal x with
      | accepted n => booleanOfInt n
      | rejected _ => refuse .notBoolean
    | _ => refuse .notBoolean

/-! ## Doubles -/

/-- The digits of a number at the front, and the rest. -/
def digitsOf (cs : List Char) : List Char × List Char :=
  (cs.takeWhile IntegerText.isDigit, cs.dropWhile IntegerText.isDigit)

/-- The exponent that ends a number. -/
def exponentOfText? : List Char → Option Int
  | [] => some 0
  | e :: cs =>
    if e = 'e' ∨ e = 'E' then
      let (negative, cs) := match cs with
        | '-' :: cs => (true, cs)
        | '+' :: cs => (false, cs)
        | _ => (false, cs)
      let (digits, rest) := digitsOf cs
      if digits.isEmpty ∨ rest ≠ [] then none
      else some (IntegerText.numeralValue negative digits)
    else none

/-- The double that an unsigned text denotes. -/
def unsignedReal? (negative : Bool) (cs : List Char) : Option Binary64 :=
  let word := (String.ofList cs).toLower
  if word = "inf" ∨ word = "infinity" then some (.infinite negative)
  else if word = "nan" then some .notANumber
  else
    let (whole, rest) := digitsOf cs
    let (fraction, rest) := match rest with
      | '.' :: rest => digitsOf rest
      | _ => ([], rest)
    if whole.isEmpty ∧ fraction.isEmpty then none
    else do
      let e ← exponentOfText? rest
      let n := DecimalDigit.number ((whole ++ fraction).map fun c => c.toNat - 48)
      some (.ofDecimal negative n (e - fraction.length))

/-- The double that a text without blanks and underscores denotes. -/
def plainReal? (cs : List Char) : Option Binary64 :=
  match cs with
  | '-' :: cs => unsignedReal? true cs
  | '+' :: cs => unsignedReal? false cs
  | _ => unsignedReal? false cs

/-- The double that a text denotes.  Blanks at the ends are ignored, or underscores between the
digits, but not both. -/
def realOfText? (s : String) : Option Binary64 :=
  (plainReal? (IntegerText.trim s.toList)).orElse fun _ =>
    plainReal? (IntegerText.dropUnderscores s.toList)

/-- The double that a text denotes, if it does. -/
def realOfText (s : String) : Checked Binary64 :=
  match realOfText? s with
  | some x => accepted x
  | none => refuse .numberText

/-- A double. -/
def real (v : Value) : Checked Binary64 :=
  written .numberText v realOfText fun
    | .real x => accepted x
    | .bool b => accepted (.ofDecimal false (if b then 1 else 0) 0)
    | .int n =>
      match Binary64.ofDecimal (n < 0) n.natAbs 0 with
      | .infinite _ => refuse .notNumber
      | x => accepted x
    | _ => refuse .notNumber

/-- A double that is not below zero. -/
def nonNegativeReal (v : Value) : Checked Binary64 :=
  (real v).andThen fun x =>
    match x with
    | .finite negative m _ => if negative && m != 0 then refuse (.below 0) else accepted x
    | .infinite negative => if negative then refuse (.below 0) else accepted x
    | .notANumber => accepted x

/-! ## Choices -/

/-- One of several named things. -/
def choice {α : Type} (choices : List (String × α)) (v : Value) : Checked α :=
  let unknown := refuse (.notMember (choices.map (·.1)))
  written (.notMember (choices.map (·.1))) v
    (fun s =>
      match choices.lookup s with
      | some a => accepted a
      | none => unknown)
    fun _ => unknown

/-- A text that is always the same. -/
def literal (expected : String) : Value → Checked Unit
  | .text s => if s = expected then accepted () else refuse (.notLiteral expected)
  | .broken _ => refuse .notUnicode
  | _ => refuse (.notLiteral expected)

/-- Null, or what another reader reads. -/
def nullable {α : Type} (read : Value → Checked α) : Value → Checked (Option α)
  | .null => accepted none
  | v => (read v).map some

end SchemaVersioning.Reading
