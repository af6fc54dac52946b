import SchemaVersioning.Declaration
import SchemaVersioning.Text.DecimalDigit

/-!
# Names of version modules

A version module is named by the letter `V` and its number without leading zeros.  A name is read
with digits of any script after the first one, and one line break may end it.
-/

namespace SchemaVersioning

def versionName (number : Nat) : String := s!"V{number}"

/-- The text before a line break that ends it. -/
def dropFinalNewline (cs : List Char) : List Char :=
  if cs.getLast? = some '\n' then cs.dropLast else cs

/-- The number that a numeral without leading zeros denotes. -/
def numeralNumber? : List Char → Option Nat
  | ['0'] => some 0
  | c :: rest =>
    if '1' ≤ c ∧ c ≤ '9' then
      (rest.mapM DecimalDigit.value?).map fun digits => DecimalDigit.number ((c.toNat - 48) :: digits)
    else none
  | [] => none

/-- The number in the name of a version module. -/
def versionNumber? (name : String) : Option Nat :=
  match name.toList with
  | 'V' :: numeral => numeralNumber? (dropFinalNewline numeral)
  | _ => none

/-- How many digits a version name has whose number has too many to be read. -/
def overlongVersion? (name : String) : Option Nat :=
  match name.toList with
  | 'V' :: numeral =>
    let numeral := dropFinalNewline numeral
    if DecimalDigit.maxCount < numeral.length && (numeralNumber? numeral).isSome then
      some numeral.length
    else none
  | _ => none

def isVersionName (name : String) : Bool := (versionNumber? name).isSome

/-- How many digits the first version component of a path has, if they are too many. -/
def Path.overlongVersion? (p : Path) : Option Nat :=
  (p.find? isVersionName).bind SchemaVersioning.overlongVersion?

/-- The path with its first version component replaced. -/
def Path.toLatest (latestName : String) : Path → Path
  | [] => []
  | c :: rest => if isVersionName c then latestName :: rest else c :: toLatest latestName rest

end SchemaVersioning
