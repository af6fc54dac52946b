import SchemaVersioning.Json.Reader

/-!
# Tags

A tag says what a node is.  A scalar that is written plainly and carries no tag has the tag that its
text matches, and is a text if it matches none.
-/

namespace SchemaVersioning.Yaml

/-- What a node is.  The merge tag marks the key under which entries of other mappings are taken
over; the `default` tag marks the key of a mapping's own scalar. -/
inductive Tag where
  | null
  | bool
  | int
  | real
  | bytes
  | moment
  | text
  | seq
  | map
  | set
  | pairs
  | merge
  | default
  | unknown
deriving DecidableEq, Repr, Inhabited

namespace Tag

/-- What the names of the standard tags begin with. -/
def standardStart : String := "tag:yaml.org,2002:"

/-- The standard tags by name. -/
def standard : List (String × Tag) :=
  [("null", null), ("bool", bool), ("int", int), ("float", real), ("binary", bytes),
    ("timestamp", moment), ("str", text), ("seq", seq), ("map", map), ("set", set), ("omap", pairs),
    ("pairs", pairs), ("merge", merge), ("value", default)]

/-- The tag of a full name. -/
def ofName (name : String) : Tag :=
  match standard.find? fun (short, _) => standardStart ++ short = name with
  | some (_, tag) => tag
  | none => unknown

/-- Whether a tag says that a node is a scalar with a value of its own. -/
def isScalar : Tag → Bool
  | null | bool | int | real | bytes | moment | text => true
  | _ => false

/-! ## Forms of plain scalars -/

def trueWords : List String := ["yes", "Yes", "YES", "true", "True", "TRUE", "on", "On", "ON"]

def falseWords : List String := ["no", "No", "NO", "false", "False", "FALSE", "off", "Off", "OFF"]

/-- The marks that stand for no value. -/
def markWords : List String := ["!", "&", "*"]

def nullWords : List String := ["~", "null", "Null", "NULL", ""]

/-- The text behind its sign. -/
def dropSign : List Char → List Char
  | '+' :: rest => rest
  | '-' :: rest => rest
  | cs => cs

def isDigitOrMark (c : Char) : Bool := Json.isDigit c || c = '_'

/-- Whether a text is not empty and all its characters have a property. -/
def isRun (p : Char → Bool) (cs : List Char) : Bool := !cs.isEmpty && cs.all p

/-- Whether a text starts with a digit and goes on with digits and underscores. -/
def isNumeral : List Char → Bool
  | [] => false
  | c :: rest => Json.isDigit c && rest.all isDigitOrMark

/-- Whether a text is the place of a number to base sixty. -/
def isSixtieth : List Char → Bool
  | [c] => Json.isDigit c
  | [tens, c] => '0' ≤ tens && tens ≤ '5' && Json.isDigit c
  | _ => false

/-- The parts of a list between the occurrences of a mark. -/
def partsBetween {α : Type} [DecidableEq α] (mark : α) (xs : List α) : List (List α) :=
  xs.foldr (fun x parts =>
    match parts with
    | [] => [[x]]
    | part :: rest => if x = mark then [] :: part :: rest else (x :: part) :: rest) [[]]

/-- Whether a text is a number to base sixty of several places. -/
def isSexagesimal (cs : List Char) : Bool :=
  match partsBetween ':' cs with
  | first :: next :: more => isNumeral first && (next :: more).all isSixtieth
  | _ => false

/-- Whether a text without its sign is a whole number. -/
def isWhole : List Char → Bool
  | ['0'] => true
  | '0' :: 'b' :: rest => isRun (fun c => c = '0' || c = '1' || c = '_') rest
  | '0' :: 'x' :: rest => isRun (fun c => (Json.hexValue? c).isSome || c = '_') rest
  | '0' :: rest => isRun (fun c => ('0' ≤ c && c ≤ '7') || c = '_') rest
  | cs => isNumeral cs || isSexagesimal cs

/-- Whether a text is empty or an exponent, which has a sign. -/
def isExponent : List Char → Bool
  | [] => true
  | e :: sign :: rest =>
    (e = 'e' || e = 'E') && (sign = '+' || sign = '-') && isRun Json.isDigit rest
  | _ => false

/-- Whether a text is the fraction of a number and perhaps its exponent. -/
def isFraction (cs : List Char) : Bool := isExponent (cs.dropWhile isDigitOrMark)

/-- Whether a text is a number with a point. -/
def isReal (cs : List Char) : Bool :=
  let unsigned := dropSign cs
  let infinities := [".inf", ".Inf", ".INF"].map String.toList
  let undefineds := [".nan", ".NaN", ".NAN"].map String.toList
  let whole := unsigned.takeWhile (· ≠ '.')
  let fraction := unsigned.drop (whole.length + 1)
  infinities.contains unsigned || undefineds.contains cs
    || (whole.length < unsigned.length
      && ((isNumeral whole && isFraction fraction)
        || (isSexagesimal whole && fraction.all isDigitOrMark)
        || (cs.head? = some '.' && isNumeral (fraction.takeWhile isDigitOrMark)
          && isFraction fraction)))

end Tag

end SchemaVersioning.Yaml
