import SchemaVersioning.Text.DecimalDigit
import SchemaVersioning.Value

/-!
# Reading JSON

A reader takes a value from the front of a list of characters and gives the rest.  `read?` reads a
whole text that holds one value, and refuses one whose non-empty lists and objects nest deeper than
a limit.  An object has all entries of the text, also several with one key.
-/

namespace SchemaVersioning.Json

/-! ## Characters -/

def isBlank (c : Char) : Bool := c = ' ' || c = '\t' || c = '\n' || c = '\r'

def skipBlanks (cs : List Char) : List Char := cs.dropWhile isBlank

/-- The value of a hexadecimal digit. -/
def hexValue? (c : Char) : Option Nat :=
  if '0' ≤ c ∧ c ≤ '9' then some (c.toNat - 48)
  else if 'a' ≤ c ∧ c ≤ 'f' then some (c.toNat - 87)
  else if 'A' ≤ c ∧ c ≤ 'F' then some (c.toNat - 55)
  else none

/-- The number that hexadecimal digits spell. -/
def hexNumber? (cs : List Char) : Option Nat :=
  cs.foldlM (fun n c => (hexValue? c).map (16 * n + ·)) 0

/-- The character behind a backslash. -/
def simpleEscape? (c : Char) : Option Char :=
  match c with
  | '"' => some '"'
  | '\\' => some '\\'
  | '/' => some '/'
  | 'b' => some '\x08'
  | 'f' => some '\x0c'
  | 'n' => some '\n'
  | 'r' => some '\r'
  | 't' => some '\t'
  | _ => none

/-! ## Texts -/

/-- The characters up to the closing quote, and what follows it. -/
def readText : List Char → Option (List Char × List Char)
  | [] => none
  | '"' :: rest => some ([], rest)
  | '\\' :: 'u' :: a :: b :: c :: d :: rest => do
    let n ← hexNumber? [a, b, c, d]
    if 0xD800 ≤ n ∧ n < 0xDC00 then
      match rest with
      | '\\' :: 'u' :: e :: f :: g :: h :: rest => do
        let m ← hexNumber? [e, f, g, h]
        if 0xDC00 ≤ m ∧ m < 0xE000 then do
          let (cs, rest) ← readText rest
          some (joinSurrogates n m :: cs, rest)
        else none
      | _ => none
    else if 0xDC00 ≤ n ∧ n < 0xE000 then none
    else do
      let (cs, rest) ← readText rest
      some (Char.ofNat n :: cs, rest)
  | '\\' :: e :: rest => do
    let c ← simpleEscape? e
    let (cs, rest) ← readText rest
    some (c :: cs, rest)
  | c :: rest =>
    if c.toNat < 0x20 ∨ c = '\\' then none
    else do
      let (cs, rest) ← readText rest
      some (c :: cs, rest)

/-! ## Numbers -/

def isDigit (c : Char) : Bool := '0' ≤ c && c ≤ '9'

def digitsNumber (cs : List Char) : Nat := cs.foldl (fun n c => 10 * n + (c.toNat - 48)) 0

/-- Digits of the fraction after the point, if there is a point. -/
def readFraction (cs : List Char) : Option (Option (List Char) × List Char) :=
  match cs with
  | '.' :: rest =>
    let digits := rest.takeWhile isDigit
    if digits.isEmpty then none else some (some digits, rest.dropWhile isDigit)
  | _ => some (none, cs)

/-- The signed exponent, if there is one. -/
def readExponent (cs : List Char) : Option (Option Int × List Char) :=
  match cs with
  | e :: rest =>
    if e = 'e' ∨ e = 'E' then
      let (negative, rest) := match rest with
        | '-' :: rest => (true, rest)
        | '+' :: rest => (false, rest)
        | _ => (false, rest)
      let digits := rest.takeWhile isDigit
      if digits.isEmpty then none
      else
        let n : Int := digitsNumber digits
        some (some (if negative then -n else n), rest.dropWhile isDigit)
    else some (none, cs)
  | [] => some (none, [])

/-- Whether digits are the whole part of a number: no needless zero, and not too many. -/
def isWhole (digits : List Char) : Bool :=
  !digits.isEmpty && (digits.length == 1 || digits.head? != some '0')
    && digits.length ≤ DecimalDigit.maxCount

/-- A number: an integer unless it has a fraction or an exponent. -/
def readNumber (cs : List Char) : Option (Value × List Char) := do
  let (negative, cs) := match cs with
    | '-' :: rest => (true, rest)
    | _ => (false, cs)
  let whole := cs.takeWhile isDigit
  if !isWhole whole then none
  else do
    let (fraction, rest) ← readFraction (cs.dropWhile isDigit)
    let (exponent, rest) ← readExponent rest
    let n := digitsNumber whole
    match fraction, exponent with
    | none, none => some (.int (if negative then -(n : Int) else n), rest)
    | _, _ =>
      let digits := fraction.getD []
      let x := Binary64.ofDecimal negative (digitsNumber (whole ++ digits))
        (exponent.getD 0 - digits.length)
      some (.real x, rest)

/-! ## Values -/

/-- The rest of a text after a word. -/
def dropWord (word : String) (cs : List Char) : Option (List Char) :=
  if word.toList.isPrefixOf cs then some (cs.drop word.length) else none

mutual

/-- A value and the rest.  The second argument limits the nesting. -/
def readValue : Nat → Nat → List Char → Option (Value × List Char)
  | 0, _, _ => none
  | fuel + 1, depth, cs =>
    match skipBlanks cs with
    | '"' :: rest => (readText rest).map fun (s, rest) => (.text (String.ofList s), rest)
    | '[' :: rest =>
      match skipBlanks rest with
      | ']' :: rest => some (.list [], rest)
      | rest =>
        if depth = 0 then none
        else (readItems fuel (depth - 1) rest).map fun (items, rest) => (.list items, rest)
    | '\x7b' :: rest =>
      match skipBlanks rest with
      | '\x7d' :: rest => some (.object [], rest)
      | rest =>
        if depth = 0 then none
        else (readEntries fuel (depth - 1) rest).map fun (entries, rest) => (.object entries, rest)
    | 't' :: rest => (dropWord "rue" rest).map fun rest => (.bool true, rest)
    | 'f' :: rest => (dropWord "alse" rest).map fun rest => (.bool false, rest)
    | 'n' :: rest => (dropWord "ull" rest).map fun rest => (.null, rest)
    | cs => readNumber cs

/-- The items of a list up to its closing bracket. -/
def readItems : Nat → Nat → List Char → Option (List Value × List Char)
  | 0, _, _ => none
  | fuel + 1, depth, cs => do
    let (v, rest) ← readValue fuel depth cs
    match skipBlanks rest with
    | ',' :: rest => (readItems fuel depth rest).map fun (vs, rest) => (v :: vs, rest)
    | ']' :: rest => some ([v], rest)
    | _ => none

/-- The entries of an object up to its closing brace. -/
def readEntries : Nat → Nat → List Char → Option (List (Key × Value) × List Char)
  | 0, _, _ => none
  | fuel + 1, depth, cs =>
    match skipBlanks cs with
    | '"' :: rest => do
      let (name, rest) ← readText rest
      match skipBlanks rest with
      | ':' :: rest => do
        let (v, rest) ← readValue fuel depth rest
        let entry := (Key.text (String.ofList name), v)
        match skipBlanks rest with
        | ',' :: rest => (readEntries fuel depth rest).map fun (es, rest) => (entry :: es, rest)
        | '\x7d' :: rest => some ([entry], rest)
        | _ => none
      | _ => none
    | _ => none

end

/-- The value that a whole text holds, nested at most `depth` deep. -/
def read? (depth : Nat) (cs : List Char) : Option Value :=
  match readValue (2 * cs.length + 2) depth cs with
  | some (v, rest) => if (skipBlanks rest).isEmpty then some v else none
  | none => none

end SchemaVersioning.Json
