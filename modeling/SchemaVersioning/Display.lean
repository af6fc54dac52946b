import SchemaVersioning.Failure

/-!
# Displayed values

How a value is shown to a reader: texts between quotes inside lists and objects, the words `None`,
`True` and `False`, and numbers in digits.  An integer of too many digits is not shown.
-/

namespace SchemaVersioning.Display

/-- An integer in digits. -/
def integer (n : Int) : Except Failure (List Char) :=
  if DecimalDigit.maxCount < (toString n.natAbs).length then
    .error (.value DecimalDigit.tooLargeText)
  else .ok (toString n).toList

/-- A value that is neither a list nor an object. -/
def scalar : Value → Except Failure (List Char)
  | .bool b => .ok (if b then "True" else "False").toList
  | .int n => integer n
  | .real x => .ok x.text.toList
  | .text s => .ok (Quoted.quote s).toList
  | _ => .ok "None".toList

mutual

/-- A value as it stands inside another one. -/
def inner : Value → Except Failure (List Char)
  | .list vs => do .ok ('[' :: (← items vs))
  | .object entries => do .ok ('\x7b' :: (← entriesOf entries))
  | v => scalar v

/-- The items of a list and its closing bracket. -/
def items : List Value → Except Failure (List Char)
  | [] => .ok [']']
  | [v] => do .ok ((← inner v) ++ [']'])
  | v :: rest => do
    let first ← inner v
    .ok (first ++ ',' :: ' ' :: (← items rest))

/-- The entries of an object and its closing brace. -/
def entriesOf : List (Key × Value) → Except Failure (List Char)
  | [] => .ok ['\x7d']
  | [(key, v)] => do .ok ((Quoted.quote key.shown).toList ++ ':' :: ' ' :: (← inner v) ++ ['\x7d'])
  | (key, v) :: rest => do
    let first ← inner v
    .ok ((Quoted.quote key.shown).toList ++ ':' :: ' ' :: first ++ ',' :: ' ' :: (← entriesOf rest))

end

/-- A value by itself; a text is shown as it is. -/
def text : Value → Except Failure String
  | .text s => .ok s
  | v => (inner v).map String.ofList

end SchemaVersioning.Display
