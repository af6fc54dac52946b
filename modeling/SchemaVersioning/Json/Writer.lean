import SchemaVersioning.Value

/-!
# Writing JSON

`compact` writes a value without blanks, `indented` over several lines with two blanks a level.
A format decides which characters of a text are written as escapes.
-/

namespace SchemaVersioning.Json

/-- Which characters beyond ASCII are written as escapes. -/
inductive Escaping where
  | minimal
  | ascii
deriving DecidableEq, Repr

/-- The code units of a character in UTF-16. -/
def utf16 (c : Char) : List Nat :=
  let n := c.toNat
  if n < 0x10000 then [n]
  else [0xD800 + (n - 0x10000) / 0x400, 0xDC00 + (n - 0x10000) % 0x400]

/-- One character of a text. -/
def escape (escaping : Escaping) (c : Char) : List Char :=
  if c = '"' then ['\\', '"']
  else if c = '\\' then ['\\', '\\']
  else if c = '\x08' then ['\\', 'b']
  else if c = '\x0c' then ['\\', 'f']
  else if c = '\n' then ['\\', 'n']
  else if c = '\r' then ['\\', 'r']
  else if c = '\t' then ['\\', 't']
  else if c.toNat < 0x20 ∨ (escaping = .ascii ∧ 0x7F ≤ c.toNat) then
    (utf16 c).flatMap fun unit => '\\' :: 'u' :: hexDigits 4 unit
  else [c]

/-- One code point of a text; a surrogate is always written as an escape. -/
def escapePoint (escaping : Escaping) (n : Nat) : List Char :=
  if isSurrogate n then '\\' :: 'u' :: hexDigits 4 n else escape escaping (Char.ofNat n)

/-- A text between quotes. -/
def quoted (escaping : Escaping) (s : String) : List Char :=
  '"' :: s.toList.flatMap (escape escaping) ++ ['"']

/-- A value that is neither a list nor an object. -/
def scalar (escaping : Escaping) : Value → List Char
  | .bool true => "true".toList
  | .bool false => "false".toList
  | .int n => (toString n).toList
  | .real x => x.text.toList
  | .text s => quoted escaping s
  | .broken points => '"' :: points.flatMap (escapePoint escaping) ++ ['"']
  | .moment _ shown => quoted escaping shown
  | _ => "null".toList

/-! ## Without blanks -/

mutual

/-- The value on one line, without blanks. -/
def compactChars : Value → List Char
  | .list items => '[' :: compactItems items
  | .set items => '[' :: compactItems items
  | .object entries => '\x7b' :: compactEntries entries
  | v => scalar .minimal v

/-- The items of a list and its closing bracket. -/
def compactItems : List Value → List Char
  | [] => [']']
  | [v] => compactChars v ++ [']']
  | v :: rest => compactChars v ++ ',' :: compactItems rest

/-- The entries of an object and its closing brace. -/
def compactEntries : List (Key × Value) → List Char
  | [] => ['\x7d']
  | [(key, v)] => quoted .minimal key.shown ++ ':' :: compactChars v ++ ['\x7d']
  | (key, v) :: rest =>
    quoted .minimal key.shown ++ ':' :: compactChars v ++ ',' :: compactEntries rest

end

def compact (v : Value) : String := String.ofList (compactChars v)

/-! ## Over several lines -/

def newline (depth : Nat) : List Char := '\n' :: List.replicate (2 * depth) ' '

mutual

/-- The value with one item or entry a line. -/
def indentedChars (escaping : Escaping) (depth : Nat) : Value → List Char
  | .list [] => ['[', ']']
  | .list items => '[' :: indentedItems escaping depth items
  | .object [] => ['\x7b', '\x7d']
  | .object entries => '\x7b' :: indentedEntries escaping depth entries
  | v => scalar escaping v

/-- The items of a list at the next depth, and its closing bracket. -/
def indentedItems (escaping : Escaping) (depth : Nat) : List Value → List Char
  | [] => newline depth ++ [']']
  | [v] => newline (depth + 1) ++ indentedChars escaping (depth + 1) v ++ newline depth ++ [']']
  | v :: rest =>
    newline (depth + 1) ++ indentedChars escaping (depth + 1) v ++ ','
      :: indentedItems escaping depth rest

/-- The entries of an object at the next depth, and its closing brace. -/
def indentedEntries (escaping : Escaping) (depth : Nat) : List (Key × Value) → List Char
  | [] => newline depth ++ ['\x7d']
  | [(key, v)] =>
    newline (depth + 1) ++ quoted escaping key.shown ++ ':' :: ' '
      :: indentedChars escaping (depth + 1) v ++ newline depth ++ ['\x7d']
  | (key, v) :: rest =>
    newline (depth + 1) ++ quoted escaping key.shown ++ ':' :: ' '
      :: indentedChars escaping (depth + 1) v ++ ',' :: indentedEntries escaping depth rest

end

/-- The value with one item or entry a line. -/
def indented (escaping : Escaping) (v : Value) : String :=
  String.ofList (indentedChars escaping 0 v)

/-! ## With a blank after each comma and colon -/

mutual

/-- Where a value ends that is written on one line from an offset on, with a blank after each comma
and colon and escapes beyond ASCII; or, if it nests more non-empty lists and objects than there is
room for, where the first of these that has no room begins with its content. -/
def spacedEnd (room offset : Nat) : Value → Except Nat Nat
  | .list [] => .ok (offset + 2)
  | .list items =>
    match room with
    | 0 => .error (offset + 1)
    | room + 1 => spacedItemsEnd room (offset + 1) items
  | .object [] => .ok (offset + 2)
  | .object entries =>
    match room with
    | 0 =>
      let key := (entries.head?.map fun (key, _) => (quoted .ascii key.shown).length).getD 0
      .error (offset + 1 + key + 1)
    | room + 1 => spacedEntriesEnd room (offset + 1) entries
  | v => .ok (offset + (scalar .ascii v).length)

/-- `spacedEnd` on the items of a list and its closing bracket, or a comma and a blank between. -/
def spacedItemsEnd (room offset : Nat) : List Value → Except Nat Nat
  | [] => .ok offset
  | v :: rest => do
    let next ← spacedEnd room offset v
    spacedItemsEnd room (if rest.isEmpty then next + 1 else next + 2) rest

/-- `spacedEnd` on the entries of an object and its closing brace, or a comma and a blank between. -/
def spacedEntriesEnd (room offset : Nat) : List (Key × Value) → Except Nat Nat
  | [] => .ok offset
  | (key, v) :: rest => do
    let next ← spacedEnd room (offset + (quoted .ascii key.shown).length + 2) v
    spacedEntriesEnd room (if rest.isEmpty then next + 1 else next + 2) rest

end

end SchemaVersioning.Json
