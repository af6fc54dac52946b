import SchemaVersioning.Text.Printable
import SchemaVersioning.Text.Surrogate

/-!
# Quoted text

`quote` writes a text between quotes so that it can be told from its surroundings: single quotes
unless the text holds a single quote and no double one; the quote in use and the backslash are
escaped, and unprintable characters are written by their code point.
-/

namespace SchemaVersioning

/-- The lower-case hexadecimal digit of a number below sixteen. -/
def hexDigit (n : Nat) : Char :=
  if n < 10 then Char.ofNat (48 + n) else Char.ofNat (87 + n)

/-- A number in `width` hexadecimal digits, its higher digits dropped. -/
def hexDigits : Nat → Nat → List Char
  | 0, _ => []
  | width + 1, n => hexDigits width (n / 16) ++ [hexDigit (n % 16)]

namespace Quoted

/-- One character inside the quotes. -/
def escape (quote : Char) (c : Char) : List Char :=
  if c = quote ∨ c = '\\' then ['\\', c]
  else if c = '\n' then ['\\', 'n']
  else if c = '\r' then ['\\', 'r']
  else if c = '\t' then ['\\', 't']
  else if Printable.isPrintable c then [c]
  else if c.toNat < 0x100 then '\\' :: 'x' :: hexDigits 2 c.toNat
  else if c.toNat < 0x10000 then '\\' :: 'u' :: hexDigits 4 c.toNat
  else '\\' :: 'U' :: hexDigits 8 c.toNat

/-- The quote that needs the fewer escapes, single by preference. -/
def quoteFor (cs : List Char) : Char :=
  if cs.contains '\'' && !cs.contains '"' then '"' else '\''

/-- The text between quotes. -/
def quote (s : String) : String :=
  let q := quoteFor s.toList
  String.ofList (q :: s.toList.flatMap (escape q) ++ [q])

/-- One code point inside the quotes; a surrogate is written by its number. -/
def escapePoint (quote : Char) (n : Nat) : List Char :=
  if isSurrogate n then '\\' :: 'u' :: hexDigits 4 n else escape quote (Char.ofNat n)

/-- The text of some code points between quotes. -/
def quotePoints (points : List Nat) : List Char :=
  let q := quoteFor (points.map Char.ofNat)
  q :: points.flatMap (escapePoint q) ++ [q]

end Quoted

end SchemaVersioning
