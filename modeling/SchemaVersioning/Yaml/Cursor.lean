import SchemaVersioning.Text.Quoted

/-!
# Positions in a document

A cursor is the rest of a document together with its position.  Lines end with a line feed, a next
line, a line separator or a paragraph separator; carriage returns do not occur, because files are
read with their line ends turned into line feeds.
-/

namespace SchemaVersioning.Yaml

/-- Why a document has no value: it is malformed, as its reader puts it, or nested too deeply, or a
scalar has no value of its type.  A number may lack its first digit, the number of a character or
the weight of a place may be too large, and a moment may be written in no known form or stand under
the default key of a mapping. -/
inductive Fault where
  | malformed (problem : String)
  | tooDeep
  | value (message : String)
  | key (word : List Nat)
  | noDigit
  | characterTooLarge
  | placeTooLarge
  | noMoment
  | momentInMapping
deriving DecidableEq, Repr

/-! ## Characters -/

/-- Whether a character may occur in a document. -/
def isAllowed (c : Char) : Bool :=
  let n := c.toNat
  n = 0x09 || n = 0x0A || n = 0x0D || (0x20 ≤ n && n ≤ 0x7E) || n = 0x85
    || (0xA0 ≤ n && n ≤ 0xD7FF) || (0xE000 ≤ n && n ≤ 0xFFFD) || 0x10000 ≤ n

/-- The mark that may stand before the first line. -/
def byteOrderMark : Char := '\ufeff'

def isBreak (c : Char) : Bool := c = '\n' || c = '\x85' || c = '\u2028' || c = '\u2029'

def isBlank (c : Char) : Bool := c = ' ' || c = '\t'

/-- Whether a line ends here. -/
def endsLine : Option Char → Bool
  | none => true
  | some c => isBreak c

/-- Whether a line ends here or a space follows. -/
def endsTag : Option Char → Bool
  | none => true
  | some c => c = ' ' || isBreak c

/-- Whether a line ends here or a blank follows. -/
def endsWord : Option Char → Bool
  | none => true
  | some c => isBlank c || isBreak c

/-- A character of an anchor, of a handle or of the name of a directive. -/
def isNameChar (c : Char) : Bool :=
  ('0' ≤ c && c ≤ '9') || ('A' ≤ c && c ≤ 'Z') || ('a' ≤ c && c ≤ 'z') || c = '-' || c = '_'

/-! ## Cursors -/

/-- The rest of a document and its position. -/
structure Cursor where
  rest : List Char
  index : Nat
  line : Nat
  column : Nat
deriving Repr

namespace Cursor

def start (text : List Char) : Cursor := ⟨text, 0, 0, 0⟩

def peek (c : Cursor) : Option Char := c.rest.head?

def peekAt (c : Cursor) (n : Nat) : Option Char := c.rest[n]?

/-- The cursor behind the next character. -/
def next (c : Cursor) : Cursor :=
  match c.rest with
  | [] => c
  | ch :: rest =>
    if isBreak ch then ⟨rest, c.index + 1, c.line + 1, 0⟩
    else if ch = byteOrderMark then ⟨rest, c.index + 1, c.line, c.column⟩
    else ⟨rest, c.index + 1, c.line, c.column + 1⟩

/-- The cursor behind some characters. -/
def skip (c : Cursor) : Nat → Cursor
  | 0 => c
  | n + 1 => c.next.skip n

/-- The longest run of characters with a property, and the cursor behind it. -/
def span (p : Char → Bool) (c : Cursor) : List Char × Cursor :=
  let run := c.rest.takeWhile p
  (run, c.skip run.length)

/-- The cursor behind the longest run of characters with a property. -/
def skipWhile (p : Char → Bool) (c : Cursor) : Cursor := (c.span p).2

/-- The cursor behind the spaces that follow. -/
def skipSpaces (c : Cursor) : Cursor := c.skipWhile (· = ' ')

/-- The cursor at the end of the line. -/
def skipLine (c : Cursor) : Cursor := c.skipWhile fun ch => !isBreak ch

/-- The cursor behind a comment, if one follows. -/
def skipComment (c : Cursor) : Cursor := if c.peek = some '#' then c.skipLine else c

/-- The text that a line break stands for, and the cursor behind it. -/
def lineBreak? (c : Cursor) : Option (List Char × Cursor) :=
  match c.peek with
  | none => none
  | some ch =>
    if isBreak ch then some (if ch = '\u2028' ∨ ch = '\u2029' then [ch] else ['\n'], c.next)
    else none

/-- The cursor behind a line break, if one follows. -/
def skipBreak (c : Cursor) : Cursor :=
  match c.lineBreak? with
  | none => c
  | some (_, c) => c

/-- The rest of a line that may hold nothing but a comment, with its break. -/
def skipEmptyLine (c : Cursor) : Except Fault Cursor :=
  let c := c.skipSpaces.skipComment
  if endsLine c.peek then .ok c.skipBreak
  else .error (.malformed "expected a comment or a line break")

/-- Whether a word of three characters stands here alone. -/
def atWord (word : List Char) (c : Cursor) : Bool :=
  c.rest.take 3 = word && endsWord (c.peekAt 3)

/-- Whether a mark of a document's start or end stands here. -/
def atDocumentMark (c : Cursor) : Bool := c.atWord ['-', '-', '-'] || c.atWord ['.', '.', '.']

end Cursor

end SchemaVersioning.Yaml
