import SchemaVersioning.Json.Reader
import SchemaVersioning.Yaml.Cursor

/-!
# Texts of scalars

The five forms of a scalar: plain, in single quotes, in double quotes, literal and folded.  Line
breaks inside quotes and inside a plain scalar are folded: a single one stands for a space, and of
several the first one is dropped.  Escapes in double quotes may name surrogates, which stay unjoined.
-/

namespace SchemaVersioning.Yaml

/-! ## Texts -/

/-- The text of a scalar; a broken one has surrogates among its code points. -/
inductive ScalarText where
  | whole (s : String)
  | broken (points : List Nat)
deriving DecidableEq, Repr, Inhabited

namespace ScalarText

/-- The text of some code points. -/
def ofPoints (points : List Nat) : ScalarText :=
  if points.any isSurrogate then broken points else whole (String.ofList (points.map Char.ofNat))

/-- The code points of a text. -/
def points : ScalarText → List Nat
  | whole s => s.toList.map Char.toNat
  | broken points => points

end ScalarText

/-- What a line break and the empty lines after it fold to. -/
def folded (lineBreak breaks : List Char) : List Char :=
  if lineBreak ≠ ['\n'] then lineBreak ++ breaks
  else if breaks.isEmpty then [' ']
  else breaks

/-! ## Quoted scalars -/

/-- The empty lines inside quotes, and the blanks before the next line's text. -/
def quotedBreaks : Nat → Cursor → Except Fault (List Char × Cursor)
  | 0, _ => .error (.malformed "found unexpected end of stream")
  | fuel + 1, c =>
    if c.atDocumentMark then .error (.malformed "found unexpected document separator")
    else
      let c := c.skipWhile isBlank
      match c.lineBreak? with
      | none => .ok ([], c)
      | some (text, c) => do
        let (more, c) ← quotedBreaks fuel c
        .ok (text ++ more, c)

/-- The characters that an escape of one letter stands for. -/
def simpleEscape? : Char → Option Char
  | '0' => some '\x00'
  | 'a' => some '\x07'
  | 'b' => some '\x08'
  | 't' => some '\t'
  | '\t' => some '\t'
  | 'n' => some '\n'
  | 'v' => some '\x0b'
  | 'f' => some '\x0c'
  | 'r' => some '\r'
  | 'e' => some '\x1b'
  | ' ' => some ' '
  | '"' => some '"'
  | '\\' => some '\\'
  | '/' => some '/'
  | 'N' => some '\x85'
  | '_' => some '\xa0'
  | 'L' => some '\u2028'
  | 'P' => some '\u2029'
  | _ => none

/-- How many digits follow the letter of a numeric escape. -/
def escapeWidth? : Char → Option Nat
  | 'x' => some 2
  | 'u' => some 4
  | 'U' => some 8
  | _ => none

/-- The number of a numeric escape of a width. -/
def escapeNumber? (width : Nat) (cs : List Char) : Option Nat :=
  let digits := cs.take width
  if digits.length = width then Json.hexNumber? digits else none

/-- A numeric escape behind its letter. -/
def numericEscape (width : Nat) (c : Cursor) : Except Fault (List Nat × Cursor) :=
  match escapeNumber? width c.rest with
  | none => .error (.malformed "expected an escape sequence of hexadecimal numbers")
  | some n =>
    if 0x80000000 ≤ n then .error .characterTooLarge
    else if 0x110000 ≤ n then .error (.value "chr() arg not in range(0x110000)")
    else .ok ([n], c.skip width)

/-- An escape behind its backslash. -/
def escaped (fuel : Nat) (c : Cursor) : Except Fault (List Nat × Cursor) :=
  match c.peek with
  | none => .error (.malformed "found unexpected end of stream")
  | some ch =>
    match simpleEscape? ch, escapeWidth? ch with
    | some e, _ => .ok ([e.toNat], c.next)
    | none, some width => numericEscape width c.next
    | none, none =>
      if isBreak ch then (quotedBreaks fuel c.next).map fun (text, c) => (text.map Char.toNat, c)
      else .error (.malformed "found unknown escape character")

/-- Blanks and line breaks between the words of a quoted scalar. -/
def quotedBlanks (fuel : Nat) (c : Cursor) : Except Fault (List Char × Cursor) :=
  let (blanks, c) := c.span isBlank
  match c.lineBreak? with
  | none => .ok (blanks, c)
  | some (lineBreak, c) => do
    let (breaks, c) ← quotedBreaks fuel c
    .ok (folded lineBreak breaks, c)

/-- A character without meaning inside quotes. -/
def isQuotedChar (c : Char) : Bool :=
  !(c = '\'' || c = '"' || c = '\\' || isBlank c || isBreak c)

/-- The code points of the next piece of a quoted scalar; nothing at its end. -/
def quotedPiece (double : Bool) (fuel : Nat) (ch : Char) (c : Cursor) :
    Except Fault (Option (List Nat) × Cursor) :=
  if isBlank ch || isBreak ch then
    (quotedBlanks fuel c).map fun (text, c) => (some (text.map Char.toNat), c)
  else if double then
    if ch = '"' then .ok (none, c.next)
    else if ch = '\\' then (escaped fuel c.next).map fun (text, c) => (some text, c)
    else .ok (some [ch.toNat], c.next)
  else if ch = '\'' then
    if c.peekAt 1 = some '\'' then .ok (some [ch.toNat], c.skip 2) else .ok (none, c.next)
  else .ok (some [ch.toNat], c.next)

/-- The code points of a quoted scalar behind its opening quote. -/
def quotedText (double : Bool) : Nat → Cursor → Except Fault (List Nat × Cursor)
  | 0, _ => .error (.malformed "found unexpected end of stream")
  | fuel + 1, c =>
    let (run, c) := c.span isQuotedChar
    let run := run.map Char.toNat
    match c.peek with
    | none => .error (.malformed "found unexpected end of stream")
    | some ch => do
      let (piece, c) ← quotedPiece double fuel ch c
      match piece with
      | none => .ok (run, c)
      | some text => do
        let (more, c) ← quotedText double fuel c
        .ok (run ++ text ++ more, c)

/-! ## Plain scalars -/

/-- A character that has a meaning between brackets and braces. -/
def isFlowMark (c : Char) : Bool := c = ',' || c = '[' || c = ']' || c = '\x7b' || c = '\x7d'

/-- Whether a colon with this behind it ends a plain scalar. -/
def endsKey (flow : Bool) : Option Char → Bool
  | none => true
  | some c => endsWord (some c) || (flow && isFlowMark c)

/-- The characters of a plain scalar up to a blank, a line break or a mark. -/
def plainRun (flow : Bool) : List Char → List Char
  | [] => []
  | ch :: rest =>
    if endsWord (some ch) || (ch = ':' && endsKey flow rest.head?)
        || (flow && (isFlowMark ch || ch = '?')) then []
    else ch :: plainRun flow rest

/-- The empty lines and spaces after a line break of a plain scalar; nothing before a document
mark. -/
def plainBreaks : Nat → Cursor → Option (List Char) × Cursor
  | 0, c => (none, c)
  | fuel + 1, c =>
    if c.atDocumentMark then (none, c)
    else
      let c := c.skipSpaces
      match c.lineBreak? with
      | none => (some [], c)
      | some (text, c) =>
        let (more, c) := plainBreaks fuel c
        (more.map (text ++ ·), c)

/-- What separates the words of a plain scalar: its text if a word may follow, the cursor behind
it, and whether it goes over a line's end. -/
def plainBlanks (fuel : Nat) (c : Cursor) : Option (List Char) × Cursor × Bool :=
  let (spaces, c) := c.span (· = ' ')
  match c.lineBreak? with
  | none => (if spaces.isEmpty then none else some spaces, c, false)
  | some (lineBreak, c) =>
    let (breaks, c) := plainBreaks fuel c
    (breaks.map (folded lineBreak), c, true)

/-- A plain scalar: its text, the cursor behind it and the blanks after it, and whether these go
over a line's end.  Outside of brackets its lines are indented by at least `indent`. -/
def plainText (flow : Bool) (indent : Nat) : Nat → Cursor → List Char × Cursor × Bool
  | 0, c => ([], c, false)
  | fuel + 1, c =>
    let run := plainRun flow c.rest
    let (blanks, after, crossed) := plainBlanks fuel (c.skip run.length)
    match blanks with
    | none => (run, after, crossed)
    | some text =>
      if after.peek = some '#' || (!flow && after.column < indent)
          || (plainRun flow after.rest).isEmpty then (run, after, crossed)
      else
        let (more, c, crossed) := plainText flow indent fuel after
        (run ++ text ++ more, c, crossed)

/-! ## Block scalars -/

/-- What becomes of the line breaks at the end of a block scalar. -/
inductive Chomping where
  | clip
  | strip
  | keep
deriving DecidableEq, Repr

/-- The indicator of a chomping. -/
def chomping? : Char → Option Chomping
  | '+' => some .keep
  | '-' => some .strip
  | _ => none

/-- The indicator of an indentation. -/
def increment? (c : Char) : Option Nat := if '0' ≤ c ∧ c ≤ '9' then some (c.toNat - 48) else none

/-- The indicators after the mark of a block scalar, in either order. -/
def blockIndicators (c : Cursor) : Except Fault (Chomping × Option Nat × Cursor) :=
  let chomping (c : Cursor) : Chomping × Cursor :=
    match c.peek.bind chomping? with
    | some ch => (ch, c.next)
    | none => (.clip, c)
  let increment (c : Cursor) : Option Nat × Cursor :=
    match c.peek.bind increment? with
    | some n => (some n, c.next)
    | none => (none, c)
  let (mode, number, c) :=
    match c.peek.bind chomping? with
    | some ch =>
      let (n, c) := increment c.next
      (ch, n, c)
    | none =>
      let (n, c) := increment c
      if n.isSome then
        let (ch, c) := chomping c
        (ch, n, c)
      else (.clip, none, c)
  if number = some 0 then
    .error (.malformed "expected an indentation indicator in the range 1-9, but found 0")
  else if !endsTag c.peek then .error (.malformed "expected chomping or indentation indicators")
  else .ok (mode, number, c)

/-- The empty lines before a block scalar whose indentation is not given, the greatest column among
them and the first line's text, and the cursor there. -/
def blockIndentation : Nat → Nat → Cursor → List Char × Nat × Cursor
  | 0, deepest, c => ([], deepest, c)
  | fuel + 1, deepest, c =>
    let c := c.skipSpaces
    let deepest := max deepest c.column
    match c.lineBreak? with
    | none => ([], deepest, c)
    | some (text, c) =>
      let (more, deepest, c) := blockIndentation fuel deepest c
      (text ++ more, deepest, c)

/-- The cursor behind spaces, not beyond a column. -/
def skipIndent (indent : Nat) (c : Cursor) : Cursor :=
  c.skip (min (indent - c.column) (c.rest.takeWhile (· = ' ')).length)

/-- The empty lines of a block scalar, and the cursor at the next line's text. -/
def blockBreaks (indent : Nat) : Nat → Cursor → List Char × Cursor
  | 0, c => ([], c)
  | fuel + 1, c =>
    let c := skipIndent indent c
    match c.lineBreak? with
    | none => ([], c)
    | some (text, c) =>
      let (more, c) := blockBreaks indent fuel c
      (text ++ more, c)

/-- Whether a line of a block scalar starts with a blank. -/
def startsBlank (c : Cursor) : Bool :=
  match c.peek with
  | none => false
  | some ch => isBlank ch

/-- The lines of a block scalar from one at the cursor on: their text without the last line break,
that break, the empty lines after it, and the cursor behind them. -/
def blockLines (fold : Bool) (indent : Nat) :
    Nat → Cursor → List Char × List Char × List Char × Cursor
  | 0, c => ([], [], [], c)
  | fuel + 1, c =>
    let blank := startsBlank c
    let (line, c) := c.span fun ch => !isBreak ch
    let (lineBreak, c) := c.lineBreak?.getD ([], c)
    let (breaks, c) := blockBreaks indent fuel c
    if c.column = indent ∧ c.peek.isSome then
      let between :=
        if fold && lineBreak = ['\n'] && !blank && !startsBlank c then
          if breaks.isEmpty then [' '] else breaks
        else lineBreak ++ breaks
      let (more, lineBreak, breaks, c) := blockLines fold indent fuel c
      (line ++ between ++ more, lineBreak, breaks, c)
    else (line, lineBreak, breaks, c)

/-- A block scalar behind its mark, inside a collection of some indentation. -/
def blockText (fold : Bool) (parent : Int) (c : Cursor) : Except Fault (List Char × Cursor) := do
  let fuel := c.rest.length + 1
  let (chomping, increment, c) ← blockIndicators c
  let c ← c.skipEmptyLine
  let least := max 1 (parent + 1).toNat
  let (breaks, indent, c) := match increment with
    | some n =>
      let indent := least + n - 1
      let (breaks, c) := blockBreaks indent fuel c
      (breaks, indent, c)
    | none =>
      let (breaks, deepest, c) := blockIndentation fuel 0 c
      (breaks, max least deepest, c)
  let (lines, lineBreak, tail, c) :=
    if c.column = indent ∧ c.peek.isSome then
      let (lines, lineBreak, tail, c) := blockLines fold indent fuel c
      (breaks ++ lines, lineBreak, tail, c)
    else ([], [], breaks, c)
  .ok (match chomping with
    | .clip => lines ++ lineBreak
    | .strip => lines
    | .keep => lines ++ lineBreak ++ tail, c)

end SchemaVersioning.Yaml
