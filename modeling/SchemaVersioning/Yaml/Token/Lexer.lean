import SchemaVersioning.Yaml.Token

/-!
# From text to tokens

A lexer holds what is known between two tokens: the columns of the open blocks, and for each pair of
open brackets the scalar or collection that becomes a key if a colon follows it on its line.
`TokenStream.ofText` lists the tokens of a document.  A scalar without a value ends the stream early:
it is a fault only for a reader that comes that far.
-/

namespace SchemaVersioning.Yaml

/-- A place where a key may have begun: the number of the tokens before it, and its position.  A
required one must turn out to be a key. -/
structure PendingKey where
  slot : Nat
  required : Bool
  index : Nat
  line : Nat
  column : Nat
deriving Repr

/-- Tokens, newest first, and their number. -/
structure Tokens where
  newest : List Token
  count : Nat
  count_eq : count = newest.length := by simp
deriving Repr

namespace Tokens

/-- No tokens. -/
def empty : Tokens := ⟨[], 0, rfl⟩

/-- The tokens with one put behind the first `slot` of them. -/
def insert (ts : Tokens) (slot : Nat) (t : Token) : Tokens :=
  let after := ts.count - slot
  ⟨ts.newest.take after ++ t :: ts.newest.drop after, ts.count + 1, by
    have := ts.count_eq
    simp only [List.length_append, List.length_take, List.length_cons, List.length_drop]
    omega⟩

/-- The tokens with one put behind them all. -/
def push (ts : Tokens) (t : Token) : Tokens :=
  ⟨t :: ts.newest, ts.count + 1, by simp [ts.count_eq]⟩

/-- The tokens with some copies of one put behind them all. -/
def pushMany (ts : Tokens) (t : Token) : Nat → Tokens
  | 0 => ts
  | n + 1 => (ts.pushMany t n).push t

end Tokens

/-- The state between two tokens.  The columns of the open blocks are kept innermost first, `depth`
counts the open brackets, and `outer` holds the pending keys outside of them, innermost first and
each with the number of brackets that were open where it began. -/
structure Lexer where
  cursor : Cursor
  tokens : Tokens
  blocks : List Nat
  allowKey : Bool
  depth : Nat
  pending : Option PendingKey
  outer : List (Nat × PendingKey)
deriving Repr

namespace Lexer

/-- The state before the first token. -/
def start (text : List Char) : Lexer :=
  let c := Cursor.start text
  ⟨if c.peek = some byteOrderMark then c.next else c, .empty, [], true, 0, none, []⟩

variable (l : Lexer)

/-- Whether a bracket or a brace is open. -/
def inFlow : Bool := l.depth != 0

/-- The column of the innermost block, or one less than the first column. -/
def indent : Int :=
  match l.blocks with
  | [] => -1
  | column :: _ => column

/-- The state with a token added, behind its text. -/
def pushBehind (t : Token) (c : Cursor) : Lexer :=
  { l with tokens := l.tokens.push t, cursor := c }

/-! ## Between tokens -/

/-- The state at the next token's text: behind spaces, comments and line breaks. -/
def skipGap : Nat → Lexer → Lexer
  | 0, l => l
  | fuel + 1, l =>
    let c := l.cursor.skipSpaces.skipComment
    match c.lineBreak? with
    | none => { l with cursor := c }
    | some (_, c) => skipGap fuel { l with cursor := c, allowKey := l.allowKey || !l.inFlow }

/-- The most characters that a key written without its mark may have. -/
def maxKeyLength : Nat := 1024

/-- Whether a pending key can still become one when the text is read up to a cursor. -/
def isFresh (c : Cursor) (k : PendingKey) : Bool :=
  k.line = c.line && c.index - k.index ≤ maxKeyLength

/-- The state without the pending keys that can no longer become keys.  A key outside another one
began before it, so the first stale one makes all that follow it stale. -/
def dropStale : Except Fault Lexer :=
  let kept := l.pending.filter (isFresh l.cursor)
  let (fresh, stale) := l.outer.span fun (_, k) => isFresh l.cursor k
  if (kept.isNone && l.pending.any (·.required)) || stale.any (·.2.required) then
    .error (.malformed "could not find expected ':'")
  else .ok { l with pending := kept, outer := fresh }

/-- The state with the blocks closed that `isInside` holds of; between brackets none is. -/
def closeBlocks (isInside : Nat → Bool) : Lexer :=
  if l.inFlow then l
  else
    let closed := (l.blocks.takeWhile isInside).length
    { l with
      blocks := l.blocks.drop closed
      tokens := l.tokens.pushMany .blockEnd closed }

/-! ## Keys -/

/-- The state without the innermost pending key. -/
def forgetKey : Except Fault Lexer :=
  match l.pending with
  | some k =>
    if k.required then .error (.malformed "could not find expected ':'")
    else .ok { l with pending := none }
  | none => .ok l

/-- The state in which a key may have begun at the cursor. -/
def saveKey : Except Fault Lexer :=
  if l.allowKey then do
    let l ← l.forgetKey
    let c := l.cursor
    let required := !l.inFlow && l.indent = c.column
    .ok { l with pending := some ⟨l.tokens.count, required, c.index, c.line, c.column⟩ }
  else .ok l

/-- The state with a block opened at a column, if it is further right than the innermost one;
`slot` tokens stand before the start of the block. -/
def openBlock (t : Token) (slot column : Nat) : Lexer :=
  if l.indent < column then
    { l with blocks := column :: l.blocks, tokens := l.tokens.insert slot t }
  else l

/-- The state with a block opened at the cursor, where one may be opened. -/
def openHere (t : Token) : Except Fault Lexer :=
  if l.inFlow then .ok l
  else if l.allowKey then .ok (l.openBlock t l.tokens.count l.cursor.column)
  else .error (.malformed "a collection is not allowed here")

/-- The state with the mark of a key put where a pending key began. -/
def insertKey (k : PendingKey) : Lexer :=
  let l := { l with tokens := l.tokens.insert k.slot .key, pending := none }
  if l.inFlow then l else l.openBlock .blockMappingStart k.slot k.column

/-! ## Tokens -/

/-- Behind a mark of a document or a directive: no block is open any more. -/
def pushMark (t : Token) (c : Cursor) : Except Fault Lexer := do
  let l ← (l.closeBlocks fun _ => true).forgetKey
  .ok { l.pushBehind t c with allowKey := false }

/-- Behind an opening bracket. -/
def pushOpening (t : Token) : Except Fault Lexer := do
  let l ← l.saveKey
  let l := l.pushBehind t l.cursor.next
  let outer := match l.pending with
    | some k => (l.depth, k) :: l.outer
    | none => l.outer
  .ok { l with allowKey := true, depth := l.depth + 1, pending := none, outer }

/-- Behind a closing bracket. -/
def pushClosing (t : Token) : Except Fault Lexer := do
  let l ← l.forgetKey
  let l := l.pushBehind t l.cursor.next
  match l.depth with
  | 0 => .error (.malformed "found a closing bracket without an opening one")
  | depth + 1 =>
    let (here, outer) := l.outer.span fun (d, _) => d = depth
    .ok { l with allowKey := false, depth, pending := here.head?.map (·.2), outer }

/-- Behind a comma. -/
def pushFlowEntry : Except Fault Lexer := do
  let l ← l.forgetKey
  .ok { l.pushBehind .flowEntry l.cursor.next with allowKey := true }

/-- Behind the dash of an item. -/
def pushBlockEntry : Except Fault Lexer := do
  let l ← (← l.openHere .blockSequenceStart).forgetKey
  .ok { l.pushBehind .blockEntry l.cursor.next with allowKey := true }

/-- Behind the mark of a key. -/
def pushKey : Except Fault Lexer := do
  let l ← (← l.openHere .blockMappingStart).forgetKey
  .ok { l.pushBehind .key l.cursor.next with allowKey := !l.inFlow }

/-- Behind the colon before a value. -/
def pushValue : Except Fault Lexer := do
  let l ← match l.pending with
    | some k => .ok { l.insertKey k with allowKey := false }
    | none => do
      let l ← l.openHere .blockMappingStart
      .ok { l with allowKey := !l.inFlow }
  .ok (l.pushBehind .value l.cursor.next)

/-- Behind a word that may be a key. -/
def pushWord (word : Cursor → Except Fault (Token × Cursor)) : Except Fault Lexer := do
  let l ← l.saveKey
  let (t, c) ← word l.cursor
  .ok { l.pushBehind t c with allowKey := false }

/-- Behind a quoted scalar. -/
def pushQuoted (double : Bool) (fuel : Nat) : Except Fault Lexer :=
  l.pushWord fun c => do
    let (text, c) ← quotedText double fuel c.next
    .ok (.scalar false (.ofPoints text), c)

/-- Behind a plain scalar; over a line's end a key may follow it. -/
def pushPlain (fuel : Nat) : Except Fault Lexer := do
  let l ← l.saveKey
  let (text, c, crossed) := plainText l.inFlow (l.indent + 1).toNat fuel l.cursor
  .ok { l.pushBehind (.scalar true (.whole (String.ofList text))) c with allowKey := crossed }

/-- Behind a literal or folded scalar. -/
def pushBlock (fold : Bool) : Except Fault Lexer := do
  let l ← l.forgetKey
  let (text, c) ← blockText fold l.indent l.cursor.next
  .ok { l.pushBehind (.scalar false (.whole (String.ofList text))) c with allowKey := true }

/-- Whether a plain scalar may begin here. -/
def startsPlain (flow : Bool) (ch : Char) (following : Option Char) : Bool :=
  if endsWord (some ch) then false
  else if ch = '-' then !endsWord following
  else if ch = '?' ∨ ch = ':' then !flow && !endsWord following
  else !",[]\x7b\x7d#&*!|>'\"%@\x60".toList.contains ch

/-- The state behind the token that begins with a character. -/
def pushToken (fuel : Nat) (ch : Char) : Except Fault Lexer :=
  let c := l.cursor
  let alone := endsWord (c.peekAt 1)
  if c.column = 0 && ch = '%' then do
    let (t, after) ← directive c
    l.pushMark t after
  else if c.column = 0 && c.atWord ['-', '-', '-'] then l.pushMark .documentStart (c.skip 3)
  else if c.column = 0 && c.atWord ['.', '.', '.'] then l.pushMark .documentEnd (c.skip 3)
  else if ch = '[' then l.pushOpening .flowSequenceStart
  else if ch = '\x7b' then l.pushOpening .flowMappingStart
  else if ch = ']' then l.pushClosing .flowSequenceEnd
  else if ch = '\x7d' then l.pushClosing .flowMappingEnd
  else if ch = ',' then l.pushFlowEntry
  else if ch = '-' && alone then l.pushBlockEntry
  else if ch = '?' && (l.inFlow || alone) then l.pushKey
  else if ch = ':' && (l.inFlow || alone) then l.pushValue
  else if ch = '*' then l.pushWord fun c => (anchorName c.next).map fun (s, c) => (.aliasTo s, c)
  else if ch = '&' then l.pushWord fun c => (anchorName c.next).map fun (s, c) => (.anchor s, c)
  else if ch = '!' then l.pushWord tag
  else if ch = '|' && !l.inFlow then l.pushBlock false
  else if ch = '>' && !l.inFlow then l.pushBlock true
  else if ch = '\'' then l.pushQuoted false fuel
  else if ch = '"' then l.pushQuoted true fuel
  else if startsPlain l.inFlow ch (c.peekAt 1) then l.pushPlain fuel
  else .error (.malformed "found a character that cannot start any token")

end Lexer

/-! ## All tokens -/

/-- The tokens of a document in order, and the fault that comes in place of the next one. -/
structure TokenStream where
  tokens : List Token
  fault : Option Fault
deriving Repr

namespace Lexer

/-- The tokens whose place is certain: no key may turn out to begin before one of them. -/
def settled (l : Lexer) : Except Fault (List Token) := do
  let l ← l.dropStale
  let slots := (l.pending.toList ++ l.outer.map (·.2)).map PendingKey.slot
  .ok (l.tokens.newest.reverse.take (slots.foldl min l.tokens.count))

/-- The tokens up to the end of the text, or up to the first fault that is no malformed text. -/
def run : Nat → Lexer → Except Fault TokenStream
  | 0, _ => .error (.malformed "found unexpected end of stream")
  | fuel + 1, l => do
    let here ← (skipGap fuel l).dropStale
    match here.cursor.peek with
    | none => do
      let l ← (here.closeBlocks fun _ => true).forgetKey
      .ok ⟨l.tokens.newest.reverse, none⟩
    | some ch =>
      match (here.closeBlocks fun column => here.cursor.column < column).pushToken fuel ch with
      | .ok l => run fuel l
      | .error (.malformed problem) => .error (.malformed problem)
      | .error fault => do .ok ⟨← l.settled, some fault⟩

end Lexer

/-- The tokens of a document. -/
def TokenStream.ofText (text : String) : Except Fault TokenStream :=
  let cs := text.toList
  if cs.all isAllowed then Lexer.run (cs.length + 2) (.start cs)
  else .error (.malformed "special characters are not allowed")

end SchemaVersioning.Yaml
