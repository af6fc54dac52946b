import SchemaVersioning.Value
import SchemaVersioning.Yaml.Moment
import SchemaVersioning.Yaml.Number

/-!
# Values of scalars

The tag of a scalar that carries none, and the value that a text has under a tag.  `Plain.identity`
says which of these values are one and the same key.
-/

namespace SchemaVersioning.Yaml

/-- A text without the line end that it may finish with. -/
def withoutLineEnd (cs : List Char) : List Char :=
  if cs.getLast? = some '\n' then cs.dropLast else cs

/-! ## Tags by form -/

/-- The tag of a text by its form; no line end follows it. -/
def Tag.ofForm (cs : List Char) : Tag :=
  let s := String.ofList cs
  if (trueWords ++ falseWords).contains s then bool
  else if isReal cs then real
  else if isWhole (dropSign cs) then int
  else if s = "<<" then merge
  else if nullWords.contains s then null
  else if WrittenMoment.isPlain cs then moment
  else if s = "=" then default
  else if markWords.contains s then unknown
  else text

/-- The tag of a scalar that is written plainly and carries none; a line end behind the text does
not count, unless it is all of it. -/
def Tag.ofPlain : ScalarText → Tag
  | .whole s => if s = "\n" then text else ofForm (withoutLineEnd s.toList)
  | .broken _ => text

/-! ## Bytes -/

/-- The number of a digit to base sixty-four. -/
def base64Digit? (c : Char) : Option Nat :=
  if 'A' ≤ c ∧ c ≤ 'Z' then some (c.toNat - 65)
  else if 'a' ≤ c ∧ c ≤ 'z' then some (c.toNat - 71)
  else if '0' ≤ c ∧ c ≤ '9' then some (c.toNat + 4)
  else if c = '+' then some 62
  else if c = '/' then some 63
  else none

/-- The bytes that two to four digits to base sixty-four stand for. -/
def base64Bytes (digits : List Nat) : Buffer :=
  let n := (digits ++ List.replicate (4 - digits.length) 0).foldl (fun n d => 64 * n + d) 0
  ([n / 65536, n / 256 % 256, n % 256].take (digits.length - 1)).map UInt8.ofNat

/-- The bytes of a text to base sixty-four; `group` are the digits since the last full group and
`pads` the equals signs after them.  Other characters are ignored. -/
def base64? (group : List Nat) (pads : Nat) : List Char → Option Buffer
  | [] => if group.isEmpty then some [] else none
  | c :: rest =>
    if c = '=' then
      if group.length < 2 then base64? group pads rest
      else if 4 ≤ group.length + pads + 1 then some (base64Bytes group)
      else base64? group (pads + 1) rest
    else
      match base64Digit? c with
      | none => base64? group pads rest
      | some d =>
        if group.length = 3 then (base64Bytes (group ++ [d]) ++ ·) <$> base64? [] 0 rest
        else base64? (group ++ [d]) 0 rest

/-! ## Plain values -/

/-- The value of a scalar.  `undefined` is the number called `.nan`, of which there is only one. -/
inductive Plain where
  | null
  | bool (b : Bool)
  | int (n : Int)
  | real (x : Binary64)
  | undefined
  | text (t : ScalarText)
  | bytes (buffer : Buffer)
  | moment (m : WrittenMoment)
deriving DecidableEq, Repr, Inhabited

namespace Plain

/-- The truth value of a text. -/
def readBool (text : ScalarText) : Except Fault Plain :=
  let word := LowerCase.lower text.points
  let among (words : List String) : Bool := words.any fun w => w.toList.map Char.toNat = word
  if among Tag.trueWords then .ok (bool true)
  else if among Tag.falseWords then .ok (bool false)
  else .error (.key word)

/-- The bytes of a text. -/
def readBytes (text : ScalarText) : Except Fault Plain :=
  let points := text.points
  if points.all (· < 0x80) then
    match base64? [] 0 (points.map Char.ofNat) with
    | some buffer => .ok (bytes buffer)
    | none => .error (.malformed "failed to decode base64 data")
  else .error (.malformed "failed to convert base64 data into ASCII")

/-- The date or time of a text; a line end may follow it. -/
def readMoment : ScalarText → Except Fault Plain
  | .broken _ => .error .noMoment
  | .whole s =>
    match WrittenMoment.ofChars? (withoutLineEnd s.toList) with
    | none => .error .noMoment
    | some m =>
      match m.fault? with
      | some message => .error (.value message)
      | none => .ok (moment m)

/-- The value of a text under the tag of a scalar. -/
def read (tag : Tag) (t : ScalarText) : Except Fault Plain :=
  match tag with
  | .null => .ok null
  | .bool => readBool t
  | .int => int <$> Number.whole t.points
  | .real => do
    match ← Number.real t.points with
    | some x => .ok (real x)
    | none => .ok undefined
  | .bytes => readBytes t
  | .moment => readMoment t
  | .text => .ok (text t)
  | _ => .error (.malformed "expected a scalar node")

/-- A plain value as data. -/
def toValue : Plain → Value
  | null => .null
  | bool b => .bool b
  | int n => .int n
  | real x => .real x
  | undefined => .real .notANumber
  | text (.whole s) => .text s
  | text (.broken points) => .broken points
  | bytes buffer => .bytes buffer
  | moment m => .moment (if m.time.isSome then .datetime else .date) m.shown

/-! ## Keys -/

/-- A byte between quotes. -/
def shownByte (quote : Char) (b : UInt8) : List Char :=
  if b.toNat < 0x80 then Quoted.escape quote (Char.ofNat b.toNat)
  else ['\\', 'x'] ++ hexDigits 2 b.toNat

/-- Bytes as they are shown. -/
def shownBytes (buffer : Buffer) : String :=
  let q := Quoted.quoteFor (buffer.map fun b => Char.ofNat b.toNat)
  String.ofList ('b' :: q :: buffer.flatMap (shownByte q) ++ [q])

/-- An integer as a key; one of too many digits is not shown. -/
def shownInteger (n : Int) : String :=
  if DecimalDigit.maxCount < (toString n.natAbs).length then "<unprintable int object>"
  else toString n

/-- A plain value as a key. -/
def toKey : Plain → Key
  | null => .other "None"
  | bool b => .other (if b then "1" else "0")
  | int n => .other (shownInteger n)
  | real x => .other x.text
  | undefined => .other Binary64.notANumber.text
  | text (.whole s) => .text s
  | text (.broken points) => .broken points
  | bytes buffer => .other (shownBytes buffer)
  | moment m => .other m.shown

/-- What makes keys equal: numbers of one value are one key, and times of one instant.  A number
that is none is a key of its own at every node. -/
inductive Identity where
  | null
  | integer (n : Int)
  | real (x : Binary64)
  | undefined (node : Option Nat)
  | text (t : ScalarText)
  | bytes (buffer : Buffer)
  | moment (m : WrittenMoment)
  | instant (microseconds : Int)
deriving DecidableEq, Repr

/-- The identity of the value of a node. -/
def identity (node : Nat) : Plain → Identity
  | null => .null
  | bool b => .integer b.toNat
  | int n => .integer n
  | real .notANumber => .undefined (some node)
  | real x =>
    match x.toInt? with
    | some n => .integer n
    | none => .real x
  | undefined => .undefined none
  | text t => .text t
  | bytes buffer => .bytes buffer
  | moment m =>
    match m.instant? with
    | some i => .instant i
    | none => .moment m

end Plain

end SchemaVersioning.Yaml
