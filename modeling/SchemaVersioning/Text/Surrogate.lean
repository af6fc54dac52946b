/-!
# Surrogates

The code points from `0xD800` to `0xDFFF` are no characters: a high one and a low one together stand
for a character beyond `0xFFFF`.  A text that is written with escapes may hold them unjoined, and is
then given by its code points.
-/

namespace SchemaVersioning

/-- The character that a high and a low surrogate stand for. -/
def joinSurrogates (high low : Nat) : Char :=
  Char.ofNat (0x10000 + (high - 0xD800) * 0x400 + (low - 0xDC00))

def isHighSurrogate (n : Nat) : Bool := 0xD800 ≤ n && n ≤ 0xDBFF

def isLowSurrogate (n : Nat) : Bool := 0xDC00 ≤ n && n ≤ 0xDFFF

def isSurrogate (n : Nat) : Bool := isHighSurrogate n || isLowSurrogate n

/-- The character that a code point is kept as.  A surrogate is kept as one of the last 2048
characters, which are private, so that texts that differ in a surrogate stay different. -/
def keptChar (n : Nat) : Char := Char.ofNat (if isSurrogate n then n + 0x102000 else n)

/-- The text of code points, none of them joined. -/
def keptText (points : List Nat) : String := String.ofList (points.map keptChar)

end SchemaVersioning
