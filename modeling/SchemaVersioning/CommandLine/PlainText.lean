/-!
# Plain text

What is printed goes to readers that know no control sequences.  A control sequence is an escape
character and a bracket, then numbers, semicolons and question marks, and a letter at its end; it is
left out.  A line ends with a line feed alone.
-/

namespace SchemaVersioning.CommandLine

/-- A character between the bracket and the letter of a control sequence. -/
def isParameter (c : Char) : Bool := c.isDigit || c = ';' || c = '?'

/-- The text without its control sequences. -/
def dropSequences : List Char → List Char
  | [] => []
  | c :: rest =>
    if c = '\x1b' ∧ rest.head? = some '[' then
      match _h : (rest.drop 1).dropWhile isParameter with
      | letter :: more =>
        if letter.isAlpha then dropSequences more else c :: dropSequences rest
      | [] => c :: dropSequences rest
    else c :: dropSequences rest
termination_by cs => cs.length
decreasing_by
  · have hd := (List.dropWhile_sublist (p := isParameter) (l := rest.drop 1)).length_le
    rw [_h] at hd
    simp only [List.length_cons, List.length_drop] at hd ⊢
    omega
  all_goals simp

/-- The text without carriage returns before line feeds. -/
def unifyLineFeeds : List Char → List Char
  | '\r' :: '\n' :: rest => '\n' :: unifyLineFeeds rest
  | c :: rest => c :: unifyLineFeeds rest
  | [] => []

/-- The text as it is printed. -/
def plainText (s : String) : String :=
  String.ofList (unifyLineFeeds (dropSequences s.toList))

end SchemaVersioning.CommandLine
