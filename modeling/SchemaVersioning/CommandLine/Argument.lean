/-!
# Arguments of a command line

An argument that begins with a dash names options: by a long name after two dashes, or by single
letters after one.  The value of an option stands behind an equals sign or directly behind its
letter, or is the next argument.  Behind two dashes alone no more options are named.
-/

namespace SchemaVersioning.CommandLine

/-- Why arguments cannot be understood. -/
inductive UsageFault where
  | unknownOption (name : String)
  | missingValue (name : String)
  | unexpectedValue (name : String)
  | badChoice (name value : String) (choices : List String)
  | missingCommand
  | unknownCommand (name : String)
  | missingArgument (name : String)
  | extraArgument (value : String)
  | directory (path : String)
deriving DecidableEq, Repr

/-- The wording of a fault. -/
def UsageFault.message : UsageFault → String
  | unknownOption name => s!"No such option: {name}"
  | missingValue name => s!"Option '{name}' requires an argument."
  | unexpectedValue name => s!"Option '{name}' does not take a value."
  | badChoice name value choices =>
    s!"Invalid value for '{name}': '{value}' is not one of " ++ ", ".intercalate choices ++ "."
  | missingCommand => "Missing command."
  | unknownCommand name => s!"No such command '{name}'."
  | missingArgument name => s!"Missing argument '{name}'."
  | extraArgument value => s!"Got unexpected extra argument ({value})"
  | directory path => s!"File '{path}' is a directory."

/-- An option: its name, its letter, and whether it has a value. -/
structure Switch where
  name : String
  letter : Option Char
  takesValue : Bool
deriving DecidableEq, Repr

/-- An option as it was named, with its value; an option without values has an empty one. -/
abbrev Setting := Switch × String

/-- The options that letters name, and the one among them that waits for its value. -/
def readLetters (switches : List Switch) :
    List Char → Except UsageFault (List Setting × Option Switch)
  | [] => .ok ([], none)
  | c :: rest =>
    match switches.find? (·.letter = some c) with
    | none => .error (.unknownOption (String.ofList ['-', c]))
    | some s =>
      if !s.takesValue then do
        let (more, waiting) ← readLetters switches rest
        .ok ((s, "") :: more, waiting)
      else if rest.isEmpty then .ok ([], some s)
      else .ok ([(s, String.ofList rest)], none)

/-- The option of a long name, with its value if one stands behind an equals sign. -/
def readName (switches : List Switch) (cs : List Char) :
    Except UsageFault (List Setting × Option Switch) :=
  let name := String.ofList (cs.takeWhile (· ≠ '='))
  match switches.find? (·.name = name), cs.dropWhile (· ≠ '=') with
  | none, _ => .error (.unknownOption ("--" ++ name))
  | some s, [] => if s.takesValue then .ok ([], some s) else .ok ([(s, "")], none)
  | some s, _ :: value =>
    if s.takesValue then .ok ([(s, String.ofList value)], none)
    else .error (.unexpectedValue ("--" ++ name))

/-- What an argument is. -/
inductive ArgumentKind where
  | word
  | name (cs : List Char)
  | letters (cs : List Char)
  | separator
deriving DecidableEq, Repr

/-- The kind of an argument; a single dash is a word. -/
def argumentKind (arg : String) : ArgumentKind :=
  match arg.toList with
  | ['-', '-'] => .separator
  | '-' :: '-' :: cs => .name cs
  | '-' :: c :: cs => .letters (c :: cs)
  | _ => .word

/-- The options and the words of a command line.  With `mixed`, options may follow words; without,
all arguments from the first word on are words. -/
def readArguments (switches : List Switch) (mixed : Bool) :
    List String → Except UsageFault (List Setting × List String)
  | [] => .ok ([], [])
  | arg :: rest =>
    let found := match argumentKind arg with
      | .name cs => readName switches cs
      | .letters cs => readLetters switches cs
      | _ => .ok ([], none)
    match argumentKind arg, found with
    | .separator, _ => .ok ([], rest)
    | .word, _ =>
      if mixed then do
        let (settings, words) ← readArguments switches mixed rest
        .ok (settings, arg :: words)
      else .ok ([], arg :: rest)
    | _, .error fault => .error fault
    | _, .ok (settings, none) => do
      let (more, words) ← readArguments switches mixed rest
      .ok (settings ++ more, words)
    | _, .ok (settings, some waiting) =>
      match rest with
      | [] => .error (.missingValue ("--" ++ waiting.name))
      | value :: rest => do
        let (more, words) ← readArguments switches mixed rest
        .ok (settings ++ (waiting, value) :: more, words)

/-- The last value of an option, if it was named. -/
def lastValue? (settings : List Setting) (s : Switch) : Option String :=
  ((settings.filter (·.1 = s)).getLast?).map (·.2)

/-- The small letter of a character, as far as the names of choices have it: the letters of ASCII
and the long `ſ`. -/
def small (c : Char) : Char := if c = 'ſ' then 's' else c.toLower

/-- The value of an option among its choices, in upper or lower case. -/
def choice {α : Type} (settings : List Setting) (s : Switch) (standard : α)
    (choices : List (String × α)) : Except UsageFault α :=
  match lastValue? settings s with
  | none => .ok standard
  | some value =>
    match choices.lookup (value.map small) with
    | some a => .ok a
    | none => .error (.badChoice ("--" ++ s.name) value (choices.map (·.1)))

end SchemaVersioning.CommandLine
