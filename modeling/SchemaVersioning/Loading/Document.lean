import SchemaVersioning.Config.Data
import SchemaVersioning.Declaration.Reading
import SchemaVersioning.Failure
import SchemaVersioning.Loading.Workspace
import SchemaVersioning.Yaml.Document

/-!
# Loading of documents

A unit and a configuration are read from documents.  A file that is missing, a text that is not
well-formed or no mapping, and a mapping that a model refuses are errors of the stage that loads.
-/

namespace SchemaVersioning

namespace StageError

/-- The error of a missing file. -/
def missingFile (path : FilePath) (full : String) : StageError :=
  { stage := .load
    code := "E001"
    message := "File not found: " ++ path.text
    suggestion := some ("Ensure the file exists at: " ++ full)
    context := some [(.text "path", .text path.text)] }

/-- The error of a text that is not well-formed, with the problem that its reader found. -/
def malformedText (path : FilePath) (problem : String) : StageError :=
  { stage := .load
    code := "E002"
    message := s!"Invalid YAML syntax in {path.name}: {problem}"
    suggestion := some "Check YAML syntax - ensure proper indentation and formatting"
    context := some [(.text "path", .text path.text), (.text "error", .text problem)] }

/-- The error of a document that is no mapping. -/
def notMapping (path : FilePath) (v : Value) : StageError :=
  { stage := .load
    code := "E002"
    message := s!"Expected a mapping at the top of {path.name}, got {v.kindName}"
    suggestion := some "The document must start with keys such as 'name' and 'modules'"
    context := some [(.text "path", .text path.text)] }

/-- An issue as data. -/
def issueValue (issue : Issue) : Value :=
  .record [("field", .text issue.location), ("message", .text issue.cause.message)]

/-- The error of a mapping that a model refuses; the first issue is told in full. -/
def invalidModel (path : FilePath) (issues : List Issue) : StageError :=
  let field := (issues.head?.map Issue.location).getD ""
  let message := (issues.head?.map (·.cause.message)).getD "Validation failed"
  { stage := .load
    code := "E003"
    message := s!"Validation error in {path.name}: {field}: {message}"
    suggestion := some "Check the declaration model documentation for valid fields"
    context := some [(.text "path", .text path.text), (.text "field", .text field),
      (.text "message", .text message), (.text "all_errors", .list (issues.map issueValue))] }

end StageError

/-- The failure of a fault in a document. -/
def Failure.ofFault (path : FilePath) : Yaml.Fault → Failure
  | .malformed problem => .stage (.malformedText path problem)
  | .value message => .value message
  | .tooDeep => .tooDeep
  | .key word =>
    if word.any isSurrogate then .brokenKey word else .key (String.ofList (word.map Char.ofNat))
  | .noDigit => .host ⟨"IndexError", false⟩ "string index out of range"
  | .characterTooLarge =>
    .host ⟨"OverflowError", false⟩ "Python int too large to convert to C int"
  | .placeTooLarge => .host ⟨"OverflowError", false⟩ "int too large to convert to float"
  | .noMoment => .noAttribute "NoneType" "groupdict"
  | .momentInMapping => .type "expected string or bytes-like object, got 'list'"

/-- The text with each carriage return, with a line feed after it or without, as a line feed. -/
def unifyLineEnds : List Char → List Char
  | '\r' :: '\n' :: rest => '\n' :: unifyLineEnds rest
  | c :: rest => (if c = '\r' then '\n' else c) :: unifyLineEnds rest
  | [] => []

namespace Workspace

variable (w : Workspace) (path : FilePath)

/-- The text of a file. -/
def readText : Except Failure String :=
  match w.look path with
  | .absent => .error (.stage (.missingFile path (w.absoluteText path)))
  | .blocked => .error (.stage (.missingFile path (w.absoluteText path)))
  | .overlong =>
    .error (.host ⟨"OSError", false⟩ s!"[Errno 36] File name too long: {Quoted.quote path.text}")
  | .found .directory =>
    .error (.host ⟨"IsADirectoryError", false⟩
      s!"[Errno 21] Is a directory: {Quoted.quote path.text}")
  | .found (.regular content) =>
    match Encoding.utf8.decode content with
    | .error fault => .error (.undecodable fault)
    | .ok text => .ok (String.ofList (unifyLineEnds text.toList))

/-- The mapping in a file; an empty document is an empty mapping. -/
def readMapping : Except Failure Value := do
  match Yaml.readDocument (← w.readText path) with
  | .error fault => .error (.ofFault path fault)
  | .ok .null => .ok (.object [])
  | .ok v =>
    match v.bare with
    | .object _ => .ok v
    | _ => .error (.stage (.notMapping path v))

/-- What a file holds, as a model reads it. -/
def loadModel {α : Type} (model : Value → Checked α) : Except Failure α := do
  match (model (← w.readMapping path)).toExcept with
  | .ok a => .ok a
  | .error issues => .error (.stage (.invalidModel path issues))

def loadUnit : Except Failure CompilationUnit := w.loadModel path CompilationUnit.read

def loadConfig : Except Failure Config := w.loadModel path Config.read

/-- The configuration in a file, or the standard one if there is no file. -/
def loadConfigOr : Option FilePath → Except Failure Config
  | none => .ok .standard
  | some path => w.loadConfig path

end Workspace

end SchemaVersioning
