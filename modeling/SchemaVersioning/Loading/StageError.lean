import SchemaVersioning.Stage
import SchemaVersioning.Text.DecimalDigit

/-!
# Errors of stages

An error of a stage has a code, a wording, and perhaps a remedy and a context.
-/

namespace SchemaVersioning

open Reading Checked

/-- An error of a stage. -/
structure StageError where
  stage : Stage
  code : String
  message : String
  suggestion : Option String
  context : Option Entries
deriving Inhabited

namespace StageError

/-- Whether a text is the letter `E` and three digits of any script. -/
def isCode (s : String) : Bool :=
  match s.toList with
  | 'E' :: digits => digits.length = 3 && digits.all DecimalDigit.isRecentDigit
  | _ => false

/-- Reads the code of an error. -/
def readCode (v : Value) : Checked String :=
  (nonEmptyText v).andThen fun s =>
    if isCode s then accepted s else refuse (.noMatch "^E\\d\x7b3\x7d$")

/-- Reads the entries of a dictionary as they are. -/
def readContext (v : Value) : Checked Entries :=
  match v.bare with
  | .object entries => accepted entries
  | _ => refuse .notDictionary

/-- Reads an error. -/
def read (v : Value) : Checked StageError :=
  model "CompilationError" v fun entries _ =>
    onlyFields ["stage", "code", "message", "suggestion", "context"] entries <|
      (StageError.mk · · · · ·)
        <$> required entries "stage" (fun v _ => Stage.read v)
        <*> required entries "code" (fun v _ => readCode v)
        <*> required entries "message" (fun v _ => nonEmptyText v)
        <*> optional entries "suggestion" none (fun v _ => nullable Reading.text v)
        <*> optional entries "context" none (fun v _ => nullable readContext v)

/-- An error as data. -/
def toValue (e : StageError) : Value :=
  .record [("stage", .text e.stage.name), ("code", .text e.code), ("message", .text e.message),
    ("suggestion", .ofOption .text e.suggestion), ("context", .ofOption .object e.context)]

def short (e : StageError) : String := s!"[{e.stage.name}] {e.code}: {e.message}"

/-- The error with its suggestion on a second line. -/
def text (e : StageError) : String :=
  match e.suggestion with
  | none => e.short
  | some s => if s = "" then e.short else e.short ++ "\nSuggestion: " ++ s

end StageError

end SchemaVersioning
