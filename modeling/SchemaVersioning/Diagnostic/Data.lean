import SchemaVersioning.Declaration.Data
import SchemaVersioning.Declaration.Reading
import SchemaVersioning.Diagnostic

/-!
# Diagnostics as data

Reading and writing diagnostics.  The severity of a diagnostic is always `fatal`.
-/

namespace SchemaVersioning

open Reading Checked

def Rule.read (v : Value) : Checked Rule := choice (all.map fun r => (r.code, r)) v

namespace Diagnostic

/-- Reads a diagnostic. -/
def read (v : Value) : Checked Diagnostic :=
  model "Diagnostic" v fun entries _ =>
    onlyFields ["code", "message", "subject", "location", "suggestion", "severity"] entries <|
      (fun rule message subject location suggestion (_ : Unit) =>
        Diagnostic.mk rule message subject location suggestion)
        <$> required entries "code" (fun v _ => Rule.read v)
        <*> required entries "message" (fun v _ => nonEmptyText v)
        <*> required entries "subject" (fun v _ => nonEmptyText v)
        <*> Location.readField .outermost entries
        <*> optional entries "suggestion" none (fun v _ => nullable Reading.text v)
        <*> optional entries "severity" () (fun v _ => literal "fatal" v)

/-- A diagnostic as data. -/
def toValue (d : Diagnostic) : Value :=
  .record [("code", .text d.rule.code), ("message", .text d.message), ("subject", .text d.subject),
    ("location", Location.toField d.location), ("suggestion", .ofOption .text d.suggestion),
    ("severity", .text "fatal")]

/-- The numbers of the diagnostics of each rule as data. -/
def countsValue (ds : List Diagnostic) : Value :=
  .record ((countByRule ds).map fun (rule, n) => (rule.code, .nat n))

end Diagnostic

end SchemaVersioning
