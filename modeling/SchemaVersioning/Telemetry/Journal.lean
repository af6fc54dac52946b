import SchemaVersioning.Value

/-!
# Journals

What a run leaves behind: events, and spans that hold what happened inside them.  A span that a
failure leaves is marked with it.  `spans` lists the spans as they finish, `events` the events with
the span that was active.
-/

namespace SchemaVersioning

/-- How grave an event is. -/
inductive Level where
  | debug
  | info
  | warning
  | error
  | critical
deriving DecidableEq, Repr, Inhabited

namespace Level

/-- The name of a level in an event. -/
def name : Level → String
  | debug => "debug"
  | info => "info"
  | warning => "warning"
  | error => "error"
  | critical => "critical"

/-- The rank of a level among thresholds. -/
def rank : Level → Nat
  | debug => 10
  | info => 20
  | warning => 30
  | error => 40
  | critical => 50

/-- The level that a method of a logger writes. -/
def ofMethod? : String → Option Level
  | "debug" => some debug
  | "info" => some info
  | "warning" => some warning
  | "warn" => some warning
  | "error" => some error
  | "critical" => some critical
  | "fatal" => some critical
  | _ => none

/-- The thresholds by name. -/
def thresholds : List (String × Nat) :=
  [("CRITICAL", 50), ("FATAL", 50), ("ERROR", 40), ("WARN", 30), ("WARNING", 30), ("INFO", 20),
    ("DEBUG", 10), ("NOTSET", 0)]

/-- The capital letter of a character, as far as the names of thresholds have it: the letters of
ASCII, the dotless `ı` and the long `ſ`. -/
def capital (c : Char) : Char :=
  if c = 'ı' then 'I' else if c = 'ſ' then 'S' else c.toUpper

def threshold? (name : String) : Option Nat := thresholds.lookup (name.map capital)

def unknownText (name : String) : String := "Unknown log level: " ++ name

end Level

/-- An event with its fields. -/
structure Event where
  level : Level
  name : String
  fields : List (String × Value)

namespace Event

/-- An event for those who search a defect. -/
def debug (name : String) (fields : List (String × Value)) : Event := ⟨.debug, name, fields⟩

/-- An event of the ordinary course. -/
def info (name : String) (fields : List (String × Value)) : Event := ⟨.info, name, fields⟩

/-- An event that calls for attention. -/
def warning (name : String) (fields : List (String × Value)) : Event := ⟨.warning, name, fields⟩

/-- An event as data; its name and its level replace fields of these names. -/
def toEntries (e : Event) : Entries :=
  let marks := [("event", Value.text e.name), ("level", Value.text e.level.name)]
  Entries.ofList ((e.fields ++ marks).map fun (name, v) => (.text name, v))

def reaches (threshold : Nat) (e : Event) : Bool := threshold ≤ e.level.rank

end Event

/-- The failure that left a span: its class and its wording. -/
structure SpanFailure where
  kind : String
  text : String
deriving DecidableEq, Repr

/-- The most characters of a failure's wording that a span keeps. -/
def spanTextLimit : Nat := 500

/-- The wording that a span keeps. -/
def SpanFailure.keptText (f : SpanFailure) : String :=
  String.ofList (f.text.toList.take spanTextLimit)

/-- Something that happened: an event, or a span and what happened in it. -/
inductive Entry where
  | event (e : Event)
  | span (name : String) (attributes : List (String × Value)) (failure : Option SpanFailure)
      (body : List Entry)

/-! ## Attributes -/

mutual

/-- A value as a span keeps it: without the entries of its objects that have an empty key. -/
def attributeValue : Value → Value
  | .list items => .list (attributeItems items)
  | .object entries => .object (attributeEntries entries)
  | v => v

/-- `attributeValue` on the items of a list. -/
def attributeItems : List Value → List Value
  | [] => []
  | v :: rest => attributeValue v :: attributeItems rest

/-- `attributeValue` on the entries of an object. -/
def attributeEntries : List (Key × Value) → List (Key × Value)
  | [] => []
  | (key, v) :: rest =>
    if key = .text "" then attributeEntries rest
    else (key, attributeValue v) :: attributeEntries rest

end

def maxAttributes : Nat := 128

/-- The attributes among which there is room for one more; if need be the oldest gives way. -/
def withRoom (kept : Entries) : Entries :=
  if kept.length < maxAttributes then kept else kept.drop 1

/-- The attributes with one more at their end, which replaces the one of its name. -/
def putAttribute (kept : Entries) (name : String) (v : Value) : Entries :=
  withRoom (kept.filter fun (key, _) => key ≠ .text name)
    ++ [(.text name, if name = "" then .null else attributeValue v)]

/-- A finished span. -/
structure SpanRecord where
  name : String
  parent : Option String
  attributes : List (String × Value)
  failure : Option SpanFailure

/-- The attributes that a span keeps, those of its failure last. -/
def SpanRecord.keptAttributes (s : SpanRecord) : Entries :=
  let extra := match s.failure with
    | none => []
    | some f => [("exception.type", Value.text f.kind), ("exception.message", .text f.keptText)]
  (s.attributes ++ extra).foldl (fun kept (name, v) => putAttribute kept name v) []

namespace Entry

mutual

/-- The finished spans of an entry, inner ones first. -/
def spans (parent : Option String) : Entry → List SpanRecord
  | event _ => []
  | span name attributes failure body =>
    spansAll (some name) body ++ [⟨name, parent, attributes, failure⟩]

/-- The finished spans of entries. -/
def spansAll (parent : Option String) : List Entry → List SpanRecord
  | [] => []
  | e :: rest => spans parent e ++ spansAll parent rest

end

mutual

/-- The events of an entry, each with the span in which it was written. -/
def events (active : Option String) : Entry → List (Event × Option String)
  | event e => [(e, active)]
  | span name _ _ body => eventsAll (some name) body

/-- The events of entries. -/
def eventsAll (active : Option String) : List Entry → List (Event × Option String)
  | [] => []
  | e :: rest => events active e ++ eventsAll active rest

end

mutual

/-- An entry without its events; an event leaves nothing. -/
def withoutEvents : Entry → List Entry
  | event _ => []
  | span name attributes failure body => [span name attributes failure (withoutEventsAll body)]

/-- The spans of entries without their events. -/
def withoutEventsAll : List Entry → List Entry
  | [] => []
  | e :: rest => withoutEvents e ++ withoutEventsAll rest

end

end Entry

end SchemaVersioning
