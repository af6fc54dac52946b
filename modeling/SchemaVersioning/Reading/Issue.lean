import SchemaVersioning.Value

/-!
# Issues of data

An issue says what is wrong with a piece of data and where the piece lies.  Causes carry what their
wording needs; `Cause.kind` names the class of a cause and `Cause.message` words it.
-/

namespace SchemaVersioning

/-- A step into a value: to an entry of an object or to an item of a list. -/
inductive Segment where
  | field (name : String)
  | index (n : Nat)
deriving DecidableEq, Repr

/-- A step as it is shown. -/
def Segment.text : Segment → String
  | field name => name
  | index n => toString n

/-- Why a piece of data is refused.  The data of a serialized value is JSON; there the causes
`arrayForList`, `arrayForTuple`, `objectForDictionary` and `objectForModel` stand in for those that
speak of lists and dictionaries, and `tooNested` says where its lists and objects are nested too
deep for a text. -/
inductive Cause where
  | missing
  | unexpected
  | keyNotText
  | notText
  | emptyText
  | notUnicode
  | notModel (model : String)
  | notTuple
  | notSet
  | notList
  | notDictionary
  | arrayForList
  | arrayForTuple
  | objectForDictionary
  | objectForModel
  | cyclic
  | tooDeep
  | tooNested (column : Nat)
  | tooFew (needed got : Nat)
  | tooMany (allowed got : Nat)
  | below (bound : Int)
  | notInteger
  | integerText
  | fractional
  | tooLarge
  | notFinite
  | notBoolean
  | booleanText
  | notNumber
  | numberText
  | notMember (choices : List String)
  | notLiteral (expected : String)
  | noMatch (pattern : String)
  | refused (reason : String)
deriving DecidableEq, Repr

/-- Choices in quotes, the last one after `or`. -/
def choicesText : List String → String
  | [] => ""
  | [c] => s!"'{c}'"
  | [c, d] => s!"'{c}' or '{d}'"
  | c :: rest => s!"'{c}', " ++ choicesText rest

namespace Cause

/-- The class of a cause. -/
def kind : Cause → String
  | missing => "missing"
  | unexpected => "extra_forbidden"
  | keyNotText => "invalid_key"
  | notText => "string_type"
  | emptyText => "string_too_short"
  | notUnicode => "string_unicode"
  | notModel _ => "model_type"
  | notTuple => "tuple_type"
  | notSet => "frozen_set_type"
  | notList => "list_type"
  | notDictionary => "dict_type"
  | arrayForList => "list_type"
  | arrayForTuple => "tuple_type"
  | objectForDictionary => "dict_type"
  | objectForModel => "model_type"
  | cyclic => "recursion_loop"
  | tooDeep => "recursion_depth_exceeded"
  | tooNested _ => "json_invalid"
  | tooFew _ _ => "too_short"
  | tooMany _ _ => "too_long"
  | below _ => "greater_than_equal"
  | notInteger => "int_type"
  | integerText => "int_parsing"
  | fractional => "int_from_float"
  | tooLarge => "int_parsing_size"
  | notFinite => "finite_number"
  | notBoolean => "bool_type"
  | booleanText => "bool_parsing"
  | notNumber => "float_type"
  | numberText => "float_parsing"
  | notMember _ => "enum"
  | notLiteral _ => "literal_error"
  | noMatch _ => "string_pattern_mismatch"
  | refused _ => "value_error"

/-- The wording of a cause. -/
def message : Cause → String
  | missing => "Field required"
  | unexpected => "Extra inputs are not permitted"
  | keyNotText => "Keys should be strings"
  | notText => "Input should be a valid string"
  | emptyText => "String should have at least 1 character"
  | notUnicode => "Input should be a valid string, unable to parse raw data as a unicode string"
  | notModel model => s!"Input should be a valid dictionary or instance of {model}"
  | notTuple => "Input should be a valid tuple"
  | notSet => "Input should be a valid frozenset"
  | notList => "Input should be a valid list"
  | notDictionary => "Input should be a valid dictionary"
  | arrayForList => "Input should be a valid array"
  | arrayForTuple => "Input should be a valid array"
  | objectForDictionary => "Input should be an object"
  | objectForModel => "Input should be an object"
  | cyclic => "Recursion error - cyclic reference detected"
  | tooDeep => "Recursion error - maximum validation depth exceeded"
  | tooNested column => s!"Invalid JSON: recursion limit exceeded at line 1 column {column}"
  | tooFew needed got =>
    let noun := if needed = 1 then "item" else "items"
    s!"Tuple should have at least {needed} {noun} after validation, not {got}"
  | tooMany allowed got =>
    let noun := if allowed = 1 then "item" else "items"
    s!"Tuple should have at most {allowed} {noun} after validation, not {got}"
  | below bound => s!"Input should be greater than or equal to {bound}"
  | notInteger => "Input should be a valid integer"
  | integerText => "Input should be a valid integer, unable to parse string as an integer"
  | fractional => "Input should be a valid integer, got a number with a fractional part"
  | tooLarge => "Unable to parse input string as an integer, exceeded maximum size"
  | notFinite => "Input should be a finite number"
  | notBoolean => "Input should be a valid boolean"
  | booleanText => "Input should be a valid boolean, unable to interpret input"
  | notNumber => "Input should be a valid number"
  | numberText => "Input should be a valid number, unable to parse string as a number"
  | notMember choices => s!"Input should be {choicesText choices}"
  | notLiteral expected => s!"Input should be '{expected}'"
  | noMatch pattern => s!"String should match pattern '{pattern}'"
  | refused reason => s!"Value error, {reason}"

end Cause

/-- A cause and the path to the piece of data that it concerns. -/
structure Issue where
  path : List Segment
  cause : Cause
deriving DecidableEq, Repr

def Issue.location (issue : Issue) : String := ".".intercalate (issue.path.map Segment.text)

end SchemaVersioning
