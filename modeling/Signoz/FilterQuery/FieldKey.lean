import Mathlib.Data.List.Basic

/-!
# Field keys

`TelemetryFieldKey` of `telemetrytypes`, and how the text of a key in a filter is read: the data
type after the last colon and the context before the first dot, where these name one.
-/

namespace Signoz.FilterQuery

/-- `FieldContext`. -/
inductive FieldContext where
  | metric
  | log
  | span
  | trace
  | resource
  | scope
  | attribute
  | event
  | body
  | unspecified
deriving DecidableEq

/-- `StringValue`. -/
def FieldContext.stringValue : FieldContext → String
  | .metric => "metric"
  | .log => "log"
  | .span => "span"
  | .trace => "trace"
  | .resource => "resource"
  | .scope => "scope"
  | .attribute => "attribute"
  | .event => "event"
  | .body => "body"
  | .unspecified => ""

/-- `fieldContexts`. -/
def fieldContexts : List (String × FieldContext) :=
  [("resource", .resource), ("scope", .scope), ("tag", .attribute), ("point", .attribute),
    ("attribute", .attribute), ("event", .event), ("body", .body), ("spanfield", .span),
    ("span", .span), ("logfield", .log), ("log", .log), ("metric", .metric),
    ("tracefield", .trace)]

/-- `FieldDataType`. -/
inductive FieldDataType where
  | string
  | bool
  | float64
  | int64
  | number
  | unspecified
  | arrayString
  | arrayFloat64
  | arrayBool
  | arrayInt64
  | arrayNumber
  | arrayObject
  | arrayDynamic
deriving DecidableEq

/-- `IsArray`. -/
def FieldDataType.isArray : FieldDataType → Bool
  | arrayString | arrayFloat64 | arrayBool | arrayInt64 | arrayNumber | arrayObject
  | arrayDynamic => true
  | _ => false

/-- `fieldDataTypes`. -/
def fieldDataTypes : List (String × FieldDataType) :=
  [("string", .string), ("str", .string), ("bool", .bool), ("int", .number), ("int8", .number),
    ("int16", .number), ("int32", .number), ("int64", .number), ("uint", .number),
    ("uint8", .number), ("uint16", .number), ("uint32", .number), ("uint64", .number),
    ("float", .number), ("float32", .number), ("float64", .number), ("double", .number),
    ("decimal", .number), ("number", .number), ("[]string", .arrayString),
    ("[]int64", .arrayInt64), ("[]float64", .arrayFloat64), ("[]number", .arrayNumber),
    ("[]bool", .arrayBool), ("string[]", .arrayString), ("int64[]", .arrayInt64),
    ("float64[]", .arrayFloat64), ("number[]", .arrayNumber), ("bool[]", .arrayBool)]

/-- `TelemetryFieldKey`, as far as filters look at it. -/
structure FieldKey where
  name : String
  fieldContext : FieldContext
  fieldDataType : FieldDataType
  materialized : Bool
deriving DecidableEq

/-- `BodyJSONStringSearchPrefix`. -/
def bodyJSONStringSearchPrefix : String := "body."

/-- The text before and after the first of a character. -/
def cutFirst (c : Char) (cs : List Char) : Option (List Char × List Char) :=
  if c ∈ cs then some (cs.takeWhile (· ≠ c), (cs.dropWhile (· ≠ c)).tail) else none

/-- The text before and after the last of a character. -/
def cutLast (c : Char) (cs : List Char) : Option (List Char × List Char) :=
  (cutFirst c cs.reverse).map fun p => (p.2.reverse, p.1.reverse)

/-- The data type after the last colon, and the key without it. -/
def splitDataType (key : List Char) : List Char × FieldDataType :=
  match cutLast ':' key with
  | none => (key, .unspecified)
  | some (before, after) =>
    match fieldDataTypes.lookup (String.ofList after) with
    | none => (key, .unspecified)
    | some dt => (before, dt)

/-- The context before the first dot, and the name after it. -/
def splitContext (key : List Char) : FieldContext × List Char :=
  match cutFirst '.' key with
  | none => (.unspecified, key)
  | some (before, after) =>
    match fieldContexts.lookup (String.ofList before) with
    | none => (.unspecified, key)
    | some fc =>
      if fc = .log ∧ bodyJSONStringSearchPrefix.toList.isPrefixOf after then
        (.body, after.drop bodyJSONStringSearchPrefix.length)
      else (fc, after)

/-- `GetFieldKeyFromKeyText`. -/
def getFieldKeyFromKeyText (key : String) : FieldKey :=
  let typed := splitDataType key.toList
  let named := splitContext typed.1
  ⟨String.ofList named.2, named.1, typed.2, false⟩

end Signoz.FilterQuery
