import Mathlib.Data.List.Basic

/-!
# Pipelines and their operators

`pipelinetypes/pipeline.go`: the operator of a log pipeline, the pipeline, and `IsValid`. Compiling
an expression, compiling a regular expression and translating a filter are functions of an
`Environment`, which also supplies the new ids. An error is its text.
-/

namespace Signoz.LogPipelines

/-- The types of operators, and any other text. -/
inductive OperatorType where
  | router
  | noop
  | regexParser
  | grokParser
  | jsonParser
  | add
  | move
  | copy
  | remove
  | traceParser
  | timeParser
  | severityParser
  | retain
  | other (type : String)

def OperatorType.text : OperatorType → String
  | .router => "router"
  | .noop => "noop"
  | .regexParser => "regex_parser"
  | .grokParser => "grok_parser"
  | .jsonParser => "json_parser"
  | .add => "add"
  | .move => "move"
  | .copy => "copy"
  | .remove => "remove"
  | .traceParser => "trace_parser"
  | .timeParser => "time_parser"
  | .severityParser => "severity_parser"
  | .retain => "retain"
  | .other type => type

/-- The three `ParseFrom` of a trace parser. -/
structure TraceParser where
  traceId : Option String := none
  spanId : Option String := none
  traceFlags : Option String := none

structure Route where
  output : String
  expr : String

/-- `PipelineOperator`; the fields `If`, `From` and `To` are `condition`, `source` and `target`. -/
structure PipelineOperator where
  type : OperatorType
  id : String := ""
  output : String := ""
  onError : String := ""
  condition : String := ""
  orderId : Int := 0
  enabled : Bool := false
  name : String := ""
  parseTo : String := ""
  pattern : String := ""
  regex : String := ""
  parseFrom : String := ""
  traceParser : Option TraceParser := none
  field : String := ""
  value : String := ""
  source : String := ""
  target : String := ""
  routes : Option (List Route) := none
  fields : List String := []
  default : String := ""
  layout : String := ""
  layoutType : String := ""
  enableFlattening : Bool := false
  maxFlatteningDepth : Int := 0
  mapping : Option (List (String × List String)) := none

/-- The fields of a pipeline that are checked and translated. -/
structure Pipeline (F : Type) where
  orderId : Int
  enabled : Bool
  name : String
  /-- `Alias`. -/
  aliasText : String
  filter : F
  config : List PipelineOperator

/-- What the translation calls outside the package. -/
structure Environment (F : Type) where
  /-- `queryBuilderToExpr.Parse`. -/
  parse : F → Except String String
  /-- `expr.Compile`. -/
  compile : String → Except String Unit
  /-- The member nodes of an expression, as texts. -/
  memberNodes : String → Except String (List String)
  /-- `RegexForStrptimeLayout`. -/
  regexForStrptimeLayout : String → Except String String
  /-- `SubexpNames` of a compiled regular expression. -/
  subexpNames : String → Except String (List String)
  /-- `uuid.NewString`, by the positions of the pipeline, the operator and the child. -/
  newUUID : Nat → Nat → Nat → String
  maxJSONFlatteningDepth : Int
  /-- `SendOnErrorQuiet` of the collector's helper package. -/
  sendOnErrorQuiet : String

def hasPrefix (s p : String) : Bool := p.toList.isPrefixOf s.toList

/-- `strings.ToLower` as far as the result is ASCII: beside the letters themselves, the dotted
capital I and the Kelvin sign have an ASCII letter as their lower case. -/
def toLower (s : String) : String :=
  String.ofList (s.toList.map fun c =>
    if c.toNat = 0x130 then 'i' else if c.toNat = 0x212a then 'k' else c.toLower)

/-! ## Valid operators -/

def validMappingVariableTypes : List String :=
  ["host", "service", "environment", "severity", "trace_id", "span_id", "trace_flags", "message"]

def validMappingLevels : List String := ["trace", "debug", "info", "warn", "error", "fatal"]

def isValidOtelValue (val : String) : Bool :=
  val = "" || hasPrefix val "body" || hasPrefix val "attributes" || hasPrefix val "resource"

/-- A key of the mapping that is not in the list of valid keys. -/
def invalidKey (op : PipelineOperator) (valid : List String) : Option String :=
  ((op.mapping.getD []).map Prod.fst).find? fun k => !valid.contains (toLower k)

/-- The part of `isValidOperator` that depends on the type. -/
def checkByType {F : Type} (env : Environment F) (op : PipelineOperator) : Except String Unit :=
  match op.type with
  | .jsonParser =>
    if op.parseFrom = "" ∧ op.parseTo = "" then
      .error ("parse from and parse to of " ++ op.id ++ " json operator cannot be empty")
    else
      match invalidKey op validMappingVariableTypes with
      | some k => .error (k ++ " is not a valid mapping type in processor " ++ op.id)
      | none => .ok ()
  | .grokParser =>
    if op.pattern = "" then
      .error ("pattern of " ++ op.id ++ " grok operator cannot be empty")
    else .ok ()
  | .regexParser =>
    if op.regex = "" then .error ("regex of " ++ op.id ++ " regex operator cannot be empty")
    else
      match env.subexpNames op.regex with
      | .error _ => .error ("error compiling regex expression of " ++ op.id ++ " regex operator")
      | .ok names =>
        if names.all (· = "") then
          .error ("no capture groups in regex expression of " ++ op.id ++ " regex operator")
        else .ok ()
  | .copy =>
    if op.source = "" ∨ op.target = "" then
      .error ("from or to of " ++ op.id ++ " copy operator cannot be empty")
    else .ok ()
  | .move =>
    if op.source = "" ∨ op.target = "" then
      .error ("from or to of " ++ op.id ++ " move operator cannot be empty")
    else .ok ()
  | .add =>
    if op.field = "" ∨ op.value = "" then
      .error ("field or value of " ++ op.id ++ " add operator cannot be empty")
    else .ok ()
  | .remove =>
    if op.field = "" then .error ("field of " ++ op.id ++ " remove operator cannot be empty")
    else .ok ()
  | .traceParser =>
    match op.traceParser with
    | none => .error ("field of " ++ op.id ++ " remove operator cannot be empty")
    | some parser =>
      let present (path : Option String) : Bool := path.getD "" ≠ ""
      if !present parser.traceId ∧ !present parser.spanId ∧ !present parser.traceFlags then
        .error ("one of trace_id, span_id, trace_flags of " ++ op.id ++
          " trace_parser operator must be present")
      else if !isValidOtelValue (parser.traceId.getD "") then
        .error ("trace id can't be parsed from " ++ parser.traceId.getD "")
      else if !isValidOtelValue (parser.spanId.getD "") then
        .error ("span id can't be parsed from " ++ parser.spanId.getD "")
      else if !isValidOtelValue (parser.traceFlags.getD "") then
        .error ("trace flags can't be parsed from " ++ parser.traceFlags.getD "")
      else .ok ()
  | .retain =>
    if op.fields.length = 0 then
      .error ("fields of " ++ op.id ++ " retain operator cannot be empty")
    else .ok ()
  | .timeParser =>
    if op.parseFrom = "" then
      .error ("parse from of time parsing processor " ++ op.id ++ " cannot be empty")
    else if op.layoutType ≠ "epoch" ∧ op.layoutType ≠ "strptime" then
      .error ("invalid format type '" ++ op.layoutType ++ "' of time parsing processor " ++ op.id)
    else if op.layout = "" then
      .error ("format can not be empty for time parsing processor " ++ op.id)
    else if op.layoutType = "epoch" ∧
        op.layout ∉ ["s", "ms", "us", "ns", "s.ms", "s.us", "s.ns"] then
      .error ("invalid epoch format '" ++ op.layoutType ++ "' of time parsing processor " ++
        op.id)
    else if op.layoutType = "strptime" then
      match env.regexForStrptimeLayout op.layout with
      | .error e => .error e
      | .ok _ => .ok ()
    else .ok ()
  | .severityParser =>
    if op.parseFrom = "" then
      .error ("parse from of severity parsing processor " ++ op.id ++ " cannot be empty")
    else
      match invalidKey op validMappingLevels with
      | some k => .error (k ++ " is not a valid severity in processor " ++ op.id)
      | none => .ok ()
  | type =>
    .error ("operator type " ++ type.text ++ " not supported for " ++ op.id ++
      ", use one of (grok_parser, regex_parser, copy, move, add, remove, trace_parser, retain)")

def isValidOperator {F : Type} (env : Environment F) (op : PipelineOperator) :
    Except String Unit :=
  if op.id = "" then .error "PipelineOperator.ID is required"
  else
    match checkByType env op with
    | .error e => .error e
    | .ok () =>
      if !isValidOtelValue op.parseFrom ∨ !isValidOtelValue op.parseTo ∨
          !isValidOtelValue op.source ∨ !isValidOtelValue op.target ∨
          !isValidOtelValue op.field then
        .error ("value should have prefix of body, attributes, resource for operator: " ++
          op.type.text ++ " in position: " ++ toString op.orderId ++ " with id: " ++ op.id)
      else .ok ()

/-! ## Valid pipelines -/

/-- The loop of `IsValid`, with the ids and outputs seen so far. -/
def validOperators {F : Type} (env : Environment F) (idUnique outputUnique : List String) :
    List PipelineOperator → Except String Unit
  | [] => .ok ()
  | op :: rest =>
    if op.orderId = 0 then .error "orderId with value > 1 is required in operator"
    else if op.id = "" then .error "id of an operator cannot be empty"
    else if op.type.text = "" then .error "type of an operator cannot be empty"
    else if rest ≠ [] ∧ op.output = "" then
      .error ("output of operator " ++ op.id ++ " cannot be nil")
    else if rest = [] ∧ op.output ≠ "" then
      .error ("output of operator " ++ op.id ++ " should be empty")
    else if op.id ∈ idUnique then .error "duplicate id cannot be present"
    else if op.output ∈ outputUnique then .error "duplicate output cannot be present"
    else if op.id = op.output then .error "id and output cannot be same"
    else
      match isValidOperator env op with
      | .error e => .error e
      | .ok () => validOperators env (op.id :: idUnique) (op.output :: outputUnique) rest

/-- `IsValid`. -/
def isValid {F : Type} (env : Environment F) (p : Pipeline F) : Except String Unit :=
  if p.orderId = 0 then .error "orderId with value > 1 is required"
  else if p.name = "" then .error "pipeline name is required"
  else if p.aliasText = "" then .error "pipeline alias is required"
  else
    match env.parse p.filter with
    | .error e => .error e
    | .ok _ => validOperators env [] [] p.config

end Signoz.LogPipelines
