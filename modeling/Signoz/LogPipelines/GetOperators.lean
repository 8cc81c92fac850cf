import Mathlib.Data.List.Infix
import Signoz.LogPipelines.PipelineOperator

/-!
# The operators of a generated processor

`getOperators` of `pipelineBuilder.go` keeps the enabled operators of a pipeline, gives each the
condition under which it can run, turns a JSON parser with a mapping into several operators, and
links every operator to the next by its output.
-/

namespace Signoz.LogPipelines

variable {F : Type} (env : Environment F)

/-! ## Conditions -/

/-- How a helper fails: with an error, or with an index out of range. -/
inductive Failure where
  | error (text : String)
  | panic
deriving DecidableEq

/-- `reverseString`. The index `j := len(s) - 1 - i` counts bytes, so in a string of two or more
characters that are not all ASCII the first swap is out of range. -/
def reverseString (s : List Char) : Option (List Char) :=
  if 2 ≤ s.length ∧ s.length < (String.ofList s).utf8ByteSize then none else some s.reverse

/-- `strings.SplitAfterN(str, sep, 2)`. -/
def splitAfterTwo (sep : Char) (str : List Char) : List (List Char) :=
  if sep ∈ str then
    [str.takeWhile (· ≠ sep) ++ [sep], (str.dropWhile (· ≠ sep)).drop 1]
  else [str]

/-- `rSplitAfterN(str, sep, 2)`. -/
def rSplitAfterTwo (str : List Char) (sep : Char) : Option (List (List Char)) :=
  (reverseString str).bind fun reversed =>
    (splitAfterTwo sep reversed).reverse.mapM reverseString

/-- `strings.SplitAfter(str, sep)`. -/
def splitAfter (sep : Char) : List Char → List (List Char)
  | [] => [[]]
  | c :: rest =>
    if c = sep then [c] :: splitAfter sep rest
    else
      match splitAfter sep rest with
      | [] => [[c]]
      | part :: parts => (c :: part) :: parts

/-- `optionalChainedPath`: every `.` and `?.` becomes `?.`. -/
def optionalChainedPath : List Char → List Char
  | '?' :: '.' :: rest => '?' :: '.' :: optionalChainedPath rest
  | '.' :: rest => '?' :: '.' :: optionalChainedPath rest
  | c :: rest => c :: optionalChainedPath rest
  | [] => []

/-- The check of a path that ends in a membership operation on `target`, with the operation and
what follows it in `suffix`. The index of an array is cut out of its brackets. -/
def membershipCheck (target suffix : List Char) : Option String :=
  let suffixParts := splitAfter ']' suffix
  let index := suffixParts.headD []
  let rest := (suffixParts[1]?.map optionalChainedPath).getD []
  let fullPathCheck := String.ofList (target ++ index ++ rest) ++ " != nil"
  if '\'' ∈ index ∨ '"' ∈ index then some fullPathCheck
  else if index.length < 2 then none
  else
    some ("len(" ++ String.ofList target ++ ") > " ++ String.ofList ((index.drop 1).dropLast) ++
      " && " ++ fullPathCheck)

/-- `fieldNotNilCheck`, with a bound on the calls. -/
def fieldNotNilCheckFuel : Nat → List Char → Except Failure String
  | 0, _ => .error .panic
  | fuel + 1, fieldPath =>
    match env.compile (String.ofList fieldPath) with
    | .error text => .error (.error text)
    | .ok () =>
      match rSplitAfterTwo fieldPath '[' with
      | some [target, suffix] =>
        match fieldNotNilCheckFuel fuel target, membershipCheck target suffix with
        | .error failure, _ => .error failure
        | .ok _, none => .error .panic
        | .ok collectionNotNilCheck, some fullPathCheck =>
          if String.ofList target = "attributes" ∨ String.ofList target = "resource" then
            .ok fullPathCheck
          else .ok (collectionNotNilCheck ++ " && " ++ fullPathCheck)
      | some _ => .ok (String.ofList (optionalChainedPath fieldPath) ++ " != nil")
      | none => .error .panic

/-- `fieldNotNilCheck`; the path gets shorter from call to call. -/
def fieldNotNilCheck (fieldPath : String) : Except Failure String :=
  fieldNotNilCheckFuel env (fieldPath.toList.length + 1) fieldPath.toList

/-- The fields of the log record that an expression refers to: `logFieldsReferencedInExpr`. -/
def logFieldsReferencedInExpr (expr : String) : Except Failure (List String) :=
  match env.memberNodes expr with
  | .error text => .error (.error ("could not parse expr: " ++ text))
  | .ok nodes =>
    .ok (nodes.filter fun memberRef =>
      !decide ("??".toList <:+: memberRef.toList) &&
        (hasPrefix memberRef "attributes" || hasPrefix memberRef "resource"))

/-- The text of an error after what was being done. -/
def during {α : Type} (text : String) : Except Failure α → Except Failure α
  | .error (.error e) => .error (.error (text ++ ": " ++ e))
  | .error .panic => .error .panic
  | .ok a => .ok a

def fieldsReferencedInExprNotNilCheck (expr : String) : Except Failure String :=
  match during ("couldn't extract log fields referenced in expr " ++ expr)
      (logFieldsReferencedInExpr env expr) with
  | .error failure => .error failure
  | .ok referencedFields =>
    -- The check of the deepest fields takes care of their prefixes.
    let deepestFieldRefs := referencedFields.filter fun field =>
      !referencedFields.any fun e =>
        e.utf8ByteSize > field.utf8ByteSize && hasPrefix e field
    (deepestFieldRefs.mapM fun field =>
      (during ("could not create nil check for " ++ field) (fieldNotNilCheck env field)).map
        fun checkExpr => "(" ++ checkExpr ++ ")").map (" && ".intercalate ·)

/-! ## Operators -/

def processSeverityParser (op : PipelineOperator) : Except Failure PipelineOperator :=
  (fieldNotNilCheck env op.parseFrom).map fun parseFromNotNilCheck =>
    { op with
      condition := parseFromNotNilCheck ++ " && ( type(" ++ op.parseFrom ++
        ") == \"string\" || ( type(" ++ op.parseFrom ++ ") in [\"int\", \"float\"] && " ++
        op.parseFrom ++
        " == float(int(" ++ op.parseFrom ++ ")) ) )" }

def defaultSeverityMapping : List (String × List String) :=
  [("trace", ["TRACE", "Trace", "trace", "trc", "Trc"]),
   ("debug", ["DEBUG", "Debug", "debug", "dbg", "Dbg"]),
   ("info", ["INFO", "Info", "info"]),
   ("warn", ["WARN", "Warn", "warn", "warning", "Warning", "wrn", "Wrn"]),
   ("error", ["ERROR", "Error", "error", "err", "Err", "ERR", "fail", "Fail", "FAIL"]),
   ("fatal", ["FATAL", "Fatal", "fatal", "critical", "Critical", "CRITICAL", "crit", "Crit",
     "CRIT", "panic", "Panic", "PANIC"])]

/-- The field that a JSON parser writes a key of the record to. -/
def parsedField (parent : PipelineOperator) (keyword : String) : String :=
  parent.parseTo ++ "[\"" ++ keyword ++ "\"]"

/-- `generateMoveOperators`. -/
def generateMoveOperators (parent : PipelineOperator) (keywords : List String) (target : String) :
    Except Failure (List PipelineOperator) :=
  keywords.reverse.mapM fun keyword =>
    let source := parsedField parent keyword
    (fieldNotNilCheck env source).map fun fromNotNilCheck =>
      { type := .move, onError := env.sendOnErrorQuiet, source := source, target := target,
        condition := fromNotNilCheck }

def traceChildren (parent : PipelineOperator) (keywords : List String)
    (parser : String → TraceParser) : List PipelineOperator :=
  keywords.reverse.map fun keyword =>
    { type := .traceParser, onError := env.sendOnErrorQuiet,
      traceParser := some (parser (parsedField parent keyword)) }

def severityChildren (parent : PipelineOperator) (keywords : List String) :
    Except Failure (List PipelineOperator) :=
  keywords.reverse.mapM fun keyword =>
    (processSeverityParser env
      { type := .severityParser, onError := env.sendOnErrorQuiet,
        parseFrom := parsedField parent keyword }).map
      fun op => { op with mapping := some defaultSeverityMapping }

/-- The children for a mapping, without their ids. -/
def jsonChildren (parent : PipelineOperator) (mapping : List (String × List String)) :
    Except Failure (List PipelineOperator) :=
  let keywords (type : String) : List String := (mapping.lookup type).getD []
  do
    let host ← generateMoveOperators env parent (keywords "host") "resource[\"host.name\"]"
    let service ← generateMoveOperators env parent (keywords "service") "resource[\"service.name\"]"
    let traceId := traceChildren env parent (keywords "trace_id") fun f => { traceId := some f }
    let spanId := traceChildren env parent (keywords "span_id") fun f => { spanId := some f }
    let traceFlags := traceChildren env parent (keywords "trace_flags") fun f =>
      { traceFlags := some f }
    let severity ← severityChildren env parent (keywords "severity")
    let environment ← generateMoveOperators env parent (keywords "environment")
      "resource[\"deployment.environment.name\"]"
    let message ← generateMoveOperators env parent (keywords "message") "body"
    pure (host ++ service ++ traceId ++ spanId ++ traceFlags ++ severity ++ environment ++ message)

/-- `generateCustomID` for the children, in the order of their creation. -/
def withCustomIDs (newUUID : Nat → String) (children : List PipelineOperator) :
    List PipelineOperator :=
  children.zipIdx.map fun p => { p.1 with id := newUUID p.2 ++ "-json-parser" }

def processJSONParser (newUUID : Nat → String) (parent : PipelineOperator) :
    Except Failure (List PipelineOperator) :=
  match fieldNotNilCheck env parent.parseFrom with
  | .error failure => .error failure
  | .ok parseFromNotNilCheck =>
    let path := parent.parseFrom
    let parent := { parent with
      condition := parseFromNotNilCheck ++ " && ((type(" ++ path ++
        ") == \"string\" && isJSON(" ++ path ++ ") && type(fromJSON(unquote(" ++ path ++
        "))) == \"map\" ) || type(" ++ path ++
        ") == \"map\")"
      maxFlatteningDepth :=
        if parent.enableFlattening then env.maxJSONFlatteningDepth
        else parent.maxFlatteningDepth }
    match parent.mapping with
    | none => .ok [parent]
    | some mapping =>
      (jsonChildren env parent mapping).map fun children =>
        { parent with mapping := none } :: withCustomIDs newUUID children

/-- `cleanTraceParser`; without a trace parser the fields are read through a nil pointer. -/
def cleanTraceParser (op : PipelineOperator) : Except Failure PipelineOperator :=
  match op.traceParser with
  | none => .error .panic
  | some parser =>
    let clean (path : Option String) : Option String := if path = some "" then none else path
    .ok { op with
      traceParser := some
        { traceId := clean parser.traceId, spanId := clean parser.spanId,
          traceFlags := clean parser.traceFlags } }

/-- The operator with the check of a field as its condition. -/
def withNilCheck (op : PipelineOperator) (doing field : String) (condition : String → String) :
    Except Failure (List PipelineOperator) :=
  (during doing (fieldNotNilCheck env field)).map fun check =>
    [{ op with condition := condition check }]

/-- The text between `EXPR(` and `)`. -/
def exprOfValue (value : String) : Option String :=
  if hasPrefix value "EXPR(" ∧ value.toList.getLast? = some ')' then
    some (String.ofList ((value.toList.drop 5).dropLast))
  else none

/-- `\` and `"` escaped. -/
def escapeRegex (regex : String) : String :=
  String.ofList (regex.toList.flatMap fun c => if c = '\\' ∨ c = '"' then ['\\', c] else [c])

/-- The condition of a time parser, from the check of its field. -/
def timeCondition (op : PipelineOperator) (check : String) : Except Failure String :=
  if op.layoutType = "strptime" then
    match env.regexForStrptimeLayout op.layout with
    | .error e =>
      .error (.error ("couldn't generate layout regex for time_parser " ++ op.name ++ ": " ++ e))
    | .ok regex => .ok (check ++ " && " ++ op.parseFrom ++ " matches \"" ++ regex ++ "\"")
  else if op.layoutType = "epoch" then
    let valueRegex :=
      if '.' ∈ op.layout.toList then "^\\\\s*[0-9]+\\\\.[0-9]+\\\\s*$" else "^\\\\s*[0-9]+\\\\s*$"
    .ok (check ++ " && string(" ++ op.parseFrom ++ ") matches \"" ++ valueRegex ++ "\"")
  else .ok check

/-- The operators that an enabled operator becomes: the loop body of `getOperators`. -/
def operatorsOf (newUUID : Nat → String) (op : PipelineOperator) :
    Except Failure (List PipelineOperator) :=
  match op.type with
  | .regexParser =>
    withNilCheck env op ("couldn't generate nil check for parseFrom of regex op " ++ op.name)
      op.parseFrom fun check =>
        check ++ " && " ++ op.parseFrom ++ " matches \"" ++ escapeRegex op.regex ++ "\""
  | .grokParser =>
    withNilCheck env op ("couldn't generate nil check for parseFrom of grok op " ++ op.name)
      op.parseFrom id
  | .jsonParser =>
    during ("couldn't process json_parser op " ++ op.name) (processJSONParser env newUUID op)
  | .add =>
    match exprOfValue op.value with
    | none => .ok [op]
    | some expression =>
      (during ("could'nt generate nil check for fields referenced in value expr of add " ++
        "operator " ++ op.name) (fieldsReferencedInExprNotNilCheck env expression)).map
        fun check => [if check = "" then op else { op with condition := check }]
  | .move | .copy =>
    withNilCheck env op
      ("couldn't generate nil check for From field of " ++ op.type.text ++ " op " ++ op.name)
      op.source id
  | .remove =>
    withNilCheck env op
      ("couldn't generate nil check for field to be removed by op " ++ op.name) op.field id
  | .traceParser => (cleanTraceParser op).map fun op => [op]
  | .timeParser =>
    match during ("couldn't generate nil check for parseFrom of time parser op " ++ op.name)
        (fieldNotNilCheck env op.parseFrom) with
    | .error failure => .error failure
    | .ok check =>
      (timeCondition env op check).map fun condition => [{ op with condition := condition }]
  | .severityParser => (processSeverityParser env op).map fun op => [op]
  | _ => .ok [op]

/-! ## The chain -/

/-- `filteredOp[len(filteredOp)-1].Output = ""`. -/
def clearLastOutput : List PipelineOperator → List PipelineOperator
  | [] => []
  | [op] => [{ op with output := "" }]
  | op :: rest => op :: clearLastOutput rest

/-- The first loop of `getOperators`. -/
def collectOperators (newUUID : Nat → Nat → String) :
    Nat → List PipelineOperator → List PipelineOperator → Except Failure (List PipelineOperator)
  | _, [], filteredOp => .ok filteredOp
  | i, op :: rest, filteredOp =>
    if op.enabled then
      match operatorsOf env (newUUID i) op with
      | .error failure => .error failure
      | .ok operators => collectOperators newUUID (i + 1) rest (filteredOp ++ operators)
    else if rest = [] then collectOperators newUUID (i + 1) rest (clearLastOutput filteredOp)
    else collectOperators newUUID (i + 1) rest filteredOp

/-- The second loop: every output is the id of the next operator. -/
def linkOutputs : List PipelineOperator → List PipelineOperator
  | op :: next :: rest => { op with output := next.id } :: linkOutputs (next :: rest)
  | ops => ops

def getOperators (newUUID : Nat → Nat → String) (ops : List PipelineOperator) :
    Except Failure (List PipelineOperator) :=
  (collectOperators env newUUID 0 ops []).map linkOutputs

/-! ## Which operators are built -/

/-- The check of a field can be generated. -/
def Checkable (field : String) : Prop := ∃ check, fieldNotNilCheck env field = .ok check

/-- The keys of a mapping whose children need a check. -/
def checkedKeywords (mapping : List (String × List String)) : List String :=
  ["host", "service", "severity", "environment", "message"].flatMap fun type =>
    (mapping.lookup type).getD []

/-- The condition of the operator can be generated, and those of its children. -/
def OperatorBuilds (op : PipelineOperator) : Prop :=
  match op.type with
  | .regexParser | .grokParser | .severityParser => Checkable env op.parseFrom
  | .jsonParser =>
    Checkable env op.parseFrom ∧
      ∀ mapping, op.mapping = some mapping →
        ∀ keyword ∈ checkedKeywords mapping, Checkable env (parsedField op keyword)
  | .add =>
    ∀ expression, exprOfValue op.value = some expression →
      ∃ check, fieldsReferencedInExprNotNilCheck env expression = .ok check
  | .move | .copy => Checkable env op.source
  | .remove => Checkable env op.field
  | .traceParser => op.traceParser ≠ none
  | .timeParser =>
    Checkable env op.parseFrom ∧
      (op.layoutType = "strptime" → ∃ regex, env.regexForStrptimeLayout op.layout = .ok regex)
  | _ => True

/-- The result of building an operator: the operator itself, up to its condition and its parser
fields, and children without an output. -/
def BuiltFrom (op : PipelineOperator) (built : List PipelineOperator) : Prop :=
  ∃ head children, built = head :: children ∧ head.id = op.id ∧ head.type = op.type ∧
    head.output = op.output ∧ ∀ child ∈ children, child.output = "" ∧ child.id ≠ ""

section Results

variable {α β ε : Type}

theorem map_ok_iff {x : Except ε α} {f : α → β} {b : β} :
    x.map f = .ok b ↔ ∃ a, x = .ok a ∧ f a = b := by
  cases x with
  | error e => simp [Except.map]
  | ok a => simp [Except.map]

variable {f : α → Except ε β}

theorem bind_ok_iff {x : Except ε α} {b : β} :
    (x >>= f) = .ok b ↔ ∃ a, x = .ok a ∧ f a = .ok b := by
  cases x with
  | error e => simp [bind, Except.bind]
  | ok a => simp [bind, Except.bind]

theorem during_ok_iff {text : String} {x : Except Failure α} {a : α} :
    during text x = .ok a ↔ x = .ok a := by
  match x with
  | .error (.error e) => simp [during]
  | .error .panic => simp [during]
  | .ok a => simp [during]

theorem mem_of_mapM_ok {l : List α} :
    ∀ {r : List β}, l.mapM f = .ok r → ∀ b ∈ r, ∃ a ∈ l, f a = .ok b := by
  induction l with
  | nil =>
    intro r h b hb
    cases h
    cases hb
  | cons a l ih =>
    intro r h b hb
    rw [List.mapM_cons, bind_ok_iff] at h
    obtain ⟨first, hfirst, h⟩ := h
    obtain ⟨rest, hrest, h⟩ := bind_ok_iff.1 h
    cases h
    rcases List.mem_cons.1 hb with rfl | hb
    · exact ⟨a, List.mem_cons_self, hfirst⟩
    · obtain ⟨x, hx, hfx⟩ := ih hrest b hb
      exact ⟨x, List.mem_cons_of_mem a hx, hfx⟩

theorem exists_mapM_ok {l : List α} :
    (∃ r, l.mapM f = .ok r) ↔ ∀ a ∈ l, ∃ b, f a = .ok b := by
  induction l with
  | nil => exact ⟨fun _ a h => (nomatch h), fun _ => ⟨[], rfl⟩⟩
  | cons a l ih =>
    constructor
    · rintro ⟨r, hr⟩
      rw [List.mapM_cons, bind_ok_iff] at hr
      obtain ⟨b, hb, hr⟩ := hr
      obtain ⟨bs, hbs, -⟩ := bind_ok_iff.1 hr
      intro x hx
      rcases List.mem_cons.1 hx with rfl | hx
      · exact ⟨b, hb⟩
      · exact ih.1 ⟨bs, hbs⟩ x hx
    · intro h
      obtain ⟨b, hb⟩ := h a List.mem_cons_self
      obtain ⟨bs, hbs⟩ := ih.2 fun x hx => h x (List.mem_cons_of_mem a hx)
      refine ⟨b :: bs, ?_⟩
      rw [List.mapM_cons, bind_ok_iff]
      exact ⟨b, hb, bind_ok_iff.2 ⟨bs, hbs, rfl⟩⟩

end Results

variable {env} {parent : PipelineOperator} {keywords : List String}

theorem generateMoveOperators_ok_iff {target : String} :
    (∃ r, generateMoveOperators env parent keywords target = .ok r) ↔
      ∀ keyword ∈ keywords, Checkable env (parsedField parent keyword) := by
  rw [generateMoveOperators, exists_mapM_ok]
  simp only [List.mem_reverse, map_ok_iff]
  apply forall₂_congr
  intro keyword _
  constructor
  · rintro ⟨_, check, hcheck, -⟩
    exact ⟨check, hcheck⟩
  · rintro ⟨check, hcheck⟩
    exact ⟨_, check, hcheck, rfl⟩

theorem severityChildren_ok_iff :
    (∃ r, severityChildren env parent keywords = .ok r) ↔
      ∀ keyword ∈ keywords, Checkable env (parsedField parent keyword) := by
  rw [severityChildren, exists_mapM_ok]
  simp only [List.mem_reverse, map_ok_iff, processSeverityParser]
  apply forall₂_congr
  intro keyword _
  constructor
  · rintro ⟨_, _, ⟨check, hcheck, -⟩, -⟩
    exact ⟨check, hcheck⟩
  · rintro ⟨check, hcheck⟩
    exact ⟨_, _, ⟨check, hcheck, rfl⟩, rfl⟩

theorem jsonChildren_ok_iff {mapping : List (String × List String)} :
    (∃ r, jsonChildren env parent mapping = .ok r) ↔
      ∀ keyword ∈ checkedKeywords mapping, Checkable env (parsedField parent keyword) := by
  simp only [checkedKeywords, List.flatMap_cons, List.flatMap_nil, List.append_nil,
    List.mem_append, or_imp, forall_and]
  rw [jsonChildren]
  simp only [bind_ok_iff]
  refine Iff.intro ?_ ?_
  · rintro ⟨r, host, hhost, service, hservice, severity, hseverity, environment, henvironment,
      message, hmessage, -⟩
    exact ⟨generateMoveOperators_ok_iff.1 ⟨host, hhost⟩,
      generateMoveOperators_ok_iff.1 ⟨service, hservice⟩,
      severityChildren_ok_iff.1 ⟨severity, hseverity⟩,
      generateMoveOperators_ok_iff.1 ⟨environment, henvironment⟩,
      generateMoveOperators_ok_iff.1 ⟨message, hmessage⟩⟩
  · rintro ⟨hhost, hservice, hseverity, henvironment, hmessage⟩
    obtain ⟨host, hhost⟩ := generateMoveOperators_ok_iff.2 hhost
    obtain ⟨service, hservice⟩ := generateMoveOperators_ok_iff.2 hservice
    obtain ⟨severity, hseverity⟩ := severityChildren_ok_iff.2 hseverity
    obtain ⟨environment, henvironment⟩ := generateMoveOperators_ok_iff.2 henvironment
    obtain ⟨message, hmessage⟩ := generateMoveOperators_ok_iff.2 hmessage
    exact ⟨_, host, hhost, service, hservice, severity, hseverity, environment, henvironment,
      message, hmessage, rfl⟩

/-! ## What is built -/

theorem generateMoveOperators_output {target : String} {r : List PipelineOperator}
    (h : generateMoveOperators env parent keywords target = .ok r) :
    ∀ child ∈ r, child.output = "" := by
  intro child hchild
  obtain ⟨keyword, -, hkeyword⟩ := mem_of_mapM_ok h child hchild
  obtain ⟨check, -, rfl⟩ := map_ok_iff.1 hkeyword
  rfl

theorem severityChildren_output {r : List PipelineOperator}
    (h : severityChildren env parent keywords = .ok r) :
    ∀ child ∈ r, child.output = "" := by
  intro child hchild
  obtain ⟨keyword, -, hkeyword⟩ := mem_of_mapM_ok h child hchild
  obtain ⟨op, hop, rfl⟩ := map_ok_iff.1 hkeyword
  obtain ⟨check, -, rfl⟩ := map_ok_iff.1 hop
  rfl

omit env in
theorem traceChildren_output (env : Environment F) {parser : String → TraceParser} :
    ∀ child ∈ traceChildren env parent keywords parser, child.output = "" := by
  intro child hchild
  obtain ⟨keyword, -, rfl⟩ := List.mem_map.1 hchild
  rfl

/-- No child has an output of its own. -/
theorem jsonChildren_output {mapping : List (String × List String)}
    {children : List PipelineOperator} (h : jsonChildren env parent mapping = .ok children) :
    ∀ child ∈ children, child.output = "" := by
  rw [jsonChildren] at h
  simp only [bind_ok_iff] at h
  obtain ⟨host, hhost, service, hservice, severity, hseverity, environment, henvironment,
    message, hmessage, heq⟩ := h
  cases heq
  intro child hchild
  simp only [List.mem_append] at hchild
  rcases hchild with ((((((h | h) | h) | h) | h) | h) | h) | h
  · exact generateMoveOperators_output hhost child h
  · exact generateMoveOperators_output hservice child h
  · exact traceChildren_output env child h
  · exact traceChildren_output env child h
  · exact traceChildren_output env child h
  · exact severityChildren_output hseverity child h
  · exact generateMoveOperators_output henvironment child h
  · exact generateMoveOperators_output hmessage child h

variable {newUUID : Nat → String}

omit env in
theorem withCustomIDs_spec {children : List PipelineOperator}
    (h : ∀ child ∈ children, child.output = "") :
    ∀ child ∈ withCustomIDs newUUID children, child.output = "" ∧ child.id ≠ "" := by
  intro child hchild
  obtain ⟨⟨c, i⟩, hmem, rfl⟩ := List.mem_map.1 hchild
  refine ⟨h c (List.fst_mem_of_mem_zipIdx hmem), ?_⟩
  intro hempty
  have hlength := congrArg String.length hempty
  simp at hlength

variable {op : PipelineOperator} {built : List PipelineOperator}

theorem processJSONParser_built (h : processJSONParser env newUUID op = .ok built) :
    BuiltFrom op built := by
  rw [processJSONParser] at h
  cases hcheck : fieldNotNilCheck env op.parseFrom with
  | error failure =>
    rw [hcheck] at h
    cases h
  | ok check =>
    rw [hcheck] at h
    cases hmapping : op.mapping with
    | none =>
      simp only [hmapping] at h
      cases h
      exact ⟨_, [], rfl, rfl, rfl, rfl, fun child hchild => nomatch hchild⟩
    | some mapping =>
      simp only [hmapping] at h
      obtain ⟨children, hchildren, rfl⟩ := map_ok_iff.1 h
      exact ⟨_, _, rfl, rfl, rfl, rfl, withCustomIDs_spec (jsonChildren_output hchildren)⟩

theorem withNilCheck_ok_iff {doing field : String} {condition : String → String} :
    withNilCheck env op doing field condition = .ok built ↔
      ∃ check, fieldNotNilCheck env field = .ok check ∧
        built = [{ op with condition := condition check }] := by
  rw [withNilCheck, map_ok_iff]
  simp only [during_ok_iff]
  constructor
  · rintro ⟨check, hcheck, rfl⟩
    exact ⟨check, hcheck, rfl⟩
  · rintro ⟨check, hcheck, rfl⟩
    exact ⟨check, hcheck, rfl⟩

omit env in
/-- An operator that is only changed in its condition or its parser fields. -/
theorem builtFrom_single {op op' : PipelineOperator} (hid : op'.id = op.id)
    (htype : op'.type = op.type) (houtput : op'.output = op.output) : BuiltFrom op [op'] :=
  ⟨op', [], rfl, hid, htype, houtput, fun _ hchild => nomatch hchild⟩

theorem operatorsOf_built (h : operatorsOf env newUUID op = .ok built) :
    BuiltFrom op built := by
  rw [operatorsOf] at h
  cases htype : op.type with
  | regexParser =>
    simp only [htype] at h
    obtain ⟨check, -, rfl⟩ := withNilCheck_ok_iff.1 h
    exact builtFrom_single rfl rfl rfl
  | grokParser =>
    simp only [htype] at h
    obtain ⟨check, -, rfl⟩ := withNilCheck_ok_iff.1 h
    exact builtFrom_single rfl rfl rfl
  | jsonParser =>
    simp only [htype] at h
    exact processJSONParser_built (during_ok_iff.1 h)
  | add =>
    simp only [htype] at h
    cases hexpr : exprOfValue op.value with
    | none =>
      simp only [hexpr] at h
      cases h
      exact builtFrom_single rfl rfl rfl
    | some expression =>
      simp only [hexpr] at h
      obtain ⟨check, -, rfl⟩ := map_ok_iff.1 h
      by_cases hempty : check = ""
      · rw [if_pos hempty]
        exact builtFrom_single rfl rfl rfl
      · rw [if_neg hempty]
        exact builtFrom_single rfl htype.symm rfl
  | move =>
    simp only [htype] at h
    obtain ⟨check, -, rfl⟩ := withNilCheck_ok_iff.1 h
    exact builtFrom_single rfl rfl rfl
  | copy =>
    simp only [htype] at h
    obtain ⟨check, -, rfl⟩ := withNilCheck_ok_iff.1 h
    exact builtFrom_single rfl rfl rfl
  | remove =>
    simp only [htype] at h
    obtain ⟨check, -, rfl⟩ := withNilCheck_ok_iff.1 h
    exact builtFrom_single rfl rfl rfl
  | traceParser =>
    simp only [htype] at h
    obtain ⟨op', hclean, rfl⟩ := map_ok_iff.1 h
    rw [cleanTraceParser] at hclean
    cases hparser : op.traceParser with
    | none =>
      simp only [hparser] at hclean
      cases hclean
    | some parser =>
      simp only [hparser] at hclean
      cases hclean
      exact builtFrom_single rfl rfl rfl
  | timeParser =>
    simp only [htype] at h
    cases hcheck : fieldNotNilCheck env op.parseFrom with
    | error failure =>
      cases failure with
      | error text =>
        simp only [hcheck, during] at h
        cases h
      | panic =>
        simp only [hcheck, during] at h
        cases h
    | ok check =>
      simp only [hcheck, during] at h
      obtain ⟨condition, -, rfl⟩ := map_ok_iff.1 h
      exact builtFrom_single rfl htype.symm rfl
  | severityParser =>
    simp only [htype] at h
    obtain ⟨op', hop, rfl⟩ := map_ok_iff.1 h
    obtain ⟨check, -, rfl⟩ := map_ok_iff.1 hop
    exact builtFrom_single rfl rfl rfl
  | router =>
    simp only [htype] at h
    cases h
    exact builtFrom_single rfl rfl rfl
  | noop =>
    simp only [htype] at h
    cases h
    exact builtFrom_single rfl rfl rfl
  | retain =>
    simp only [htype] at h
    cases h
    exact builtFrom_single rfl rfl rfl
  | other type =>
    simp only [htype] at h
    cases h
    exact builtFrom_single rfl rfl rfl

theorem processJSONParser_ok_iff :
    (∃ built, processJSONParser env newUUID op = .ok built) ↔
      Checkable env op.parseFrom ∧
        ∀ mapping, op.mapping = some mapping →
          ∀ keyword ∈ checkedKeywords mapping, Checkable env (parsedField op keyword) := by
  rw [processJSONParser, Checkable]
  cases hcheck : fieldNotNilCheck env op.parseFrom with
  | error failure =>
    refine iff_of_false ?_ ?_
    · rintro ⟨built, h⟩
      cases h
    · rintro ⟨⟨check, h⟩, -⟩
      cases h
  | ok check =>
    cases hmapping : op.mapping with
    | none =>
      refine iff_of_true ⟨_, rfl⟩ ⟨⟨check, rfl⟩, ?_⟩
      intro mapping h
      cases h
    | some mapping =>
      simp only [map_ok_iff, Option.some.injEq, forall_eq']
      -- The children see the parent with its new condition, but only its target field.
      have hchildren : ∀ parent : PipelineOperator, parent.parseTo = op.parseTo →
          ((∃ r, jsonChildren env parent mapping = .ok r) ↔
            ∀ keyword ∈ checkedKeywords mapping, Checkable env (parsedField op keyword)) := by
        intro parent hparent
        rw [jsonChildren_ok_iff]
        simp only [parsedField, hparent]
      rw [← hchildren _ rfl]
      constructor
      · rintro ⟨_, children, h, -⟩
        exact ⟨⟨check, rfl⟩, children, h⟩
      · rintro ⟨-, children, h⟩
        exact ⟨_, children, h, rfl⟩

theorem withNilCheck_ok_iff_checkable {doing field : String} {condition : String → String} :
    (∃ built, withNilCheck env op doing field condition = .ok built) ↔ Checkable env field := by
  simp only [withNilCheck_ok_iff]
  constructor
  · rintro ⟨_, check, hcheck, -⟩
    exact ⟨check, hcheck⟩
  · rintro ⟨check, hcheck⟩
    exact ⟨_, check, hcheck, rfl⟩

theorem timeCondition_ok_iff (check : String) :
    (∃ condition, timeCondition env op check = .ok condition) ↔
      (op.layoutType = "strptime" → ∃ regex, env.regexForStrptimeLayout op.layout = .ok regex) := by
  rw [timeCondition]
  by_cases hstrptime : op.layoutType = "strptime"
  · rw [if_pos hstrptime]
    cases env.regexForStrptimeLayout op.layout with
    | error e => simp [hstrptime]
    | ok regex => simp
  · rw [if_neg hstrptime]
    refine iff_of_true ?_ (fun h => absurd h hstrptime)
    by_cases hepoch : op.layoutType = "epoch"
    · exact ⟨_, if_pos hepoch⟩
    · exact ⟨_, if_neg hepoch⟩

theorem operatorsOf_ok_iff (newUUID : Nat → String) :
    (∃ built, operatorsOf env newUUID op = .ok built) ↔ OperatorBuilds env op := by
  rw [operatorsOf, OperatorBuilds]
  cases htype : op.type with
  | regexParser => exact withNilCheck_ok_iff_checkable
  | grokParser => exact withNilCheck_ok_iff_checkable
  | jsonParser =>
    simp only [during_ok_iff]
    exact processJSONParser_ok_iff
  | add =>
    cases hexpr : exprOfValue op.value with
    | none => exact iff_of_true ⟨_, rfl⟩ (fun _ h => nomatch h)
    | some expression =>
      simp only [map_ok_iff, during_ok_iff, Option.some.injEq, forall_eq']
      constructor
      · rintro ⟨_, check, hcheck, -⟩
        exact ⟨check, hcheck⟩
      · rintro ⟨check, hcheck⟩
        exact ⟨_, check, hcheck, rfl⟩
  | move => exact withNilCheck_ok_iff_checkable
  | copy => exact withNilCheck_ok_iff_checkable
  | remove => exact withNilCheck_ok_iff_checkable
  | traceParser =>
    rw [cleanTraceParser]
    cases hparser : op.traceParser with
    | none => exact iff_of_false (fun ⟨_, h⟩ => nomatch h) (fun h => h rfl)
    | some parser => exact iff_of_true ⟨_, rfl⟩ (Option.some_ne_none parser)
  | timeParser =>
    rw [Checkable]
    cases hcheck : fieldNotNilCheck env op.parseFrom with
    | error failure =>
      refine iff_of_false ?_ ?_
      · rintro ⟨built, h⟩
        cases failure with
        | error text => cases h
        | panic => cases h
      · rintro ⟨⟨check, h⟩, -⟩
        cases h
    | ok check =>
      simp only [during, map_ok_iff]
      rw [← timeCondition_ok_iff check]
      constructor
      · rintro ⟨_, condition, h, -⟩
        exact ⟨⟨check, rfl⟩, condition, h⟩
      · rintro ⟨-, condition, h⟩
        exact ⟨_, condition, h, rfl⟩
  | severityParser =>
    simp only [processSeverityParser, map_ok_iff]
    constructor
    · rintro ⟨_, _, ⟨check, hcheck, -⟩, -⟩
      exact ⟨check, hcheck⟩
    · rintro ⟨check, hcheck⟩
      exact ⟨_, _, ⟨check, hcheck, rfl⟩, rfl⟩
  | router => exact iff_of_true ⟨_, rfl⟩ trivial
  | noop => exact iff_of_true ⟨_, rfl⟩ trivial
  | retain => exact iff_of_true ⟨_, rfl⟩ trivial
  | other type => exact iff_of_true ⟨_, rfl⟩ trivial

end Signoz.LogPipelines
