import Signoz.TraceOperator.Expression

/-!
# Building the CTEs of a trace operator

`traceOperatorCTEBuilder` of `trace_operator_cte_builder.go`, from the collected queries to the CTE
that the final query selects from. `buildExpressionCTEs` walks the expression and appends one CTE a
sub-expression, under a name made of the names of its operands; a name that exists already ends the
work on a sub-expression.

A statement is kept as the choice of the template and the names put into it (`CTESQL`). What the
metadata store and the two where-clause builders return for a query is part of the query. The
`sanitizeForSQL` replacements are walked in map order, which changes nothing on the operators.
-/

namespace Signoz.TraceOperator

/-- A row of the span table: the columns the statements join on, and the rest of them for the
filters. -/
structure Span where
  traceID : String
  spanID : String
  parentSpanID : String
  resourceFingerprint : String
  attributes : List (String × String)
deriving DecidableEq

/-- A trace query: the fingerprints its resource-filter statement selects, `none` for no statement,
and the filter on spans, `true` for no filter. Each of them may fail. -/
structure TraceQuery where
  fieldKeys : Except String Unit
  resourceStatement : Except String (Option (String → Bool))
  whereClause : Except String (Span → Bool)

/-- All three parts of the query succeed. -/
def TraceQuery.Builds (query : TraceQuery) : Prop :=
  query.fieldKeys = .ok () ∧ (∃ resource, query.resourceStatement = .ok resource) ∧
    ∃ filter, query.whereClause = .ok filter

/-- The statement of a CTE: its template with the names in it. -/
inductive CTESQL where
  | allSpans
  | resourceFilter (selects : String → Bool)
  | query (resourceFilterCTE : Option String) (whereClause : Span → Bool)
  | directDescendant (parentCTE childCTE : String)
  | indirectDescendant (ancestorCTE descendantCTE : String)
  | and (leftCTE rightCTE : String)
  | or (leftCTE rightCTE : String)
  | unaryNot (operandCTE : String)
  | exclude (leftCTE rightCTE : String)

/-- The CTE names in the text of a statement. -/
def CTESQL.references : CTESQL → List String
  | .allSpans => []
  | .resourceFilter _ => []
  | .query resourceFilterCTE _ => resourceFilterCTE.toList
  | .directDescendant parentCTE childCTE => [parentCTE, childCTE]
  | .indirectDescendant ancestorCTE descendantCTE => [descendantCTE, "all_spans", ancestorCTE]
  | .and leftCTE rightCTE => [leftCTE, rightCTE]
  | .or leftCTE rightCTE => [leftCTE, rightCTE]
  | .unaryNot operandCTE => ["all_spans", operandCTE]
  | .exclude leftCTE rightCTE => [leftCTE, rightCTE]

structure CTENode where
  name : String
  sql : CTESQL
  dependsOn : List String

/-- The builder; every CTE is in the index. -/
structure TraceOperatorCTEBuilder where
  ctes : List CTENode
  cteNameToIndex : List (String × Nat)
  queryToCTEName : List (String × String)
  indexed : cteNameToIndex.map Prod.fst = ctes.map CTENode.name

namespace TraceOperatorCTEBuilder

def empty : TraceOperatorCTEBuilder := ⟨[], [], [], rfl⟩

def addCTE (b : TraceOperatorCTEBuilder) (name : String) (sql : CTESQL)
    (dependsOn : List String) : TraceOperatorCTEBuilder where
  ctes := b.ctes ++ [⟨name, sql, dependsOn⟩]
  cteNameToIndex := b.cteNameToIndex ++ [(name, b.ctes.length)]
  queryToCTEName := b.queryToCTEName
  indexed := by simp [b.indexed]

/-- `_, exists := b.cteNameToIndex[cteName]`. -/
def hasCTE (b : TraceOperatorCTEBuilder) (name : String) : Bool :=
  b.cteNameToIndex.any fun entry => entry.1 == name

/-- `b.queryToCTEName[queryName] = cteName`; the last write of a name counts. -/
def setQueryCTE (b : TraceOperatorCTEBuilder) (queryName cteName : String) :
    TraceOperatorCTEBuilder :=
  { b with queryToCTEName := (queryName, cteName) :: b.queryToCTEName }

@[simp] theorem addCTE_ctes (b : TraceOperatorCTEBuilder) (name : String) (sql : CTESQL)
    (dependsOn : List String) :
    (b.addCTE name sql dependsOn).ctes = b.ctes ++ [⟨name, sql, dependsOn⟩] := rfl

theorem hasCTE_iff {b : TraceOperatorCTEBuilder} {name : String} :
    b.hasCTE name = true ↔ name ∈ b.ctes.map CTENode.name := by
  rw [← b.indexed]
  simp [hasCTE]

end TraceOperatorCTEBuilder

open TraceOperatorCTEBuilder

/-! ## Names -/

/-- `strings.ReplaceAll`; `skip` counts the characters of a match that are still to be passed. -/
def replaceFrom (old new : List Char) : Nat → List Char → List Char
  | _, [] => []
  | skip + 1, _ :: cs => replaceFrom old new skip cs
  | 0, c :: cs =>
    if old.isPrefixOf (c :: cs) then new ++ replaceFrom old new (old.length - 1) cs
    else c :: replaceFrom old new 0 cs

def replaceAll (s : String) (replacement : String × String) : String :=
  String.ofList (replaceFrom replacement.1.toList replacement.2.toList 0 s.toList)

def replacements : List (String × String) :=
  [("=>", "DIR_DESC"), ("->", "INDIR_DESC"), ("&&", "AND"), ("||", "OR"), ("NOT", "NOT"),
    (" ", "_")]

/-- `sanitizeForSQL`, for the order in which the map of replacements is walked. -/
def sanitizeForSQL (order : List (String × String)) (s : String) : String :=
  order.foldl replaceAll s

/-- `fmt.Sprintf("%s_%s_%s", leftCTE, sanitizedOp, rightCTE)`. -/
def operatorCTEName (op : TraceOperatorType) (leftCTE rightCTE : String) : String :=
  leftCTE ++ "_" ++ sanitizeForSQL replacements op.stringValue ++ "_" ++ rightCTE

/-- The name under which an expression's CTE goes; no operand gives the empty name. -/
def cteName : TraceOperand → String
  | .nil => ""
  | .queryRef name => name
  | .operation op left right => operatorCTEName op (cteName left) (cteName right)

/-! ## Building -/

inductive BuildError where
  | expressionIsNil
  | referencedQueryNotFound (name : String)
  | queryNotFound (name : String)
  | returnSpansFromUnknown (name : String)
  | upstream (message : String)

def BuildError.message : BuildError → String
  | .expressionIsNil => "expression is nil"
  | .referencedQueryNotFound name => "referenced query '" ++ name ++ "' not found"
  | .queryNotFound name => "query " ++ name ++ " not found"
  | .returnSpansFromUnknown name =>
    "returnSpansFrom references query '" ++ name ++ "' which has no corresponding CTE"
  | .upstream message => message

/-- The query stored under a name; a later query of the request replaces an earlier one. -/
def findQuery (queries : List (String × TraceQuery)) (name : String) : Option TraceQuery :=
  queries.reverse.lookup name

/-- `collectQueries`: the trace queries of the request that the expression refers to. -/
def collectQueries (composite : List (String × TraceQuery)) (expr : TraceOperand) :
    Except BuildError (List (String × TraceQuery)) :=
  let referenced := collectReferencedQueries expr
  let queries := composite.filter fun query => referenced.contains query.1
  match referenced.find? fun name => !(queries.map Prod.fst).contains name with
  | some name => .error (.referencedQueryNotFound name)
  | none => .ok queries

def buildAllSpansCTE (b : TraceOperatorCTEBuilder) : TraceOperatorCTEBuilder :=
  b.addCTE "all_spans" .allSpans []

def liftUpstream {α : Type} : Except String α → Except BuildError α
  | .ok a => .ok a
  | .error message => .error (.upstream message)

def resourceFilterCTEName (cteName : String) : String := "__resource_filter_" ++ cteName

/-- The CTEs of a query: its resource filter, if there is a statement for it, and the query. -/
def addQueryCTEs (b : TraceOperatorCTEBuilder) (cteName : String)
    (resource : Option (String → Bool)) (filter : Span → Bool) : TraceOperatorCTEBuilder :=
  match resource with
  | some selects =>
    (b.addCTE (resourceFilterCTEName cteName) (.resourceFilter selects) []).addCTE cteName
      (.query (some (resourceFilterCTEName cteName)) filter) [resourceFilterCTEName cteName]
  | none => b.addCTE cteName (.query none filter) []

/-- `buildQueryCTE`. -/
def buildQueryCTE (queries : List (String × TraceQuery)) (b : TraceOperatorCTEBuilder)
    (queryName : String) : Except BuildError (String × TraceOperatorCTEBuilder) :=
  match findQuery queries queryName with
  | none => .error (.queryNotFound queryName)
  | some query =>
    let b := b.setQueryCTE queryName queryName
    if b.hasCTE queryName then .ok (queryName, b)
    else do
      liftUpstream query.fieldKeys
      let resource ← liftUpstream query.resourceStatement
      let filter ← liftUpstream query.whereClause
      return (queryName, addQueryCTEs b queryName resource filter)

/-- The statement each operator builder writes. -/
def operatorSQL (op : TraceOperatorType) (leftCTE rightCTE : String) : CTESQL :=
  match op with
  | .directDescendant => .directDescendant leftCTE rightCTE
  | .indirectDescendant => .indirectDescendant leftCTE rightCTE
  | .and => .and leftCTE rightCTE
  | .or => .or leftCTE rightCTE
  | .not => if rightCTE = "" then .unaryNot leftCTE else .exclude leftCTE rightCTE

/-- The dependencies each operator builder returns. -/
def operatorDependsOn (op : TraceOperatorType) (leftCTE rightCTE : String) : List String :=
  match op with
  | .directDescendant => [leftCTE, rightCTE]
  | .indirectDescendant => [leftCTE, rightCTE, "all_spans"]
  | .and => [leftCTE, rightCTE]
  | .or => [leftCTE, rightCTE]
  | .not => if rightCTE = "" then ["all_spans", leftCTE] else [leftCTE, rightCTE]

/-- `buildOperatorCTE`. -/
def buildOperatorCTE (b : TraceOperatorCTEBuilder) (op : TraceOperatorType)
    (leftCTE rightCTE : String) : String × TraceOperatorCTEBuilder :=
  let name := operatorCTEName op leftCTE rightCTE
  if b.hasCTE name then (name, b)
  else (name, b.addCTE name (operatorSQL op leftCTE rightCTE)
    (operatorDependsOn op leftCTE rightCTE))

/-- `buildExpressionCTEs`: the name of the expression's CTE and the CTEs so far. -/
def buildExpressionCTEs (queries : List (String × TraceQuery)) :
    TraceOperand → TraceOperatorCTEBuilder → Except BuildError (String × TraceOperatorCTEBuilder)
  | .nil, _ => .error .expressionIsNil
  | .queryRef name, b => buildQueryCTE queries b name
  | .operation op left right, b => do
    let (leftCTE, b) ← if left ≠ .nil then buildExpressionCTEs queries left b else pure ("", b)
    let (rightCTE, b) ←
      if right ≠ .nil then buildExpressionCTEs queries right b else pure ("", b)
    return buildOperatorCTE b op leftCTE rightCTE

/-- Collecting the queries of an expression and building its CTEs. -/
def buildFromComposite (composite : List (String × TraceQuery)) (expr : TraceOperand) :
    Except BuildError (String × TraceOperatorCTEBuilder) := do
  let queries ← collectQueries composite expr
  buildExpressionCTEs queries expr (buildAllSpansCTE .empty)

/-- The CTE the final query reads: the root's, or that of the query named by the request. -/
def selectFromCTE (b : TraceOperatorCTEBuilder) (rootCTE returnSpansFrom : String) :
    Except BuildError String :=
  if returnSpansFrom = "" then .ok rootCTE
  else match b.queryToCTEName.lookup returnSpansFrom with
    | some name =>
      if name = "" then .error (.returnSpansFromUnknown returnSpansFrom) else .ok name
    | none => .error (.returnSpansFromUnknown returnSpansFrom)

/-- `Build` up to the final query: the CTE to select from, the root's CTE and the CTEs. -/
def buildCTEs (composite : List (String × TraceQuery)) (expr : TraceOperand)
    (returnSpansFrom : String) : Except BuildError (String × String × TraceOperatorCTEBuilder) := do
  let (rootCTE, b) ← buildFromComposite composite expr
  let selected ← selectFromCTE b rootCTE returnSpansFrom
  return (selected, rootCTE, b)

/-! ## What building returns -/

theorem buildOperatorCTE_name (b : TraceOperatorCTEBuilder) (op : TraceOperatorType)
    (leftCTE rightCTE : String) :
    (buildOperatorCTE b op leftCTE rightCTE).1 = operatorCTEName op leftCTE rightCTE := by
  simp only [buildOperatorCTE]
  split <;> rfl

end Signoz.TraceOperator
