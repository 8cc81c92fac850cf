import Signoz.Querier.Formula

/-!
# The query range request

The parts of `QueryRangeRequest` (`req.go`) that post-processing reads, and what it computes from
them: which names gap filling skips (`skipFillGaps`), the step it fills with
(`stepIntervalForQuery`), the number of aggregations of a name, the queries whose missing values
count as zero, and the step of a formula's own functions (`calculateFormulaStep`).

Step intervals are whole milliseconds; they are positive once the querier has put its defaults in.
-/

namespace Signoz.Querier

open Lib.KeyedFold

/-- An order-by clause: the name of its key and whether the direction is descending. -/
structure OrderBy where
  key : String
  desc : Bool
deriving DecidableEq

structure MetricAggregation where
  metricName : String
  timeAggregation : String
  spaceAggregation : String

/-- The aggregations of a builder query: expressions for traces and logs, metrics otherwise. -/
inductive Aggregations where
  | expressions (exprs : List String)
  | metrics (aggs : List MetricAggregation)

/-- `QueryBuilderQuery`. -/
structure BuilderQuery (V : Type) where
  name : String
  disabled : Bool
  aggregations : Aggregations
  stepInterval : Nat
  functions : List (Function V)
  limit : Nat
  order : List OrderBy

structure QueryBuilderFormula (V : Type) where
  name : String
  expression : String
  disabled : Bool
  functions : List (Function V)
  limit : Nat
  order : List OrderBy
deriving DecidableEq

/-- `QueryBuilderTraceOperator`. -/
structure TraceOperatorQuery (V : Type) where
  name : String
  disabled : Bool
  stepInterval : Nat
  functions : List (Function V)
  limit : Nat
  order : List OrderBy

/-- The specification of a query; the type of its envelope only adds whether a builder query is a
sub-query. -/
inductive QuerySpec (V : Type) where
  | builder (subQuery : Bool) (q : BuilderQuery V)
  | formula (f : QueryBuilderFormula V)
  | traceOperator (t : TraceOperatorQuery V)
  | prom (name : String) (disabled : Bool) (step : Nat)
  | clickHouse (name : String) (disabled : Bool)
  | join

structure FormatOptions where
  fillGaps : Bool
  formatTableResultForUI : Bool

structure QueryRangeRequest (V : Type) where
  start : Nat
  stop : Nat
  requestType : RequestType
  queries : List (QuerySpec V)
  formatOptions : Option FormatOptions

/-- What the querier takes from outside: the expression library, the variables it finds when it
parses without the mathematical functions, and the Unicode tables. -/
structure Environment (V : Type) where
  lib : Govaluate V
  varsWithoutFunctions : String → Option (List String)
  simpleFold : Char → Char
  toLower : Char → Char

/-- The expressions that are a single variable, and the case folding of ASCII. -/
def variableEnvironment : Environment (Option Rat) where
  lib := ⟨fun expr => some [expr], fun expr values => values expr⟩
  varsWithoutFunctions expr := some [expr]
  simpleFold := Char.toLower
  toLower := Char.toLower

/-- `queryInfo`. -/
structure QueryInfo where
  name : String
  disabled : Bool
  step : Nat

section

variable {V : Type}

/-- `getqueryInfo`. -/
def getQueryInfo : QuerySpec V → QueryInfo
  | .builder _ q => ⟨q.name, q.disabled, q.stepInterval⟩
  | .traceOperator t => ⟨t.name, t.disabled, t.stepInterval⟩
  | .formula f => ⟨f.name, f.disabled, 0⟩
  | .prom name disabled step => ⟨name, disabled, step⟩
  | .clickHouse name disabled => ⟨name, disabled, 0⟩
  | .join => ⟨"", false, 0⟩

/-- `SkipFillGaps`. -/
def QueryRangeRequest.skipFillGaps (req : QueryRangeRequest V) (name : String) : Bool :=
  req.queries.any fun
    | .prom n _ _ => n = name
    | .clickHouse n _ => n = name
    | _ => false

/-- The loop of `GCD`, whose second number gets smaller in every round. -/
def gcdLoop : Nat → Int → Int → Int
  | 0, a, _ => a
  | fuel + 1, a, b => if b = 0 then a else gcdLoop fuel b (a.tmod b)

/-- `GCD`. -/
def gcd64 (a b : Int) : Int := gcdLoop (b.natAbs + 1) a b

/-- What can go wrong when the step of a query is determined. -/
inductive StepError where
  | unparsable
  | divisionByZero
deriving DecidableEq

/-- `LCM`. -/
def lcm64 (a b : Int) : Except StepError Int :=
  if gcd64 a b = 0 then .error .divisionByZero
  else .ok ((wrapInt64 (a * b)).tdiv (gcd64 a b))

/-- `LCMList`. -/
def lcmList : List Int → Except StepError Int
  | [] => .ok 1
  | num :: nums => nums.foldlM lcm64 num

/-- The steps of the queries that have one, by name; a later query replaces an earlier one. -/
def QueryRangeRequest.stepsMap (req : QueryRangeRequest V) : List (String × Int) :=
  accumulate id (fun _ step => step) [] (req.queries.filterMap fun
    | .builder _ q => some (q.name, (q.stepInterval : Int))
    | .prom name _ step => some (name, (step : Int))
    | .traceOperator t => some (t.name, (t.stepInterval : Int))
    | _ => none)

/-- The expression of the last formula of a name, or the empty text. -/
def QueryRangeRequest.expressionOf (req : QueryRangeRequest V) (name : String) : String :=
  req.queries.foldl (fun exprStr q =>
    match q with
    | .formula f => if f.name = name then f.expression else exprStr
    | _ => exprStr) ""

/-- `StepIntervalForQuery`. A variable that is not the name of a query has step zero. -/
def QueryRangeRequest.stepIntervalForQuery (req : QueryRangeRequest V) (env : Environment V)
    (name : String) : Except StepError Int :=
  match req.stepsMap.lookup name with
  | some step => .ok step
  | none =>
    match env.lib.vars (req.expressionOf name) with
    | none => .error .unparsable
    | some vars => lcmList (vars.map fun v => (req.stepsMap.lookup v).getD 0)

/-- `NumAggregationForQuery`. -/
def QueryRangeRequest.numAggregationForQuery (req : QueryRangeRequest V) (name : String) : Nat :=
  req.queries.countP fun
    | .builder _ q => q.name = name
    | .formula f => f.name = name
    | _ => false

/-- The aggregations whose missing values count as zero. -/
def canDefaultZeroAgg (toLower : Char → Char) (expr : String) : Bool :=
  let lowered := String.ofList (expr.toList.map toLower)
  hasPrefix lowered "count(" || hasPrefix lowered "count_distinct(" ||
    hasPrefix lowered "sum(" || hasPrefix lowered "rate("

def Aggregations.canDefaultZero (toLower : Char → Char) : Aggregations → Bool
  | .expressions [expr] => canDefaultZeroAgg toLower expr
  | .metrics [agg] => ["count", "count_distinct", "rate", "increase"].contains agg.timeAggregation
  | _ => false

/-- `GetQueriesSupportingZeroDefault`: sub-queries are left out. -/
def QueryRangeRequest.queriesSupportingZeroDefault (req : QueryRangeRequest V)
    (toLower : Char → Char) : List (String × Bool) :=
  accumulate id (fun _ b => b) [] (req.queries.filterMap fun
    | .builder false q => if q.aggregations.canDefaultZero toLower then some (q.name, true) else none
    | _ => none)

/-- `calculateFormulaStep`: the greatest common divisor of the steps of the queries that the
expression names, or a minute. -/
def QueryRangeRequest.calculateFormulaStep (req : QueryRangeRequest V) (env : Environment V)
    (expression : String) : Nat :=
  match env.varsWithoutFunctions expression with
  | none => 60000
  | some variableNames =>
    let queryNames := variableNames.filterMap fun v => (splitDots v).head?
    let steps := (req.queries.filter fun q =>
      queryNames.contains (getQueryInfo q).name && 0 < (getQueryInfo q).step).map fun q =>
        (getQueryInfo q).step
    match steps with
    | [] => 60000
    | step :: steps => steps.foldl Nat.gcd step

end

end Signoz.Querier
