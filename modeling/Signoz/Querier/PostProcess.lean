import Signoz.Querier.QueryRequest

/-!
# Post-processing of query results

`postProcessResults` of `postprocess.go` for time-series requests, and `applyFormulas` for
time-series and scalar ones: series limits (`series_limit.go`), functions, formulas, the filter
for disabled queries and gap filling. Results are kept by query name in association lists with
distinct names.

The source ranges over maps. Where the order matters it is an argument here: `applyFormulas` takes
the formulas in the order in which the map yields them. Gap filling treats every name on its own.
-/

namespace Signoz.Querier

open Lib.KeyedFold

/-- A value in a row of a scalar result: a label (with the number it holds, if any) or a number
computed by a formula, or nothing. -/
inductive Cell (V : Type) where
  | label (value : LabelValue) (number : Option V)
  | float (v : V)
  | null
deriving DecidableEq

structure ColumnDescriptor where
  name : String
  queryName : String
  aggregationIndex : Nat
  unit : String
  isAggregation : Bool
deriving DecidableEq

structure ScalarData (V : Type) where
  queryName : String
  columns : List ColumnDescriptor
  data : List (List (Cell V))
deriving DecidableEq

/-- The dynamic value of a result in post-processing. -/
inductive Payload (V : Type) where
  | none
  | timeSeries (data : TimeSeriesData V)
  | scalar (data : ScalarData V)
  | other
deriving DecidableEq

/-- Results by query name. -/
abbrev Results (V : Type) := List (String × Payload V)

def Results.set {V : Type} (results : Results V) (name : String) (value : Payload V) : Results V :=
  upsertWith name value (fun _ => value) results

section

variable {V : Type} [Float64 V]

open Float64

/-! ## Series limits -/

def defaultOrderByKey : String := "__result"

/-- `calculateSeriesValue`: the value of a single point, or the average of the finite values. -/
def calculateSeriesValue (series : TimeSeries V) : V :=
  let finite := (series.values.map TimeSeriesValue.value).filter fun v => !isNaN v && !isInf v
  match series.values with
  | [] => ofInt 0
  | [_] => finite.headD (ofInt 0)
  | _ =>
    if finite.isEmpty then ofInt 0
    else div (finite.foldl add (ofInt 0)) (ofInt finite.length)

/-- `compareSeries`: whether the first series comes before the second. -/
def compareSeries (a b : TimeSeries V) : List OrderBy → Bool
  | [] => false
  | order :: orderBy =>
    if order.key = defaultOrderByKey then
      let valueA := calculateSeriesValue a
      let valueB := calculateSeriesValue b
      if lt valueA valueB || lt valueB valueA then
        if order.desc then lt valueB valueA else lt valueA valueB
      else compareSeries a b orderBy
    else
      match labelNamed a.labels order.key, labelNamed b.labels order.key with
      | none, some _ => true
      | some _, none => false
      | none, none => compareSeries a b orderBy
      | some labelA, some labelB =>
        if labelA.text = labelB.text then compareSeries a b orderBy
        else if order.desc then decide (labelB.text < labelA.text)
        else decide (labelA.text < labelB.text)

/-- `ApplySeriesLimit`. -/
def limitSeries (series : List (TimeSeries V)) (orderBy : List OrderBy) (limit : Nat) :
    List (TimeSeries V) :=
  let effectiveOrderBy := if orderBy.isEmpty then [⟨defaultOrderByKey, true⟩] else orderBy
  let sorted := series.insertionSort fun a b => compareSeries b a effectiveOrderBy = false
  if 0 < limit ∧ limit < sorted.length then sorted.take limit else sorted

/-- Change the series of every aggregation of a time-series result, and nothing else. -/
def Payload.mapSeries (f : List (TimeSeries V) → List (TimeSeries V)) : Payload V → Payload V
  | .timeSeries d =>
    .timeSeries { d with aggregations := d.aggregations.map fun agg =>
      { agg with series := f agg.series } }
  | value => value

/-- `applySeriesLimit`. -/
def applySeriesLimit (value : Payload V) (limit : Nat) (orderBy : List OrderBy) : Payload V :=
  value.mapSeries fun series => limitSeries series orderBy limit

/-! ## Functions of a query -/

/-- `applyFunctions`. -/
def applyFunctions (value : Payload V) (functions : List (Function V)) : Payload V :=
  value.mapSeries fun series => series.map (applyFunctionsToSeries functions)

/-- `prepareFillZeroArgsWithStep`: a `fillZero` without arguments gets the window and the step. -/
def prepareFillZeroArgsWithStep (functions : List (Function V)) (req : QueryRangeRequest V)
    (step : Int) : List (Function V) :=
  functions.map fun fn =>
    if fn.name = .fillZero ∧ fn.args.isEmpty then
      ⟨.fillZero, [.float (ofInt req.start), .float (ofInt req.stop), .float (ofInt step)]⟩
    else fn

/-- The series limit and the functions of a query. -/
def limitThenApply (value : Payload V) (req : QueryRangeRequest V) (limit : Nat)
    (orderBy : List OrderBy) (functions : List (Function V)) (step : Nat) : Payload V :=
  applyFunctions (applySeriesLimit value limit orderBy)
    (prepareFillZeroArgsWithStep functions req step)

/-- The order of a metric query, where the names of its aggregation stand for its result. -/
def metricOrder (aggs : List MetricAggregation) (orderBy : List OrderBy) : List OrderBy :=
  match aggs with
  | [] => orderBy
  | config :: _ =>
    let space := config.spaceAggregation
    let time := config.timeAggregation
    let names := [space ++ "(" ++ config.metricName ++ ")", time ++ "(" ++ config.metricName ++ ")",
      space ++ "(" ++ time ++ "(" ++ config.metricName ++ "))"]
    orderBy.map fun order =>
      if names.contains order.key then { order with key := defaultOrderByKey } else order

/-- `postProcessBuilderQuery` and `postProcessMetricQuery`, for a time-series request. -/
def postProcessBuilderQuery (value : Payload V) (q : BuilderQuery V) (req : QueryRangeRequest V) :
    Payload V :=
  let orderBy := match q.aggregations with
    | .expressions _ => q.order
    | .metrics aggs => metricOrder aggs q.order
  limitThenApply value req q.limit orderBy q.functions q.stepInterval

/-- `postProcessTraceOperator`. -/
def postProcessTraceOperator (value : Payload V) (t : TraceOperatorQuery V)
    (req : QueryRangeRequest V) : Payload V :=
  limitThenApply value req t.limit t.order t.functions t.stepInterval

/-- Process the result of one query of the request, if it has one. -/
def postProcessQuery (req : QueryRangeRequest V) (results : Results V) (spec : QuerySpec V) :
    Results V :=
  match spec with
  | .builder _ q =>
    match results.lookup q.name with
    | some value => results.set q.name (postProcessBuilderQuery value q req)
    | none => results
  | .traceOperator t =>
    match results.lookup t.name with
    | some value => results.set t.name (postProcessTraceOperator value t req)
    | none => results
  | _ => results

/-! ## Formulas -/

/-- The results that hold data of one kind, by name. -/
def dataOf (kind : Payload V → Option (TimeSeriesData V)) (results : Results V) :
    List (String × TimeSeriesData V) :=
  results.filterMap fun p => (kind p.2).map fun d => (p.1, d)

/-- The time series that a result holds. -/
def Payload.timeSeries? : Payload V → Option (TimeSeriesData V)
  | .timeSeries d => some d
  | _ => Option.none

/-- `processTimeSeriesFormula`, with `none` where the source returns no result. -/
def processTimeSeriesFormula (env : Environment V) (results : Results V)
    (formula : QueryBuilderFormula V) (req : QueryRangeRequest V) : Option (Payload V) := do
  let evaluator ← newFormulaEvaluator env.lib env.simpleFold formula.expression
    (req.queriesSupportingZeroDefault env.toLower)
  let formulaSeries := evaluator.evaluateFormula env.lib env.simpleFold (dataOf Payload.timeSeries? results)
  let functions := prepareFillZeroArgsWithStep formula.functions req
    (req.calculateFormulaStep env formula.expression)
  pure (applyFunctions (.timeSeries ⟨formula.name, [⟨0, "", "", formulaSeries⟩]⟩) functions)

/-- The label that a cell of a group column holds. -/
def Cell.labelValue : Cell V → LabelValue
  | .label value _ => value
  | .float v => .num (text v)
  | .null => .num "<nil>"

/-- `toFloat64`: the number that a cell holds, unless it is NaN. -/
def Cell.toFloat64 : Cell V → Option V
  | .label _ number => number.filter fun v => !isNaN v
  | .float v => some v |>.filter fun v => !isNaN v
  | .null => none

/-- The column of each aggregation; of several the last. -/
def ScalarData.aggColumns (sd : ScalarData V) : List (Nat × Nat) :=
  accumulate id (fun _ colIdx => colIdx) []
    ((sd.columns.zipIdx.filter fun p => p.1.isAggregation).map fun p =>
      (p.1.aggregationIndex, p.2))

/-- The labels of a row: its cells in group columns. -/
def ScalarData.rowLabels (sd : ScalarData V) (row : List (Cell V)) : List Label :=
  ((sd.columns.zip row).filter fun p => !p.1.isAggregation).map fun p =>
    ⟨p.1.name, p.2.labelValue⟩

/-- The numbers of a row by aggregation. -/
def ScalarData.rowValues (sd : ScalarData V) (row : List (Cell V)) : List (Nat × V) :=
  sd.aggColumns.filterMap fun p =>
    (row[p.2]?.bind Cell.toFloat64).map fun v => (p.1, v)

/-- The rows by label key: the labels of the first row of a key, and the numbers of all its rows,
later ones replacing earlier ones. -/
def ScalarData.rowsByLabels (sd : ScalarData V) : List (String × (List Label × List (Nat × V))) :=
  accumulate id
    (fun rowData new => (rowData.1, accumulate id (fun _ v => v) rowData.2 new.2)) []
    (sd.data.map fun row =>
      (getUniqueSeriesKey (sd.rowLabels row), (sd.rowLabels row, sd.rowValues row)))

/-- A scalar result as time series with one point each, at timestamp zero. -/
def ScalarData.toTimeSeries (sd : ScalarData V) : TimeSeriesData V :=
  let rows := sd.rowsByLabels
  let labelKeys := (rows.map Prod.fst).insertionSort (· ≤ ·)
  let aggIndices := (sd.aggColumns.map Prod.fst).insertionSort (· ≤ ·)
  { queryName := sd.queryName
    aggregations := aggIndices.filterMap fun aggIdx => do
      let colIdx ← sd.aggColumns.lookup aggIdx
      let column ← sd.columns[colIdx]?
      pure {
        index := aggIdx
        aliasName := column.name
        unit := column.unit
        series := labelKeys.filterMap fun labelKey => do
          let (labels, values) ← rows.lookup labelKey
          let v ← values.lookup aggIdx
          pure ⟨labels, [⟨0, v, false⟩]⟩ } }

/-- The scalars that a result holds, as time series. -/
def Payload.scalarSeries? : Payload V → Option (TimeSeriesData V)
  | .scalar sd => some sd.toTimeSeries
  | _ => Option.none

/-- The rows of a scalar formula: the labels of each series and its first value. -/
def scalarOfSeries (name : String) (formulaSeries : List (TimeSeries V)) : ScalarData V :=
  let groups := (formulaSeries.head?.map TimeSeries.labels).getD []
  let columns := groups.map (fun l => (⟨l.name, name, 0, "", false⟩ : ColumnDescriptor)) ++
    [⟨"__result", name, 0, "", true⟩]
  { queryName := name
    columns := columns
    data := formulaSeries.map fun series =>
      let cells := (series.labels.take (columns.length - 1)).map fun l =>
        (Cell.label l.value none : Cell V)
      cells ++ List.replicate (columns.length - 1 - cells.length) .null ++
        [match series.values with
          | [] => Cell.label (.str "n/a") none
          | p :: _ => Cell.float p.value] }

/-- `processScalarFormula`, with `none` where the source returns no result. -/
def processScalarFormula (env : Environment V) (results : Results V)
    (formula : QueryBuilderFormula V) (req : QueryRangeRequest V) : Option (Payload V) := do
  let evaluator ← newFormulaEvaluator env.lib env.simpleFold formula.expression
    (req.queriesSupportingZeroDefault env.toLower)
  let formulaSeries := evaluator.evaluateFormula env.lib env.simpleFold (dataOf Payload.scalarSeries? results)
  pure (.scalar (scalarOfSeries formula.name formulaSeries))

/-- `formulaQueries`: the formulas of the request by name, a later one replacing an earlier. -/
def QueryRangeRequest.formulaQueries (req : QueryRangeRequest V) :
    List (String × QueryBuilderFormula V) :=
  accumulate id (fun _ formula => formula) [] (req.queries.filterMap fun
    | .formula f => some (f.name, f)
    | _ => none)

/-- The order of a formula, where its name and its expression stand for its result. -/
def formulaOrder (formula : QueryBuilderFormula V) : List OrderBy :=
  formula.order.map fun order =>
    if order.key = formula.name ∨ order.key = formula.expression then
      { order with key := defaultOrderByKey }
    else order

/-- What one formula makes of the results so far, if anything. -/
def processFormula (env : Environment V) (req : QueryRangeRequest V) (results : Results V)
    (formula : QueryBuilderFormula V) : Option (Payload V) :=
  let processed := match req.requestType with
    | .timeSeries => processTimeSeriesFormula env results formula req
    | .scalar => processScalarFormula env results formula req
    | _ => none
  processed.map fun result => applySeriesLimit result formula.limit (formulaOrder formula)

/-- The results after one formula. -/
def afterFormula (env : Environment V) (req : QueryRangeRequest V) (results : Results V)
    (p : String × QueryBuilderFormula V) : Results V :=
  match processFormula env req results p.2 with
  | some result => results.set p.1 result
  | none => results

/-- `applyFormulas`, with the formulas in the order in which the map yields them. Each result goes
into the map that the next formula reads. -/
def applyFormulas (env : Environment V) (req : QueryRangeRequest V)
    (order : List (String × QueryBuilderFormula V)) (results : Results V) : Results V :=
  order.foldl (afterFormula env req) results

/-! ## Disabled queries and gaps -/

/-- `filterDisabledQueries`. -/
def filterDisabledQueries (results : Results V) (req : QueryRangeRequest V) : Results V :=
  accumulate id (fun _ value => value) [] (req.queries.filterMap fun q =>
    if (getQueryInfo q).disabled then none
    else (results.lookup (getQueryInfo q).name).map fun value => ((getQueryInfo q).name, value))

/-- The buckets for a query without any: one empty series each. -/
def emptyBuckets (numAgg : Nat) : List (AggregationBucket V) :=
  (List.range numAgg).map fun idx => ⟨idx, "", "", [⟨[], []⟩]⟩

/-- A result that holds time series without any aggregation gets the empty buckets. For another
result the source makes a new `TimeSeriesData` that it does not store. -/
def addEmptyBuckets (req : QueryRangeRequest V) (name : String) : Payload V → Payload V
  | .timeSeries d =>
    if d.aggregations.isEmpty then
      .timeSeries { d with aggregations := emptyBuckets (req.numAggregationForQuery name) }
    else .timeSeries d
  | value => value

/-- Fill the gaps of one result. -/
def fillGapsOf (req : QueryRangeRequest V) (name : String) (stepInterval : Int)
    (value : Payload V) : Payload V :=
  applyFunctions (addEmptyBuckets req name value)
    (prepareFillZeroArgsWithStep [⟨.fillZero, []⟩] req stepInterval)

/-- The gap-filling loop of `postProcessResults`. -/
def fillGaps (env : Environment V) (req : QueryRangeRequest V) (results : Results V) :
    Except StepError (Results V) :=
  results.mapM fun p =>
    if req.skipFillGaps p.1 then .ok p
    else (req.stepIntervalForQuery env p.1).map fun step => (p.1, fillGapsOf req p.1 step p.2)

/-- The results when gap filling starts: the queries processed, the formulas applied and the
disabled queries left out. -/
def beforeFilling (env : Environment V) (req : QueryRangeRequest V)
    (order : List (String × QueryBuilderFormula V)) (results : Results V) : Results V :=
  filterDisabledQueries (applyFormulas env req order
    (req.queries.foldl (postProcessQuery req) results)) req

/-- `postProcessResults`, for a time-series or another request without a table format. -/
def postProcessResults (env : Environment V) (req : QueryRangeRequest V)
    (order : List (String × QueryBuilderFormula V)) (results : Results V) :
    Except StepError (Results V) :=
  if req.requestType = .timeSeries ∧ (req.formatOptions.map FormatOptions.fillGaps).getD false then
    fillGaps env req (beforeFilling env req order results)
  else .ok (beforeFilling env req order results)

end

end Signoz.Querier
