import Signoz.Transition.MigrateCommon

/-!
# `updateQueryData`

The helpers of `updateQueryData` in `migrate_common.go`, and the function itself: aggregations,
filter, group by, having, order by and functions of one builder query, in that order, and then the
keys that v5 does not have.
-/

namespace Signoz.Transition

variable {F : Type}

/-! ## Aggregations -/

/-- `buildAggregationExpression`. -/
def buildAggregationExpression (operator : String) (attr : Obj F) : String :=
  let key := attr.stringD "key"
  match operator with
  | "count" => "count()"
  | "sum_rate" => "sum(rate(" ++ key ++ "))"
  | _ => operator ++ "(" ++ key ++ ")"

/-- `timeAgg`, `spaceAgg` and `reduceTo` of an operator before v4. -/
def metricAggregation : String → String × String × String
  | "sum_rate" | "rate_sum" | "rate" => ("rate", "sum", "sum")
  | "avg_rate" | "rate_avg" => ("rate", "avg", "avg")
  | "min_rate" | "rate_min" => ("rate", "min", "min")
  | "max_rate" | "rate_max" => ("rate", "max", "max")
  | "hist_quantile_50" => ("", "p50", "avg")
  | "hist_quantile_75" => ("", "p75", "avg")
  | "hist_quantile_90" => ("", "p90", "avg")
  | "hist_quantile_95" => ("", "p95", "avg")
  | "hist_quantile_99" => ("", "p99", "avg")
  | "p99" | "p90" | "p75" | "p50" | "p25" | "p20" | "p10" | "p05" | "avg" => ("avg", "avg", "avg")
  | "min" => ("min", "min", "min")
  | "max" | "noop" => ("max", "max", "max")
  | "sum" => ("sum", "sum", "sum")
  | "count" => ("count", "sum", "sum")
  | "count_distinct" => ("count_distinct", "sum", "sum")
  | _ => ("", "", "")

/-- `aggregation["reduceTo"] = reduceTo`, for the one of the query. -/
def withReduceTo (queryData aggregation : Obj F) : Obj F :=
  match queryData.string? "reduceTo" with
  | some reduceTo => aggregation.set "reduceTo" (.string reduceTo)
  | none => aggregation

/-- The aggregation of a metrics query. -/
def metricsAggregation (queryData aggregateAttr : Obj F) (aggregateOp version widgetType : String) :
    Obj F × Obj F :=
  if version = "v4" then
    let queryData :=
      match queryData.get "spaceAggregation" with
      | some _ => queryData
      | none => queryData.set "spaceAggregation" (.string aggregateOp)
    (queryData, withReduceTo queryData
      [("metricName", aggregateAttr.getAny "key"), ("temporality", queryData.getAny "temporality"),
        ("timeAggregation", queryData.getAny "timeAggregation"),
        ("spaceAggregation", queryData.getAny "spaceAggregation")])
  else
    let (timeAgg, spaceAgg, reduceTo) := metricAggregation aggregateOp
    let aggregation : Obj F :=
      [("metricName", aggregateAttr.getAny "key"), ("temporality", queryData.getAny "temporality"),
        ("timeAggregation", .string timeAgg), ("spaceAggregation", .string spaceAgg)]
    if widgetType = "table" then (queryData, aggregation.set "reduceTo" (.string reduceTo))
    else (queryData, withReduceTo queryData aggregation)

/-- `createAggregations`. -/
def createAggregations (queryData : Obj F) (version widgetType : String) : Obj F × Bool :=
  let dataSource := queryData.stringD "dataSource"
  if queryData.stringD "aggregateOperator" = "noop" ∧ dataSource ≠ "metrics" then
    (queryData, false)
  else
    match queryData.string? "aggregateOperator", queryData.map? "aggregateAttribute" with
    | some aggregateOp, some aggregateAttr =>
      match dataSource with
      | "metrics" =>
        let (queryData, aggregation) :=
          metricsAggregation queryData aggregateAttr aggregateOp version widgetType
        (queryData.set "aggregations" (.list [.map aggregation]), true)
      | "logs" | "traces" =>
        let expression := buildAggregationExpression aggregateOp aggregateAttr
        (queryData.set "aggregations" (.list [.map [("expression", .string expression)]]), true)
      | _ => (queryData, false)
    | _, _ => (queryData, false)

variable (mc : MigrateCommon F)

/-- `orderByExpr`. -/
def orderByExpr (queryData : Obj F) : Option String :=
  match queryData.string? "aggregateOperator", queryData.map? "aggregateAttribute" with
  | some aggregateOp, some aggregateAttr =>
    if aggregateOp = "noop" then none
    else
      match queryData.stringD "dataSource" with
      | "metrics" => do
        let aggs ← queryData.list? "aggregations"
        let first ← aggs.head?
        let agg ← first.map?
        let spaceAgg ← agg.string? "spaceAggregation"
        some (spaceAgg ++ "(" ++ mc.fmt.sprintS (aggregateAttr.getAny "key") ++ ")")
      | "logs" | "traces" => some (buildAggregationExpression aggregateOp aggregateAttr)
      | _ => none
  | _, _ => none

/-! ## Filter, group by and having -/

/-- The keys of `IntrinsicFields` and `CalculatedFields` of package `telemetrytraces`, with the
deprecated ones. -/
def traceFields : List String :=
  ["trace_id", "span_id", "trace_state", "parent_span_id", "flags", "name", "kind_string",
    "duration_nano", "status_code", "status_message", "status_code_string", "kind",
    "response_status_code", "external_http_url", "http_url", "external_http_method", "http_method",
    "http_host", "db_name", "db_operation", "has_error", "is_remote",
    "traceID", "spanID", "parentSpanID", "spanKind", "durationNano", "statusCode", "statusMessage",
    "statusCodeString", "timestamp",
    "responseStatusCode", "externalHttpUrl", "httpUrl", "externalHttpMethod", "httpMethod",
    "httpHost", "dbName", "dbOperation", "hasError", "isRemote", "serviceName", "httpRoute"]

/-- The key of an entry of a group by. -/
def groupByKey (item : Any F) : Option String := item.map?.bind fun m => m.string? "key"

/-- `delete(item, "type")` for a field of the spans. -/
def fixGroupByItem (item : Any F) : Any F :=
  match item, groupByKey item with
  | .map m, some key => if traceFields.contains key then .map (Obj.delete m "type") else item
  | _, _ => item

/-- The loop of `fixGroupBy` and of `groupByExistsExpr`. -/
def fixGroupBy (queryData : Obj F) : Obj F :=
  match queryData.list? "groupBy" with
  | some groupBy => queryData.set "groupBy" (.list (groupBy.map fixGroupByItem))
  | none => queryData

/-- `groupByExistsExpr`, without what it does to the items. -/
def groupByExistsExpr (queryData : Obj F) : String :=
  match queryData.list? "groupBy" with
  | some groupBy =>
    " AND ".intercalate ((groupBy.filterMap groupByKey).map fun key => key ++ " EXISTS")
  | none => ""

/-- `createFilterExpression`. -/
def createFilterExpression (queryData : Obj F) : Obj F × Bool :=
  match queryData.map? "filters" with
  | none => (queryData, false)
  | some filters =>
    match filters.list? "items" with
    | none | some [] => (queryData, false)
    | some items =>
      let op := (filters.string? "op").getD "AND"
      let dataSource := queryData.stringD "dataSource"
      let expression := buildExpression mc items op dataSource
      if expression = "" then (queryData, false)
      else
        let groupByExists := groupByExistsExpr queryData
        let expression :=
          if groupByExists ≠ "" ∧ dataSource ≠ "metrics" then
            expression ++ " " ++ groupByExists
          else expression
        (((fixGroupBy queryData).set "filter" (.map [("expression", .string expression)])).delete
          "filters", true)

/-- What `createHavingExpression` makes of an item of the having. -/
def havingItem (queryData : Obj F) (item : Any F) : Any F :=
  match item, orderByExpr mc queryData with
  | .map m, some havingCol =>
    let m := Obj.set m "columnName" (.string havingCol)
    .map (m.set "key" (.map [("key", .string havingCol)]))
  | _, _ => item

/-- `createHavingExpression`. -/
def createHavingExpression (queryData : Obj F) : Obj F × Bool :=
  match queryData.list? "having" with
  | none | some [] => (queryData.set "having" (.map [("expression", .string "")]), true)
  | some having =>
    let expression := buildExpression mc (having.map (havingItem mc queryData)) "AND"
      (queryData.stringD "dataSource")
    (queryData.set "having" (.map [("expression", .string expression)]), true)

/-! ## Order by -/

/-- What the loop over the order by does with an entry. -/
inductive OrderEntry (F : Type) where
  | drop
  | keep (orderMap : Obj F)
  /-- `return false`. -/
  | stop

/-- The columns that an aggregation query is not ordered by. -/
def droppedColumns : List String := ["timestamp", "samples", "id"]

/-- An entry of the order by of an aggregation query. -/
def aggregationOrder (queryData : Obj F) (order : Any F) : OrderEntry F :=
  match order with
  | .map orderMap =>
    let columnName := Obj.stringD orderMap "columnName"
    if droppedColumns.contains columnName then .drop
    else if columnName = "#SIGNOZ_VALUE" then
      match orderByExpr mc queryData with
      | some expr => .keep (Obj.set orderMap "columnName" (.string expr))
      | none => .keep orderMap
    else
      match queryData.list? "groupBy" with
      | none => .stop
      | some groupBy =>
        if groupBy.any fun item => groupByKey item = some columnName then .keep orderMap
        else .drop
  | _ => .drop

/-- The loop of an aggregation query: the entries as it leaves them, and the new order by unless
the function returns. -/
def aggregationOrders (queryData : Obj F) : List (Any F) → List (Any F) × Option (List (Any F))
  | [] => ([], some [])
  | order :: rest =>
    match aggregationOrder mc queryData order with
    | .stop => (order :: rest, none)
    | .drop =>
      let (entries, newOrderBy) := aggregationOrders queryData rest
      (order :: entries, newOrderBy)
    | .keep orderMap =>
      let (entries, newOrderBy) := aggregationOrders queryData rest
      (.map orderMap :: entries, newOrderBy.map fun l => .map orderMap :: l)

/-- An entry of the order by of a query without aggregation is kept. -/
def keepsOrder (dataSource : String) (order : Any F) : Bool :=
  match order with
  | .map orderMap =>
    let columnName := Obj.stringD orderMap "columnName"
    !((columnName = "id" || columnName = "timestamp") &&
      (dataSource = "traces" || dataSource = "logs"))
  | _ => false

/-- `hasAggregation`. -/
def hasAggregation (queryData : Obj F) : Bool :=
  let aggregateOp := queryData.stringD "aggregateOperator"
  aggregateOp ≠ "" && aggregateOp ≠ "noop"

/-- The order by, and whether it was updated; the flag is `none` where the function returns. -/
def updateOrderBy (aggregation : Bool) (queryData : Obj F) : Obj F × Option Bool :=
  match queryData.list? "orderBy" with
  | none => (queryData, some false)
  | some orderBy =>
    if aggregation then
      match aggregationOrders mc queryData orderBy with
      | (entries, none) => (queryData.set "orderBy" (.list entries), none)
      | (_, some newOrderBy) => (queryData.set "orderBy" (.list newOrderBy), some true)
    else
      (queryData.set "orderBy"
        (.list (orderBy.filter (keepsOrder (queryData.stringD "dataSource")))), some true)

/-! ## Functions -/

/-- An argument without a name. -/
def functionArg (name : String) (value : Any F) : Any F :=
  .map [("name", .string name), ("value", value)]

/-- A function of v5. -/
def updateFunction (fn : Any F) : Any F :=
  match fn with
  | .map fnMap =>
    let v5Function : Obj F := [("name", Obj.getAny fnMap "name")]
    let v5Function : Obj F :=
      match Obj.list? fnMap "args" with
      | some args => v5Function.set "args" (.list (args.map (functionArg "")))
      | none => v5Function
    let v5Function : Obj F :=
      match Obj.map? fnMap "namedArgs" with
      | some namedArgs =>
        let existingArgs := (v5Function.list? "args").getD []
        v5Function.set "args"
          (.list (existingArgs ++ namedArgs.map fun e => functionArg e.1 e.2))
      | none => v5Function
    .map v5Function
  | _ => .null

def updateFunctions (queryData : Obj F) : Obj F × Bool :=
  match queryData.list? "functions" with
  | some functions => (queryData.set "functions" (.list (functions.map updateFunction)), true)
  | none => (queryData, false)

/-! ## The query -/

/-- The keys that are deleted in the end. -/
def deletedKeys : List String :=
  ["aggregateOperator", "aggregateAttribute", "temporality", "timeAggregation", "spaceAggregation",
    "reduceTo", "filters", "ShiftBy", "IsAnomaly", "QueriesUsedInFormula", "seriesAggregation"]

/-- The query after the helpers that come before the order by, and their flag. -/
def beforeOrderBy (queryData : Obj F) (version widgetType : String) : Obj F × Bool :=
  let (queryData, aggregated) := createAggregations queryData version widgetType
  let (queryData, filtered) := createFilterExpression mc queryData
  let queryData := fixGroupBy queryData
  let (queryData, hasHaving) := createHavingExpression mc queryData
  (queryData, aggregated || filtered || hasHaving)

/-- `updateQueryData`. -/
def updateQueryData (queryData : Obj F) (version widgetType : String) : Obj F × Bool :=
  let aggregation := hasAggregation queryData
  let (queryData, updated) := beforeOrderBy mc queryData version widgetType
  match updateOrderBy mc aggregation queryData with
  | (queryData, none) => (queryData, false)
  | (queryData, some ordered) =>
    let (queryData, functioned) := updateFunctions queryData
    (deletedKeys.foldl Obj.delete queryData, updated || ordered || functioned)

/-! ## What the flag means -/

/-- A query with an aggregation and no group by, ordered by a column that would have to be in the
group by. -/
def StopsHalfway (queryData : Obj F) : Prop :=
  hasAggregation queryData = true ∧ queryData.list? "groupBy" = none ∧
    ∃ orderBy, queryData.list? "orderBy" = some orderBy ∧
      ∃ orderMap, Any.map orderMap ∈ orderBy ∧
        Obj.stringD orderMap "columnName" ∉ droppedColumns ∧
          Obj.stringD orderMap "columnName" ≠ "#SIGNOZ_VALUE"

/-- The keys of v4 that v5 has others for. -/
def legacyKeys : List String :=
  ["filters", "aggregateOperator", "aggregateAttribute", "timeAggregation", "spaceAggregation",
    "reduceTo"]

/-- None of the keys of v4 is left. -/
def Converted (queryData : Obj F) : Prop := ∀ key ∈ legacyKeys, queryData.get key = none

section Frames

variable {mc} {queryData : Obj F} {version widgetType : String} {key : String}

theorem getAny_fixGroupBy (h : key ≠ "groupBy") :
    (fixGroupBy queryData).getAny key = queryData.getAny key := by
  unfold fixGroupBy
  split
  · exact Obj.getAny_set_of_ne _ _ h
  · rfl

theorem list?_fixGroupBy :
    (fixGroupBy queryData).list? "groupBy" =
      (queryData.list? "groupBy").map fun groupBy => groupBy.map fixGroupByItem := by
  unfold fixGroupBy
  split
  · rename_i groupBy hgroup
    rw [Obj.list?, Obj.getAny_set_self, hgroup]
    rfl
  · rename_i hgroup
    rw [hgroup]
    rfl

theorem getAny_createAggregations (h : key ∉ ["aggregations", "spaceAggregation"]) :
    (createAggregations queryData version widgetType).1.getAny key = queryData.getAny key := by
  simp only [List.mem_cons, List.not_mem_nil, or_false, not_or] at h
  have hmetrics : ∀ attr op, (metricsAggregation queryData attr op version widgetType).1.getAny key =
      queryData.getAny key := by
    intro attr op
    unfold metricsAggregation
    split
    · simp only
      split
      · rfl
      · exact Obj.getAny_set_of_ne _ _ h.2
    · simp only
      split
      · rfl
      · rfl
  unfold createAggregations
  simp only
  split
  · rfl
  · split
    · split
      · exact (Obj.getAny_set_of_ne _ _ h.1).trans (hmetrics _ _)
      · exact Obj.getAny_set_of_ne _ _ h.1
      · exact Obj.getAny_set_of_ne _ _ h.1
      · rfl
    · rfl

theorem getAny_createFilterExpression (h : key ∉ ["filter", "filters", "groupBy"]) :
    (createFilterExpression mc queryData).1.getAny key = queryData.getAny key := by
  simp only [List.mem_cons, List.not_mem_nil, or_false, not_or] at h
  unfold createFilterExpression
  split
  · rfl
  · split
    · rfl
    · rfl
    · simp only
      split
      · rfl
      · rw [Obj.getAny_delete_of_ne _ h.2.1, Obj.getAny_set_of_ne _ _ h.1,
          getAny_fixGroupBy h.2.2]

/-- The helpers fix the entries of the group by, and leave a group by that is no list alone. -/
theorem list?_createFilterExpression :
    (createFilterExpression mc queryData).1.list? "groupBy" = none ↔
      queryData.list? "groupBy" = none := by
  unfold createFilterExpression
  split
  · rfl
  · split
    · rfl
    · rfl
    · simp only
      split
      · rfl
      · rw [Obj.list?, Obj.getAny_delete_of_ne _ (by decide), Obj.getAny_set_of_ne _ _ (by decide),
          ← Obj.list?, list?_fixGroupBy, Option.map_eq_none_iff]

theorem getAny_createHavingExpression (h : key ≠ "having") :
    (createHavingExpression mc queryData).1.getAny key = queryData.getAny key := by
  unfold createHavingExpression
  split
  · exact Obj.getAny_set_of_ne _ _ h
  · exact Obj.getAny_set_of_ne _ _ h
  · exact Obj.getAny_set_of_ne _ _ h

/-- The having of v5 for a query without one. -/
def HasV5Having (queryData : Obj F) : Prop :=
  queryData.getAny "having" = .map [("expression", .string "")]

/-- It always writes a having of v5, and says so. -/
theorem createHavingExpression_spec :
    (createHavingExpression mc queryData).2 = true ∧
      ((createHavingExpression mc queryData).1.getAny "having" = queryData.getAny "having" →
        HasV5Having queryData) := by
  unfold createHavingExpression HasV5Having
  split
  · exact ⟨rfl, fun hsame => hsame.symm.trans (Obj.getAny_set_self _ _ _)⟩
  · exact ⟨rfl, fun hsame => hsame.symm.trans (Obj.getAny_set_self _ _ _)⟩
  · rename_i having _ hlist
    refine ⟨rfl, ?_⟩
    intro hsame
    -- a list is never a map
    rw [Obj.list?, ← hsame, Obj.getAny_set_self] at hlist
    cases hlist

variable (mc queryData version widgetType) in
/-- What the helpers before the order by leave. -/
theorem beforeOrderBy_spec :
    (beforeOrderBy mc queryData version widgetType).2 = true ∧
      (∀ key, key ∈ ["orderBy", "aggregateOperator"] →
        (beforeOrderBy mc queryData version widgetType).1.getAny key = queryData.getAny key) ∧
      ((beforeOrderBy mc queryData version widgetType).1.list? "groupBy" = none ↔
        queryData.list? "groupBy" = none) ∧
      ((beforeOrderBy mc queryData version widgetType).1.getAny "having" =
        queryData.getAny "having" → HasV5Having queryData) := by
  unfold beforeOrderBy
  simp only
  have hbefore : ∀ key, key ∈ ["orderBy", "aggregateOperator", "having"] →
      (fixGroupBy (createFilterExpression mc
        (createAggregations queryData version widgetType).1).1).getAny key =
          queryData.getAny key := by
    intro key hkey
    simp only [List.mem_cons, List.not_mem_nil, or_false] at hkey
    rw [getAny_fixGroupBy (by rcases hkey with rfl | rfl | rfl <;> decide),
      getAny_createFilterExpression (by rcases hkey with rfl | rfl | rfl <;> decide),
      getAny_createAggregations (by rcases hkey with rfl | rfl | rfl <;> decide)]
  refine ⟨?_, ?_, ?_, ?_⟩
  · rw [createHavingExpression_spec.1, Bool.or_true]
  · intro key hkey
    rw [getAny_createHavingExpression (by rcases List.mem_pair.1 hkey with rfl | rfl <;> decide)]
    apply hbefore
    rcases List.mem_pair.1 hkey with rfl | rfl
    · simp
    · simp
  · rw [Obj.list?, getAny_createHavingExpression (by decide), ← Obj.list?, list?_fixGroupBy,
      Option.map_eq_none_iff, list?_createFilterExpression, Obj.list?,
      getAny_createAggregations (by decide), ← Obj.list?]
  · intro hsame
    have hhaving := hbefore "having" (by simp)
    rw [← hhaving] at hsame
    have hv5 := createHavingExpression_spec.2 hsame
    rw [HasV5Having, hhaving] at hv5
    exact hv5

/-! ## The loop over the order by -/

theorem aggregationOrder_stop {order : Any F} :
    aggregationOrder mc queryData order = .stop ↔
      queryData.list? "groupBy" = none ∧ ∃ orderMap, order = .map orderMap ∧
        Obj.stringD orderMap "columnName" ∉ droppedColumns ∧
          Obj.stringD orderMap "columnName" ≠ "#SIGNOZ_VALUE" := by
  unfold aggregationOrder
  cases order with
  | map orderMap =>
    simp only [Any.map.injEq, exists_eq_left']
    split
    · rename_i hdropped
      simp [List.contains_iff_mem.1 hdropped]
    · rename_i hdropped
      have hkept : Obj.stringD orderMap "columnName" ∉ droppedColumns := fun hmem =>
        hdropped (List.contains_iff_mem.2 hmem)
      split
      · rename_i hvalue
        split
        · simp [hvalue]
        · simp [hvalue]
      · rename_i hvalue
        split
        · rename_i hgroup
          simp [hgroup, hkept, hvalue]
        · rename_i groupBy hgroup
          split
          · simp [hgroup]
          · simp [hgroup]
  | _ => simp

variable (mc queryData) in
/-- The loop returns exactly when it comes to an entry that stops it. -/
theorem aggregationOrders_none (orderBy : List (Any F)) :
    (aggregationOrders mc queryData orderBy).2 = none ↔
      ∃ order ∈ orderBy, aggregationOrder mc queryData order = .stop := by
  induction orderBy with
  | nil => simp [aggregationOrders]
  | cons order rest ih =>
    unfold aggregationOrders
    cases hentry : aggregationOrder mc queryData order with
    | stop => simp [hentry]
    | drop => simp [hentry, ih]
    | keep orderMap => simp [hentry, ih]

variable (mc queryData version widgetType) in
/-- The query stops in the order by exactly when it stops halfway. -/
theorem updateOrderBy_none :
    (updateOrderBy mc (hasAggregation queryData)
      (beforeOrderBy mc queryData version widgetType).1).2 = none ↔ StopsHalfway queryData := by
  obtain ⟨-, hsame, hgroup, -⟩ := beforeOrderBy_spec mc queryData version widgetType
  have horder : (beforeOrderBy mc queryData version widgetType).1.list? "orderBy" =
      queryData.list? "orderBy" := by
    rw [Obj.list?, hsame "orderBy" (by simp), ← Obj.list?]
  unfold updateOrderBy StopsHalfway
  rw [horder]
  cases hlist : queryData.list? "orderBy" with
  | none => simp
  | some orderBy =>
    cases haggregation : hasAggregation queryData with
    | false => simp
    | true =>
      have hstop := aggregationOrders_none mc
        (beforeOrderBy mc queryData version widgetType).1 orderBy
      simp only [aggregationOrder_stop, hgroup] at hstop
      simp only [if_true, true_and, Option.some.injEq, exists_eq_left']
      constructor
      · intro hnone
        split at hnone
        · rename_i entries hloop
          rw [hloop] at hstop
          obtain ⟨order, horder_mem, hgroup_none, orderMap, rfl, hcolumn⟩ := hstop.1 rfl
          exact ⟨hgroup_none, orderMap, horder_mem, hcolumn⟩
        · cases hnone
      · rintro ⟨hgroup_none, orderMap, horder_mem, hcolumn⟩
        have hloop := hstop.2 ⟨_, horder_mem, hgroup_none, orderMap, rfl, hcolumn⟩
        split
        · rfl
        · rename_i heq
          rw [heq] at hloop
          cases hloop

theorem getAny_updateOrderBy {aggregation : Bool} (h : key ≠ "orderBy") :
    (updateOrderBy mc aggregation queryData).1.getAny key = queryData.getAny key := by
  unfold updateOrderBy
  split
  · rfl
  · split
    · split
      · exact Obj.getAny_set_of_ne _ _ h
      · exact Obj.getAny_set_of_ne _ _ h
    · exact Obj.getAny_set_of_ne _ _ h

theorem get_foldl_delete {keys : List String} {m : Obj F} (h : key ∈ keys ∨ m.get key = none) :
   (keys.foldl Obj.delete m).get key = none := by
  induction keys generalizing m with
  | nil => simpa using h
  | cons k keys ih =>
    apply ih
    by_cases hkey : key = k
    · rw [hkey]
      exact .inr (Obj.get_delete_self m k)
    · rcases h with hmem | hnone
      · exact .inl ((List.mem_cons.1 hmem).resolve_left hkey)
      · exact .inr (Obj.get_delete_none hnone)

variable (mc version widgetType) in
/-- A query that does not stop halfway is converted, and the flag is set. -/
theorem updateQueryData_finishes (h : ¬ StopsHalfway queryData) :
    (updateQueryData mc queryData version widgetType).2 = true ∧
      Converted (updateQueryData mc queryData version widgetType).1 := by
  have hbefore := (beforeOrderBy_spec mc queryData version widgetType).1
  have hsome := mt (updateOrderBy_none mc queryData version widgetType).1 h
  unfold updateQueryData
  simp only
  split
  · rename_i hnone
    rw [hnone] at hsome
    exact absurd rfl hsome
  · rw [hbefore]
    refine ⟨rfl, ?_⟩
    intro key hkey
    apply get_foldl_delete
    left
    revert key
    decide

variable (mc version widgetType) in
/-- A query that stops halfway keeps its operator, the flag is not set, and all that may be as it
was is a having of v5. -/
theorem updateQueryData_stops (h : StopsHalfway queryData) :
    (updateQueryData mc queryData version widgetType).2 = false ∧
      ¬ Converted (updateQueryData mc queryData version widgetType).1 ∧
      ((updateQueryData mc queryData version widgetType).1 = queryData →
        HasV5Having queryData) := by
  obtain ⟨-, hsame, -, hhaving⟩ := beforeOrderBy_spec mc queryData version widgetType
  have hresult : updateQueryData mc queryData version widgetType =
      ((updateOrderBy mc (hasAggregation queryData)
        (beforeOrderBy mc queryData version widgetType).1).1, false) := by
    have hnone := (updateOrderBy_none mc queryData version widgetType).2 h
    unfold updateQueryData
    simp only
    split
    · rename_i heq
      rw [heq]
    · rename_i heq
      rw [heq] at hnone
      cases hnone
  rw [hresult]
  refine ⟨rfl, ?_, ?_⟩
  · intro hconverted
    have hgone := hconverted "aggregateOperator" (by decide)
    have hkept : (updateOrderBy mc (hasAggregation queryData)
        (beforeOrderBy mc queryData version widgetType).1).1.getAny "aggregateOperator" =
          queryData.getAny "aggregateOperator" :=
      (getAny_updateOrderBy (by decide)).trans (hsame _ (by simp))
    rw [Obj.getAny, hgone] at hkept
    have haggregation := h.1
    rw [hasAggregation, Obj.stringD, Obj.string?, ← hkept] at haggregation
    simp [Any.string?] at haggregation
  · intro heq
    apply hhaving
    have hkept : (updateOrderBy mc (hasAggregation queryData)
        (beforeOrderBy mc queryData version widgetType).1).1.getAny "having" =
          (beforeOrderBy mc queryData version widgetType).1.getAny "having" :=
      getAny_updateOrderBy (by decide)
    exact hkept.symm.trans (congrArg (fun q : Obj F => q.getAny "having") heq)

end Frames

end Signoz.Transition
