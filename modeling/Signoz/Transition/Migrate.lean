import Signoz.Transition.QueryData

/-!
# The v4 to v5 migration of stored objects

`Migrate` of rules, dashboards and saved views (`migrate_alert.go`, `migrate_dashboard.go`,
`migrate_saved_view.go`). Callers store the object only when `Migrate` returns true. A `Visit` is a
query map that `Migrate` hands to `updateQueryData`; `none` is a panic.

`migrate_never_halfway` says when the returned flag tells the truth.
-/

namespace Signoz.Transition

variable {F : Type} (mc : MigrateCommon F)

/-! ## The envelope -/

/-- `if v, ok := queryMap[key]; ok { v5Query[as] = v }`. -/
def copyKey (queryMap : Obj F) (key : String) (v5Query : Obj F) : Obj F :=
  match queryMap.get key with
  | some v => v5Query.set key v
  | none => v5Query

/-- A list of maps, each turned into another; what is no map becomes `nil`. -/
def copyList (queryMap : Obj F) (key as : String) (f : Obj F → Any F) (v5Query : Obj F) : Obj F :=
  match queryMap.list? key with
  | some l =>
    v5Query.set as (.list (l.map fun item =>
      match item.map? with
      | some m => f m
      | none => .null))
  | none => v5Query

/-- A field of v5, with its name under another key. -/
def v5Field (nameKey : String) (m : Obj F) : Any F :=
  .map [("name", m.getAny nameKey), ("fieldDataType", m.getAny "dataType"),
    ("fieldContext", m.getAny "type")]

/-- An order of v5. -/
def v5Order (m : Obj F) : Any F :=
  .map [("key", v5Field "columnName" m), ("direction", m.getAny "order")]

/-- `WrapInV5Envelope`. -/
def wrapInV5Envelope (name : String) (queryMap : Obj F) (queryType : String) : Any F :=
  let v5Query : Obj F :=
    [("name", .string name), ("disabled", queryMap.getAny "disabled"),
      ("legend", queryMap.getAny "legend")]
  if queryMap.string? "expression" ≠ some name then
    -- formula
    let v5Query := v5Query.set "expression" (queryMap.getAny "expression")
    .map [("type", .string "builder_formula"),
      ("spec", .map (copyKey queryMap "functions" v5Query))]
  else
    let v5Query :=
      match queryMap.stringD "dataSource" with
      | "traces" => v5Query.set "signal" (.string "traces")
      | "logs" => v5Query.set "signal" (.string "logs")
      | "metrics" => v5Query.set "signal" (.string "metrics")
      | _ => v5Query
    let v5Query := copyKey queryMap "stepInterval" v5Query
    let v5Query := copyKey queryMap "aggregations" v5Query
    let v5Query := copyKey queryMap "filter" v5Query
    let v5Query := copyList queryMap "groupBy" "groupBy" (v5Field "key") v5Query
    let v5Query := copyList queryMap "orderBy" "order" v5Order v5Query
    let v5Query := copyList queryMap "selectColumns" "selectFields" (v5Field "key") v5Query
    let v5Query := copyKey queryMap "limit" v5Query
    let v5Query := copyKey queryMap "offset" v5Query
    let v5Query := copyKey queryMap "having" v5Query
    let v5Query := copyKey queryMap "functions" v5Query
    .map [("type", .string queryType), ("spec", .map v5Query)]

/-! ## Visits -/

/-- A call of `updateQueryData`. -/
structure Visit (F : Type) where
  name : String
  queryMap : Obj F
  version : String
  widgetType : String

/-- The query map as `updateQueryData` leaves it. -/
def Visit.after (v : Visit F) : Obj F := (updateQueryData mc v.queryMap v.version v.widgetType).1

/-- What `updateQueryData` returns. -/
def Visit.updated (v : Visit F) : Bool := (updateQueryData mc v.queryMap v.version v.widgetType).2

/-- The entries of a map that are maps. -/
def mapEntries (m : Obj F) : List (String × Obj F) :=
  m.filterMap fun e => e.2.map?.map fun queryMap => (e.1, queryMap)

def visitAll (version widgetType : String) (queries : Obj F) : List (Visit F) :=
  (mapEntries queries).map fun e => ⟨e.1, e.2, version, widgetType⟩

/-- The envelopes of builder queries. -/
def envelopes (visits : List (Visit F)) : List (Any F) :=
  visits.map fun v => wrapInV5Envelope v.name (v.after mc) "builder_query"

/-- What `Migrate` leaves and returns. -/
structure Migration (F : Type) where
  data : Obj F
  updated : Bool

/-! ## Rules -/

/-- The composite query of a rule with its condition, where `Migrate` comes to it. -/
def compositeQuery? (rule : Obj F) : Option (Obj F × Obj F) :=
  if rule.stringD "version" = "v5" then none
  else do
    let condition ← rule.map? "condition"
    let compositeQuery ← condition.map? "compositeQuery"
    some (condition, compositeQuery)

/-- The builder queries that a rule visits. -/
def compositeVisits (version : String) (compositeQuery : Obj F) : List (Visit F) :=
  match compositeQuery.map? "builderQueries" with
  | some builderQueries =>
    if compositeQuery.string? "queryType" = some "builder" then
      visitAll version (compositeQuery.stringD "panelType") builderQueries
    else []
  | none => []

/-- The envelopes of `promQueries` or of `chQueries`. -/
def plainEnvelopes (compositeQuery : Obj F) (key queryType : String) : List (Any F) :=
  match compositeQuery.map? key with
  | some queries =>
    if compositeQuery.string? "queryType" = some queryType then
      (mapEntries queries).map fun e =>
        .map [("type", .string queryType),
          ("spec", .map [("name", .string e.1), ("query", e.2.getAny "query"),
            ("disabled", e.2.getAny "disabled"), ("legend", e.2.getAny "legend")])]
    else []
  | none => []

/-- `compositeQuery["queries"] = append(compositeQuery["queries"].([]any), envelope)` for each. -/
def appendQueries (data : Obj F) : List (Any F) → Option (Obj F)
  | [] => some data
  | envelope :: rest =>
    match data.list? "queries" with
    | some queries => appendQueries (data.set "queries" (.list (queries ++ [envelope]))) rest
    | none => none

/-- `alertMigrateV5.Migrate`. -/
def migrateAlert (rule : Obj F) : Option (Migration F) :=
  match compositeQuery? rule with
  | none => some ⟨rule, false⟩
  | some (condition, compositeQuery) => do
    let initialised :=
      match compositeQuery.getAny "queries" with
      | .null => compositeQuery.set "queries" (.list [])
      | _ => compositeQuery
    let visits := compositeVisits (rule.stringD "version") compositeQuery
    let plain := plainEnvelopes compositeQuery "promQueries" "promql" ++
      plainEnvelopes compositeQuery "chQueries" "clickhouse_sql"
    let appended ← appendQueries initialised (envelopes mc visits ++ plain)
    let compositeQuery :=
      ((appended.delete "builderQueries").delete "chQueries").delete "promQueries"
    let condition := condition.set "compositeQuery" (.map compositeQuery)
    some ⟨(rule.set "condition" (.map condition)).set "version" (.string "v5"),
      visits.any (Visit.updated mc) || !plain.isEmpty⟩

/-! ## Dashboards -/

/-- The queries of the builder of a widget, where `updateWidget` comes to them. -/
def widgetQueries (widget : Obj F) : Option (List (Any F)) := do
  let query ← widget.map? "query"
  if query.string? "queryType" = some "promql" ∨ query.string? "queryType" = some "clickhouse_sql"
  then none
  else do
    let builder ← query.map? "builder"
    builder.list? "queryData"

/-- The queries that `updateWidget` visits; the panel type has to be a string. -/
def widgetVisits (version : String) (widget : Obj F) : List (Visit F) :=
  match widgetQueries widget, widget.string? "panelTypes" with
  | some queryData, some widgetType =>
    (queryData.filterMap Any.map?).map fun queryMap => ⟨"", queryMap, version, widgetType⟩
  | _, _ => []

/-- `updateWidget`. -/
def updateWidget (version : String) (widget : Obj F) : Option (Obj F × Bool) :=
  match widgetQueries widget with
  | none => some (widget, false)
  | some queryData => do
    let widgetType ← widget.string? "panelTypes"
    let queryData := queryData.map fun qd =>
      match qd.map? with
      | some queryMap => .map (updateQueryData mc queryMap version widgetType).1
      | none => qd
    let query ← widget.map? "query"
    let builder ← query.map? "builder"
    let builder := builder.set "queryData" (.list queryData)
    some (widget.set "query" (.map (query.set "builder" (.map builder))),
      (widgetVisits version widget).any (Visit.updated mc))

/-- The loop over the widgets. -/
def updateWidgets (version : String) : List (Any F) → Option (List (Any F) × Bool)
  | [] => some ([], false)
  | widget :: rest =>
    match widget.map? with
    | none => do
      let (widgets, updated) ← updateWidgets version rest
      some (widget :: widgets, updated)
    | some widgetMap => do
      let (first, firstUpdated) ← updateWidget mc version widgetMap
      let (widgets, updated) ← updateWidgets version rest
      some (.map first :: widgets, firstUpdated || updated)

/-- A variable without the blanks of its name, and whether it had any. -/
def updateVariable (variable_ : Any F) : Any F × Bool :=
  match variable_ with
  | .map varMap =>
    match Obj.string? varMap "name" with
    | some name =>
      if name.toList.contains ' ' then
        (.map (Obj.set varMap "name" (.string (String.ofList (name.toList.filter (· ≠ ' '))))),
          true)
      else (variable_, false)
    | none => (variable_, false)
  | _ => (variable_, false)

/-- The dashboard with the blanks of the names of its variables gone, and whether there were any. -/
def renameVariables (dashboard : Obj F) : Obj F × Bool :=
  match dashboard.map? "variables" with
  | some vars =>
    (dashboard.set "variables" (.map (vars.map fun e : String × Any F =>
      (e.1, (updateVariable e.2).1))), vars.any fun e : String × Any F => (updateVariable e.2).2)
  | none => (dashboard, false)

/-- `dashboardMigrateV5.Migrate`. -/
def migrateDashboard (dashboard : Obj F) : Option (Migration F) :=
  let version := dashboard.stringD "version"
  if version = "v5" then some ⟨dashboard, false⟩
  else
    let (dashboard, renamed) := renameVariables dashboard
    match dashboard.list? "widgets" with
    | some widgets => do
      let (widgets, updated) ← updateWidgets mc version widgets
      some ⟨(dashboard.set "widgets" (.list widgets)).set "version" (.string "v5"),
        renamed || updated⟩
    | none => some ⟨dashboard.set "version" (.string "v5"), renamed⟩

/-! ## Saved views -/

/-- The builder queries that a saved view visits. -/
def savedViewVisits (data : Obj F) : List (Visit F) :=
  match data.map? "builderQueries" with
  | some builderQueries => visitAll "v4" (data.stringD "panelType") builderQueries
  | none => []

/-- `savedViewMigrateV5.Migrate`. -/
def migrateSavedView (data : Obj F) : Option (Migration F) :=
  if data.stringD "version" = "v5" then some ⟨data, false⟩
  else do
    let visits := savedViewVisits data
    let data := data.set "queries" (.list [])
    let data ← appendQueries data (envelopes mc visits)
    some ⟨(data.delete "builderQueries").set "version" (.string "v5"),
      visits.any (Visit.updated mc)⟩

/-! ## Every object -/

/-- The kinds of objects that are migrated. -/
inductive Stored where
  | rule
  | dashboard
  | savedView

/-- `Migrate`. -/
def migrate : Stored → Obj F → Option (Migration F)
  | .rule => migrateAlert mc
  | .dashboard => migrateDashboard mc
  | .savedView => migrateSavedView mc

/-- The query maps that `Migrate` visits. -/
def visits : Stored → Obj F → List (Visit F)
  | .rule, data =>
    match compositeQuery? data with
    | some (_, compositeQuery) => compositeVisits (data.stringD "version") compositeQuery
    | none => []
  | .dashboard, data =>
    if data.stringD "version" = "v5" then []
    else
      match data.list? "widgets" with
      | some widgets =>
        (widgets.filterMap Any.map?).flatMap (widgetVisits (data.stringD "version"))
      | none => []
  | .savedView, data => if data.stringD "version" = "v5" then [] else savedViewVisits data

/-- If `Migrate` returns false then no query map is other than before, and if one is then it returns
true and every query map that it visited is converted. -/
def NeverHalfway (kind : Stored) (data : Obj F) (m : Migration F) : Prop :=
  (m.updated = false → ∀ v ∈ visits kind data, v.after mc = v.queryMap) ∧
    ((∃ v ∈ visits kind data, v.after mc ≠ v.queryMap) →
      m.updated = true ∧ ∀ v ∈ visits kind data, Converted (v.after mc))

variable {mc}

theorem updateWidget_updated {version : String} {widget widget' : Obj F} {updated : Bool}
    (h : updateWidget mc version widget = some (widget', updated)) {v : Visit F}
    (hv : v ∈ widgetVisits version widget) (hupdated : v.updated mc = true) : updated = true := by
  have hany : (widgetVisits version widget).any (Visit.updated mc) = true :=
    List.any_eq_true.2 ⟨v, hv, hupdated⟩
  unfold updateWidget at h
  split at h
  · rename_i hnone
    simp [widgetVisits, hnone] at hv
  · simp only [Option.bind_eq_bind, Option.bind_eq_some_iff, Option.some.injEq] at h
    obtain ⟨_, _, _, _, _, _, heq⟩ := h
    exact (Prod.mk.inj heq).2.symm.trans hany

theorem updateWidgets_updated {version : String} {widgets widgets' : List (Any F)} {updated : Bool}
    (h : updateWidgets mc version widgets = some (widgets', updated)) {v : Visit F}
    (hv : v ∈ (widgets.filterMap Any.map?).flatMap (widgetVisits version))
    (hupdated : v.updated mc = true) : updated = true := by
  induction widgets generalizing widgets' updated with
  | nil => simp at hv
  | cons widget rest ih =>
    unfold updateWidgets at h
    cases hmap : widget.map? with
    | none =>
      simp only [hmap, Option.bind_eq_bind, Option.bind_eq_some_iff, Option.some.injEq,
        Prod.exists] at h
      obtain ⟨widgets'', updated', hrest, heq⟩ := h
      rw [List.filterMap_cons_none hmap] at hv
      rw [← (Prod.mk.inj heq).2]
      exact ih hrest hv
    | some widgetMap =>
      simp only [hmap, Option.bind_eq_bind, Option.bind_eq_some_iff, Option.some.injEq,
        Prod.exists] at h
      obtain ⟨first, firstUpdated, hfirst, widgets'', updated', hrest, heq⟩ := h
      rw [List.filterMap_cons_some hmap, List.flatMap_cons, List.mem_append] at hv
      rw [← (Prod.mk.inj heq).2, Bool.or_eq_true]
      rcases hv with hv | hv
      · exact .inl (updateWidget_updated hfirst hv hupdated)
      · exact .inr (ih hrest hv)

theorem list?_renameVariables (dashboard : Obj F) :
    (renameVariables dashboard).1.list? "widgets" = dashboard.list? "widgets" := by
  unfold renameVariables
  split
  · rw [Obj.list?, Obj.getAny_set_of_ne _ _ (by decide), ← Obj.list?]
  · rfl

/-- A visit that reports a change is reported by `Migrate`. -/
theorem migrate_updated {kind : Stored} {data : Obj F} {m : Migration F}
    (h : migrate mc kind data = some m) {v : Visit F} (hv : v ∈ visits kind data)
    (hupdated : v.updated mc = true) : m.updated = true := by
  cases kind with
  | rule =>
    simp only [migrate, migrateAlert] at h
    simp only [visits] at hv
    split at h
    · rename_i hnone
      simp [hnone] at hv
    · rename_i condition compositeQuery hsome
      rw [hsome] at hv
      simp only [Option.bind_eq_bind, Option.bind_eq_some_iff, Option.some.injEq] at h
      obtain ⟨_, _, rfl⟩ := h
      simp only [Bool.or_eq_true]
      exact .inl (List.any_eq_true.2 ⟨v, hv, hupdated⟩)
  | dashboard =>
    simp only [migrate, migrateDashboard] at h
    simp only [visits] at hv
    split at h
    · rename_i hv5
      simp [hv5] at hv
    · rename_i hv5
      rw [if_neg hv5, ← list?_renameVariables] at hv
      cases hwidgets : (renameVariables data).1.list? "widgets" with
      | none => simp [hwidgets] at hv
      | some widgets =>
        simp only [hwidgets, Option.bind_eq_bind, Option.bind_eq_some_iff, Option.some.injEq,
          Prod.exists] at h hv
        obtain ⟨widgets', updated, hrest, rfl⟩ := h
        simp only [Bool.or_eq_true]
        exact .inr (updateWidgets_updated hrest hv hupdated)
  | savedView =>
    simp only [migrate, migrateSavedView] at h
    simp only [visits] at hv
    split at h
    · rename_i hv5
      simp [hv5] at hv
    · rename_i hv5
      rw [if_neg hv5] at hv
      simp only [Option.bind_eq_bind, Option.bind_eq_some_iff, Option.some.injEq] at h
      obtain ⟨_, _, rfl⟩ := h
      exact List.any_eq_true.2 ⟨v, hv, hupdated⟩

/-- Where no visited query stops halfway the flag tells the truth, and a query that stops halfway
makes it lie unless it had the having of v5 already. -/
theorem migrate_never_halfway (mc : MigrateCommon F) (kind : Stored) (data : Obj F)
    (m : Migration F) (h : migrate mc kind data = some m) :
    ((∀ v ∈ visits kind data, ¬ StopsHalfway v.queryMap) → NeverHalfway mc kind data m) ∧
      (NeverHalfway mc kind data m →
        ∀ v ∈ visits kind data, StopsHalfway v.queryMap → HasV5Having v.queryMap) := by
  constructor
  · intro hnone
    have hfinishes : ∀ v ∈ visits kind data, v.updated mc = true ∧ Converted (v.after mc) :=
      fun v hv => updateQueryData_finishes mc v.version v.widgetType (hnone v hv)
    constructor
    · intro hfalse v hv
      have htrue := migrate_updated h hv (hfinishes v hv).1
      rw [hfalse] at htrue
      cases htrue
    · rintro ⟨v, hv, -⟩
      exact ⟨migrate_updated h hv (hfinishes v hv).1, fun v' hv' => (hfinishes v' hv').2⟩
  · rintro ⟨-, hchanged⟩ v hv hstops
    obtain ⟨-, hleft, hsame⟩ := updateQueryData_stops mc v.version v.widgetType hstops
    by_cases heq : v.after mc = v.queryMap
    · exact hsame heq
    · exact absurd ((hchanged ⟨v, hv, heq⟩).2 v hv) hleft

/-! ## Two rules -/

/-- `fmt` for whole numbers and strings. -/
def sampleFmt : Fmt Nat where
  sprintV
    | .number x => toString x
    | .string s => s
    | _ => "<nil>"
  sprintS
    | .string s => s
    | _ => "%!s(<nil>)"
  scansFloat s := (s.toList.head?.map Char.isDigit).getD false

def sampleMigration : MigrateCommon Nat := ⟨[], sampleFmt⟩

/-- A count of logs, ordered by the service. -/
def countByService (groupBy : Any Nat) : Obj Nat :=
  [("dataSource", .string "logs"), ("expression", .string "A"),
    ("aggregateOperator", .string "count"), ("aggregateAttribute", .map [("key", .string "")]),
    ("groupBy", groupBy),
    ("orderBy", .list [.map [("columnName", .string "service.name"), ("order", .string "desc")]])]

def sampleRule (groupBy : Any Nat) : Obj Nat :=
  [("version", .string "v4"),
    ("condition", .map [("compositeQuery", .map [("queryType", .string "builder"),
      ("panelType", .string "graph"), ("builderQueries", .map [("A", .map (countByService groupBy))])])])]

/-- With the service in the group by the query is converted. -/
theorem grouped_rule_converted :
    ∃ m, migrate sampleMigration .rule
        (sampleRule (.list [.map [("key", .string "service.name")]])) = some m ∧
      NeverHalfway sampleMigration .rule
        (sampleRule (.list [.map [("key", .string "service.name")]])) m := by
  refine ⟨_, rfl, (migrate_never_halfway sampleMigration .rule _ _ rfl).1 ?_⟩
  rintro v hv ⟨-, hgroup, -⟩
  obtain rfl := List.mem_singleton.1 hv
  cases hgroup

/-- Without a group by `Migrate` returns false, and the query has been given its aggregations. -/
theorem ungrouped_rule_halfway :
    ∃ m, migrate sampleMigration .rule (sampleRule .null) = some m ∧
      ¬ NeverHalfway sampleMigration .rule (sampleRule .null) m := by
  refine ⟨_, rfl, ?_⟩
  rintro ⟨hsame, -⟩
  have hquery := hsame rfl ⟨"A", countByService .null, "v4", "graph"⟩ List.mem_cons_self
  have hfield := congrArg (fun q : Obj Nat => (q.get "aggregations").isSome) hquery
  cases hfield

end Signoz.Transition
