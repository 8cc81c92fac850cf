import Signoz.Querier.FormulaIndex
import Signoz.Querier.FormulaOrder
import Signoz.Querier.FormulaStep

/-!
# A formula of a request with a variable indexed

Besides the evaluation, two steps depend on the variables of a formula. `StepIntervalForQuery` looks
each up by its whole text, so the first aggregation of a query has another step than the query
(`stepIntervalForQuery_withExpression_iff`); `calculateFormulaStep` takes the part before the dot
and has the same step for both (`calculateFormulaStep_indexed`). A formula is the same with a
variable replaced by its first aggregation exactly when the defaults and the steps that are looked
up by the text agree (`sameFormula_indexed_iff`).
-/

namespace Signoz.Querier

open Lib.KeyedFold

/-! ## The request -/

section

variable {V : Type}

/-- Another expression for a formula of the given name. -/
def QuerySpec.withExpression (name expression : String) : QuerySpec V → QuerySpec V
  | .formula f => .formula (if f.name = name then { f with expression := expression } else f)
  | q => q

/-- The request with another expression for the formulas of a name. -/
def QueryRangeRequest.withExpression (req : QueryRangeRequest V) (name expression : String) :
    QueryRangeRequest V :=
  { req with queries := req.queries.map (QuerySpec.withExpression name expression) }

theorem stepsMap_withExpression (req : QueryRangeRequest V) (name expression : String) :
    (req.withExpression name expression).stepsMap = req.stepsMap := by
  rw [QueryRangeRequest.stepsMap, QueryRangeRequest.stepsMap, QueryRangeRequest.withExpression,
    List.filterMap_map]
  congr 1
  refine List.filterMap_congr fun q _ => ?_
  cases q <;> rfl

theorem queriesSupportingZeroDefault_withExpression (req : QueryRangeRequest V)
    (name expression : String) (toLower : Char → Char) :
    (req.withExpression name expression).queriesSupportingZeroDefault toLower =
      req.queriesSupportingZeroDefault toLower := by
  rw [QueryRangeRequest.queriesSupportingZeroDefault,
    QueryRangeRequest.queriesSupportingZeroDefault, QueryRangeRequest.withExpression,
    List.filterMap_map]
  congr 1
  refine List.filterMap_congr fun q _ => ?_
  cases q <;> rfl

theorem getQueryInfo_withExpression (name expression : String) (q : QuerySpec V) :
    getQueryInfo (q.withExpression name expression) = getQueryInfo q := by
  cases q with
  | formula f =>
    rw [QuerySpec.withExpression, getQueryInfo, getQueryInfo]
    split <;> rfl
  | builder _ _ => rfl
  | traceOperator _ => rfl
  | prom _ _ _ => rfl
  | clickHouse _ _ => rfl
  | join => rfl

/-- The greatest common divisor is taken over the same queries. -/
theorem calculateFormulaStep_withExpression (req : QueryRangeRequest V) (env : Environment V)
    (name expression e : String) :
    (req.withExpression name expression).calculateFormulaStep env e =
      req.calculateFormulaStep env e := by
  rw [QueryRangeRequest.calculateFormulaStep, QueryRangeRequest.calculateFormulaStep]
  cases env.varsWithoutFunctions e with
  | none => rfl
  | some variableNames =>
    simp only [QueryRangeRequest.withExpression, List.filter_map, List.map_map,
      Function.comp_def, getQueryInfo_withExpression]

/-- The formulas of a request, with their names. -/
def QuerySpec.formulaItem : QuerySpec V → Option (String × QueryBuilderFormula V)
  | .formula f => some (f.name, f)
  | _ => none

/-- What `expressionOf` does with a query. -/
def expressionStep (name exprStr : String) (q : QuerySpec V) : String :=
  match q with
  | .formula f => if f.name = name then f.expression else exprStr
  | _ => exprStr

/-- The expression is that of the last formula of the name. -/
theorem foldl_expressionStep (name : String) : ∀ (queries : List (QuerySpec V)) (exprStr : String),
    queries.foldl (expressionStep name) exprStr =
      ((itemsOf name (queries.filterMap QuerySpec.formulaItem)).getLast?.map
        QueryBuilderFormula.expression).getD exprStr := by
  intro queries
  induction queries with
  | nil => intro exprStr; rfl
  | cons q queries ih =>
    intro exprStr
    rw [List.foldl_cons, ih]
    cases q with
    | formula f =>
      rw [expressionStep, List.filterMap_cons]
      simp only [QuerySpec.formulaItem, itemsOf_cons]
      by_cases hname : f.name = name
      · rw [if_pos hname, if_pos hname, List.getLast?_cons]
        cases (itemsOf name (queries.filterMap QuerySpec.formulaItem)).getLast? <;> rfl
      · rw [if_neg hname, if_neg hname]
    | builder _ _ => rfl
    | traceOperator _ => rfl
    | prom _ _ _ => rfl
    | clickHouse _ _ => rfl
    | join => rfl

theorem lookup_formulaQueries (req : QueryRangeRequest V) (name : String) :
    req.formulaQueries.lookup name =
      (itemsOf name (req.queries.filterMap QuerySpec.formulaItem)).getLast? := by
  have hqueries : req.formulaQueries = accumulate id (fun _ formula => formula) []
      (req.queries.filterMap QuerySpec.formulaItem) := by
    rw [QueryRangeRequest.formulaQueries]
    congr 1
  rw [hqueries, lookup_accumulate, List.lookup_nil, foldItems_replace_eq_getLast?]

theorem expressionOf_eq (req : QueryRangeRequest V) (name : String) :
    req.expressionOf name =
      ((req.formulaQueries.lookup name).map QueryBuilderFormula.expression).getD "" := by
  rw [lookup_formulaQueries]
  exact foldl_expressionStep name req.queries ""

/-- A formula of the name has the other expression. -/
theorem expressionOf_withExpression {req : QueryRangeRequest V} {name : String}
    {formula : QueryBuilderFormula V} (h : req.formulaQueries.lookup name = some formula)
    (expression : String) :
    (req.withExpression name expression).expressionOf name = expression := by
  have hitems : itemsOf name ((req.withExpression name expression).queries.filterMap
      QuerySpec.formulaItem) = (itemsOf name (req.queries.filterMap QuerySpec.formulaItem)).map
        fun f => { f with expression := expression } := by
    rw [QueryRangeRequest.withExpression]
    generalize req.queries = queries
    induction queries with
    | nil => rfl
    | cons q queries ih =>
      rw [List.map_cons, List.filterMap_cons, List.filterMap_cons]
      cases q with
      | formula f =>
        by_cases hname : f.name = name
        · simp only [QuerySpec.withExpression, QuerySpec.formulaItem, if_pos hname,
            itemsOf_cons, List.map_cons, ih]
        · simp only [QuerySpec.withExpression, QuerySpec.formulaItem, if_neg hname,
            itemsOf_cons, ih]
      | builder _ _ => exact ih
      | traceOperator _ => exact ih
      | prom _ _ _ => exact ih
      | clickHouse _ _ => exact ih
      | join => exact ih
  rw [lookup_formulaQueries] at h
  rw [expressionOf_eq, lookup_formulaQueries, hitems, List.getLast?_map, h]
  rfl

/-! ## The steps -/

/-- The step is that of a query with the name of the formula, or the steps of the variables combine
to the same: two zeros divide by zero, and otherwise the least common multiple counts. -/
def QueryRangeRequest.StepsAgree (req : QueryRangeRequest V) (name : String)
    (vars vars' : List String) : Prop :=
  (req.stepsMap.lookup name).isSome ∨
    ((2 ≤ (vars.map req.variableStep).count 0 ↔ 2 ≤ (vars'.map req.variableStep).count 0) ∧
      ((vars.map req.variableStep).count 0 < 2 →
        stepsLcm (vars.map req.variableStep) = stepsLcm (vars'.map req.variableStep)))

instance (req : QueryRangeRequest V) (name : String) (vars vars' : List String) :
    Decidable (req.StepsAgree name vars vars') :=
  inferInstanceAs (Decidable (_ ∨ ((_ ↔ _) ∧ (_ → _))))

variable {req : QueryRangeRequest V} {env : Environment V} {formula : QueryBuilderFormula V}
  {vars : List String} {x expression' : String}

theorem variableStep_withExpression (name expression : String) :
    (req.withExpression name expression).variableStep = req.variableStep := by
  funext v
  rw [QueryRangeRequest.variableStep, QueryRangeRequest.variableStep, stepsMap_withExpression]

/-- The step to fill gaps with is the same exactly when the steps agree. -/
theorem stepIntervalForQuery_withExpression_iff
    (hformula : req.formulaQueries.lookup formula.name = some formula)
    (hvars : env.lib.vars formula.expression = some vars)
    (hvars' : env.lib.vars expression' = some (vars.map (indexed x)))
    (hfit : req.stepsMap.lookup formula.name = none → productsFit 1 (vars.map req.variableStep) ∧
      productsFit 1 ((vars.map (indexed x)).map req.variableStep)) :
    (req.withExpression formula.name expression').stepIntervalForQuery env formula.name =
        req.stepIntervalForQuery env formula.name ↔
      req.StepsAgree formula.name vars (vars.map (indexed x)) := by
  cases hname : req.stepsMap.lookup formula.name with
  | some step =>
    rw [QueryRangeRequest.stepIntervalForQuery, QueryRangeRequest.stepIntervalForQuery,
      stepsMap_withExpression, hname, QueryRangeRequest.StepsAgree, hname]
    simp
  | none =>
    obtain ⟨hfits, hfits'⟩ := hfit hname
    have hexpression : req.expressionOf formula.name = formula.expression := by
      rw [expressionOf_eq, hformula]
      rfl
    have hstep := @stepIntervalForQuery_of_formula _ _ env _ _ hname (by rw [hexpression, hvars])
    have hname' : (req.withExpression formula.name expression').stepsMap.lookup formula.name =
        none := by rw [stepsMap_withExpression, hname]
    have hstep' := @stepIntervalForQuery_of_formula _ _ env _ _ hname'
      (by rw [expressionOf_withExpression hformula, hvars'])
    rw [variableStep_withExpression] at hstep'
    rw [hstep, hstep', lcmList_eq_of_fits hfits, lcmList_eq_of_fits hfits',
      QueryRangeRequest.StepsAgree, hname]
    generalize vars.map req.variableStep = steps
    generalize (vars.map (indexed x)).map req.variableStep = steps'
    by_cases htwo : 2 ≤ steps.count 0
    · by_cases htwo' : 2 ≤ steps'.count 0
      · simp [htwo, htwo', Nat.not_lt.2 htwo]
      · simp [htwo, htwo']
    · by_cases htwo' : 2 ≤ steps'.count 0
      · simp [htwo, htwo']
      · rw [if_neg htwo, if_neg htwo', Except.ok.injEq, Int.natCast_inj]
        simp [htwo, htwo', Nat.lt_of_not_le htwo, eq_comm]

/-- The step of the functions of a formula does not depend on how its queries are indexed. -/
theorem calculateFormulaStep_indexed (hdots : splitDots x = [x])
    (hreplaced : env.varsWithoutFunctions expression' =
      (env.varsWithoutFunctions formula.expression).map (List.map (indexed x))) :
    req.calculateFormulaStep env expression' = req.calculateFormulaStep env formula.expression := by
  have hhead : ∀ v, (splitDots (indexed x v)).head? = (splitDots v).head? := by
    intro v
    by_cases hvx : v = x
    · rw [hvx, indexed_self, splitDots_index, hdots]
      rfl
    · rw [indexed_of_ne hvx]
  rw [QueryRangeRequest.calculateFormulaStep, QueryRangeRequest.calculateFormulaStep, hreplaced]
  cases env.varsWithoutFunctions formula.expression with
  | none => rfl
  | some variableNames =>
    simp only [Option.map_some, List.filterMap_map, Function.comp_def, hhead]

end

/-! ## Both together -/

section

variable {V : Type} [Float64 V]

/-- The series of a formula, if its evaluator can be made. -/
def formulaSeries (env : Environment V) (req : QueryRangeRequest V)
    (timeSeriesData : List (String × TimeSeriesData V)) (formula : QueryBuilderFormula V) :
    Option (List (TimeSeries V)) :=
  (evaluatorOf env req formula).map fun fe =>
    fe.evaluateFormula env.lib env.simpleFold timeSeriesData

/-- A formula and its request, and those with another expression, have the same result, the same
step to fill gaps with, and the same step for the functions of the formula. -/
structure SameFormula (env : Environment V) (req : QueryRangeRequest V)
    (timeSeriesData : List (String × TimeSeriesData V)) (formula : QueryBuilderFormula V)
    (expression' : String) : Prop where
  series : formulaSeries env (req.withExpression formula.name expression') timeSeriesData
    { formula with expression := expression' } = formulaSeries env req timeSeriesData formula
  fillStep : (req.withExpression formula.name expression').stepIntervalForQuery env formula.name =
    req.stepIntervalForQuery env formula.name
  functionStep :
    (req.withExpression formula.name expression').calculateFormulaStep env expression' =
      req.calculateFormulaStep env formula.expression

/-- The first aggregation stands for zero in the place of a variable: its text may default, and both
together occur once. -/
def FormulaEvaluator.IndexStandsForZero {V : Type} (fe : FormulaEvaluator) (env : Environment V)
    (req : QueryRangeRequest V) (x : String) : Prop :=
  (lookupFold env.simpleFold (req.queriesSupportingZeroDefault env.toLower)
    (x ++ ".0")).getD false = true ∧ fe.vars.count x + fe.vars.count (x ++ ".0") < 2

instance {V : Type} (fe : FormulaEvaluator) (env : Environment V) (req : QueryRangeRequest V)
    (x : String) : Decidable (fe.IndexStandsForZero env req x) :=
  inferInstanceAs (Decidable (_ ∧ _))

/-- The variable and its first aggregation stand for zero alike, or at no timestamp of an evaluated
label set it makes a difference: where the variable has no point and all others count, the
expression has no value at zero. -/
def FormulaEvaluator.DefaultsAgree (fe : FormulaEvaluator) (env : Environment V)
    (req : QueryRangeRequest V) (timeSeriesData : List (String × TimeSeriesData V)) (x : String) :
    Prop :=
  (fe.BothStandForZero x ↔ fe.IndexStandsForZero env req x) ∨
    ∀ labels ∈ fe.uniqueLabelSets env.simpleFold timeSeriesData,
      ∀ t ∈ fe.timestampsOf (fe.matchingPoints env.simpleFold timeSeriesData labels),
        (pointAt (fe.matchingPoints env.simpleFold timeSeriesData labels x) t).isSome = false →
          fe.OthersComplete x (fe.matchingPoints env.simpleFold timeSeriesData labels) t →
            fe.valueAtZero env.lib x (fe.matchingPoints env.simpleFold timeSeriesData labels) t =
              none

variable {req : QueryRangeRequest V} {env : Environment V} {formula : QueryBuilderFormula V}
  {timeSeriesData : List (String × TimeSeriesData V)} {fe : FormulaEvaluator}
  {x expression' : String}

/-- The results are the same exactly when the variable is the whole name of a query and the defaults
agree. -/
theorem formulaSeries_indexed_iff (hfe : evaluatorOf env req formula = some fe) (hx : x ∈ fe.vars)
    (hreplaces : env.Replaces x formula.expression expression')
    (hbars : NoBarBetween fe.vars) (hbars' : NoBarBetween (fe.vars.map (indexed x))) :
    formulaSeries env (req.withExpression formula.name expression') timeSeriesData
        { formula with expression := expression' } =
          formulaSeries env req timeSeriesData formula ↔
      splitDots x = [x] ∧ fe.DefaultsAgree env req timeSeriesData x := by
  have hnew : evaluatorOf env (req.withExpression formula.name expression')
      { formula with expression := expression' } = newFormulaEvaluator env.lib env.simpleFold
        expression' (req.queriesSupportingZeroDefault env.toLower) := by
    rw [evaluatorOf, queriesSupportingZeroDefault_withExpression]
  have hsome := newFormulaEvaluator_replaced hfe hx hreplaces.vars
  rw [formulaSeries, formulaSeries, hnew, hfe, ← hsome]
  cases h' : newFormulaEvaluator env.lib env.simpleFold expression'
    (req.queriesSupportingZeroDefault env.toLower) with
  | none => simp
  | some fe' =>
    have hdots := hsome.1 (by rw [h']; rfl)
    have hmem : x ++ ".0" ∈ fe'.vars := by
      rw [vars_replaced hfe hreplaces.vars h']
      exact (mem_map_indexed hx).2 (.inl rfl)
    have hzero : fe'.StandsForZero (x ++ ".0") ↔ fe.IndexStandsForZero env req x := by
      rw [FormulaEvaluator.StandsForZero, lookup_canDefaultZero h' hmem,
        vars_replaced hfe hreplaces.vars h', count_map_indexed,
        FormulaEvaluator.IndexStandsForZero]
    rw [Option.map_some, Option.map_some, Option.some.injEq,
      evaluateFormula_indexed_iff hfe hx hdots hreplaces.vars h'
        (hreplaces.evaluate fe.vars (expression_eq hfe).2.1) hbars hbars', hzero]
    simp [FormulaEvaluator.DefaultsAgree]

/-- Replacing a variable of a formula by its first aggregation changes nothing exactly when the
variable is the whole name of a query, and the defaults and the steps that are looked up by its text
agree. -/
theorem sameFormula_indexed_iff
    (hformula : req.formulaQueries.lookup formula.name = some formula)
    (hfe : evaluatorOf env req formula = some fe) (hx : x ∈ fe.vars)
    (hreplaces : env.Replaces x formula.expression expression')
    (hbars : NoBarBetween fe.vars) (hbars' : NoBarBetween (fe.vars.map (indexed x)))
    (hfit : req.stepsMap.lookup formula.name = none →
      productsFit 1 (fe.vars.map req.variableStep) ∧
        productsFit 1 ((fe.vars.map (indexed x)).map req.variableStep)) :
    SameFormula env req timeSeriesData formula expression' ↔
      splitDots x = [x] ∧ fe.DefaultsAgree env req timeSeriesData x ∧
        req.StepsAgree formula.name fe.vars (fe.vars.map (indexed x)) := by
  have hvars := (expression_eq hfe).2.1
  have hvars' : env.lib.vars expression' = some (fe.vars.map (indexed x)) := by
    rw [hreplaces.vars, hvars, Option.map_some]
  have hseries := @formulaSeries_indexed_iff _ _ _ _ _ timeSeriesData _ _ _ hfe hx hreplaces hbars
    hbars'
  have hstep := stepIntervalForQuery_withExpression_iff hformula hvars hvars' hfit
  rw [← and_assoc, ← hseries, ← hstep]
  constructor
  · intro hsame
    exact ⟨hsame.series, hsame.fillStep⟩
  · rintro ⟨hsame, hfill⟩
    refine ⟨hsame, hfill, ?_⟩
    rw [calculateFormulaStep_withExpression]
    exact calculateFormulaStep_indexed (hseries.1 hsame).1 hreplaces.varsWithoutFunctions

end

/-! ## A count and its first aggregation -/

/-- A percentile every minute, and a formula over it that has its name. -/
def namesakeRequest : QueryRangeRequest (Option Rat) where
  start := 0
  stop := 600000
  requestType := .timeSeries
  queries := [
    .builder false ⟨"A", false, .expressions ["p99(duration)"], 60000, [], 0, []⟩,
    .formula ⟨"A", "A", false, [], 0, []⟩]
  formatOptions := some ⟨true, false⟩

/-- A percentile has no default, and the step of a query with the name of the formula is taken as it
is. So the query and its first aggregation are the same. -/
theorem namesakeRequest_sameFormula :
    SameFormula variableEnvironment namesakeRequest
      [("A", ⟨"A", [⟨0, "", "", [⟨[], [⟨60000, some 3, false⟩]⟩]⟩]⟩)]
      ⟨"A", "A", false, [], 0, []⟩ "A.0" := by
  have hreplaces : variableEnvironment.Replaces "A" "A" "A.0" := by
    refine ⟨by decide +kernel, by decide +kernel, fun vars hvars values values' hvalues => ?_⟩
    obtain rfl : ["A"] = vars := Option.some.inj hvars
    exact hvalues "A" (List.mem_singleton_self _)
  have hfe : evaluatorOf variableEnvironment namesakeRequest ⟨"A", "A", false, [], 0, []⟩ =
      some ⟨"A", ["A"], [], [("A", ⟨"A", .index 0⟩)]⟩ := by decide +kernel
  have hstep : namesakeRequest.stepsMap.lookup "A" = some 60000 := by decide +kernel
  refine (sameFormula_indexed_iff rfl hfe (List.mem_singleton_self _) hreplaces (by decide +kernel)
    (by decide +kernel) fun hname => ?_).2 ?_
  · rw [hstep] at hname
    cases hname
  · exact ⟨by decide +kernel, .inl (by decide +kernel), by decide +kernel⟩

/-- The sums `A + B` and `A.0 + B`. -/
def sumEnvironment : Environment (Option Rat) where
  lib := {
    vars := fun expr => some [if expr = "A + B" then "A" else "A.0", "B"]
    evaluate := fun expr values => do
      let a ← values (if expr = "A + B" then "A" else "A.0")
      let b ← values "B"
      some (Float64.add a b) }
  varsWithoutFunctions expr := some [if expr = "A + B" then "A" else "A.0", "B"]
  simpleFold := Char.toLower
  toLower := Char.toLower

/-- A count of errors and a percentile every minute, and their sum. -/
def sumRequest : QueryRangeRequest (Option Rat) where
  start := 0
  stop := 600000
  requestType := .timeSeries
  queries := [
    .builder false ⟨"A", false, .expressions ["count()"], 60000, [], 0, []⟩,
    .builder false ⟨"B", false, .expressions ["p99(duration)"], 60000, [], 0, []⟩,
    .formula ⟨"F1", "A + B", false, [], 0, []⟩]
  formatOptions := some ⟨true, false⟩

/-- No error in the second minute: the sum of the count has a point there, that of its first
aggregation has none; and the step of the one is a minute, that of the other zero. -/
theorem sum_of_index_differs :
    sumEnvironment.Replaces "A" "A + B" "A.0 + B" ∧
      ¬ SameFormula sumEnvironment sumRequest
        [("A", ⟨"A", [⟨0, "", "", [⟨[], [⟨60000, some 1, false⟩]⟩]⟩]⟩),
          ("B", ⟨"B", [⟨0, "", "", [⟨[], [⟨60000, some 5, false⟩, ⟨120000, some 7, false⟩]⟩]⟩]⟩)]
        ⟨"F1", "A + B", false, [], 0, []⟩ "A.0 + B" ∧
      (sumRequest.withExpression "F1" "A.0 + B").stepIntervalForQuery sumEnvironment "F1" = .ok 0 ∧
      sumRequest.stepIntervalForQuery sumEnvironment "F1" = .ok 60000 := by
  refine ⟨⟨by decide +kernel, by decide +kernel, fun vars hvars values values' hvalues => ?_⟩, ?_,
    by decide +kernel, by decide +kernel⟩
  · obtain rfl : ["A", "B"] = vars := Option.some.inj hvars
    have ha : values "A" = values' "A.0" := hvalues "A" (by decide)
    have hb : values "B" = values' "B" := hvalues "B" (by decide)
    change (values "A" >>= fun a => values "B" >>= fun b => some (Float64.add a b)) =
      values' "A.0" >>= fun a => values' "B" >>= fun b => some (Float64.add a b)
    rw [ha, hb]
  · intro hsame
    exact absurd hsame.series (by decide +kernel)

end Signoz.Querier
