import Mathlib.Algebra.Order.Field.Rat
import Signoz.Rules.Labels
import Signoz.Rules.Units

/-!
# Thresholds

`compare.go`, `match.go`, `result_types.go` and `threshold.go` of `ruletypes`: a rule has a list of
thresholds, each with a target, a compare operator and a match type, and `BasicRuleThresholds.eval`
turns one series into the samples that alert, or that recover, at each of them.

Values are of any type with the operations of a `float64`. `strings.ToLower` is the parameter
`lower`.
-/

namespace Signoz.Rules

open Signoz.Querier

/-! ## Operators and match types -/

/-- `CompareOperator`: the named values, by the name of their variable, and any other string. -/
inductive CompareOperator where
  | valueIsAbove
  | valueIsAboveLiteral
  | valueIsAboveSymbol
  | valueIsBelow
  | valueIsBelowLiteral
  | valueIsBelowSymbol
  | valueIsEq
  | valueIsEqLiteral
  | valueIsEqLiteralShort
  | valueIsEqSymbol
  | valueIsNotEq
  | valueIsNotEqLiteral
  | valueIsNotEqLiteralShort
  | valueIsNotEqSymbol
  | valueAboveOrEq
  | valueAboveOrEqLiteral
  | valueAboveOrEqLiteralShort
  | valueAboveOrEqSymbol
  | valueBelowOrEq
  | valueBelowOrEqLiteral
  | valueBelowOrEqLiteralShort
  | valueBelowOrEqSymbol
  | valueOutsideBounds
  | valueOutsideBoundsLiteral
  | other (value : String)
deriving DecidableEq

/-- `Normalize`. -/
def CompareOperator.normalize : CompareOperator → CompareOperator
  | valueIsAbove | valueIsAboveLiteral | valueIsAboveSymbol => valueIsAbove
  | valueIsBelow | valueIsBelowLiteral | valueIsBelowSymbol => valueIsBelow
  | valueIsEq | valueIsEqLiteral | valueIsEqLiteralShort | valueIsEqSymbol => valueIsEq
  | valueIsNotEq | valueIsNotEqLiteral | valueIsNotEqLiteralShort | valueIsNotEqSymbol =>
    valueIsNotEq
  | valueAboveOrEq | valueAboveOrEqLiteral | valueAboveOrEqLiteralShort
  | valueAboveOrEqSymbol => valueAboveOrEq
  | valueBelowOrEq | valueBelowOrEqLiteral | valueBelowOrEqLiteralShort
  | valueBelowOrEqSymbol => valueBelowOrEq
  | valueOutsideBounds | valueOutsideBoundsLiteral => valueOutsideBounds
  | other c => other c

/-- `CompareOperator.Validate`: the messages of its errors. -/
def CompareOperator.validate : CompareOperator → List String
  | other c =>
    ["condition.op: unsupported value \"" ++ c ++
      "\"; must be one of above, below, equal, not_equal, above_or_equal, below_or_equal, " ++
      "outside_bounds"]
  | _ => []

/-- `MatchType`. -/
inductive MatchType where
  | atleastOnce
  | atleastOnceLiteral
  | allTheTimes
  | allTheTimesLiteral
  | onAverage
  | onAverageLiteral
  | onAverageShort
  | inTotal
  | inTotalLiteral
  | inTotalShort
  | last
  | lastLiteral
  | other (value : String)
deriving DecidableEq

/-- `Normalize`. -/
def MatchType.normalize : MatchType → MatchType
  | atleastOnce | atleastOnceLiteral => atleastOnce
  | allTheTimes | allTheTimesLiteral => allTheTimes
  | onAverage | onAverageLiteral | onAverageShort => onAverage
  | inTotal | inTotalLiteral | inTotalShort => inTotal
  | last | lastLiteral => last
  | other m => other m

/-- `MatchType.Validate`. -/
def MatchType.validate : MatchType → List String
  | other m =>
    ["condition.matchType: unsupported value \"" ++ m ++
      "\"; must be one of at_least_once, all_the_times, on_average, in_total, last"]
  | _ => []

section Eval

variable {V : Type} [Float64 V]

open Float64

/-- `==` of `float64`. -/
def float64Eq (a b : V) : Bool := le a b && le b a

/-- `matchesCompareOp`. -/
def matchesCompareOp (op : CompareOperator) (value target : V) : Bool :=
  match op with
  | .valueIsAbove => lt target value
  | .valueIsBelow => lt value target
  | .valueIsEq => float64Eq value target
  | .valueIsNotEq => !float64Eq value target
  | .valueAboveOrEq => le target value
  | .valueBelowOrEq => le value target
  | .valueOutsideBounds => le target (abs value)
  | _ => false

/-- `negatesCompareOp`. -/
def negatesCompareOp (op : CompareOperator) (value target : V) : Bool :=
  !matchesCompareOp op value target

/-! ## Samples -/

/-- `Sample`, with the value of its point. -/
structure Sample (V : Type) where
  v : V
  metric : Labels
  isMissing : Bool
  isRecovering : Bool
  target : V
  recoveryTarget : Option V
  targetUnit : String

/-- The zero `Sample`, where only value and labels are given. -/
def Sample.ofValue (v : V) (metric : Labels) : Sample V :=
  ⟨v, metric, false, false, ofInt 0, none, ""⟩

/-- `PrepareSampleLabelsForRule`. -/
def prepareSampleLabelsForRule (lower : String → String) (seriesLabels : List Querier.Label)
    (thresholdName : String) : Labels :=
  let lb := seriesLabels.foldl (fun lb label => lb.set label.name label.value.text) (newBuilder [])
  ((lb.set labelThresholdName thresholdName).set labelSeverityName (lower thresholdName)).labels

/-! ## One threshold -/

/-- `BasicRuleThreshold`. -/
structure BasicRuleThreshold (V : Type) where
  name : String
  targetValue : Option V
  targetUnit : String
  recoveryTarget : Option V
  matchType : MatchType
  compareOperator : CompareOperator
  channels : List String
deriving DecidableEq

namespace BasicRuleThreshold

/-- `Validate`: the messages of its errors. -/
def validate (b : BasicRuleThreshold V) : List String :=
  (if b.name = "" then ["threshold name cannot be empty"] else []) ++
    (if b.targetValue.isNone then ["target value cannot be nil"] else []) ++
    b.compareOperator.validate ++ b.matchType.validate

/-- `convertToRuleUnit`. -/
def convertToRuleUnit (b : BasicRuleThreshold V) (val : V) (ruleUnit : String) : V :=
  (converterFromUnit b.targetUnit).convert val b.targetUnit ruleUnit

/-- `target`. A nil target, which `Validate` rejects, would panic. -/
def target (b : BasicRuleThreshold V) (ruleUnit : String) : V :=
  b.convertToRuleUnit (b.targetValue.getD nan) ruleUnit

/-- `recoveryTarget` in the rule unit, asked for only where there is one. -/
def recoveryTargetIn (b : BasicRuleThreshold V) (ruleUnit : String) : V :=
  b.convertToRuleUnit (b.recoveryTarget.getD nan) ruleUnit

end BasicRuleThreshold

/-- The sum and the number of the values that are numbers, as the loops of `OnAverage` and
`InTotal` form them. -/
def sumAndCount (values : List (TimeSeriesValue V)) : V × V :=
  values.foldl
    (fun acc smpl =>
      if isNaN smpl.value || isInf smpl.value then acc
      else (add acc.1 smpl.value, add acc.2 (ofInt 1)))
    (ofInt 0, ofInt 0)

/-- The value that a loop keeps which starts at an infinity and takes every value that is
`better`; `none` while it is still there. -/
def extremeValue (better : V → V → Bool) (values : List (TimeSeriesValue V)) : Option V :=
  values.foldl
    (fun kept smpl =>
      match kept with
      | none => some smpl.value
      | some v => if better smpl.value v then some smpl.value else some v)
    none

/-- The value shown for a series all of whose values match. -/
def allTheTimesValue (op : CompareOperator) (values : List (TimeSeriesValue V)) (target : V) : V :=
  match op with
  | .valueIsAbove | .valueAboveOrEq | .valueOutsideBounds => (extremeValue lt values).getD target
  | .valueIsBelow | .valueBelowOrEq =>
    (extremeValue (fun a b => lt b a) values).getD target
  | .valueIsNotEq =>
    ((values.find? fun smpl => !isInf smpl.value && !isNaN smpl.value).map
      TimeSeriesValue.value).getD target
  | _ => target

/-- `shouldAlertWithTarget`. -/
def BasicRuleThreshold.shouldAlertWithTarget (lower : String → String) (b : BasicRuleThreshold V)
    (series : TimeSeries V) (target : V) : Sample V × Bool :=
  let lbls := prepareSampleLabelsForRule lower series.labels b.name
  let sample := fun v => Sample.ofValue v lbls
  let op := b.compareOperator.normalize
  if series.values.isEmpty then (Sample.ofValue (ofInt 0) [], false)
  else
    match b.matchType.normalize with
    | .atleastOnce =>
      match series.values.find? fun smpl => matchesCompareOp op smpl.value target with
      | some smpl => (sample smpl.value, true)
      | none => (Sample.ofValue (ofInt 0) [], false)
    | .allTheTimes =>
      match series.values.find? fun smpl => negatesCompareOp op smpl.value target with
      | some smpl => (sample smpl.value, false)
      | none => (sample (allTheTimesValue op series.values target), true)
    | .onAverage =>
      let acc := sumAndCount series.values
      let avg := div acc.1 acc.2
      (sample avg, matchesCompareOp op avg target)
    | .inTotal =>
      let sum := (sumAndCount series.values).1
      (sample sum, matchesCompareOp op sum target)
    | .last =>
      let lastValue := (series.values.getLast?.map TimeSeriesValue.value).getD nan
      (sample lastValue, matchesCompareOp op lastValue target)
    | _ => (Sample.ofValue (ofInt 0) [], false)

/-- `matchesRecoveryThreshold`. -/
def BasicRuleThreshold.matchesRecoveryThreshold (lower : String → String)
    (b : BasicRuleThreshold V) (series : TimeSeries V) (ruleUnit : String) : Sample V × Bool :=
  b.shouldAlertWithTarget lower series (b.recoveryTargetIn ruleUnit)

/-- `shouldAlert`. -/
def BasicRuleThreshold.shouldAlert (lower : String → String) (b : BasicRuleThreshold V)
    (series : TimeSeries V) (ruleUnit : String) : Sample V × Bool :=
  b.shouldAlertWithTarget lower series (b.target ruleUnit)

/-! ## The thresholds of a rule -/

/-- `BasicRuleThresholds.Validate`. -/
def validateThresholds (r : List (BasicRuleThreshold V)) : List String :=
  if r = [] then ["condition.thresholds.spec: must have at least one threshold"]
  else r.flatMap BasicRuleThreshold.validate

/-- The comparison function of `sortThresholds`. -/
def sortsBefore (a b : BasicRuleThreshold V) : Bool :=
  let targetI := a.target a.targetUnit
  let targetJ := b.target b.targetUnit
  match a.compareOperator.normalize with
  | .valueIsAbove | .valueAboveOrEq | .valueOutsideBounds => lt targetJ targetI
  | .valueIsBelow | .valueBelowOrEq => lt targetI targetJ
  | _ => lt targetJ targetI

/-- The orders in which `sortThresholds` may leave a list. `sort.Slice` is not stable, so elements
that compare equal may come in any order. -/
structure SortedThresholds (r sorted : List (BasicRuleThreshold V)) : Prop where
  perm : sorted.Perm r
  ordered : sorted.Pairwise fun a b => sortsBefore b a = false

/-- `RuleReceivers`. -/
structure RuleReceivers where
  name : String
  channels : List String

/-- `GetRuleReceivers` on thresholds that are sorted. -/
def getRuleReceivers (sorted : List (BasicRuleThreshold V)) : List RuleReceivers :=
  sorted.map fun threshold => ⟨threshold.name, threshold.channels⟩

/-- `EvalData`, with the active fingerprints as a list. -/
structure EvalData where
  activeAlerts : List Nat
  sendUnmatched : Bool

/-- `HasActiveAlert`. -/
def EvalData.hasActiveAlert (eval : EvalData) (sampleLabelFp : Nat) : Bool :=
  eval.activeAlerts.contains sampleLabelFp

/-- `EvaluableValues`. -/
def evaluableValues (s : TimeSeries V) : List (TimeSeriesValue V) :=
  s.values.filter fun v => !v.isPartial && !isNaN v.value && !isInf v.value

/-- The fields of a sample that `Eval` takes from the threshold. -/
def BasicRuleThreshold.finish (threshold : BasicRuleThreshold V) (smpl : Sample V) : Sample V :=
  { smpl with
    target := threshold.targetValue.getD nan
    targetUnit := threshold.targetUnit
    recoveryTarget := threshold.recoveryTarget }

/-- The sample of a series that alerts. -/
def BasicRuleThreshold.alertingSample (lower : String → String) (threshold : BasicRuleThreshold V)
    (series : TimeSeries V) (unit : String) : Sample V :=
  threshold.finish (threshold.shouldAlert lower series unit).1

/-- The sample of a series at its recovery level. -/
def BasicRuleThreshold.recoveringSample (lower : String → String)
    (threshold : BasicRuleThreshold V) (series : TimeSeries V) (unit : String) : Sample V :=
  { threshold.finish (threshold.matchesRecoveryThreshold lower series unit).1 with
    isRecovering := true }

/-- The sample of one threshold for a series, if it gives one: the series alerts, unmatched
samples are asked for, or an active alert of the series is at its recovery level. -/
def evalThreshold (lower : String → String) (sum64 : List String → Nat) (series : TimeSeries V)
    (unit : String) (evalData : EvalData) (threshold : BasicRuleThreshold V) :
    Option (Sample V) :=
  let sampleLabels := prepareSampleLabelsForRule lower series.labels threshold.name
  if (threshold.shouldAlert lower series unit).2 then
    some (threshold.alertingSample lower series unit)
  else if evalData.sendUnmatched then
    series.values.head?.map fun v => threshold.finish (Sample.ofValue v.value sampleLabels)
  else if threshold.recoveryTarget.isNone then none
  else if evalData.hasActiveAlert (sampleLabels.hash sum64) then
    if (threshold.matchesRecoveryThreshold lower series unit).2 then
      some (threshold.recoveringSample lower series unit)
    else none
  else none

/-- The series as the thresholds see it: with its evaluable values. -/
def evaluableSeries (s : TimeSeries V) : TimeSeries V := ⟨s.labels, evaluableValues s⟩

/-- `BasicRuleThresholds.Eval`, where `sort` is what `sortThresholds` does to the thresholds. -/
def evalThresholds (lower : String → String) (sum64 : List String → Nat)
    (sort : List (BasicRuleThreshold V) → List (BasicRuleThreshold V))
    (r : List (BasicRuleThreshold V)) (s : TimeSeries V) (unit : String) (evalData : EvalData) :
    List (Sample V) :=
  (sort r).filterMap (evalThreshold lower sum64 (evaluableSeries s) unit evalData)

end Eval

/-- Rational numbers as values: exact, with no NaN and no infinity. Logarithms and texts are left
out. -/
instance rationalValue : Float64 ℚ where
  nan := 0
  ofInt n := n
  toInt q := q.num.tdiv q.den
  parseFloat _ := none
  isNaN _ := false
  isInf _ := false
  lt a b := a < b
  le a b := a ≤ b
  add a b := a + b
  sub a b := a - b
  mul a b := a * b
  div a b := a / b
  abs a := if a < 0 then -a else a
  log2 _ := 0
  log10 _ := 0
  text q := toString q

end Signoz.Rules
