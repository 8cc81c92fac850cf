import Signoz.Querier.Functions

/-!
# Formula evaluation

`FormulaEvaluator` of `formula.go`. The expression language is a library: `Govaluate` says which
variables an expression has and what it evaluates to. Case-insensitive comparison takes the
Unicode folding table as a parameter.

A lookup keeps for each series key the points that were stored under it, in the order of the
writes; what the source's `timestamp -> value` map holds is the last of them with that timestamp
(`pointAt`). Maps are walked in the order in which they were filled.
-/

namespace Signoz.Querier

open Lib.KeyedFold

/-- The expression library: the variables of an expression, or `none` if it does not parse, and
its value under an assignment, or `none` for an error or a value that is no number. -/
structure Govaluate (V : Type) where
  vars : String → Option (List String)
  evaluate : String → (String → Option V) → Option V

/-- `strings.EqualFold`, over the simple case folding of single characters. -/
def equalFold (simpleFold : Char → Char) (s t : String) : Bool :=
  s.toList.map simpleFold = t.toList.map simpleFold

/-- `strings.HasPrefix`. -/
def hasPrefix (s start : String) : Bool := start.toList.isPrefixOf s.toList

/-- `strings.Split(s, ".")`. -/
def splitDots (s : String) : List String := (s.toList.splitOn '.').map String.ofList

/-- Decimal digits, as `strconv.Atoi` reads them. -/
def parseDigits : List Char → Option Nat
  | [] => none
  | cs => cs.foldl (fun acc c =>
    acc.bind fun n => if c.isDigit then some (10 * n + (c.toNat - '0'.toNat)) else none) (some 0)

/-- `strconv.Atoi`, with `none` for an error. -/
def atoi (s : String) : Option Int :=
  let signed : Option Int := match s.toList with
    | '-' :: cs => (parseDigits cs).map fun n => -(n : Int)
    | '+' :: cs => (parseDigits cs).map fun n => (n : Int)
    | cs => (parseDigits cs).map fun n => (n : Int)
  signed.filter fun n => -2 ^ 63 ≤ n ∧ n < 2 ^ 63

/-- Which aggregation of a query a variable names. -/
inductive AggregationSelector where
  | index (i : Int)
  | aliasName (name : String)
deriving DecidableEq

structure AggregationRef where
  queryName : String
  selector : AggregationSelector
deriving DecidableEq

/-- `parseAggregationReference`: `A`, `A.0` or `A.my_alias`. -/
def parseAggregationReference (variableName : String) : Option AggregationRef :=
  match splitDots variableName with
  | [queryName] => some ⟨queryName, .index 0⟩
  | [queryName, reference] =>
    match atoi reference with
    | some i => some ⟨queryName, .index i⟩
    | none => some ⟨queryName, .aliasName reference⟩
  | _ => none

structure FormulaEvaluator where
  expression : String
  vars : List String
  canDefaultZero : List (String × Bool)
  aggRefs : List (String × AggregationRef)
deriving DecidableEq

/-- An entry of a map by exact name, and otherwise the first whose name differs in case only. -/
def lookupFold {A : Type} (simpleFold : Char → Char) (m : List (String × A)) (name : String) :
    Option A :=
  match m.lookup name with
  | some a => some a
  | none => (m.find? fun p => equalFold simpleFold p.1 name).map Prod.snd

/-- The references of the variables, one entry a variable; `none` if one is malformed. -/
def parseReferences : List String → Option (List (String × AggregationRef))
  | [] => some []
  | v :: vs => do
    let ref ← parseAggregationReference v
    let refs ← parseReferences vs
    pure ((v, ref) :: refs.filter fun p => p.1 ≠ v)

/-- `NewFormulaEvaluator`, with `none` for an error. -/
def newFormulaEvaluator {V : Type} (lib : Govaluate V) (simpleFold : Char → Char)
    (expressionStr : String) (canDefaultZero : List (String × Bool)) : Option FormulaEvaluator := do
  let vars ← lib.vars expressionStr
  let aggRefs ← parseReferences vars
  pure {
    expression := expressionStr
    vars := vars
    canDefaultZero := vars.filterMap fun v =>
      (lookupFold simpleFold canDefaultZero v).map fun b => (v, b)
    aggRefs := aggRefs }

section

variable {V : Type}

/-- What is known about one series key: the first series filed under it, and all points stored
under it. -/
structure SeriesEntry (V : Type) where
  series : TimeSeries V
  data : List (TimeSeriesValue V)

abbrev SeriesLookup (V : Type) := List (String × SeriesEntry V)

/-- `buildSeriesKey`: the variable, the index of the series and the labels by name. -/
def buildSeriesKey (variableName : String) (seriesIndex : Nat) (labels : List Label) : String :=
  let sortedLabels := labels.insertionSort fun a b => a.name ≤ b.name
  "|".intercalate
    (variableName :: toString seriesIndex :: sortedLabels.map fun l => l.name ++ "=" ++ l.value.text)

/-- The bucket of a query's data that a reference selects. -/
def targetBucket (d : TimeSeriesData V) (ref : AggregationRef) : Option (AggregationBucket V) :=
  d.aggregations.find? fun bucket =>
    match ref.selector with
    | .index i => (bucket.index : Int) = i
    | .aliasName name => bucket.aliasName = name

/-- The series a variable refers to, each under its key. -/
def seriesOfVariable (simpleFold : Char → Char) (timeSeriesData : List (String × TimeSeriesData V))
    (variableName : String) (ref : AggregationRef) : List (String × TimeSeries V) :=
  match lookupFold simpleFold timeSeriesData ref.queryName with
  | none => []
  | some d =>
    match targetBucket d ref with
    | none => []
    | some bucket => bucket.series.mapIdx fun i s => (buildSeriesKey variableName i s.labels, s)

/-- `buildSeriesLookup`. -/
def FormulaEvaluator.buildSeriesLookup (fe : FormulaEvaluator) (simpleFold : Char → Char)
    (timeSeriesData : List (String × TimeSeriesData V)) : SeriesLookup V :=
  accumulate (fun s => ⟨s, s.values⟩) (fun entry s => ⟨entry.series, entry.data ++ s.values⟩) []
    (fe.aggRefs.flatMap fun p => seriesOfVariable simpleFold timeSeriesData p.1 p.2)

/-- The value a list of labels gives to a name: that of the last label with the name. -/
def labelNamed (labels : List Label) (name : String) : Option LabelValue :=
  (labels.reverse.find? fun l => l.name = name).map Label.value

/-- `isSubset`: every name of the second label set has the same value in the first. -/
def isSubset (labels₁ labels₂ : List Label) : Bool :=
  labels₂.all fun l => labelNamed labels₁ l.name = labelNamed labels₂ l.name

/-- `findUniqueLabelSets`: the label sets that no earlier, at least as large one covers. -/
def findUniqueLabelSets (lookup : SeriesLookup V) : List (List Label) :=
  let allLabelSets := (lookup.map fun p => p.2.series.labels).insertionSort
    fun a b => b.length ≤ a.length
  allLabelSets.foldl (fun uniqueSets labelSet =>
    if uniqueSets.any fun uniqueSet => isSubset uniqueSet labelSet then uniqueSets
    else uniqueSets ++ [labelSet]) []

/-- The points that a variable reads for a label set: those of the first series of the variable
whose labels the label set covers. -/
def variableData (lookup : SeriesLookup V) (targetLabels : List Label) (variableName : String) :
    List (TimeSeriesValue V) :=
  match lookup.find? fun p =>
      hasPrefix p.1 (variableName ++ "|") && isSubset targetLabels p.2.series.labels with
  | some p => p.2.data
  | none => []

/-- The point that counts at a timestamp: the last one stored. -/
def pointAt (points : List (TimeSeriesValue V)) (timestamp : Int) : Option (TimeSeriesValue V) :=
  points.reverse.find? fun p => p.timestamp = timestamp

variable [Float64 V]

/-- The value of a variable at a timestamp: that of its point, or zero where it may default. -/
def FormulaEvaluator.variableValue (fe : FormulaEvaluator) (lookup : SeriesLookup V)
    (targetLabels : List Label) (timestamp : Int) (variableName : String) : Option V :=
  match pointAt (variableData lookup targetLabels variableName) timestamp with
  | some p => some p.value
  | none =>
    if (fe.canDefaultZero.lookup variableName).getD false then some (Float64.ofInt 0) else none

/-- `validCount`: every occurrence of a variable with a point counts, and every variable that
defaults to zero counts once. -/
def FormulaEvaluator.validCount (fe : FormulaEvaluator) (lookup : SeriesLookup V)
    (targetLabels : List Label) (timestamp : Int) : Nat :=
  let present := fun v => (pointAt (variableData lookup targetLabels v) timestamp).isSome
  (fe.vars.filter present).length +
    (fe.vars.dedup.filter fun v =>
      !present v && (fe.canDefaultZero.lookup v).getD false).length

/-- The value of the formula for a label set at a timestamp, if it has one there. -/
def FormulaEvaluator.valueAtTimestamp (fe : FormulaEvaluator) (lib : Govaluate V)
    (lookup : SeriesLookup V) (targetLabels : List Label) (timestamp : Int) : Option V :=
  if fe.validCount lookup targetLabels timestamp ≠ fe.vars.length then none
  else
    (lib.evaluate fe.expression fun v =>
      if v ∈ fe.vars then fe.variableValue lookup targetLabels timestamp v else none).filter
        fun value => !Float64.isNaN value && !Float64.isInf value

/-- The timestamps at which some variable has a point, in order. -/
def FormulaEvaluator.timestamps (fe : FormulaEvaluator) (lookup : SeriesLookup V)
    (targetLabels : List Label) : List Int :=
  (fe.aggRefs.flatMap fun p =>
    (variableData lookup targetLabels p.1).map TimeSeriesValue.timestamp).dedup.insertionSort
      (· ≤ ·)

/-- `evaluateForLabelSet`. -/
def FormulaEvaluator.evaluateForLabelSet (fe : FormulaEvaluator) (lib : Govaluate V)
    (lookup : SeriesLookup V) (targetLabels : List Label) : Option (TimeSeries V) :=
  let resultValues := (fe.timestamps lookup targetLabels).filterMap fun timestamp =>
    (fe.valueAtTimestamp lib lookup targetLabels timestamp).map fun value =>
      (⟨timestamp, value, false⟩ : TimeSeriesValue V)
  if resultValues.isEmpty then none else some ⟨targetLabels, resultValues⟩

/-- `EvaluateFormula`. -/
def FormulaEvaluator.evaluateFormula (fe : FormulaEvaluator) (lib : Govaluate V)
    (simpleFold : Char → Char) (timeSeriesData : List (String × TimeSeriesData V)) :
    List (TimeSeries V) :=
  let lookup := fe.buildSeriesLookup simpleFold timeSeriesData
  (findUniqueLabelSets lookup).filterMap (fe.evaluateForLabelSet lib lookup)

end

end Signoz.Querier
