import Signoz.Querier.TimeSeries

/-!
# Post-processing functions

`ApplyFunction` of `functions.go` and the eighteen functions it dispatches to, over values `V`
with the operations of a `float64`. A series keeps its labels throughout, so the functions are
written on its points.

Three facts describe a function other than `fillZero` to the modules above: which `Partial` flags
its points carry (`partialFlags_applyFunction`), and with it how many points there are, and which
input values an output value depends on (`reads`, `applyFunction_value_congr`).
-/

namespace Signoz.Querier

open Lib.KeyedFold

/-- The operations of `float64` and of package `math` that the querier uses. -/
class Float64 (V : Type) where
  nan : V
  ofInt : Int → V
  /-- The conversion `int64(x)`. -/
  toInt : V → Int
  /-- `strconv.ParseFloat`. -/
  parseFloat : String → Option V
  isNaN : V → Bool
  isInf : V → Bool
  lt : V → V → Bool
  le : V → V → Bool
  add : V → V → V
  sub : V → V → V
  mul : V → V → V
  div : V → V → V
  abs : V → V
  log2 : V → V
  log10 : V → V
  /-- The rendering by `%v`. -/
  text : V → String

/-- Rational numbers with `none` for NaN: exact where `float64` is. Logarithms and texts are left
out. -/
instance rationalFloat : Float64 (Option Rat) where
  nan := none
  ofInt n := some n
  toInt x := (x.map fun q => q.num.tdiv q.den).getD 0
  parseFloat _ := none
  isNaN x := x.isNone
  isInf _ := false
  lt x y := match x, y with
    | some a, some b => a < b
    | _, _ => false
  le x y := match x, y with
    | some a, some b => a ≤ b
    | _, _ => false
  add x y := x.bind fun a => y.map fun b => a + b
  sub x y := x.bind fun a => y.map fun b => a - b
  mul x y := x.bind fun a => y.map fun b => a * b
  div x y := x.bind fun a => y.bind fun b => if b = 0 then none else some (a / b)
  abs x := x.map fun a => if a < 0 then -a else a
  log2 _ := none
  log10 _ := none
  text x := (x.map toString).getD "NaN"

inductive FunctionName where
  | cutOffMin
  | cutOffMax
  | clampMin
  | clampMax
  | absolute
  | runningDiff
  | log2
  | log10
  | cumulativeSum
  | ewma3
  | ewma5
  | ewma7
  | median3
  | median5
  | median7
  | timeShift
  | anomaly
  | fillZero
deriving DecidableEq

/-- The dynamic value of an argument. -/
inductive ArgValue (V : Type) where
  | float (v : V)
  | int (n : Int)
  | str (s : String)
  | other
deriving DecidableEq

structure Function (V : Type) where
  name : FunctionName
  args : List (ArgValue V)
deriving DecidableEq

section

variable {V : Type} [Float64 V]

open Float64

/-- `parseFloat64Arg`, with `none` for an error. -/
def parseFloat64Arg : ArgValue V → Option V
  | .float v => some v
  | .int n => some (ofInt n)
  | .str s => parseFloat s
  | .other => none

/-- Replace the value of every point. -/
def mapValue (f : V → V) (values : List (TimeSeriesValue V)) : List (TimeSeriesValue V) :=
  values.map fun point => { point with value := f point.value }

def funcCutOffMin (threshold : V) : List (TimeSeriesValue V) → List (TimeSeriesValue V) :=
  mapValue fun v => if lt v threshold then nan else v

def funcCutOffMax (threshold : V) : List (TimeSeriesValue V) → List (TimeSeriesValue V) :=
  mapValue fun v => if lt threshold v then nan else v

def funcClampMin (threshold : V) : List (TimeSeriesValue V) → List (TimeSeriesValue V) :=
  mapValue fun v => if lt v threshold then threshold else v

def funcClampMax (threshold : V) : List (TimeSeriesValue V) → List (TimeSeriesValue V) :=
  mapValue fun v => if lt threshold v then threshold else v

def funcAbsolute : List (TimeSeriesValue V) → List (TimeSeriesValue V) := mapValue abs

def funcLog2 : List (TimeSeriesValue V) → List (TimeSeriesValue V) := mapValue log2

def funcLog10 : List (TimeSeriesValue V) → List (TimeSeriesValue V) := mapValue log10

/-- Every point but the first, with the value of the point before it subtracted. The source walks
backwards, so the subtracted value is still the original one. -/
def funcRunningDiff (values : List (TimeSeriesValue V)) : List (TimeSeriesValue V) :=
  values.zipWith (fun before point => { point with value := sub point.value before.value })
    values.tail

/-- The loop of `funcCumulativeSum`, with the sum so far. -/
def cumulativeSumFrom (sum : V) : List (TimeSeriesValue V) → List (TimeSeriesValue V)
  | [] => []
  | point :: rest =>
    let sum' := if isNaN point.value then sum else add sum point.value
    { point with value := sum' } :: cumulativeSumFrom sum' rest

def funcCumulativeSum : List (TimeSeriesValue V) → List (TimeSeriesValue V) :=
  cumulativeSumFrom (ofInt 0)

/-- The loop of `funcEWMA`. The average is `none` while `initialized` is false. -/
def ewmaFrom (alpha : V) : Option V → List (TimeSeriesValue V) → List (TimeSeriesValue V)
  | _, [] => []
  | none, point :: rest =>
    point :: ewmaFrom alpha (if isNaN point.value then none else some point.value) rest
  | some ewma, point :: rest =>
    let ewma' := if isNaN point.value then ewma
      else add (mul alpha point.value) (mul (sub (ofInt 1) alpha) ewma)
    { point with value := ewma' } :: ewmaFrom alpha (some ewma') rest

def funcEWMA (alpha : V) : List (TimeSeriesValue V) → List (TimeSeriesValue V) :=
  ewmaFrom alpha none

/-- `getEWMAAlpha`: the argument if there is a valid one, and otherwise `2 / (n + 1)` for the
window size `n`. -/
def getEWMAAlpha (name : FunctionName) (args : List (ArgValue V)) : V :=
  match args.head?.bind parseFloat64Arg with
  | some alpha => alpha
  | none =>
    match name with
    | .ewma5 => div (ofInt 1) (ofInt 3)
    | .ewma7 => div (ofInt 1) (ofInt 4)
    | _ => div (ofInt 1) (ofInt 2)

/-- `median` of a slice. -/
def median (values : List V) : V :=
  let sorted := values.insertionSort fun a b => lt b a = false
  let medianIndex := sorted.length / 2
  if sorted.length = 0 then nan
  else if sorted.length % 2 = 0 then
    div (add (sorted.getD (medianIndex - 1) nan) (sorted.getD medianIndex nan)) (ofInt 2)
  else sorted.getD medianIndex nan

/-- The values within `halfWindow` points of index `i`. -/
def windowValues (values : List (TimeSeriesValue V)) (halfWindow i : Nat) : List V :=
  ((values.drop (i - halfWindow)).take (2 * halfWindow + 1)).map TimeSeriesValue.value

/-- `funcMedianN`. Points without a full window keep their value; every point is built anew, from
a timestamp and a value. -/
def funcMedianN (n : Nat) (values : List (TimeSeriesValue V)) : List (TimeSeriesValue V) :=
  if values.length < n then values
  else
    values.mapIdx fun i point =>
      if i < n / 2 ∨ values.length - n / 2 ≤ i then ⟨point.timestamp, point.value, false⟩
      else ⟨point.timestamp, median ((windowValues values (n / 2) i).filter (!isNaN ·)), false⟩

def funcTimeShift (shift : V) (values : List (TimeSeriesValue V)) : List (TimeSeriesValue V) :=
  let shiftMs := toInt (mul shift (ofInt 1000))
  values.map fun point => { point with timestamp := point.timestamp + shiftMs }

/-- The timestamps `alignedStart, alignedStart + step, …` up to `alignedEnd`. -/
def fillTimestamps (alignedStart alignedEnd step : Int) : List Int :=
  (List.range ((alignedEnd - alignedStart) / step + 1).toNat).map
    fun (k : Nat) => alignedStart + k * step

/-- `funcFillZero`: the points at the timestamps of the grid, with a zero where there is none. -/
def funcFillZero (start stop step : Int) (values : List (TimeSeriesValue V)) :
    List (TimeSeriesValue V) :=
  if step ≤ 0 then values
  else
    let existingValues := accumulate id (fun _ v => v) [] (values.map fun v => (v.timestamp, v))
    (fillTimestamps (start - start.tmod step) stop step).map fun ts =>
      (existingValues.lookup ts).getD ⟨ts, ofInt 0, false⟩

/-- A function of one numeric argument, which does nothing without a valid argument. -/
def withArg (args : List (ArgValue V))
    (f : V → List (TimeSeriesValue V) → List (TimeSeriesValue V))
    (values : List (TimeSeriesValue V)) : List (TimeSeriesValue V) :=
  match args.head?.bind parseFloat64Arg with
  | some x => f x values
  | none => values

/-- The `fillZero` case of `ApplyFunction`, with its three arguments. -/
def applyFillZero (args : List (ArgValue V)) (values : List (TimeSeriesValue V)) :
    List (TimeSeriesValue V) :=
  match args with
  | start :: stop :: step :: _ =>
    match parseFloat64Arg start, parseFloat64Arg stop, parseFloat64Arg step with
    | some start, some stop, some step =>
      if le step (ofInt 0) then values
      else funcFillZero (toInt start) (toInt stop) (toInt step) values
    | _, _, _ => values
  | _ => values

/-- `ApplyFunction`, on the points of the series. -/
def applyFunction (fn : Function V) (values : List (TimeSeriesValue V)) :
    List (TimeSeriesValue V) :=
  if values.isEmpty then values
  else
    match fn.name with
    | .cutOffMin => withArg fn.args funcCutOffMin values
    | .cutOffMax => withArg fn.args funcCutOffMax values
    | .clampMin => withArg fn.args funcClampMin values
    | .clampMax => withArg fn.args funcClampMax values
    | .absolute => funcAbsolute values
    | .runningDiff => funcRunningDiff values
    | .log2 => funcLog2 values
    | .log10 => funcLog10 values
    | .cumulativeSum => funcCumulativeSum values
    | .ewma3 => funcEWMA (getEWMAAlpha .ewma3 fn.args) values
    | .ewma5 => funcEWMA (getEWMAAlpha .ewma5 fn.args) values
    | .ewma7 => funcEWMA (getEWMAAlpha .ewma7 fn.args) values
    | .median3 => funcMedianN 3 values
    | .median5 => funcMedianN 5 values
    | .median7 => funcMedianN 7 values
    | .timeShift => withArg fn.args funcTimeShift values
    | .anomaly => values
    | .fillZero => applyFillZero fn.args values

/-- `ApplyFunctions`, on the points of the series. -/
def applyFunctionsToValues (functions : List (Function V)) (values : List (TimeSeriesValue V)) :
    List (TimeSeriesValue V) :=
  functions.foldl (fun values fn => applyFunction fn values) values

/-- `ApplyFunctions`. -/
def applyFunctionsToSeries (functions : List (Function V)) (result : TimeSeries V) :
    TimeSeries V :=
  ⟨result.labels, applyFunctionsToValues functions result.values⟩

/-- `EvaluableValues`: the points that alert evaluation looks at. -/
def TimeSeries.evaluableValues (ts : TimeSeries V) : List (TimeSeriesValue V) :=
  ts.values.filter fun v => !v.isPartial && !isNaN v.value && !isInf v.value

/-! ## Which flags come out -/

/-- The window of a median function. -/
def FunctionName.medianWindow : FunctionName → Option Nat
  | .median3 => some 3
  | .median5 => some 5
  | .median7 => some 7
  | _ => none

/-- The `Partial` flags of the points. -/
def partialFlags (values : List (TimeSeriesValue V)) : List Bool :=
  values.map TimeSeriesValue.isPartial

omit [Float64 V] in
@[simp] theorem length_partialFlags (values : List (TimeSeriesValue V)) :
    (partialFlags values).length = values.length := by simp [partialFlags]

/-- What a function other than `fillZero` makes of the flags of its points. -/
def FunctionName.flagsAfter (name : FunctionName) (flags : List Bool) : List Bool :=
  match name.medianWindow with
  | some n => if flags.length < n then flags else flags.map fun _ => false
  | none => if name = .runningDiff then flags.tail else flags

omit [Float64 V] in
@[simp] theorem partialFlags_mapValue (f : V → V) (values : List (TimeSeriesValue V)) :
    partialFlags (mapValue f values) = partialFlags values := by
  simp [partialFlags, mapValue, Function.comp_def]

@[simp] theorem partialFlags_funcTimeShift (shift : V) (values : List (TimeSeriesValue V)) :
    partialFlags (funcTimeShift shift values) = partialFlags values := by
  simp [partialFlags, funcTimeShift, Function.comp_def]

theorem partialFlags_withArg {args : List (ArgValue V)}
    {f : V → List (TimeSeriesValue V) → List (TimeSeriesValue V)}
    {values : List (TimeSeriesValue V)}
    (hf : ∀ x, partialFlags (f x values) = partialFlags values) :
    partialFlags (withArg args f values) = partialFlags values := by
  unfold withArg
  split
  · exact hf _
  · rfl

theorem partialFlags_funcRunningDiff (values : List (TimeSeriesValue V)) :
    partialFlags (funcRunningDiff values) = (partialFlags values).tail := by
  induction values with
  | nil => rfl
  | cons before rest ih =>
    cases rest with
    | nil => rfl
    | cons point rest => simpa [partialFlags, funcRunningDiff] using ih

theorem partialFlags_cumulativeSumFrom (values : List (TimeSeriesValue V)) :
    ∀ sum : V, partialFlags (cumulativeSumFrom sum values) = partialFlags values := by
  induction values with
  | nil => exact fun _ => rfl
  | cons point rest ih => exact fun sum => by simp [cumulativeSumFrom, partialFlags] at ih ⊢; simp [ih]

theorem partialFlags_ewmaFrom (alpha : V) (values : List (TimeSeriesValue V)) :
    ∀ ewma : Option V, partialFlags (ewmaFrom alpha ewma values) = partialFlags values := by
  induction values with
  | nil => exact fun ewma => by cases ewma <;> rfl
  | cons point rest ih =>
    intro ewma
    cases ewma with
    | none => simp [ewmaFrom, partialFlags] at ih ⊢; simp [ih]
    | some ewma => simp [ewmaFrom, partialFlags] at ih ⊢; simp [ih]

/-- The medians rebuild their points without the flag. -/
theorem partialFlags_funcMedianN (n : Nat) (values : List (TimeSeriesValue V)) :
    partialFlags (funcMedianN n values) =
      if values.length < n then partialFlags values else (partialFlags values).map fun _ => false := by
  unfold funcMedianN
  split_ifs with h
  · rfl
  · apply List.ext_getElem
    · simp [partialFlags]
    · intro i h₁ h₂
      simp only [partialFlags, List.getElem_map, List.getElem_mapIdx]
      split <;> rfl

theorem partialFlags_applyFunction {fn : Function V} (hfill : fn.name ≠ .fillZero)
    (values : List (TimeSeriesValue V)) :
    partialFlags (applyFunction fn values) = fn.name.flagsAfter (partialFlags values) := by
  obtain ⟨name, args⟩ := fn
  unfold applyFunction
  split_ifs with hempty
  · obtain rfl : values = [] := List.isEmpty_iff.1 hempty
    cases name <;> rfl
  · cases name <;>
      simp [FunctionName.flagsAfter, FunctionName.medianWindow, partialFlags_withArg,
        funcCutOffMin, funcCutOffMax, funcClampMin, funcClampMax, funcAbsolute, funcLog2,
        funcLog10, funcCumulativeSum, funcEWMA, partialFlags_funcRunningDiff,
        partialFlags_cumulativeSumFrom, partialFlags_ewmaFrom, partialFlags_funcMedianN]
        at hfill ⊢

/-- `runningDiff` drops a point, the other functions keep their number. -/
theorem FunctionName.length_flagsAfter (name : FunctionName) (flags : List Bool) :
    (name.flagsAfter flags).length =
      if name = .runningDiff then flags.length - 1 else flags.length := by
  unfold FunctionName.flagsAfter
  cases name <;> simp [FunctionName.medianWindow] <;> split <;> simp

/-- A function other than `fillZero` leaves as many points as it leaves flags. -/
theorem length_applyFunction {fn : Function V} (hfill : fn.name ≠ .fillZero)
    (values : List (TimeSeriesValue V)) :
    (applyFunction fn values).length =
      if fn.name = .runningDiff then values.length - 1 else values.length := by
  rw [← length_partialFlags, partialFlags_applyFunction hfill, FunctionName.length_flagsAfter,
    length_partialFlags]

/-! ## Which values a value is computed from -/

/-- The functions that carry a running value from point to point. -/
def FunctionName.accumulates : FunctionName → Bool
  | .cumulativeSum | .ewma3 | .ewma5 | .ewma7 => true
  | _ => false

/-- On a series of `len` points, the value of output point `j` is computed from the value of
input point `i`. A value that is read only to find that it is NaN counts as well. -/
def FunctionName.reads (name : FunctionName) (len i j : Nat) : Prop :=
  match name.medianWindow with
  | some n =>
    if len < n ∨ j < n / 2 ∨ len - n / 2 ≤ j then i = j else j ≤ i + n / 2 ∧ i ≤ j + n / 2
  | none =>
    if name = .runningDiff then i = j ∨ i = j + 1
    else if name.accumulates then i ≤ j else i = j

/-- The value of the point at index `i`, if there is one. -/
def valueAt (values : List (TimeSeriesValue V)) (i : Nat) : Option V :=
  values[i]?.map TimeSeriesValue.value

omit [Float64 V] in
theorem valueAt_mapValue (f : V → V) (values : List (TimeSeriesValue V)) (j : Nat) :
    valueAt (mapValue f values) j = (valueAt values j).map f := by
  simp [valueAt, mapValue, Function.comp_def]

theorem valueAt_funcTimeShift (shift : V) (values : List (TimeSeriesValue V)) (j : Nat) :
    valueAt (funcTimeShift shift values) j = valueAt values j := by
  simp [valueAt, funcTimeShift, Function.comp_def]

theorem valueAt_funcRunningDiff (values : List (TimeSeriesValue V)) (j : Nat) :
    valueAt (funcRunningDiff values) j =
      (valueAt values j).bind fun b => (valueAt values (j + 1)).map fun p => sub p b := by
  simp only [valueAt, funcRunningDiff, List.getElem?_zipWith, List.getElem?_tail]
  cases values[j]? <;> cases values[j + 1]? <;> rfl

section Congr

variable {vs ws : List (TimeSeriesValue V)}

theorem cumulativeSumFrom_congr : ∀ {vs ws : List (TimeSeriesValue V)} (sum : V) (j : Nat),
    (∀ i ≤ j, valueAt vs i = valueAt ws i) →
      valueAt (cumulativeSumFrom sum vs) j = valueAt (cumulativeSumFrom sum ws) j := by
  intro vs
  induction vs with
  | nil =>
    intro ws sum j h
    cases ws with
    | nil => rfl
    | cons q ws => exact absurd (h 0 (Nat.zero_le j)) (by simp [valueAt])
  | cons p vs ih =>
    intro ws sum j h
    cases ws with
    | nil => exact absurd (h 0 (Nat.zero_le j)) (by simp [valueAt])
    | cons q ws =>
      have hhead : p.value = q.value := by simpa [valueAt] using h 0 (Nat.zero_le j)
      cases j with
      | zero => simp [valueAt, cumulativeSumFrom, hhead]
      | succ j =>
        have htail := ih (if isNaN q.value then sum else add sum q.value) j
          fun i hi => by simpa [valueAt] using h (i + 1) (Nat.succ_le_succ hi)
        simpa [valueAt, cumulativeSumFrom, hhead] using htail

theorem ewmaFrom_congr (alpha : V) : ∀ {vs ws : List (TimeSeriesValue V)} (ewma : Option V)
    (j : Nat), (∀ i ≤ j, valueAt vs i = valueAt ws i) →
      valueAt (ewmaFrom alpha ewma vs) j = valueAt (ewmaFrom alpha ewma ws) j := by
  intro vs
  induction vs with
  | nil =>
    intro ws ewma j h
    cases ws with
    | nil => rfl
    | cons q ws => exact absurd (h 0 (Nat.zero_le j)) (by simp [valueAt])
  | cons p vs ih =>
    intro ws ewma j h
    cases ws with
    | nil => exact absurd (h 0 (Nat.zero_le j)) (by simp [valueAt])
    | cons q ws =>
      have hhead : p.value = q.value := by simpa [valueAt] using h 0 (Nat.zero_le j)
      cases j with
      | zero => cases ewma <;> simp [valueAt, ewmaFrom, hhead]
      | succ j =>
        have htail : ∀ ewma, valueAt (ewmaFrom alpha ewma vs) j =
            valueAt (ewmaFrom alpha ewma ws) j := fun ewma =>
          ih ewma j fun i hi => by simpa [valueAt] using h (i + 1) (Nat.succ_le_succ hi)
        cases ewma with
        | none => simpa [valueAt, ewmaFrom, hhead] using htail _
        | some ewma => simpa [valueAt, ewmaFrom, hhead] using htail _

omit [Float64 V] in
theorem windowValues_congr {h j : Nat}
    (hread : ∀ i, j ≤ i + h → i ≤ j + h → h ≤ j → valueAt vs i = valueAt ws i) (hj : h ≤ j) :
    windowValues vs h j = windowValues ws h j := by
  apply List.ext_getElem?
  intro k
  simp only [windowValues, List.getElem?_map, List.getElem?_take, List.getElem?_drop]
  split
  · rename_i hk
    exact hread (j - h + k) (by omega) (by omega) hj
  · rfl

theorem valueAt_funcMedianN {n : Nat} {values : List (TimeSeriesValue V)}
    (hn : ¬values.length < n) (j : Nat) :
    valueAt (funcMedianN n values) j = (valueAt values j).map fun v =>
      if j < n / 2 ∨ values.length - n / 2 ≤ j then v
      else median ((windowValues values (n / 2) j).filter (!isNaN ·)) := by
  rw [funcMedianN, if_neg hn]
  simp only [valueAt, List.getElem?_mapIdx, Option.map_map]
  congr 1
  funext p
  simp only [Function.comp_apply]
  split <;> rfl

theorem funcMedianN_congr {n j : Nat} (hlen : vs.length = ws.length)
    (hread : ∀ i, (if vs.length < n ∨ j < n / 2 ∨ vs.length - n / 2 ≤ j then i = j
      else j ≤ i + n / 2 ∧ i ≤ j + n / 2) → valueAt vs i = valueAt ws i) :
    valueAt (funcMedianN n vs) j = valueAt (funcMedianN n ws) j := by
  have hself : valueAt vs j = valueAt ws j := hread j (by split_ifs <;> omega)
  by_cases hn : vs.length < n
  · rwa [funcMedianN, if_pos hn, funcMedianN, if_pos (hlen ▸ hn)]
  · rw [valueAt_funcMedianN hn, valueAt_funcMedianN (hlen ▸ hn), hself, ← hlen]
    by_cases he : j < n / 2 ∨ vs.length - n / 2 ≤ j
    · simp only [he, if_true]
    · have hwin : windowValues vs (n / 2) j = windowValues ws (n / 2) j :=
        windowValues_congr (fun i h₁ h₂ _ => hread i (by rw [if_neg (by omega)]; omega)) (by omega)
      rw [hwin]

theorem withArg_congr {args : List (ArgValue V)}
    {f : V → List (TimeSeriesValue V) → List (TimeSeriesValue V)} {j : Nat}
    (hself : valueAt vs j = valueAt ws j)
    (hf : ∀ x, valueAt (f x vs) j = valueAt (f x ws) j) :
    valueAt (withArg args f vs) j = valueAt (withArg args f ws) j := by
  unfold withArg
  split
  · exact hf _
  · exact hself

/-- An output value depends on the values that the function reads for it, and on nothing else. -/
theorem applyFunction_value_congr {fn : Function V} (hfill : fn.name ≠ .fillZero)
    (hlen : vs.length = ws.length) {j : Nat}
    (hread : ∀ i, fn.name.reads vs.length i j → valueAt vs i = valueAt ws i) :
    valueAt (applyFunction fn vs) j = valueAt (applyFunction fn ws) j := by
  obtain ⟨name, args⟩ := fn
  by_cases hempty : vs = []
  · obtain rfl : ws = [] := List.length_eq_zero_iff.1 (by rw [← hlen, hempty]; rfl)
    rw [hempty]
  · have hempty' : ws ≠ [] := by
      rintro rfl
      exact hempty (List.length_eq_zero_iff.1 hlen)
    simp only [applyFunction, List.isEmpty_iff, hempty, hempty', if_false]
    cases name
    case fillZero => exact absurd rfl hfill
    case runningDiff =>
      simp only [valueAt_funcRunningDiff, hread j (Or.inl rfl), hread (j + 1) (Or.inr rfl)]
    case cumulativeSum => exact cumulativeSumFrom_congr _ j fun i hi => hread i hi
    case ewma3 => exact ewmaFrom_congr _ _ j fun i hi => hread i hi
    case ewma5 => exact ewmaFrom_congr _ _ j fun i hi => hread i hi
    case ewma7 => exact ewmaFrom_congr _ _ j fun i hi => hread i hi
    case median3 => exact funcMedianN_congr hlen fun i hi => hread i hi
    case median5 => exact funcMedianN_congr hlen fun i hi => hread i hi
    case median7 => exact funcMedianN_congr hlen fun i hi => hread i hi
    -- what is left works point by point
    all_goals
      have hself : valueAt vs j = valueAt ws j := hread j rfl
      first
        | exact hself
        | exact withArg_congr hself fun x => by
            simp only [funcCutOffMin, funcCutOffMax, funcClampMin, funcClampMax,
              valueAt_mapValue, valueAt_funcTimeShift, hself]
        | simp only [funcAbsolute, funcLog2, funcLog10, valueAt_mapValue, hself]

end Congr

end

end Signoz.Querier
