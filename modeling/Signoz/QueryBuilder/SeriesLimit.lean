import Signoz.QueryBuilder.Collision
import Signoz.Lib.StrictWeak
import Mathlib.Algebra.Order.Ring.Unbundled.Rat
import Mathlib.Order.WithBot

/-!
# The series limit

`ApplySeriesLimit` (`series_limit.go`) sorts the series of a result by the order-by list and keeps
the first ones. `compareSeries` goes by one order key after another: by the value of a series, up or
down, or by the text of a label, up or down with missing labels first in both directions. Each is
an order on something computed from one series, which makes the whole a strict weak order.
-/

namespace Signoz.QueryBuilder

open Lib.KeyedFold Lib.StrictWeak

/-! ## Series -/

/-- The `any` value of a label; `F` is the type of floats. -/
inductive LabelValue (F : Type) where
  | string (s : String)
  | int (n : Int)
  | int64 (n : Int)
  | float64 (v : F)
  | bool (b : Bool)
  | other

structure Label (F : Type) where
  keyName : String
  value : LabelValue F

/-- `TimeSeries`: its labels, and the values of its points, `none` for NaN and the infinities. -/
structure TimeSeries (F : Type) where
  labels : List (Label F)
  values : List (Option ℚ)

section

variable {F M : Type} (formatFloat : F → String)

/-- `convertValueToString`; `formatFloat` is `strconv.FormatFloat` without an exponent. -/
def convertValueToString : LabelValue F → String
  | .string v => v
  | .int v => toString v
  | .int64 v => toString v
  | .float64 v => formatFloat v
  | .bool v => if v then "true" else "false"
  | .other => ""

/-- `calculateSeriesValue`. -/
def calculateSeriesValue (series : TimeSeries F) : ℚ :=
  match series.values with
  | [] => 0
  | [value] => value.getD 0
  | values =>
    let (sum, count) := values.foldl
      (fun (acc : ℚ × ℚ) (point : Option ℚ) =>
        match point with
        | none => acc
        | some value => (acc.1 + value, acc.2 + 1))
      (0, 0)
    if count = 0 then 0 else sum / count

/-- The label map of a series: later labels overwrite earlier ones of the same name. -/
def labelMap (series : TimeSeries F) : List (String × String) :=
  accumulate id (fun _ value => value) []
    (series.labels.map fun label => (label.keyName, convertValueToString formatFloat label.value))

def defaultOrderByKey : String := "__result"

/-- `compareSeries`: whether the first series comes before the second. -/
def compareSeries (seriesI seriesJ : TimeSeries F) : List (OrderBy M) → Bool
  | [] => false
  | order :: orderBy =>
    if order.key.name = defaultOrderByKey then
      let valueI := calculateSeriesValue seriesI
      let valueJ := calculateSeriesValue seriesJ
      if valueI ≠ valueJ then
        if order.direction = .asc then valueI < valueJ else valueI > valueJ
      else compareSeries seriesI seriesJ orderBy
    else
      match (labelMap formatFloat seriesI).lookup order.key.name,
        (labelMap formatFloat seriesJ).lookup order.key.name with
      -- a missing label comes first
      | none, some _ => true
      | some _, none => false
      | none, none => compareSeries seriesI seriesJ orderBy
      | some labelI, some labelJ =>
        if labelI ≠ labelJ then
          if order.direction = .asc then labelI < labelJ else labelI > labelJ
        else compareSeries seriesI seriesJ orderBy

/-- The comparison that the sort gets. -/
def compareFunc (orderBy : List (OrderBy M)) (i j : TimeSeries F) : Int :=
  if compareSeries formatFloat i j orderBy then -1
  else if compareSeries formatFloat j i orderBy then 1
  else 0

/-- `slices.SortStableFunc`. -/
def sortStableFunc {S : Type} (cmp : S → S → Int) (series : List S) : List S :=
  series.mergeSort fun i j => decide (cmp i j ≤ 0)

/-- The order that is used: without one, by value, the largest first. -/
def effectiveOrderBy [Inhabited M] (orderBy : List (OrderBy M)) : List (OrderBy M) :=
  if orderBy.isEmpty then
    [⟨⟨⟨defaultOrderByKey, .unspecified, .float64, false⟩, none, [], default⟩, .desc⟩]
  else orderBy

/-- `ApplySeriesLimit`. -/
def applySeriesLimit [Inhabited M] (series : List (TimeSeries F)) (orderBy : List (OrderBy M))
    (limit : Int) : List (TimeSeries F) :=
  if series.isEmpty then series
  else
    let sorted := sortStableFunc (compareFunc formatFloat (effectiveOrderBy orderBy)) series
    if limit > 0 ∧ (sorted.length : Int) > limit then sorted.take limit.toNat else sorted

/-! ## The order -/

/-- The text of a label as an order key, where a missing label is the least. -/
def labelKey (name : String) (series : TimeSeries F) : WithBot String :=
  match (labelMap formatFloat series).lookup name with
  | none => ⊥
  | some label => label

/-- The same with the order of the texts turned around. -/
def labelKeyDesc (name : String) (series : TimeSeries F) : WithBot Stringᵒᵈ :=
  match (labelMap formatFloat series).lookup name with
  | none => ⊥
  | some label => ((OrderDual.toDual label : Stringᵒᵈ) : WithBot Stringᵒᵈ)

/-- The order that one order key and the rest of the list make. -/
def orderLt (order : OrderBy M) (rest : TimeSeries F → TimeSeries F → Prop) :
    TimeSeries F → TimeSeries F → Prop :=
  if order.key.name = defaultOrderByKey then
    if order.direction = .asc then LexBy calculateSeriesValue rest
    else LexBy (fun series => OrderDual.toDual (calculateSeriesValue series)) rest
  else if order.direction = .asc then LexBy (labelKey formatFloat order.key.name) rest
  else LexBy (labelKeyDesc formatFloat order.key.name) rest

/-- One order key compares by something that is computed from one series. -/
theorem compareSeries_cons (order : OrderBy M) (orderBy : List (OrderBy M))
    (i j : TimeSeries F) :
    compareSeries formatFloat i j (order :: orderBy) = true ↔
      orderLt formatFloat order (fun i j => compareSeries formatFloat i j orderBy = true) i j := by
  rw [compareSeries, orderLt]
  split
  · by_cases hvalue : calculateSeriesValue i = calculateSeriesValue j
    · split <;> simp [hvalue, LexBy]
    · split <;> simp [hvalue, LexBy]
  · unfold LexBy labelKey labelKeyDesc
    cases hi : (labelMap formatFloat i).lookup order.key.name with
    | none =>
      cases hj : (labelMap formatFloat j).lookup order.key.name with
      | none => by_cases hasc : order.direction = .asc <;> simp [hi, hj, hasc]
      | some labelJ => by_cases hasc : order.direction = .asc <;> simp [hi, hj, hasc]
    | some labelI =>
      cases hj : (labelMap formatFloat j).lookup order.key.name with
      | none => by_cases hasc : order.direction = .asc <;> simp [hi, hj, hasc]
      | some labelJ =>
        by_cases hlabel : labelI = labelJ
        · by_cases hasc : order.direction = .asc <;> simp [hi, hj, hasc, hlabel]
        · by_cases hasc : order.direction = .asc <;> simp [hi, hj, hasc, hlabel]

/-- `compareSeries` is a strict weak order, for every order-by list. -/
theorem isStrictWeakOrder_compareSeries (orderBy : List (OrderBy M)) :
    IsStrictWeakOrder (TimeSeries F)
      fun i j => compareSeries formatFloat i j orderBy = true := by
  induction orderBy with
  | nil =>
    have hnone : ∀ i j : TimeSeries F, ¬ compareSeries formatFloat i j ([] : List (OrderBy M)) =
        true := fun i j => Bool.false_ne_true
    exact
      { irrefl := fun i => hnone i i
        trans := fun i j _ h => absurd h (hnone i j)
        incomp_trans := fun i _ k _ _ => ⟨hnone i k, hnone k i⟩ }
  | cons order orderBy ih =>
    have hcons : (fun i j : TimeSeries F =>
        compareSeries formatFloat i j (order :: orderBy) = true) =
        orderLt formatFloat order fun i j => compareSeries formatFloat i j orderBy = true := by
      funext i j
      exact propext (compareSeries_cons formatFloat order orderBy i j)
    rw [hcons, orderLt]
    split
    · split
      · exact LexBy.isStrictWeakOrder _ ih
      · exact LexBy.isStrictWeakOrder _ ih
    · split
      · exact LexBy.isStrictWeakOrder _ ih
      · exact LexBy.isStrictWeakOrder _ ih

/-! ## The limit -/

/-- The comparison says that nothing is out of order where the second series does not come before
the first. -/
theorem compareFunc_le_zero (orderBy : List (OrderBy M)) (i j : TimeSeries F) :
    decide (compareFunc formatFloat orderBy i j ≤ 0) =
      !compareSeries formatFloat j i orderBy := by
  have hasymm := @asymm _ _ (isStrictWeakOrder_compareSeries formatFloat orderBy) i j
  rw [compareFunc]
  cases hij : compareSeries formatFloat i j orderBy with
  | true =>
    have hji : compareSeries formatFloat j i orderBy = false := by simpa using hasymm hij
    simp [hji]
  | false => cases hji : compareSeries formatFloat j i orderBy <;> simp

theorem sortStableFunc_compareFunc (orderBy : List (OrderBy M)) (series : List (TimeSeries F)) :
    sortStableFunc (compareFunc formatFloat orderBy) series =
      series.mergeSort fun i j => !compareSeries formatFloat j i orderBy := by
  rw [sortStableFunc]
  congr
  funext i j
  exact compareFunc_le_zero formatFloat orderBy i j

/-- How many series are kept. -/
def keptSeries (limit : Int) (n : Nat) : Nat := if limit > 0 then min limit.toNat n else n

theorem applySeriesLimit_eq_take [Inhabited M] (series : List (TimeSeries F))
    (orderBy : List (OrderBy M)) (limit : Int) :
    applySeriesLimit formatFloat series orderBy limit =
      (series.mergeSort fun i j => !compareSeries formatFloat j i (effectiveOrderBy orderBy)).take
        (keptSeries limit series.length) := by
  rw [applySeriesLimit, ← sortStableFunc_compareFunc, keptSeries]
  have hlength : (sortStableFunc (compareFunc formatFloat (effectiveOrderBy orderBy))
      series).length = series.length := List.length_mergeSort series
  cases series with
  | nil => simp [sortStableFunc]
  | cons first rest =>
    rw [if_neg (by simp)]
    simp only [hlength]
    by_cases hlimit : limit > 0
    · rw [if_pos hlimit]
      by_cases hmore : ((first :: rest).length : Int) > limit
      · rw [if_pos ⟨hlimit, hmore⟩, Nat.min_eq_left (by omega)]
      · rw [if_neg fun h => hmore h.2, Nat.min_eq_right (by omega), List.take_of_length_le]
        exact le_of_eq hlength
    · rw [if_neg fun h => hlimit h.1, if_neg hlimit, List.take_of_length_le]
      exact le_of_eq hlength

/-- The series limit keeps the front of the stable sort by a strict weak order: nothing that is
dropped comes before something that is kept, and keeping the front of what is kept changes
nothing. -/
theorem applySeriesLimit_keeps_top [Inhabited M] (series : List (TimeSeries F))
    (orderBy : List (OrderBy M)) (limit : Int) :
    (IsStrictWeakOrder (TimeSeries F) fun i j => compareSeries formatFloat i j orderBy = true) ∧
    ∃ sorted,
      IsStableSort (fun i j => compareSeries formatFloat i j (effectiveOrderBy orderBy)) series
        sorted ∧
      applySeriesLimit formatFloat series orderBy limit =
        sorted.take (keptSeries limit series.length) ∧
      (∀ kept ∈ applySeriesLimit formatFloat series orderBy limit,
        ∀ dropped ∈ sorted.drop (keptSeries limit series.length),
        compareSeries formatFloat dropped kept (effectiveOrderBy orderBy) = false) ∧
      applySeriesLimit formatFloat (applySeriesLimit formatFloat series orderBy limit) orderBy
        limit = applySeriesLimit formatFloat series orderBy limit := by
  have hsort := isStableSort_mergeSort
    (isStrictWeakOrder_compareSeries formatFloat (effectiveOrderBy orderBy)) series
  refine ⟨isStrictWeakOrder_compareSeries formatFloat orderBy, _, hsort,
    applySeriesLimit_eq_take formatFloat series orderBy limit,
    fun kept hkept dropped hdropped => ?_, ?_⟩
  · rw [applySeriesLimit_eq_take] at hkept
    exact hsort.take_drop _ hkept hdropped
  · rw [applySeriesLimit_eq_take formatFloat (applySeriesLimit _ _ _ _),
      applySeriesLimit_eq_take formatFloat series, hsort.mergeSort_take, List.take_take]
    congr 1
    rw [List.length_take, List.length_mergeSort, keptSeries, keptSeries]
    split <;> omega

end

end Signoz.QueryBuilder
