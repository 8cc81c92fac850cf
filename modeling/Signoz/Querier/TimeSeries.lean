import Mathlib.Algebra.Group.Int.Defs
import Mathlib.Algebra.Group.Nat.Defs
import Signoz.Lib.KeyedFold

/-!
# Time-series results

The data that queries return and that caching, formulas and post-processing pass around:
`TimeSeriesData` and its parts from `resp.go`, the `Result` wrapper and the request types from
`query.go`. Values are kept abstract (`V`), labels are a name with a string or a number, where a
number is held as the text it prints as.

`TimeSeriesData.points d index key` collects what a result says about one aggregation and one
series key, in whatever buckets and series it is spread over. Two results agree when these lists
agree up to order, which is how results are compared throughout.
-/

namespace Signoz.Querier

open Lib.KeyedFold

/-- Conversion of an `int64` to `uint64`: negative numbers wrap around. -/
def uint64 (t : Int) : Nat := (t % 2 ^ 64).toNat

@[simp] theorem uint64_natCast {n : Nat} (h : n < 2 ^ 64) : uint64 (n : Int) = n := by
  unfold uint64
  omega

/-- A signed 64-bit number from an integer: numbers out of range wrap around. -/
def wrapInt64 (n : Int) : Int := (n + 2 ^ 63) % 2 ^ 64 - 2 ^ 63

theorem wrapInt64_of_lt {n : Nat} (h : n < 2 ^ 63) : wrapInt64 n = n := by
  rw [wrapInt64, Int.emod_eq_of_lt (by omega) (by omega)]
  omega

/-- Subtraction in `uint64`. -/
def subUint64 (a b : Nat) : Nat := (a + (2 ^ 64 - b % 2 ^ 64)) % 2 ^ 64

/-- Addition in `uint64`. -/
def addUint64 (a b : Nat) : Nat := (a + b) % 2 ^ 64

theorem subUint64_of_le {a b : Nat} (h : b ≤ a) (ha : a < 2 ^ 64) : subUint64 a b = a - b := by
  unfold subUint64
  omega

/-- A label value: a string, or a number given by the text `%v` prints for it. -/
inductive LabelValue where
  | str (s : String)
  | num (text : String)
deriving DecidableEq

/-- The `%v` rendering of a label value. -/
def LabelValue.text : LabelValue → String
  | .str s => s
  | .num t => t

/-- One label of a series: the name of its key, and its value. -/
structure Label where
  name : String
  value : LabelValue
deriving DecidableEq

/-- `GetUniqueSeriesKey`: the labels as `name=value,` in the order of their names, later labels
of one name overwriting earlier ones. -/
def getUniqueSeriesKey : List Label → String
  | [] => ""
  | [l] => l.name ++ "=" ++ l.value.text ++ ","
  | labels =>
    let labelMap := accumulate id (fun _ v => v) []
      (labels.map fun l => (l.name, l.value.text))
    let keys := (labelMap.map Prod.fst).insertionSort (· ≤ ·)
    keys.foldl (fun key k => key ++ (k ++ "=" ++ (labelMap.lookup k).getD "" ++ ",")) ""

/-- A point of a series. `isPartial` marks a value that does not cover its whole interval. -/
structure TimeSeriesValue (V : Type) where
  timestamp : Int
  value : V
  isPartial : Bool
deriving DecidableEq

structure TimeSeries (V : Type) where
  labels : List Label
  values : List (TimeSeriesValue V)
deriving DecidableEq

/-- The series of one aggregation of a query; `unit` is the unit of its `Meta`. -/
structure AggregationBucket (V : Type) where
  index : Nat
  aliasName : String
  unit : String
  series : List (TimeSeries V)
deriving DecidableEq

structure TimeSeriesData (V : Type) where
  queryName : String
  aggregations : List (AggregationBucket V)
deriving DecidableEq

/-- The kinds of result a request can ask for. -/
inductive RequestType where
  | unknown
  | scalar
  | timeSeries
  | raw
  | rawStream
  | trace
  | distribution
deriving DecidableEq

structure ExecStats where
  rowsScanned : Nat
  bytesScanned : Nat
  durationMs : Nat
deriving DecidableEq

def ExecStats.zero : ExecStats := ⟨0, 0, 0⟩

def ExecStats.add (a b : ExecStats) : ExecStats :=
  ⟨a.rowsScanned + b.rowsScanned, a.bytesScanned + b.bytesScanned, a.durationMs + b.durationMs⟩

/-- The dynamic value of a result: nothing, time series, or a payload of another kind. -/
inductive ResultValue (V : Type) where
  | none
  | timeSeries (data : TimeSeriesData V)
  | other
deriving DecidableEq

structure Result (V : Type) where
  type : RequestType
  value : ResultValue V
  stats : ExecStats
  warnings : List String
  warningsDocURL : String
deriving DecidableEq

section Points

variable {V : Type}

/-- Every series of a result, filed under its aggregation index and series key. -/
def TimeSeriesData.keyed (d : TimeSeriesData V) : List ((Nat × String) × TimeSeries V) :=
  d.aggregations.flatMap fun a => a.series.map fun s =>
    ((a.index, getUniqueSeriesKey s.labels), s)

/-- What a result says about one aggregation and series key. -/
def TimeSeriesData.points (d : TimeSeriesData V) (index : Nat) (key : String) :
    List (TimeSeriesValue V) :=
  (itemsOf (index, key) d.keyed).flatMap TimeSeries.values

theorem TimeSeriesData.mem_keyed {d : TimeSeriesData V} {i : Nat} {k : String}
    {s : TimeSeries V} :
    ((i, k), s) ∈ d.keyed ↔
      ∃ a ∈ d.aggregations, a.index = i ∧ s ∈ a.series ∧ getUniqueSeriesKey s.labels = k := by
  simp only [TimeSeriesData.keyed, List.mem_flatMap, List.mem_map, Prod.mk.injEq]
  constructor
  · rintro ⟨a, ha, s', hs, ⟨rfl, rfl⟩, rfl⟩
    exact ⟨a, ha, rfl, hs, rfl⟩
  · rintro ⟨a, ha, rfl, hs, rfl⟩
    exact ⟨a, ha, s, hs, ⟨rfl, rfl⟩, rfl⟩

theorem TimeSeriesData.mem_points {d : TimeSeriesData V} {i : Nat} {k : String}
    {p : TimeSeriesValue V} :
    p ∈ d.points i k ↔ ∃ s, ((i, k), s) ∈ d.keyed ∧ p ∈ s.values := by
  simp only [TimeSeriesData.points, List.mem_flatMap, mem_itemsOf]

/-- Stable sort of points by timestamp. -/
def sortByTimestamp (values : List (TimeSeriesValue V)) : List (TimeSeriesValue V) :=
  values.insertionSort fun a b => a.timestamp ≤ b.timestamp

theorem sortByTimestamp_perm (values : List (TimeSeriesValue V)) :
    (sortByTimestamp values).Perm values := List.perm_insertionSort _ values

@[simp] theorem mem_sortByTimestamp {values : List (TimeSeriesValue V)}
    {p : TimeSeriesValue V} : p ∈ sortByTimestamp values ↔ p ∈ values :=
  (sortByTimestamp_perm values).mem_iff

/-- A series with its points in time order. -/
def TimeSeries.sorted (s : TimeSeries V) : TimeSeries V := ⟨s.labels, sortByTimestamp s.values⟩

/-- Extend the points of a series by those of another whose timestamps are new. The timestamps
are compared with the points present before, as `timestampMap` is filled before the loop. -/
def mergeValues (existing fresh : List (TimeSeriesValue V)) : List (TimeSeriesValue V) :=
  existing ++ fresh.filter fun v => !(existing.map TimeSeriesValue.timestamp).contains v.timestamp

theorem mem_mergeValues {existing fresh : List (TimeSeriesValue V)} {p : TimeSeriesValue V} :
    p ∈ mergeValues existing fresh ↔
      p ∈ existing ∨ (p ∈ fresh ∧ ∀ q ∈ existing, q.timestamp ≠ p.timestamp) := by
  simp [mergeValues]

theorem nodup_timestamps_mergeValues {existing fresh : List (TimeSeriesValue V)}
    (he : (existing.map TimeSeriesValue.timestamp).Nodup)
    (hf : (fresh.map TimeSeriesValue.timestamp).Nodup) :
    ((mergeValues existing fresh).map TimeSeriesValue.timestamp).Nodup := by
  rw [mergeValues, List.map_append, List.nodup_append]
  refine ⟨he, (List.Sublist.map _ List.filter_sublist).nodup hf, ?_⟩
  intro t ht t' ht' heq
  subst heq
  obtain ⟨p, hp, rfl⟩ := List.mem_map.1 ht'
  have hnot := (List.mem_filter.1 hp).2
  simp only [Bool.not_eq_true', List.contains_eq_mem, decide_eq_false_iff_not] at hnot
  exact hnot ht

end Points

end Signoz.Querier
