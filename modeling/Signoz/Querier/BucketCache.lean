import Signoz.Querier.TimeSeries

/-!
# The bucket cache

`bucket_cache.go`: a query's results are kept as buckets, each a window and the time series known
for it. `getMissRanges` returns what the buckets hold of a window and the ranges still to be
fetched, `put` stores a result. Bounds are epoch milliseconds held in `uint64`, so the step
boundaries behind a start and the flux boundary are taken modulo `2 ^ 64`.

The payload of a bucket is stored as JSON, and that does not keep every value: `MarshalJSON` rounds
a number to three decimals and writes NaN and the infinities as strings, and a payload with such a
string does not unmarshal. Labels are strings, or numbers that JSON keeps. A Go map is iterated
here in insertion order, which is one of the orders the language allows.
-/

namespace Signoz.Querier

open Lib.KeyedFold

/-- A range of milliseconds, `toMs` excluded. -/
structure TimeRange where
  fromMs : Nat
  toMs : Nat
deriving DecidableEq

/-- `r` contains the millisecond `x`. -/
def TimeRange.Mem (r : TimeRange) (x : Nat) : Prop := r.fromMs ≤ x ∧ x < r.toMs

/-- Values with a JSON form. -/
class JsonValue (V : Type) where
  /-- `sanitizeValue` of a number: the number it is rounded to by `roundToNonZeroDecimals`, `none`
  for the strings that are written for NaN and the infinities. -/
  sanitizeValue : V → Option V

/-- A whole number is rounded to itself. -/
instance : JsonValue Nat := ⟨some⟩

/-- A bucket. Its value is what its JSON text says, with `none` for a string in place of a
number. -/
structure CachedBucket (V : Type) where
  startMs : Nat
  endMs : Nat
  type : RequestType
  value : TimeSeriesData (Option V)
  stats : ExecStats
deriving DecidableEq

structure CachedData (V : Type) where
  buckets : List (CachedBucket V)
  warnings : List String
deriving DecidableEq

/-- The cache of one organisation, by cache key. -/
abbrev Cache (V : Type) := String → Option (CachedData V)

/-- `cache.Set`. -/
def Cache.set {V : Type} (c : Cache V) (key : String) (data : CachedData V) : Cache V :=
  fun k => if k = key then some data else c k

@[simp] theorem Cache.set_self {V : Type} (c : Cache V) (key : String) (data : CachedData V) :
    c.set key data key = some data := if_pos rfl

section BucketCache

variable {V : Type}

/-- `generateCacheKey`. -/
def generateCacheKey (fingerprint : String) : String := "v5:query:" ++ fingerprint

/-- `currentMs - fluxInterval` in `uint64`. -/
def fluxBoundary (fluxIntervalMs currentMs : Nat) : Nat := subUint64 currentMs fluxIntervalMs

/-- The buckets in the order of their start. -/
def sortBuckets (buckets : List (CachedBucket V)) : List (CachedBucket V) :=
  buckets.insertionSort fun a b => a.startMs ≤ b.startMs

theorem sortBuckets_perm (buckets : List (CachedBucket V)) :
    (sortBuckets buckets).Perm buckets := List.perm_insertionSort _ buckets

@[simp] theorem mem_sortBuckets {buckets : List (CachedBucket V)} {b : CachedBucket V} :
    b ∈ sortBuckets buckets ↔ b ∈ buckets := (sortBuckets_perm buckets).mem_iff

/-! ## Missing ranges -/

/-- The gap before a bucket, when there is one. -/
def gapBefore (currentMs alignedStart endMs : Nat) : List TimeRange :=
  if currentMs < alignedStart ∧ currentMs < endMs then [⟨currentMs, min alignedStart endMs⟩]
  else []

/-- The bucket loop of `findMissingRangesWithStep`: the final position and the gaps found. -/
def stepLoop (stepMs endMs : Nat) :
    List (CachedBucket V) → Nat → List TimeRange → Nat × List TimeRange
  | [], currentMs, missing => (currentMs, missing)
  | bucket :: rest, currentMs, missing =>
    if bucket.endMs ≤ currentMs then stepLoop stepMs endMs rest currentMs missing
    else if endMs ≤ bucket.startMs then (currentMs, missing)
    else
      let alignedBucketStart :=
        if bucket.startMs % stepMs ≠ 0 then
          addUint64 (bucket.startMs - bucket.startMs % stepMs) stepMs
        else bucket.startMs
      let bucketEnd := min bucket.endMs endMs
      let bucketEnd :=
        if bucketEnd % stepMs ≠ 0 ∧ bucketEnd < endMs then bucketEnd - bucketEnd % stepMs
        else bucketEnd
      stepLoop stepMs endMs rest (max currentMs bucketEnd)
        (missing ++ gapBefore currentMs alignedBucketStart endMs)

/-- The bucket loop of `findMissingRangesBasic`. -/
def basicLoop (startMs endMs : Nat) :
    List (CachedBucket V) → Nat → List TimeRange → Nat × List TimeRange
  | [], currentMs, missing => (currentMs, missing)
  | bucket :: rest, currentMs, missing =>
    if bucket.endMs ≤ startMs then basicLoop startMs endMs rest currentMs missing
    else if endMs ≤ bucket.startMs then (currentMs, missing)
    else
      let gap :=
        if currentMs < bucket.startMs then [⟨currentMs, min bucket.startMs endMs⟩] else []
      basicLoop startMs endMs rest (max currentMs (min bucket.endMs endMs)) (missing ++ gap)

/-- The final gap of `findMissingRangesBasic`, cut in two at the flux boundary. -/
def finalGap (boundary currentMs endMs : Nat) : List TimeRange :=
  if currentMs < endMs then
    if currentMs < boundary then
      ⟨currentMs, min endMs boundary⟩ :: (if boundary < endMs then [⟨boundary, endMs⟩] else [])
    else [⟨currentMs, endMs⟩]
  else []

/-- `findMissingRangesBasic`. -/
def findMissingRangesBasic (fluxIntervalMs currentTime : Nat) (buckets : List (CachedBucket V))
    (startMs endMs : Nat) : List TimeRange :=
  let r := basicLoop startMs endMs (sortBuckets buckets) startMs []
  r.2 ++ finalGap (fluxBoundary fluxIntervalMs currentTime) r.1 endMs

/-- The partial window before the first step boundary, and the position after it. -/
def partialStart (stepMs startMs endMs : Nat) : Nat × List TimeRange :=
  if startMs % stepMs ≠ 0 then
    let nextAggStart := addUint64 (startMs - startMs % stepMs) stepMs
    (nextAggStart, [⟨startMs, min nextAggStart endMs⟩])
  else (startMs, [])

/-- `findMissingRangesWithStep`. -/
def findMissingRangesWithStep (fluxIntervalMs currentTime : Nat)
    (buckets : List (CachedBucket V)) (startMs endMs stepMs : Nat) : List TimeRange :=
  if stepMs = 0 ∨ endMs < addUint64 startMs stepMs then
    findMissingRangesBasic fluxIntervalMs currentTime buckets startMs endMs
  else
    let p := partialStart stepMs startMs endMs
    let r := if buckets = [] then p else stepLoop stepMs endMs (sortBuckets buckets) p.1 p.2
    r.2 ++ (if r.1 < endMs then [⟨r.1, endMs⟩] else [])

/-! ## Payloads as JSON -/

/-- The data with every value replaced. -/
def TimeSeriesData.mapValues {W : Type} (f : V → W) (d : TimeSeriesData V) : TimeSeriesData W :=
  ⟨d.queryName, d.aggregations.map fun a =>
    ⟨a.index, a.aliasName, a.unit, a.series.map fun s =>
      ⟨s.labels, s.values.map fun v => ⟨v.timestamp, f v.value, v.isPartial⟩⟩⟩⟩

/-- `json.Marshal` of time series data. -/
def TimeSeriesData.marshal [JsonValue V] (d : TimeSeriesData V) : TimeSeriesData (Option V) :=
  d.mapValues JsonValue.sanitizeValue

/-- `json.Unmarshal` into time series data: an error where a string stands for a number. -/
def TimeSeriesData.unmarshal (d : TimeSeriesData (Option V)) : Option (TimeSeriesData V) := do
  let aggregations ← d.aggregations.mapM fun a => do
    let series ← a.series.mapM fun s => do
      let values ← s.values.mapM fun v => do
        let value ← v.value
        pure ⟨v.timestamp, value, v.isPartial⟩
      pure ⟨s.labels, values⟩
    pure ⟨a.index, a.aliasName, a.unit, series⟩
  pure ⟨d.queryName, aggregations⟩

theorem mapM_map_of_some {α β : Type} {f : β → Option α} {g : α → β} (l : List α)
    (h : ∀ x ∈ l, f (g x) = some x) : (l.map g).mapM f = some l := by
  induction l with
  | nil => rfl
  | cons x l ih =>
    rw [List.map_cons, List.mapM_cons, h x List.mem_cons_self,
      ih fun y hy => h y (List.mem_cons_of_mem _ hy)]
    rfl

/-- Numbers come back as they were written. -/
theorem TimeSeriesData.unmarshal_mapValues_some (d : TimeSeriesData V) :
    (d.mapValues some).unmarshal = some d := by
  have hvalues : ∀ l : List (TimeSeriesValue V),
      (l.map fun v => (⟨v.timestamp, some v.value, v.isPartial⟩ : TimeSeriesValue (Option V))).mapM
        (fun v => do
          let value ← v.value
          pure (⟨v.timestamp, value, v.isPartial⟩ : TimeSeriesValue V)) = some l :=
    fun l => mapM_map_of_some l fun _ _ => rfl
  simp only [TimeSeriesData.unmarshal, TimeSeriesData.mapValues]
  rw [mapM_map_of_some]
  · rfl
  · intro a _
    rw [mapM_map_of_some]
    · rfl
    · intro s _
      rw [hvalues]
      rfl

/-- The series of the data with other values. -/
theorem TimeSeriesData.mapValues_keyed {W : Type} (f : V → W) (d : TimeSeriesData V) :
    (d.mapValues f).keyed = d.keyed.map fun e =>
      (e.1, ⟨e.2.labels, e.2.values.map fun v => ⟨v.timestamp, f v.value, v.isPartial⟩⟩) := by
  simp only [TimeSeriesData.keyed, TimeSeriesData.mapValues, List.flatMap_map, List.map_flatMap,
    List.map_map]
  rfl

/-- Data whose numbers are all kept is written as it is. -/
theorem TimeSeriesData.marshal_of_kept [JsonValue V] {d : TimeSeriesData V}
    (h : ∀ e ∈ d.keyed, ∀ p ∈ e.2.values, JsonValue.sanitizeValue p.value = some p.value) :
    d.marshal = d.mapValues some := by
  simp only [TimeSeriesData.marshal, TimeSeriesData.mapValues, TimeSeriesData.mk.injEq, true_and]
  refine List.map_congr_left fun a ha => ?_
  simp only [AggregationBucket.mk.injEq, true_and]
  refine List.map_congr_left fun s hs => ?_
  simp only [TimeSeries.mk.injEq, true_and]
  refine List.map_congr_left fun v hv => ?_
  rw [h _ (TimeSeriesData.mem_keyed.2 ⟨a, ha, rfl, hs, rfl⟩) v hv]

/-! ## Reading -/

/-- `bucket` shares a millisecond with `[startMs, endMs)`. -/
def CachedBucket.overlaps (bucket : CachedBucket V) (startMs endMs : Nat) : Bool :=
  decide (startMs < bucket.endMs) && decide (bucket.startMs < endMs)

/-- `filterRelevantBuckets`. -/
def filterRelevantBuckets (buckets : List (CachedBucket V)) (startMs endMs : Nat) :
    List (CachedBucket V) :=
  sortBuckets (buckets.filter fun b => b.overlaps startMs endMs)

/-- Group series by aggregation index, one bucket per index. -/
def groupByAggregation (seriesMap : List ((Nat × String) × TimeSeries V)) :
    List (AggregationBucket V) :=
  (accumulate (fun s => [s]) (fun l s => l ++ [s]) [] (seriesMap.map fun e => (e.1.1, e.2))).map
    fun e => ⟨e.1, "", "", e.2⟩

/-- Merge a series into the one already kept under its key. -/
def mergeSeries (existing series : TimeSeries V) : TimeSeries V :=
  { existing with values := mergeValues existing.values series.values }

/-- Merge the series of several time series data into one list by key, points in time order. -/
def mergedSeries (inputs : List (TimeSeriesData V)) : List ((Nat × String) × TimeSeries V) :=
  (accumulate id mergeSeries [] (inputs.flatMap TimeSeriesData.keyed)).map fun e =>
    (e.1, e.2.sorted)

/-- `mergeTimeSeriesValues`. A bucket that does not unmarshal is skipped. -/
def mergeTimeSeriesValues (buckets : List (CachedBucket V)) : TimeSeriesData V :=
  ⟨"", groupByAggregation (mergedSeries (buckets.filterMap fun b => b.value.unmarshal))⟩

/-- `mergeBuckets`. -/
def mergeBuckets (buckets : List (CachedBucket V)) (warnings : List String) : Result V :=
  match buckets with
  | [] => ⟨.unknown, .none, .zero, [], ""⟩
  | b :: _ =>
    { type := b.type
      value := if b.type = .timeSeries then .timeSeries (mergeTimeSeriesValues buckets) else .none
      stats := buckets.foldl (fun s b => s.add b.stats) .zero
      warnings := warnings
      warningsDocURL := "" }

/-- `filterResultToTimeRange` on time series data. -/
def filterDataToTimeRange (d : TimeSeriesData V) (startMs endMs : Nat) : TimeSeriesData V :=
  ⟨"", (d.aggregations.map fun a =>
      { a with series := a.series.map fun s =>
          { s with values := s.values.filter fun v =>
              decide (startMs ≤ uint64 v.timestamp) && decide (uint64 v.timestamp < endMs) } }).filter
    fun a => !a.series.isEmpty⟩

/-- `filterResultToTimeRange`. -/
def filterResultToTimeRange (result : Result V) (startMs endMs : Nat) : Result V :=
  match result.type, result.value with
  | .timeSeries, .timeSeries d =>
    { result with value := .timeSeries (filterDataToTimeRange d startMs endMs), warningsDocURL := "" }
  | _, _ => result

/-- `GetMissRanges`. -/
def getMissRanges (fluxIntervalMs currentTime : Nat) (cache : Cache V) (fingerprint : String)
    (startMs endMs stepMs : Nat) : Option (Result V) × List TimeRange :=
  match cache (generateCacheKey fingerprint) with
  | none => (none, [⟨startMs, endMs⟩])
  | some data =>
    let missing :=
      findMissingRangesWithStep fluxIntervalMs currentTime data.buckets startMs endMs stepMs
    let relevantBuckets := filterRelevantBuckets data.buckets startMs endMs
    if relevantBuckets = [] then (none, missing)
    else
      (some (filterResultToTimeRange (mergeBuckets relevantBuckets data.warnings) startMs endMs),
        missing)

/-! ## Writing -/

/-- `trimResultToFluxBoundary` on time series data. -/
def trimDataToFluxBoundary (d : TimeSeriesData V) (boundary : Nat) : TimeSeriesData V :=
  ⟨"", d.aggregations.map fun a =>
    ⟨a.index, "", "", a.series.map fun s =>
      ⟨s.labels, s.values.filter fun v =>
        !v.isPartial && decide (uint64 v.timestamp ≤ boundary)⟩⟩⟩

/-- `trimResultToFluxBoundary`: `none` for the types that are not cached. -/
def trimResultToFluxBoundary (result : Result V) (boundary : Nat) : Option (Result V) :=
  match result.type with
  | .timeSeries =>
    some { type := .timeSeries
           value := match result.value with
             | .timeSeries d => .timeSeries (trimDataToFluxBoundary d boundary)
             | _ => .none
           stats := result.stats, warnings := result.warnings, warningsDocURL := "" }
  | .raw | .scalar | .trace => none
  | t => some ⟨t, .none, result.stats, result.warnings, ""⟩

/-- `isEmptyResult`: whether a result is empty, and whether it is empty because of filtering. -/
def isEmptyResult (result : Result V) : Bool × Bool :=
  match result.type, result.value with
  | .timeSeries, .timeSeries d =>
    if d.aggregations.isEmpty then (true, false)
    else if d.aggregations.all fun a => a.series.isEmpty then (true, true)
    else
      let hasValues := d.aggregations.any fun a => a.series.any fun s => !s.values.isEmpty
      (!hasValues, !hasValues)
  | _, _ => (true, false)

/-- `resultToBuckets`: one bucket for the whole range, none for a truly empty result. -/
def resultToBuckets [JsonValue V] (result : Result V) (startMs endMs : Nat) :
    List (CachedBucket V) :=
  let e := isEmptyResult result
  if e.1 = true ∧ e.2 = false then []
  else
    match result.value with
    | .timeSeries d => [⟨startMs, endMs, result.type, d.marshal, result.stats⟩]
    | _ => []

/-- `mergeAndDeduplicateBuckets`: a fresh bucket replaces the stored one of the same range. -/
def mergeAndDeduplicateBuckets (existing fresh : List (CachedBucket V)) :
    List (CachedBucket V) :=
  sortBuckets ((accumulate id (fun _ b => b) []
    ((existing ++ fresh).map fun b => ((b.startMs, b.endMs), b))).map Prod.snd)

/-- `deduplicateWarnings`. -/
def deduplicateWarnings (warnings : List String) : List String :=
  (accumulate id (fun _ w => w) [] (warnings.map fun w => (w, w))).map Prod.snd

/-- The part of `[startMs, endMs)` that `Put` caches: first the flux cut, then complete
intervals only. `none` when nothing is left to cache. -/
def cachableRange (boundary startMs endMs stepMs : Nat) : Option TimeRange :=
  if boundary ≤ startMs then none
  else
    let cachableEndMs := if boundary < endMs then boundary else endMs
    if 0 < stepMs then
      let cachableStartMs :=
        if startMs % stepMs ≠ 0 then (startMs / stepMs + 1) * stepMs % 2 ^ 64 else startMs
      let cachableEndMs :=
        if cachableEndMs % stepMs ≠ 0 then cachableEndMs / stepMs * stepMs else cachableEndMs
      if cachableEndMs ≤ cachableStartMs then none else some ⟨cachableStartMs, cachableEndMs⟩
    else some ⟨startMs, cachableEndMs⟩

/-- `Put`. Points are trimmed to the flux boundary before the bounds are rounded to the step. -/
def put [JsonValue V] (fluxIntervalMs currentMs : Nat) (cache : Cache V) (fingerprint : String)
    (startMs endMs stepMs : Nat) (fresh : Result V) : Cache V :=
  let boundary := fluxBoundary fluxIntervalMs currentMs
  let key := generateCacheKey fingerprint
  match trimResultToFluxBoundary fresh (if boundary < endMs then boundary else endMs),
      cachableRange boundary startMs endMs stepMs with
  | some trimmedResult, some range =>
    let existingData := (cache key).getD ⟨[], []⟩
    let freshBuckets := resultToBuckets trimmedResult range.fromMs range.toMs
    if freshBuckets = [] ∧ existingData.buckets = [] then cache
    else
      cache.set key
        ⟨mergeAndDeduplicateBuckets existingData.buckets freshBuckets,
          deduplicateWarnings (existingData.warnings ++ trimmedResult.warnings)⟩
  | _, _ => cache

end BucketCache

end Signoz.Querier
