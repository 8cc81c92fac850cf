import Signoz.Querier.BucketCache

/-!
# Executing a query through the cache

`executeWithCache` of `querier.go` and what it calls: the missing ranges are fetched with copies of
the query (`createRangedQuery`), merged into what the cache holds (`mergeResults`), and the merged
result is put into the cache. A query is what the cache sees of it: a fingerprint, a window, and its
`Execute` as a function of the window; `none` stands for an error.

Reading and merging keep the points of their inputs, the first of several with one timestamp
(`mergeTimeSeriesValues_merges`, `mergeTimeSeriesResults_merges`).
-/

namespace Signoz.Querier

open Lib.KeyedFold

section ExecuteWithCache

variable {V : Type}

/-- The kinds of query; only builder queries have a shift, in seconds, as
`extractShiftFromBuilderQuery` finds it. -/
inductive QueryKind where
  | promql
  | clickhouseSQL
  | builder (shiftBy : Int)
  | traceOperator

structure Query (V : Type) where
  fingerprint : String
  window : TimeRange
  kind : QueryKind
  requestType : RequestType
  execute : TimeRange → Option (Result V)

/-- `adjustTimeRangeForShift`. -/
def adjustTimeRangeForShift (shiftBy : Int) (tr : TimeRange) (requestType : RequestType) :
    TimeRange :=
  if requestType ≠ .timeSeries ∧ requestType ≠ .scalar then tr
  else if shiftBy = 0 then tr
  else
    ⟨subUint64 tr.fromMs (uint64 (shiftBy * 1000)), subUint64 tr.toMs (uint64 (shiftBy * 1000))⟩

/-- `createRangedQuery`: a copy of the query for another range, which is shifted once more. -/
def createRangedQuery (q : Query V) (tr : TimeRange) : Query V :=
  match q.kind with
  | .builder shiftBy => { q with window := adjustTimeRangeForShift shiftBy tr q.requestType }
  | _ => { q with window := tr }

/-- Time series data of a result, when it holds some. -/
def ResultValue.timeSeriesData : ResultValue V → Option (TimeSeriesData V)
  | .timeSeries d => some d
  | _ => Option.none

@[simp] theorem ResultValue.timeSeriesData_timeSeries (d : TimeSeriesData V) :
    (ResultValue.timeSeries d).timeSeriesData = some d := rfl

/-- The aggregation bucket whose alias and unit are kept for each index: the first cached one,
replaced by fresh ones that have an alias or a unit. -/
def bucketMetadata (cached fresh : List (TimeSeriesData V)) :
    List (Nat × AggregationBucket V) :=
  let indexed := fun d : TimeSeriesData V => d.aggregations.map fun a => (a.index, a)
  accumulate id (fun old a => if a.aliasName ≠ "" ∨ a.unit ≠ "" then a else old)
    (accumulate id (fun old _ => old) [] (cached.flatMap indexed)) (fresh.flatMap indexed)

/-- `mergeTimeSeriesResults`. -/
def mergeTimeSeriesResults (cachedValue : Option (TimeSeriesData V))
    (freshResults : List (Result V)) : TimeSeriesData V :=
  let fresh := freshResults.filterMap fun r => r.value.timeSeriesData
  let series := mergedSeries (cachedValue.toList ++ fresh)
  { queryName :=
      match cachedValue with
      | some d => d.queryName
      | none => ((freshResults.head?.bind fun r => r.value.timeSeriesData).map
          TimeSeriesData.queryName).getD ""
    aggregations := (bucketMetadata cachedValue.toList fresh).map fun e =>
      ⟨e.1, e.2.aliasName, e.2.unit, (series.filter fun s => s.1.1 = e.1).map Prod.snd⟩ }

/-- `mergeResults`: `none` is the nil result, or the panic on cached time series without data. -/
def mergeResults (cached : Option (Result V)) (fresh : List (Result V)) : Option (Result V) :=
  match cached, fresh with
  | none, [] => none
  | none, [r] => some r
  | none, r :: rest =>
    some { type := r.type
           value := if r.type = .timeSeries then
               .timeSeries (mergeTimeSeriesResults none (r :: rest)) else .none
           stats := r.stats, warnings := r.warnings, warningsDocURL := r.warningsDocURL }
  | some c, [] => some c
  | some c, fresh =>
    let warnings := c.warnings ++ fresh.flatMap Result.warnings
    if c.type = .timeSeries then
      c.value.timeSeriesData.map fun d =>
        { c with value := .timeSeries (mergeTimeSeriesResults (some d) fresh), warnings := warnings }
    else some { c with warnings := warnings }

/-- The statistics of several results together. -/
def totalStats (results : List (Result V)) : ExecStats :=
  results.foldl (fun s r => s.add r.stats) .zero

/-- Execute the query on its whole window and store the result. -/
def executeFully [JsonValue V] (fluxIntervalMs putMs : Nat) (cache : Cache V) (q : Query V)
    (stepMs : Nat) : Option (Result V) × Cache V :=
  match q.execute q.window with
  | none => (none, cache)
  | some r =>
    (some r, put fluxIntervalMs putMs cache q.fingerprint q.window.fromMs q.window.toMs stepMs r)

/-- Fetch the missing ranges, merge them into what is cached and store the result. When a range
cannot be fetched, the whole window is executed instead. -/
def executeMissing [JsonValue V] (fluxIntervalMs putMs : Nat) (cache : Cache V) (q : Query V)
    (stepMs : Nat) (cachedResult : Option (Result V)) (missingRanges : List TimeRange) :
    Option (Result V) × Cache V :=
  match missingRanges.mapM fun tr =>
      (createRangedQuery q tr).execute (createRangedQuery q tr).window with
  | none => executeFully fluxIntervalMs putMs cache q stepMs
  | some freshResults =>
    match mergeResults cachedResult freshResults with
    | none => (none, cache)
    | some merged =>
      let merged := { merged with stats := merged.stats.add (totalStats freshResults) }
      (some merged,
        put fluxIntervalMs putMs cache q.fingerprint q.window.fromMs q.window.toMs stepMs merged)

/-- `executeWithCache`. The clock is read when the missing ranges are looked up and again when the
result is stored. -/
def executeWithCache [JsonValue V] (fluxIntervalMs getMs putMs : Nat) (cache : Cache V)
    (q : Query V) (stepMs : Nat) : Option (Result V) × Cache V :=
  match getMissRanges fluxIntervalMs getMs cache q.fingerprint q.window.fromMs q.window.toMs stepMs
  with
  | (some cachedResult, []) => (some cachedResult, cache)
  | (none, [r]) =>
    if r = q.window then executeFully fluxIntervalMs putMs cache q stepMs
    else executeMissing fluxIntervalMs putMs cache q stepMs none [r]
  | (cachedResult, missingRanges) =>
    executeMissing fluxIntervalMs putMs cache q stepMs cachedResult missingRanges

/-! ## What merging keeps -/

/-- `d` holds the points of the inputs, one for each timestamp. -/
structure Merges (inputs : List (TimeSeriesData V)) (d : TimeSeriesData V) : Prop where
  sub : ∀ i k, ∀ p ∈ d.points i k, ∃ d' ∈ inputs, p ∈ d'.points i k
  cover : ∀ i k, ∀ d' ∈ inputs, ∀ p ∈ d'.points i k,
    ∃ q ∈ d.points i k, q.timestamp = p.timestamp
  nodup : ∀ i k, (∀ d' ∈ inputs, ((d'.points i k).map TimeSeriesValue.timestamp).Nodup) →
    ((d.points i k).map TimeSeriesValue.timestamp).Nodup

/-- Inputs that hold nothing but the points of a list with different timestamps, and together all
of them, are merged to these points. -/
theorem Merges.perm {inputs : List (TimeSeriesData V)} {d : TimeSeriesData V}
    (hM : Merges inputs d) {i : Nat} {k : String} {l : List (TimeSeriesValue V)}
    (hl : (l.map TimeSeriesValue.timestamp).Nodup)
    (hinputs : ∀ d' ∈ inputs, ((d'.points i k).map TimeSeriesValue.timestamp).Nodup)
    (hsub : ∀ d' ∈ inputs, ∀ p ∈ d'.points i k, p ∈ l)
    (hcover : ∀ p ∈ l, ∃ d' ∈ inputs, p ∈ d'.points i k) : (d.points i k).Perm l := by
  have hd := hM.nodup i k hinputs
  refine (List.perm_ext_iff_of_nodup hd.of_map hl.of_map).2 fun p => ⟨fun hp => ?_, fun hp => ?_⟩
  · obtain ⟨d', hd', hpd⟩ := hM.sub i k p hp
    exact hsub d' hd' p hpd
  · obtain ⟨d', hd', hpd⟩ := hcover p hp
    obtain ⟨q, hq, hqt⟩ := hM.cover i k d' hd' p hpd
    obtain ⟨d'', hd'', hqd⟩ := hM.sub i k q hq
    exact List.inj_on_of_nodup_map hl (hsub d'' hd'' q hqd) hp hqt ▸ hq

theorem labels_foldl_mergeSeries (ss : List (TimeSeries V)) (s : TimeSeries V) :
    (ss.foldl mergeSeries s).labels = s.labels := by
  induction ss generalizing s with
  | nil => rfl
  | cons a ss ih => exact ih (mergeSeries s a)

theorem mem_foldl_mergeSeries {ss : List (TimeSeries V)} {s : TimeSeries V}
    {p : TimeSeriesValue V} (hp : p ∈ (ss.foldl mergeSeries s).values) :
    ∃ s' ∈ s :: ss, p ∈ s'.values := by
  induction ss generalizing s with
  | nil => exact ⟨s, List.mem_cons_self, hp⟩
  | cons a ss ih =>
    obtain ⟨s', hs', hps⟩ := ih hp
    rcases List.mem_cons.1 hs' with rfl | hs'
    · rcases mem_mergeValues.1 hps with h | ⟨h, -⟩
      · exact ⟨s, List.mem_cons_self, h⟩
      · exact ⟨a, List.mem_cons_of_mem _ List.mem_cons_self, h⟩
    · exact ⟨s', List.mem_cons_of_mem _ (List.mem_cons_of_mem _ hs'), hps⟩

theorem exists_mem_foldl_mergeSeries (ss : List (TimeSeries V)) (s : TimeSeries V)
    {s' : TimeSeries V} (hs' : s' ∈ s :: ss) {p : TimeSeriesValue V} (hp : p ∈ s'.values) :
    ∃ q ∈ (ss.foldl mergeSeries s).values, q.timestamp = p.timestamp := by
  have keeps : ∀ (ss : List (TimeSeries V)) (s : TimeSeries V), ∀ q ∈ s.values,
      q ∈ (ss.foldl mergeSeries s).values := by
    intro ss
    induction ss with
    | nil => exact fun s q hq => hq
    | cons a ss ih => exact fun s q hq => ih (mergeSeries s a) q (mem_mergeValues.2 (Or.inl hq))
  induction ss generalizing s with
  | nil =>
    obtain rfl := List.mem_singleton.1 hs'
    exact ⟨p, hp, rfl⟩
  | cons a ss ih =>
    rcases List.mem_cons.1 hs' with rfl | hs'
    · exact ⟨p, keeps (a :: ss) s' p hp, rfl⟩
    · rcases List.mem_cons.1 hs' with rfl | hs'
      · -- a point of the series merged next is kept, or its timestamp was there before
        by_cases hnew : ∀ q ∈ s.values, q.timestamp ≠ p.timestamp
        · exact ⟨p, keeps ss (mergeSeries s s') p (mem_mergeValues.2 (Or.inr ⟨hp, hnew⟩)), rfl⟩
        · simp only [not_forall, not_not] at hnew
          obtain ⟨q, hq, ht⟩ := hnew
          exact ⟨q, keeps (s' :: ss) s q hq, ht⟩
      · exact ih (mergeSeries s a) (List.mem_cons_of_mem _ hs')

theorem nodup_foldl_mergeSeries (ss : List (TimeSeries V)) (s : TimeSeries V)
    (h : ∀ s' ∈ s :: ss, (s'.values.map TimeSeriesValue.timestamp).Nodup) :
    ((ss.foldl mergeSeries s).values.map TimeSeriesValue.timestamp).Nodup := by
  induction ss generalizing s with
  | nil => exact h s List.mem_cons_self
  | cons a ss ih =>
    refine ih (mergeSeries s a) fun s' hs' => ?_
    rcases List.mem_cons.1 hs' with rfl | hs'
    · exact nodup_timestamps_mergeValues (h s List.mem_cons_self)
        (h a (List.mem_cons_of_mem _ List.mem_cons_self))
    · exact h s' (List.mem_cons_of_mem _ (List.mem_cons_of_mem _ hs'))

theorem lookup_map_value {K W W' : Type} [DecidableEq K] (f : W → W') (m : List (K × W)) (k : K) :
    (m.map fun e => (e.1, f e.2)).lookup k = (m.lookup k).map f := by
  induction m with
  | nil => rfl
  | cons e m ih =>
    by_cases h : k = e.1
    · rw [h, List.map_cons, List.lookup_cons_self, List.lookup_cons_self, Option.map_some]
    · rw [List.map_cons, List.lookup_cons, List.lookup_cons, beq_eq_false_iff_ne.2 h]
      exact ih

/-- The series of one aggregation, filed under their keys again. -/
theorem itemsOf_refiled {m : List ((Nat × String) × TimeSeries V)}
    (hkey : ∀ e ∈ m, getUniqueSeriesKey e.2.labels = e.1.2) (i j : Nat) (k : String) :
    itemsOf (i, k) (((m.filter fun e => e.1.1 = j).map Prod.snd).map fun s =>
      ((j, getUniqueSeriesKey s.labels), s)) = if j = i then itemsOf (i, k) m else [] := by
  induction m with
  | nil => simp
  | cons e m ih =>
    obtain ⟨⟨i', k'⟩, s⟩ := e
    have hs : getUniqueSeriesKey s.labels = k' := hkey _ List.mem_cons_self
    have hrest := ih fun e he => hkey e (List.mem_cons_of_mem _ he)
    by_cases hj : i' = j
    · subst hj
      rw [List.filter_cons_of_pos (by simp), List.map_cons, List.map_cons, itemsOf_cons, hrest,
        hs, itemsOf_cons]
      by_cases hi : i' = i <;> simp [hi]
    · rw [List.filter_cons_of_neg (by simpa using hj), hrest, itemsOf_cons]
      by_cases hi : j = i
      · simp [hi, show i' ≠ i from fun h => hj (h.trans hi.symm)]
      · simp [hi]

variable {d : TimeSeriesData V}

/-- The series filed under one key in data whose aggregations split up a keyed list of series. -/
theorem itemsOf_keyed_of_grouped {m : List ((Nat × String) × TimeSeries V)}
    (hindex : (d.aggregations.map AggregationBucket.index).Nodup)
    (hseries : ∀ a ∈ d.aggregations, a.series = (m.filter fun e => e.1.1 = a.index).map Prod.snd)
    (hall : ∀ e ∈ m, e.1.1 ∈ d.aggregations.map AggregationBucket.index)
    (hkey : ∀ e ∈ m, getUniqueSeriesKey e.2.labels = e.1.2) (i : Nat) (k : String) :
    itemsOf (i, k) d.keyed = itemsOf (i, k) m := by
  have hagg : ∀ l : List (AggregationBucket V), (∀ a ∈ l, a ∈ d.aggregations) →
      (l.map AggregationBucket.index).Nodup →
      itemsOf (i, k) (l.flatMap fun a => a.series.map fun s =>
        ((a.index, getUniqueSeriesKey s.labels), s)) =
        if i ∈ l.map AggregationBucket.index then itemsOf (i, k) m else [] := by
    intro l
    induction l with
    | nil => simp
    | cons a l ih =>
      intro hmem hnodup
      rw [List.map_cons, List.nodup_cons] at hnodup
      rw [List.flatMap_cons, itemsOf_append, hseries a (hmem a List.mem_cons_self),
        itemsOf_refiled hkey, ih (fun b hb => hmem b (List.mem_cons_of_mem _ hb)) hnodup.2]
      by_cases hi : a.index = i
      · subst hi
        simp [hnodup.1]
      · simp [hi, Ne.symm hi]
  rw [TimeSeriesData.keyed, hagg d.aggregations (fun a ha => ha) hindex]
  by_cases hi : i ∈ d.aggregations.map AggregationBucket.index
  · rw [if_pos hi]
  · rw [if_neg hi]
    refine (List.eq_nil_iff_forall_not_mem.2 fun s hs => hi ?_).symm
    exact hall _ (mem_itemsOf.1 hs)

theorem itemsOf_flatMap_keyed (inputs : List (TimeSeriesData V)) (i : Nat) (k : String) :
    itemsOf (i, k) (inputs.flatMap TimeSeriesData.keyed) =
      inputs.flatMap fun d => itemsOf (i, k) d.keyed := by
  induction inputs with
  | nil => rfl
  | cons d inputs ih => rw [List.flatMap_cons, itemsOf_append, ih, List.flatMap_cons]

/-- The merged series of one key: the first of the inputs extended by the others. -/
theorem itemsOf_mergedSeries (inputs : List (TimeSeriesData V)) (i : Nat) (k : String) :
    itemsOf (i, k) (mergedSeries inputs) =
      match inputs.flatMap fun d => itemsOf (i, k) d.keyed with
      | [] => []
      | s :: ss => [(ss.foldl mergeSeries s).sorted] := by
  have hnodup := nodup_keys_accumulate id mergeSeries (inputs.flatMap TimeSeriesData.keyed) (m := [])
    List.nodup_nil
  have hkeys : ((mergedSeries inputs).map Prod.fst).Nodup := by
    simpa [mergedSeries, Function.comp_def] using hnodup
  rw [itemsOf_eq_lookup hkeys, mergedSeries,
    lookup_map_value, lookup_accumulate, itemsOf_flatMap_keyed]
  cases inputs.flatMap fun d => itemsOf (i, k) d.keyed with
  | nil => rfl
  | cons s ss => simp [foldItems_none_cons]

variable {inputs : List (TimeSeriesData V)}

theorem key_of_mem_mergedSeries {e : (Nat × String) × TimeSeries V} (he : e ∈ mergedSeries inputs) :
    getUniqueSeriesKey e.2.labels = e.1.2 := by
  obtain ⟨⟨i, k⟩, s⟩ := e
  have hs := mem_itemsOf.2 he
  rw [itemsOf_mergedSeries] at hs
  cases hl : inputs.flatMap fun d => itemsOf (i, k) d.keyed with
  | nil => simp [hl] at hs
  | cons s' ss =>
    rw [hl, List.mem_singleton] at hs
    have hmem : s' ∈ inputs.flatMap fun d => itemsOf (i, k) d.keyed := hl ▸ List.mem_cons_self
    obtain ⟨d, -, hd⟩ := List.mem_flatMap.1 hmem
    obtain ⟨a, -, -, -, hkey⟩ := TimeSeriesData.mem_keyed.1 (mem_itemsOf.1 hd)
    rw [hs, TimeSeries.sorted, labels_foldl_mergeSeries]
    exact hkey

/-- The aggregations of `d` split up the merged series of the inputs. -/
structure Grouped (inputs : List (TimeSeriesData V)) (d : TimeSeriesData V) : Prop where
  index : (d.aggregations.map AggregationBucket.index).Nodup
  series : ∀ a ∈ d.aggregations,
    a.series = ((mergedSeries inputs).filter fun e => e.1.1 = a.index).map Prod.snd
  all : ∀ e ∈ mergedSeries inputs, e.1.1 ∈ d.aggregations.map AggregationBucket.index

/-- The series of one key in data that splits up the merged series. -/
theorem Grouped.itemsOf_keyed (h : Grouped inputs d) (i : Nat) (k : String) :
    itemsOf (i, k) d.keyed =
      match inputs.flatMap fun d => itemsOf (i, k) d.keyed with
      | [] => []
      | s :: ss => [(ss.foldl mergeSeries s).sorted] := by
  rw [itemsOf_keyed_of_grouped h.index h.series h.all fun e he => key_of_mem_mergedSeries he,
    itemsOf_mergedSeries]

/-- Its points: those of the first series of that key, extended by the others. -/
theorem Grouped.points (h : Grouped inputs d) (i : Nat) (k : String) :
    d.points i k =
      match inputs.flatMap fun d => itemsOf (i, k) d.keyed with
      | [] => []
      | s :: ss => sortByTimestamp (ss.foldl mergeSeries s).values := by
  rw [TimeSeriesData.points, h.itemsOf_keyed]
  cases inputs.flatMap fun d => itemsOf (i, k) d.keyed <;> simp [TimeSeries.sorted]

/-- Data whose aggregations split up the merged series holds the points of the inputs. -/
theorem Grouped.merges (h : Grouped inputs d) : Merges inputs d := by
  have hpoints := h.points
  have hinput : ∀ i k s, s ∈ inputs.flatMap (fun d => itemsOf (i, k) d.keyed) ↔
      ∃ d' ∈ inputs, ((i, k), s) ∈ d'.keyed := by
    intro i k s
    simp only [List.mem_flatMap, mem_itemsOf]
  refine ⟨fun i k p hp => ?_, fun i k d' hd' p hp => ?_, fun i k hnodup => ?_⟩
  · rw [hpoints] at hp
    cases hl : inputs.flatMap fun d => itemsOf (i, k) d.keyed with
    | nil => simp [hl] at hp
    | cons s ss =>
      simp only [hl, mem_sortByTimestamp] at hp
      obtain ⟨s', hs', hps⟩ := mem_foldl_mergeSeries hp
      obtain ⟨d', hd', hkeyed⟩ := (hinput i k s').1 (hl ▸ hs')
      exact ⟨d', hd', TimeSeriesData.mem_points.2 ⟨s', hkeyed, hps⟩⟩
  · obtain ⟨s', hs', hps⟩ := TimeSeriesData.mem_points.1 hp
    have hmem := (hinput i k s').2 ⟨d', hd', hs'⟩
    rw [hpoints]
    cases hl : inputs.flatMap fun d => itemsOf (i, k) d.keyed with
    | nil => simp [hl] at hmem
    | cons s ss =>
      obtain ⟨q, hq, ht⟩ := exists_mem_foldl_mergeSeries ss s (hl ▸ hmem) hps
      exact ⟨q, mem_sortByTimestamp.2 hq, ht⟩
  · rw [hpoints]
    cases hl : inputs.flatMap fun d => itemsOf (i, k) d.keyed with
    | nil => exact List.nodup_nil
    | cons s ss =>
      refine ((sortByTimestamp_perm _).map _).nodup_iff.2 (nodup_foldl_mergeSeries ss s ?_)
      intro s' hs'
      obtain ⟨d', hd', hkeyed⟩ := (hinput i k s').1 (hl ▸ hs')
      refine List.Sublist.nodup (List.Sublist.map _ ?_) (hnodup d' hd')
      rw [TimeSeriesData.points, List.flatMap_def]
      exact List.sublist_flatten_of_mem (List.mem_map_of_mem (mem_itemsOf.2 hkeyed))

theorem mergeTimeSeriesValues_grouped (buckets : List (CachedBucket V)) :
    Grouped (buckets.filterMap fun b => b.value.unmarshal) (mergeTimeSeriesValues buckets) := by
  have hnodup := nodup_keys_accumulate (fun s : TimeSeries V => [s]) (fun l s => l ++ [s])
    ((mergedSeries (buckets.filterMap fun b => b.value.unmarshal)).map fun e => (e.1.1, e.2))
    (m := []) List.nodup_nil
  refine ⟨?_, ?_, ?_⟩
  · simpa [mergeTimeSeriesValues, groupByAggregation, Function.comp_def] using hnodup
  · intro a ha
    obtain ⟨⟨j, l⟩, hmem, rfl⟩ := List.mem_map.1 ha
    have hl := (mem_iff_lookup hnodup).1 hmem
    rw [lookup_accumulate, List.lookup_nil, foldItems_collect] at hl
    split at hl
    · simp at hl
    · rw [Option.some.injEq] at hl
      subst hl
      simp [itemsOf, List.filter_map, Function.comp_def]
  · intro e he
    simp only [mergeTimeSeriesValues, groupByAggregation, List.map_map]
    refine (mem_keys_accumulate (fun s : TimeSeries V => [s]) (fun l s => l ++ [s]) _ e.1.1 []).2
      (Or.inr ?_)
    rw [List.map_map]
    exact List.mem_map_of_mem he

/-- Reading merges the payloads of the buckets. -/
theorem mergeTimeSeriesValues_merges (buckets : List (CachedBucket V)) :
    Merges (buckets.filterMap fun b => b.value.unmarshal) (mergeTimeSeriesValues buckets) :=
  (mergeTimeSeriesValues_grouped buckets).merges

theorem mergeTimeSeriesResults_grouped (cachedValue : Option (TimeSeriesData V))
    (freshResults : List (Result V)) :
    Grouped (cachedValue.toList ++ freshResults.filterMap fun r => r.value.timeSeriesData)
      (mergeTimeSeriesResults cachedValue freshResults) := by
  have hindices : (mergeTimeSeriesResults cachedValue freshResults).aggregations.map
      AggregationBucket.index = (bucketMetadata cachedValue.toList
        (freshResults.filterMap fun r => r.value.timeSeriesData)).map Prod.fst := by
    simp [mergeTimeSeriesResults, Function.comp_def]
  refine ⟨?_, ?_, ?_⟩
  · rw [hindices, bucketMetadata]
    apply nodup_keys_accumulate
    apply nodup_keys_accumulate
    exact List.nodup_nil
  · intro a ha
    obtain ⟨e, -, rfl⟩ := List.mem_map.1 ha
    rfl
  · rintro ⟨⟨i, k⟩, s⟩ he
    rw [hindices, bucketMetadata, mem_keys_accumulate, mem_keys_accumulate, List.map_nil]
    have hs := mem_itemsOf.2 he
    rw [itemsOf_mergedSeries] at hs
    cases hl : (cachedValue.toList ++ freshResults.filterMap fun r => r.value.timeSeriesData).flatMap
        fun d => itemsOf (i, k) d.keyed with
    | nil => simp [hl] at hs
    | cons s' ss =>
      have hmem := hl ▸ List.mem_cons_self (a := s') (l := ss)
      obtain ⟨d, hd, hkeyed⟩ := List.mem_flatMap.1 hmem
      obtain ⟨a, ha, rfl, -, -⟩ := TimeSeriesData.mem_keyed.1 (mem_itemsOf.1 hkeyed)
      have hindex : ∀ l : List (TimeSeriesData V), d ∈ l → a.index ∈ (l.flatMap fun d =>
          d.aggregations.map fun a => (a.index, a)).map Prod.fst := by
        intro l hl
        simp only [List.mem_map, List.mem_flatMap]
        exact ⟨(a.index, a), ⟨d, hl, a, ha, rfl⟩, rfl⟩
      rcases List.mem_append.1 hd with h | h
      · exact Or.inl (Or.inr (hindex _ h))
      · exact Or.inr (hindex _ h)

/-- Merging cached and fresh results merges their data. -/
theorem mergeTimeSeriesResults_merges (cachedValue : Option (TimeSeriesData V))
    (freshResults : List (Result V)) :
    Merges (cachedValue.toList ++ freshResults.filterMap fun r => r.value.timeSeriesData)
      (mergeTimeSeriesResults cachedValue freshResults) :=
  (mergeTimeSeriesResults_grouped cachedValue freshResults).merges

end ExecuteWithCache

end Signoz.Querier
