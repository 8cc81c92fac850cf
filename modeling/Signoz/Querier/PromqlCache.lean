import Signoz.Querier.CachedExecution
import Signoz.Querier.WindowList

/-!
# The bucket cache under PromQL queries

`Execute` of a PromQL query gives the points at the start of its window and every step from there
on, the end of the window included; the engine gets both bounds scaled to nanoseconds, which keeps
those of thirteen digits. The cache keeps steps that start on the grid and reads windows without
their end, and its payloads are JSON. So a window that does not start on the grid is put together
from parts with other times, the point at the end of a window is lost where the end is cached
(`cached_promql_loses_end`), and a value that JSON rounds comes back rounded. In every run without
such windows and values each call returns the points of `Execute` (`promql_cached_exact`).
-/

namespace Signoz.Querier

open Lib.Grid Lib.KeyedFold

section PromqlCache

variable {V : Type}

/-! ## The query -/

/-- A series of an expression: its labels, and its value at each millisecond where it has one. -/
structure PromSeries (V : Type) where
  metric : List (String × String)
  value : Int → Option V

/-- `promqlQuery`: what its text evaluates to stands for the engine and its data. -/
structure PromqlQuery (V : Type) where
  name : String
  fingerprint : String
  requestType : RequestType
  stepMs : Nat
  series : List (PromSeries V)
  warnings : TimeRange → List String

/-- A bound of the window as the engine gets it, in milliseconds: `ToNanoSecs` in `int64`. -/
def engineMs (epoch : Nat) : Int := wrapInt64 (toNanoSecs epoch) / 10 ^ 6

/-- The times of `NewRangeQuery`: the start and every step from it, up to the end. -/
def rangeTimes (stepMs : Nat) (w : TimeRange) : List Int :=
  if engineMs w.toMs < engineMs w.fromMs then []
  else
    (List.range ((engineMs w.toMs - engineMs w.fromMs).toNat / stepMs + 1)).map fun n =>
      engineMs w.fromMs + (n * stepMs : Nat)

/-- `excludeLabel` of `Execute`. -/
def excludeLabel (labelName : String) : Bool :=
  if labelName = "__name__" then false
  else "__".toList.isPrefixOf labelName.toList || labelName = "fingerprint"

/-- A series of the result. -/
def PromSeries.toTimeSeries (s : PromSeries V) (stepMs : Nat) (w : TimeRange) : TimeSeries V where
  labels := (s.metric.filter fun l => !excludeLabel l.1).map fun l => ⟨l.1, .str l.2⟩
  values := (rangeTimes stepMs w).filterMap fun t => (s.value t).map fun v => ⟨t, v, false⟩

/-- The data of `Execute` on a window; a series without points is not in the matrix. -/
def PromqlQuery.data (q : PromqlQuery V) (w : TimeRange) : TimeSeriesData V :=
  ⟨q.name, [⟨0, "", "", (q.series.map fun s => s.toTimeSeries q.stepMs w).filter
    fun s => !s.values.isEmpty⟩]⟩

/-- The query on a window, as `executeWithCache` gets it; `execute` is `Execute`. -/
def PromqlQuery.query (q : PromqlQuery V) (w : TimeRange) : Query V where
  fingerprint := q.fingerprint
  window := w
  kind := .promql
  requestType := q.requestType
  execute := fun w => some ⟨q.requestType, .timeSeries (q.data w), .zero, q.warnings w, ""⟩

/-- The result has the timestamps and values of `Execute` on the window, for every series. -/
def PromqlQuery.IsAnswer (q : PromqlQuery V) (w : TimeRange) (r : Result V) : Prop :=
  r.type = q.requestType ∧ ∃ d, r.value = .timeSeries d ∧
    ∀ i k, (d.points i k).Perm ((q.data w).points i k)

/-- The key of the series in results. -/
def PromSeries.key (s : PromSeries V) : String :=
  getUniqueSeriesKey ((s.metric.filter fun l => !excludeLabel l.1).map fun l => ⟨l.1, .str l.2⟩)

/-! ## Its points -/

variable {q : PromqlQuery V}

/-- A window with bounds in milliseconds of thirteen digits, up to the year 2262, where the
nanoseconds reach `2 ^ 63`. -/
structure EpochMillis (w : TimeRange) : Prop where
  from_ge : 10 ^ 12 ≤ w.fromMs
  to_lt : w.toMs < 9223372036855

theorem engineMs_of_epoch {n : Nat} (hge : 10 ^ 12 ≤ n) (hlt : n < 9223372036855) :
    engineMs n = n := by
  rw [engineMs, toNanoSecs_of_epoch hge (by omega), wrapInt64_of_lt (by omega)]
  omega

variable {w : TimeRange}

theorem mem_rangeTimes (hs : 0 < q.stepMs) (hw : EpochMillis w) (hle : w.fromMs ≤ w.toMs) {x : Int} :
    x ∈ rangeTimes q.stepMs w ↔
      ∃ t : Nat, x = t ∧ w.fromMs ≤ t ∧ t ≤ w.toMs ∧ q.stepMs ∣ t - w.fromMs := by
  obtain ⟨hge, hlt⟩ := hw
  have hto : 10 ^ 12 ≤ w.toMs := by omega
  rw [rangeTimes, engineMs_of_epoch hge (by omega), engineMs_of_epoch hto hlt,
    if_neg (by omega), show ((w.toMs : Int) - w.fromMs).toNat = w.toMs - w.fromMs by omega]
  simp only [List.mem_map, List.mem_range, Nat.lt_succ_iff]
  constructor
  · rintro ⟨n, hn, rfl⟩
    have hn' := (Nat.le_div_iff_mul_le hs).1 hn
    exact ⟨w.fromMs + n * q.stepMs, by push_cast; rfl, by omega, by omega, by simp⟩
  · rintro ⟨t, rfl, hlo, hhi, n, hn⟩
    rw [Nat.mul_comm] at hn
    exact ⟨n, (Nat.le_div_iff_mul_le hs).2 (by omega), by omega⟩

theorem nodup_rangeTimes (hs : 0 < q.stepMs) (w : TimeRange) :
    (rangeTimes q.stepMs w).Nodup := by
  rw [rangeTimes]
  split
  · exact List.nodup_nil
  · refine List.Nodup.map (fun a b hab => ?_) List.nodup_range
    exact Nat.eq_of_mul_eq_mul_right hs (Int.ofNat_inj.1 (Int.add_left_cancel hab))

/-- The points of a key are those of the series with that key. -/
theorem points_data (w : TimeRange) (i : Nat) (k : String) :
    (q.data w).points i k =
      (q.series.filter fun s => i = 0 ∧ s.key = k).flatMap
        fun s => (s.toTimeSeries q.stepMs w).values := by
  have hkeyed : (q.data w).keyed =
      ((q.series.map fun s => s.toTimeSeries q.stepMs w).filter fun s => !s.values.isEmpty).map
        fun s => ((0, getUniqueSeriesKey s.labels), s) := by
    simp [TimeSeriesData.keyed, PromqlQuery.data]
  rw [TimeSeriesData.points, hkeyed]
  induction q.series with
  | nil => rfl
  | cons s series ih =>
    have hkey : ((0, getUniqueSeriesKey (s.toTimeSeries q.stepMs w).labels) = (i, k)) ↔
        (i = 0 ∧ s.key = k) := by
      rw [Prod.mk.injEq]
      exact and_congr_left fun _ => eq_comm
    rw [List.map_cons, List.filter_cons, List.filter_cons]
    by_cases hempty : (s.toTimeSeries q.stepMs w).values = []
    · -- a series without points is left out
      rw [if_neg (by simp [hempty]), ih]
      split
      · rw [List.flatMap_cons, hempty, List.nil_append]
      · rfl
    · rw [if_pos (by simp [hempty]), List.map_cons, itemsOf_cons]
      by_cases hk : i = 0 ∧ s.key = k
      · rw [if_pos (hkey.2 hk), if_pos (by simp [hk]), List.flatMap_cons, List.flatMap_cons, ih]
      · rw [if_neg fun h => hk (hkey.1 h), if_neg (by simpa using hk), ih]

/-- The points of the expression at multiples of the step. -/
def PromqlQuery.GridPoint (q : PromqlQuery V) (i : Nat) (k : String) (p : TimeSeriesValue V) :
    Prop :=
  i = 0 ∧ ∃ s ∈ q.series, s.key = k ∧ ∃ (t : Nat) (v : V), q.stepMs ∣ t ∧ t < 2 ^ 64 ∧
    s.value t = some v ∧ p = ⟨(t : Int), v, false⟩

/-- No two series have the same labels apart from excluded ones, as far as their keys tell. -/
def PromqlQuery.KeysApart (q : PromqlQuery V) : Prop := (q.series.map PromSeries.key).Nodup

/-- A window on the grid has the points at multiples of the step in it and at its end. -/
theorem mem_points_aligned (hs : 0 < q.stepMs) (hw : EpochMillis w) (hle : w.fromMs ≤ w.toMs)
    (hfrom : q.stepMs ∣ w.fromMs) {i : Nat} {k : String} {p : TimeSeriesValue V} :
    p ∈ (q.data w).points i k ↔
      q.GridPoint i k p ∧ (w.fromMs : Int) ≤ p.timestamp ∧ p.timestamp ≤ w.toMs := by
  have hto := hw.to_lt
  simp only [points_data, List.mem_flatMap, List.mem_filter, decide_eq_true_eq,
    PromSeries.toTimeSeries, List.mem_filterMap, mem_rangeTimes hs hw hle, Option.map_eq_some_iff]
  constructor
  · rintro ⟨s, ⟨hmem, hi, hk⟩, _, ⟨t, rfl, hlo, hhi, hdvd⟩, v, hv, rfl⟩
    have ht : q.stepMs ∣ t := (Nat.dvd_sub_iff_left hlo hfrom).1 hdvd
    exact ⟨⟨hi, s, hmem, hk, t, v, ht, by omega, hv, rfl⟩, Int.ofNat_le.2 hlo, Int.ofNat_le.2 hhi⟩
  · rintro ⟨⟨hi, s, hmem, hk, t, v, ht, -, hv, rfl⟩, hlo, hhi⟩
    have hlo' := Int.ofNat_le.1 hlo
    exact ⟨s, ⟨hmem, hi, hk⟩, t, ⟨t, rfl, hlo', Int.ofNat_le.1 hhi,
      (Nat.dvd_sub_iff_left hlo' hfrom).2 ht⟩, v, hv, rfl⟩

theorem nodup_points (hs : 0 < q.stepMs) (hkeys : q.KeysApart) (w : TimeRange) (i : Nat)
    (k : String) : (((q.data w).points i k).map TimeSeriesValue.timestamp).Nodup := by
  rw [points_data]
  have hnodup : ((q.series.filter fun s => i = 0 ∧ s.key = k).map PromSeries.key).Nodup :=
    List.Nodup.sublist (List.filter_sublist.map _) hkeys
  -- at most one series has the key
  have hsame : (q.series.filter fun s => i = 0 ∧ s.key = k).map PromSeries.key =
      List.replicate (q.series.filter fun s => i = 0 ∧ s.key = k).length k := by
    refine List.eq_replicate_iff.2 ⟨List.length_map _, fun key hkey => ?_⟩
    obtain ⟨s, hs, rfl⟩ := List.mem_map.1 hkey
    exact (of_decide_eq_true (List.mem_filter.1 hs).2).2
  rw [hsame, List.nodup_replicate] at hnodup
  cases hfilter : q.series.filter fun s => i = 0 ∧ s.key = k with
  | nil => exact List.nodup_nil
  | cons s rest =>
    rw [hfilter, List.length_cons] at hnodup
    obtain rfl := List.length_eq_zero_iff.1 (show rest.length = 0 by omega)
    rw [List.flatMap_cons, List.flatMap_nil, List.append_nil, PromSeries.toTimeSeries,
      List.map_filterMap]
    refine List.Nodup.filterMap (fun a b t ha hb => ?_) (nodup_rangeTimes hs w)
    simp only [Option.mem_def, Option.map_map, Option.map_eq_some_iff, Function.comp] at ha hb
    obtain ⟨-, -, rfl⟩ := ha
    obtain ⟨-, -, h⟩ := hb
    exact h.symm

/-! ## The cache -/

theorem goodPoints_gridPoint (hkeys : q.KeysApart) : GoodPoints q.GridPoint where
  stamp := by
    rintro i k p ⟨-, s, -, -, t, v, -, ht, -, rfl⟩
    exact ⟨t, ht, rfl⟩
  eq_of_stamp := by
    rintro i k p p' ⟨-, s, hs, hk, t, v, -, -, hv, rfl⟩ ⟨-, s', hs', hk', t', v', -, -, hv', rfl⟩ h
    obtain rfl : s = s' := List.inj_on_of_nodup_map hkeys hs hs' (hk.trans hk'.symm)
    obtain rfl : t = t' := Nat.cast_inj.1 h
    rw [Option.some.inj (hv.symm.trans hv')]

/-- The bucket covers whole steps and holds the points at the steps it covers; further points it
holds are right as well. -/
structure PromExact (q : PromqlQuery V) (b : CachedBucket V) : Prop where
  holdsGood : HoldsGood q.GridPoint b
  step_dvd_start : q.stepMs ∣ b.startMs
  step_dvd_end : q.stepMs ∣ b.endMs
  start_lt_end : b.startMs < b.endMs
  holds : ∀ i k p, q.GridPoint i k p → (b.startMs : Int) ≤ p.timestamp →
    p.timestamp < b.endMs → p ∈ b.data.points i k

/-- What is stored for the query is exact, and nothing is stored for another type of request. -/
structure PromStored (q : PromqlQuery V) (cache : Cache V) : Prop where
  exact : ∀ data, cache (generateCacheKey q.fingerprint) = some data →
    ∀ b ∈ data.buckets, PromExact q b
  cacheable : q.requestType ≠ .timeSeries → cache (generateCacheKey q.fingerprint) = none

/-- Every value of the query on the window is a number that JSON keeps. -/
def PromqlQuery.ValuesKept [JsonValue V] (q : PromqlQuery V) (w : TimeRange) : Prop :=
  ∀ i k, ∀ p ∈ (q.data w).points i k, JsonValue.sanitizeValue p.value = some p.value

/-- What the query has on the window may be stored: its series are told apart, the window has
bounds of thirteen digits and starts on the grid, and JSON keeps the values. -/
structure PromqlQuery.Storable [JsonValue V] (q : PromqlQuery V) (w : TimeRange) : Prop where
  keysApart : q.KeysApart
  epoch : EpochMillis w
  from_on_grid : q.stepMs ∣ w.fromMs
  kept : q.ValuesKept w

/-- The bucket made of an answer on a window on the grid is exact. -/
theorem promExact_of_fresh [JsonValue V] (hs : 0 < q.stepMs) {fluxMs : Nat} {c : PutCall V}
    (hstep : c.stepMs = q.stepMs) (hlt : c.window.fromMs < c.window.toMs)
    (hstorable : q.Storable c.window)
    (hpoints : ∀ i k, (c.fresh.points i k).Perm ((q.data c.window).points i k))
    {b : CachedBucket V} (hb : b ∈ c.freshBuckets fluxMs) : PromExact q b := by
  obtain ⟨hkeys, hw, hfrom, hvalues⟩ := hstorable
  have hto := hw.to_lt
  obtain ⟨-, hgrid, -, hbucket⟩ := (mem_freshBuckets_iff (hstep ▸ hs)).1 hb
  have hstart : gridCeil q.stepMs c.window.fromMs = c.window.fromMs := gridCeil_eq_self hfrom
  rw [hstep, firstStep_eq (by rw [hstart]; omega), hstart] at hgrid hbucket
  have hcut : c.cut fluxMs ≤ c.window.toMs := by
    rw [PutCall.cut, cutMs_eq_min]
    exact Nat.min_le_right _ _
  have hfloor := gridFloor_le q.stepMs (c.cut fluxMs)
  have hkept : ∀ i k p, p ∈ (trimDataToFluxBoundary c.fresh (c.cut fluxMs)).points i k ↔
      (q.GridPoint i k p ∧ (c.window.fromMs : Int) ≤ p.timestamp ∧
        p.timestamp ≤ c.window.toMs) ∧ p.isPartial = false ∧
        uint64 p.timestamp ≤ c.cut fluxMs := by
    intro i k p
    rw [trimDataToFluxBoundary_points, List.mem_filter, (hpoints i k).mem_iff,
      mem_points_aligned hs hw hlt.le hfrom]
    simp
  have hdata : b.data = trimDataToFluxBoundary c.fresh (c.cut fluxMs) := by
    refine data_of_kept (by rw [hbucket]) fun i k p hp => hvalues i k p ?_
    exact (mem_points_aligned hs hw hlt.le hfrom).2 ((hkept i k p).1 hp).1
  refine ⟨⟨by rw [hbucket], fun i k p hp => ?_, fun i k => ?_⟩, hbucket ▸ hfrom,
    hbucket ▸ dvd_gridFloor _ _, hbucket ▸ hgrid, fun i k p hp hlo hhi => ?_⟩
  · rw [hdata] at hp
    exact ((hkept i k p).1 hp).1.1
  · simp only [hdata, trimDataToFluxBoundary_points]
    have hnodup := ((hpoints i k).map TimeSeriesValue.timestamp).nodup_iff.2
      (nodup_points hs hkeys c.window i k)
    exact List.Sublist.nodup (List.filter_sublist.map _) hnodup
  · simp only [hbucket] at hlo hhi
    rw [hdata]
    refine (hkept i k p).2 ⟨⟨hp, hlo, by omega⟩, ?_, ?_⟩
    · obtain ⟨-, s, -, -, t, v, -, -, -, rfl⟩ := hp
      rfl
    · obtain ⟨t, ht, hstamp⟩ := (goodPoints_gridPoint hkeys).stamp i k p hp
      rw [hstamp, uint64_natCast ht]
      omega

variable {cache : Cache V}

/-- A result of another type than a time series is not stored. -/
theorem put_of_not_timeSeries [JsonValue V] {fluxMs putMs : Nat} {fingerprint : String}
    (hnone : cache (generateCacheKey fingerprint) = none) (startMs endMs stepMs : Nat)
    {r : Result V} (htype : r.type ≠ .timeSeries) :
    put fluxMs putMs cache fingerprint startMs endMs stepMs r = cache := by
  obtain ⟨type, value, stats, warnings, url⟩ := r
  rw [put]
  cases type with
  | timeSeries => exact absurd rfl htype
  | raw => rfl
  | scalar => rfl
  | trace => rfl
  | unknown | rawStream | distribution =>
    cases hrange : cachableRange (fluxBoundary fluxMs putMs) startMs endMs stepMs with
    | none => rfl
    | some range => simp [trimResultToFluxBoundary, hnone, resultToBuckets, isEmptyResult]

/-- Storing an answer keeps the cache right, if what the query has on the window may be stored or
nothing of it can be. -/
theorem promStored_put [JsonValue V] (hs : 0 < q.stepMs) {fluxMs putMs : Nat}
    (hcache : PromStored q cache) (hlt : w.fromMs < w.toMs)
    (hw : q.requestType = .timeSeries → q.Storable w ∨
      cachableRange (fluxBoundary fluxMs putMs) w.fromMs w.toMs q.stepMs = none) {r : Result V}
    (hr : q.IsAnswer w r) :
    PromStored q (put fluxMs putMs cache q.fingerprint w.fromMs w.toMs q.stepMs r) := by
  obtain ⟨htype, d, hd, hpoints⟩ := hr
  by_cases hseries : q.requestType = .timeSeries
  · obtain hstorable | hnone := hw hseries
    · obtain ⟨type, value, stats, warnings, url⟩ := r
      simp only [hseries] at htype hd
      subst htype hd
      let c : PutCall V := ⟨q.fingerprint, w, q.stepMs, putMs, d, stats, warnings⟩
      have hput : put fluxMs putMs cache q.fingerprint w.fromMs w.toMs q.stepMs
          ⟨.timeSeries, .timeSeries d, stats, warnings, url⟩ = c.apply fluxMs cache := rfl
      rw [hput]
      refine ⟨fun data hdata b hb => ?_, fun hne => absurd hseries hne⟩
      rcases apply_cases fluxMs cache c hdata hb with ⟨old, hold, hbold⟩ | ⟨-, hfresh⟩
      · exact hcache.exact old hold b hbold
      · exact promExact_of_fresh (c := c) hs rfl hlt hstorable hpoints hfresh
    · have hput : put fluxMs putMs cache q.fingerprint w.fromMs w.toMs q.stepMs r = cache := by
        simp only [put, hnone]
        split
        · next h => exact absurd h.symm (Option.some_ne_none _)
        · rfl
      rwa [hput]
  · rwa [put_of_not_timeSeries (hcache.cacheable hseries) _ _ _ (htype ▸ hseries)]

/-! ## One call -/

/-- The stored buckets serve the window: a window shorter than a step is not cut off the grid, and
the last millisecond before an end on the grid is in no bucket, unless the expression has no value
there. -/
structure PromServes (q : PromqlQuery V) (boundary : Nat) (buckets : List (CachedBucket V))
    (w : TimeRange) : Prop where
  fits : BoundaryFits boundary q.stepMs buckets w
  end_fetched : q.stepMs ∣ w.toMs → (∀ b ∈ buckets, ¬ b.Mem (w.toMs - 1)) ∨
    ∀ s ∈ q.series, s.value w.toMs = none

/-- What is served and what is fetched together give the points of the window. -/
theorem perm_of_promServes (hs : 0 < q.stepMs) (hkeys : q.KeysApart) {boundary : Nat}
    {buckets : List (CachedBucket V)} (hlt : w.fromMs < w.toMs) (hw : EpochMillis w)
    (hfrom : q.stepMs ∣ w.fromMs) (hexact : ∀ b ∈ buckets, PromExact q b)
    (hserves : PromServes q boundary buckets w) {first : Nat} {missing : List TimeRange}
    (hC : Complements q.stepMs buckets w first missing) {inputs : List (TimeSeriesData V)}
    {d : TimeSeriesData V} (hM : Merges inputs d)
    (hinputs : ∀ d' ∈ inputs, Serves buckets w d' ∨
      ∃ r ∈ missing, ∀ i k, (d'.points i k).Perm ((q.data r).points i k))
    (hserved : ∀ b ∈ buckets, b.overlaps w.fromMs w.toMs = true →
      ∃ d' ∈ inputs, Serves buckets w d')
    (hfetched : ∀ r ∈ missing, ∃ d' ∈ inputs, ∀ i k,
      (d'.points i k).Perm ((q.data r).points i k)) (i : Nat) (k : String) :
    (d.points i k).Perm ((q.data w).points i k) := by
  have hge := hw.from_ge
  have hto := hw.to_lt
  have hdirect := fun p => @mem_points_aligned _ _ w hs hw hlt.le hfrom i k p
  -- what is fetched for a missing range are the points at its steps, its end included
  have hrange : ∀ r ∈ missing, ∀ p, p ∈ (q.data r).points i k ↔
      q.GridPoint i k p ∧ (r.fromMs : Int) ≤ p.timestamp ∧ p.timestamp ≤ r.toMs := by
    intro r hr p
    obtain ⟨h1, h2, h3⟩ := hC.inside r hr
    refine mem_points_aligned hs ⟨by omega, by omega⟩ h2.le ?_
    obtain heq | hdvd := hC.from_on_grid r hr
    · exact heq ▸ hfrom
    · exact hdvd
  have hsub : ∀ d' ∈ inputs, ∀ p ∈ d'.points i k, p ∈ (q.data w).points i k := by
    intro d' hd' p hp
    rcases hinputs d' hd' with hd | ⟨r, hr, hperm⟩
    · obtain ⟨hlo, hhi, b, hb, -, hpb⟩ := hd.sub i k p hp
      exact (hdirect p).2 ⟨(hexact b hb).holdsGood.good i k p hpb, hlo, hhi.le⟩
    · obtain ⟨hgrid, hlo, hhi⟩ := (hrange r hr p).1 ((hperm i k).mem_iff.1 hp)
      obtain ⟨h1, -, h3⟩ := hC.inside r hr
      exact (hdirect p).2 ⟨hgrid, by omega, by omega⟩
  have hin : ∀ r ∈ missing, ∀ p, q.GridPoint i k p → (r.fromMs : Int) ≤ p.timestamp →
      p.timestamp ≤ r.toMs → ∃ d' ∈ inputs, p ∈ d'.points i k := by
    intro r hr p hgrid hlo hhi
    obtain ⟨d', hd', hperm⟩ := hfetched r hr
    exact ⟨d', hd', (hperm i k).mem_iff.2 ((hrange r hr p).2 ⟨hgrid, hlo, hhi⟩)⟩
  have hcover : ∀ p ∈ (q.data w).points i k, ∃ d' ∈ inputs, p ∈ d'.points i k := by
    intro p hp
    obtain ⟨hgrid, hlo, hhi⟩ := (hdirect p).1 hp
    obtain ⟨-, s, hs', -, t, v, ht, -, hv, rfl⟩ := id hgrid
    simp only at hlo hhi
    by_cases hend : t < w.toMs
    · have hx : w.Mem t := ⟨by omega, hend⟩
      rcases hC.covered t hx with ⟨r, hr, hrx⟩ | ⟨b, hb, hbx⟩
      · have hrt := hrx.2
        exact hin r hr _ hgrid (Int.ofNat_le.2 hrx.1) (by simp only; omega)
      · have hover := overlaps_of_mem hbx hx
        obtain ⟨d', hd', hd⟩ := hserved b hb hover
        have hbt := hbx.2
        refine ⟨d', hd', hd.cover i k _ hlo (Int.ofNat_lt.2 hend) b hb hover ?_⟩
        exact (hexact b hb).holds i k _ hgrid (Int.ofNat_le.2 hbx.1) (Int.ofNat_lt.2 hbt)
    · -- the point at the end comes from a range that reaches the end
      obtain rfl : t = w.toMs := by omega
      obtain hfree | hnovalue := hserves.end_fetched ht
      · obtain ⟨r, hr, hrx⟩ := (hC.covered (w.toMs - 1) ⟨by omega, by omega⟩).resolve_right
          (fun ⟨b, hb, hbx⟩ => hfree b hb hbx)
        have hr1 := hrx.1
        have hr2 := hrx.2
        exact hin r hr _ hgrid (by simp only; omega) (by simp only; omega)
      · exact absurd (hnovalue s hs' ▸ hv) (by simp)
  refine hM.perm (nodup_points hs hkeys w i k) (fun d' hd' => ?_) hsub hcover
  rcases hinputs d' hd' with hd | ⟨r, hr, hperm⟩
  · exact hd.nodup i k
  · exact ((hperm i k).map _).nodup_iff.2 (nodup_points hs hkeys r i k)

theorem query_not_shifts (w : TimeRange) : ¬ (q.query w).Shifts := by
  rintro ⟨shiftBy, hkind, -⟩
  exact QueryKind.noConfusion hkind

/-- What a call finds: nothing stored, and then nothing of its answer can be stored or it may be, or
buckets that serve its window, and then its answer may be stored too. -/
structure PromReady [JsonValue V] (q : PromqlQuery V) (fluxMs getMs putMs : Nat) (cache : Cache V)
    (w : TimeRange) : Prop where
  fresh : cache (generateCacheKey q.fingerprint) = none → q.Storable w ∨
    cachableRange (fluxBoundary fluxMs putMs) w.fromMs w.toMs q.stepMs = none
  stored : ∀ data, cache (generateCacheKey q.fingerprint) = some data → q.Storable w ∧
    PromServes q (fluxBoundary fluxMs getMs) data.buckets w

/-- Fetching the missing ranges, with or without a cached result, answers as `Execute` does. -/
theorem executeMissing_prom [JsonValue V] (hs : 0 < q.stepMs) (fluxMs putMs : Nat) (cache : Cache V)
    {boundary : Nat} {buckets : List (CachedBucket V)} (hlt : w.fromMs < w.toMs)
    (htype : q.requestType = .timeSeries) (hstorable : q.Storable w)
    (hexact : ∀ b ∈ buckets, PromExact q b) (hserves : PromServes q boundary buckets w)
    {first : Nat} {missing : List TimeRange} (hC : Complements q.stepMs buckets w first missing)
    {cached : List (Result V)} (hone : cached.length ≤ 1)
    (hcached : ∀ c ∈ cached, ∃ d, HoldsData c d ∧ Serves buckets w d)
    (hserved : ∀ b ∈ buckets, b.overlaps w.fromMs w.toMs = true → cached ≠ [])
    (hne : cached = [] → missing ≠ []) :
    ∃ r, executeMissing fluxMs putMs cache (q.query w) q.stepMs cached.head? missing =
      (some r, putResult fluxMs putMs cache (q.query w) q.stepMs r) ∧ q.IsAnswer w r := by
  obtain ⟨r, d, inputs, hr, ⟨hrtype, hvalue⟩, hM, hinputs, hread, hfetched⟩ :=
    executeMissing_merges q.stepMs fluxMs putMs cache (query_not_shifts w)
      (P := fun r d => ∀ i k, (d.points i k).Perm ((q.data r).points i k))
      (fun r _ => ⟨_, rfl, q.data r, ⟨htype, rfl⟩, fun _ _ => List.Perm.refl _⟩) hone hcached hne
  refine ⟨r, hr, hrtype.trans htype.symm, d, hvalue, ?_⟩
  exact perm_of_promServes hs hstorable.keysApart hlt hstorable.epoch hstorable.from_on_grid hexact
    hserves hC hM hinputs (fun b hb h => hread (hserved b hb h)) hfetched

/-- What a call returns is what `Execute` does. -/
theorem executeWithCache_answers [JsonValue V] (hs : 0 < q.stepMs) (hstep : q.stepMs < 2 ^ 63)
    (fluxMs getMs putMs : Nat) (hlt : w.fromMs < w.toMs) (hcache : PromStored q cache)
    (hready : q.requestType = .timeSeries → PromReady q fluxMs getMs putMs cache w) :
    ∃ r, q.IsAnswer w r ∧
      (executeWithCache fluxMs getMs putMs cache (q.query w) q.stepMs = (some r, cache) ∨
        executeWithCache fluxMs getMs putMs cache (q.query w) q.stepMs =
          (some r, putResult fluxMs putMs cache (q.query w) q.stepMs r)) := by
  have hfull : ∃ r, executeFully fluxMs putMs cache (q.query w) q.stepMs =
      (some r, putResult fluxMs putMs cache (q.query w) q.stepMs r) ∧ q.IsAnswer w r :=
    ⟨_, rfl, rfl, _, rfl, fun _ _ => List.Perm.refl _⟩
  cases hentry : cache (generateCacheKey q.fingerprint) with
  | none =>
    have hget : getMissRanges fluxMs getMs cache q.fingerprint w.fromMs w.toMs q.stepMs =
        (none, [w]) := by rw [getMissRanges, hentry]
    exact executeWithCache_result hget (by simp) (fun _ _ => hfull)
      fun _ hwhole => absurd rfl (hwhole rfl)
  | some data =>
    have htype : q.requestType = .timeSeries := by
      by_contra hne
      exact absurd (hcache.cacheable hne ▸ hentry) (by simp)
    obtain ⟨hstorable, hserves⟩ := (hready htype).stored data hentry
    have hto := hstorable.epoch.to_lt
    have hexact := hcache.exact data hentry
    have hgrid : OnGrid q.stepMs data.buckets := fun b hb =>
      ⟨(hexact b hb).step_dvd_start, (hexact b hb).step_dvd_end, (hexact b hb).start_lt_end⟩
    obtain ⟨first, -, -, hC⟩ := complements_of_boundaryFits fluxMs getMs hs hgrid hlt (by omega)
      (by omega) hserves.fits
    by_cases hrel : filterRelevantBuckets data.buckets w.fromMs w.toMs = []
    · -- nothing is stored for the window
      have hget : getMissRanges fluxMs getMs cache q.fingerprint w.fromMs w.toMs q.stepMs = (none,
          findMissingRangesWithStep fluxMs getMs data.buckets w.fromMs w.toMs q.stepMs) := by
        simp only [getMissRanges, hentry, if_pos hrel]
      have hmissing := hC.ne_nil hlt hrel
      refine executeWithCache_result hget (fun h => absurd h hmissing) (fun _ _ => hfull)
        fun _ _ => executeMissing_prom hs fluxMs putMs cache hlt htype hstorable hexact hserves hC
          (show ([] : List (Result V)).length ≤ 1 from Nat.zero_le _) (by simp) (fun b hb h => ?_)
          fun _ => hmissing
      have hmem := mem_filterRelevantBuckets.2 ⟨hb, h⟩
      rw [hrel] at hmem
      cases hmem
    · obtain ⟨c, d, hc, hctype, hvalue, hd⟩ := serves_of_holdsGood
        (goodPoints_gridPoint hstorable.keysApart) (fun b hb => (hexact b hb).holdsGood)
        data.warnings hrel
      have hget : getMissRanges fluxMs getMs cache q.fingerprint w.fromMs w.toMs q.stepMs =
          (some c,
            findMissingRangesWithStep fluxMs getMs data.buckets w.fromMs w.toMs q.stepMs) := by
        simp only [getMissRanges, hentry, if_neg hrel, hc]
      refine executeWithCache_result hget
        (fun hnil => ⟨c, rfl, hctype.trans htype.symm, d, hvalue, ?_⟩) (by simp) fun _ _ =>
          executeMissing_prom hs fluxMs putMs cache hlt htype hstorable hexact hserves hC
            (show [c].length ≤ 1 from Nat.le_refl _) (by simpa using ⟨d, ⟨hctype, hvalue⟩, hd⟩)
            (by simp) (by simp)
      -- everything is stored
      rw [hnil] at hC
      refine perm_of_promServes hs hstorable.keysApart hlt hstorable.epoch hstorable.from_on_grid
        hexact hserves hC (merges_singleton d) ?_ ?_ (by simp)
      · intro d' hd'
        obtain rfl := List.mem_singleton.1 hd'
        exact Or.inl hd
      · exact fun b hb h => ⟨d, List.mem_singleton_self d, hd⟩

/-- A call answers as `Execute` does, and keeps the cache right. -/
theorem executeWithCache_prom [JsonValue V] (hs : 0 < q.stepMs) (hstep : q.stepMs < 2 ^ 63)
    (fluxMs getMs putMs : Nat) (hlt : w.fromMs < w.toMs) (hcache : PromStored q cache)
    (hready : q.requestType = .timeSeries → PromReady q fluxMs getMs putMs cache w) :
    ∃ r, (executeWithCache fluxMs getMs putMs cache (q.query w) q.stepMs).1 = some r ∧
      q.IsAnswer w r ∧
      PromStored q (executeWithCache fluxMs getMs putMs cache (q.query w) q.stepMs).2 := by
  have hput : q.requestType = .timeSeries → q.Storable w ∨
      cachableRange (fluxBoundary fluxMs putMs) w.fromMs w.toMs q.stepMs = none := by
    intro htype
    cases hentry : cache (generateCacheKey q.fingerprint) with
    | none => exact (hready htype).fresh hentry
    | some data => exact .inl ((hready htype).stored data hentry).1
  obtain ⟨r, hr, hcall | hcall⟩ :=
    executeWithCache_answers hs hstep fluxMs getMs putMs hlt hcache hready
  · exact ⟨r, by rw [hcall], hr, by rw [hcall]; exact hcache⟩
  · exact ⟨r, by rw [hcall], hr, by rw [hcall]; exact promStored_put hs hcache hlt hput hr⟩

/-! ## Runs -/

/-- A call for a window, with its two readings of the clock. -/
structure PromCall where
  window : TimeRange
  getMs : Nat
  putMs : Nat

/-- The calls one after the other: what each returns. -/
def runPromCalls [JsonValue V] (q : PromqlQuery V) (fluxMs : Nat) :
    Cache V → List PromCall → List (Option (Result V))
  | _, [] => []
  | cache, c :: calls =>
    let r := executeWithCache fluxMs c.getMs c.putMs cache (q.query c.window) q.stepMs
    r.1 :: runPromCalls q fluxMs r.2 calls

/-- Every call of the run finds a cache that is ready for it. -/
def PromRunReady [JsonValue V] (q : PromqlQuery V) (fluxMs : Nat) : Cache V → List PromCall → Prop
  | _, [] => True
  | cache, c :: calls =>
    (q.requestType = .timeSeries → PromReady q fluxMs c.getMs c.putMs cache c.window) ∧
    PromRunReady q fluxMs
      (executeWithCache fluxMs c.getMs c.putMs cache (q.query c.window) q.stepMs).2 calls

/-- Every call returned the timestamps and values of `Execute` on its window. -/
def PromAnswers (q : PromqlQuery V) (calls : List PromCall)
    (answers : List (Option (Result V))) : Prop :=
  List.Forall₂ (fun c answer => ∃ r, answer = some r ∧ q.IsAnswer c.window r) calls answers

/-- Cached PromQL is direct PromQL, in every run whose calls find a cache that is ready for
them. -/
theorem promql_cached_exact [JsonValue V] (q : PromqlQuery V) (hs : 0 < q.stepMs)
    (hstep : q.stepMs < 2 ^ 63) (fluxMs : Nat) (calls : List PromCall)
    (hvalid : ∀ c ∈ calls, c.window.fromMs < c.window.toMs)
    (hready : PromRunReady q fluxMs (fun _ => none) calls) :
    PromAnswers q calls (runPromCalls q fluxMs (fun _ => none) calls) := by
  have hrun : ∀ (calls : List PromCall) (cache : Cache V), PromStored q cache →
      (∀ c ∈ calls, c.window.fromMs < c.window.toMs) →
      PromRunReady q fluxMs cache calls →
      PromAnswers q calls (runPromCalls q fluxMs cache calls) := by
    intro calls
    induction calls with
    | nil => exact fun _ _ _ _ => .nil
    | cons c calls ih =>
      intro cache hcache hvalid hready
      obtain ⟨r, hr, hanswer, hnext⟩ := executeWithCache_prom hs hstep fluxMs c.getMs c.putMs
        (hvalid c List.mem_cons_self) hcache hready.1
      exact .cons ⟨r, hr, hanswer⟩
        (ih _ hnext (fun c' hc' => hvalid c' (List.mem_cons_of_mem _ hc')) hready.2)
  exact hrun calls _ ⟨fun _ h => absurd h (by simp), fun _ => rfl⟩ hvalid hready

/-! ## Two runs -/

/-- A series that is always 1, queried with step 50. -/
def upQuery : PromqlQuery Nat :=
  ⟨"A", "promql&up&50", .timeSeries, 50, [⟨[("__name__", "up")], fun _ => some 1⟩], fun _ => []⟩

theorem upQuery_kept (w : TimeRange) : upQuery.ValuesKept w := fun _ _ _ _ => rfl

/-- A call for a window of November 2023, given by its offsets, ten minutes later. -/
def callAt (fromMs toMs : Nat) : PromCall :=
  ⟨⟨1700000000000 + fromMs, 1700000000000 + toMs⟩, 1700000600000, 1700000600000⟩

/-- Windows that start on the grid and end off it are answered exactly. -/
theorem promql_cached_exact_up : PromAnswers upQuery [callAt 0 120, callAt 50 180]
    (runPromCalls upQuery 300000 (fun _ => none) [callAt 0 120, callAt 50 180]) := by
  have hready : ∀ cache w, EpochMillis w → 50 ∣ w.fromMs → ¬ 50 ∣ w.toMs →
      w.fromMs + 50 ≤ w.toMs → PromReady upQuery 300000 1700000600000 1700000600000 cache w := by
    intro cache w hw hfrom hto hlong
    have hstorable : upQuery.Storable w := ⟨List.nodup_singleton _, hw, hfrom, upQuery_kept w⟩
    exact ⟨fun _ => .inl hstorable, fun data _ =>
      ⟨hstorable, fun h => absurd h (Nat.not_lt.2 hlong), fun h => absurd h hto⟩⟩
  refine promql_cached_exact upQuery (by decide) (by decide) 300000 _ (by decide)
    ⟨fun _ => hready _ _ ⟨?_, ?_⟩ ?_ ?_ ?_, fun _ => hready _ _ ⟨?_, ?_⟩ ?_ ?_ ?_, trivial⟩
  all_goals decide

/-- The same window twice: the second answer comes from the cache, without the point at the end. -/
theorem cached_promql_loses_end :
    ¬ ∀ (q : PromqlQuery Nat) (fluxMs : Nat) (calls : List PromCall), 0 < q.stepMs →
      (∀ c ∈ calls, c.window.fromMs < c.window.toMs) →
      (calls.flatMap fun c => [c.getMs, c.putMs]).Pairwise (· ≤ ·) →
      PromAnswers q calls (runPromCalls q fluxMs (fun _ => none) calls) := by
  intro h
  have hrun := h upQuery 300000 [callAt 0 100, callAt 0 100] (by decide) (by decide) (by decide)
  have hanswers : runPromCalls upQuery 300000 (fun _ => none) [callAt 0 100, callAt 0 100] =
      [some ⟨.timeSeries, .timeSeries ⟨"A", [⟨0, "", "", [⟨[⟨"__name__", .str "up"⟩],
        [⟨1700000000000, 1, false⟩, ⟨1700000000050, 1, false⟩,
          ⟨1700000000100, 1, false⟩]⟩]⟩]⟩, .zero, [], ""⟩,
       some ⟨.timeSeries, .timeSeries ⟨"", [⟨0, "", "", [⟨[⟨"__name__", .str "up"⟩],
        [⟨1700000000000, 1, false⟩, ⟨1700000000050, 1, false⟩]⟩]⟩]⟩, .zero, [], ""⟩] := by
    decide +kernel
  rw [hanswers] at hrun
  cases hrun with
  | cons _ htail =>
    cases htail with
    | cons hlast _ =>
      obtain ⟨r, hr, -, d, hd, hperm⟩ := hlast
      obtain rfl := Option.some.inj hr
      obtain rfl := ResultValue.timeSeries.inj hd
      exact absurd ((hperm 0 "__name__=up,").mem_iff (a := ⟨1700000000100, 1, false⟩))
        (by decide +kernel)

end PromqlCache

end Signoz.Querier
