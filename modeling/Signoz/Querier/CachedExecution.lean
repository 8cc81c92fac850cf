import Signoz.Querier.DataSource
import Signoz.Querier.MissingRanges

/-!
# Cached execution against plain execution

The cache is right when every bucket holds exactly the points of its complete intervals, and
perhaps more complete points (`BucketExact`). A call on such a cache returns what plain execution
returns, and keeps the cache right, unless

* a bucket that overlaps the window has the complete point of an interval that the window cuts off
  (`CutsNoPoint` fails): it is served although plain execution returns the partial point,
* a window shorter than a step is split at a flux boundary off the grid (`BoundaryFits` fails), or
* ranged copies of a shifted query are needed, which are shifted twice (`ShiftServed` fails).
-/

namespace Signoz.Querier

open Lib.Grid Lib.KeyedFold

section CachedExecution

variable {S V : Type} {src : DataSource S V} {stepMs : Nat}

/-! ## The cache -/

/-- The data that is read from a bucket, none when it does not unmarshal. -/
def CachedBucket.data (b : CachedBucket V) : TimeSeriesData V := b.value.unmarshal.getD ⟨"", []⟩

variable {b : CachedBucket V} {d : TimeSeriesData V}

theorem CachedBucket.data_eq (h : b.value.unmarshal = some d) :
   b.data = d := by rw [CachedBucket.data, h, Option.getD_some]

/-- A point that is read comes from data that unmarshals. -/
theorem CachedBucket.unmarshal_of_mem {i : Nat} {k : String} {p : TimeSeriesValue V}
    (hp : p ∈ b.data.points i k) : b.value.unmarshal = some b.data := by
  cases h : b.value.unmarshal with
  | none =>
    rw [CachedBucket.data, h] at hp
    cases hp
  | some d => rw [CachedBucket.data_eq h]

/-- `b` covers whole steps and holds the points of its complete intervals, each once; further
points it holds are complete as well. -/
structure BucketExact (src : DataSource S V) (stepMs : Nat) (b : CachedBucket V) : Prop where
  type_eq : b.type = .timeSeries
  step_dvd_start : stepMs ∣ b.startMs
  step_dvd_end : stepMs ∣ b.endMs
  start_lt_end : b.startMs < b.endMs
  full : ∀ i k, ∀ p ∈ b.data.points i k, src.IsFull stepMs i k p
  holds : ∀ i k p, src.IsFull stepMs i k p → (b.startMs : Int) ≤ p.timestamp →
    p.timestamp + stepMs ≤ b.endMs → p ∈ b.data.points i k
  nodup : ∀ i k, ((b.data.points i k).map TimeSeriesValue.timestamp).Nodup

/-- Every bucket stored under the key is exact. -/
def StoreExact (src : DataSource S V) (stepMs : Nat) (cache : Cache V) (key : String) : Prop :=
  ∀ data, cache key = some data → ∀ b ∈ data.buckets, BucketExact src stepMs b

theorem itemsOf_map_value {K A B : Type} [DecidableEq K] (f : A → B) (k : K) (l : List (K × A)) :
    itemsOf k (l.map fun e => (e.1, f e.2)) = (itemsOf k l).map f := by
  simp [itemsOf, List.filter_map, Function.comp_def]

/-- Filtering the values of every series filters the points. -/
theorem points_of_keyed_filter {d d' : TimeSeriesData V} {keep : TimeSeriesValue V → Bool}
    (h : d'.keyed = d.keyed.map fun e => (e.1, ⟨e.2.labels, e.2.values.filter keep⟩))
    (i : Nat) (k : String) : d'.points i k = (d.points i k).filter keep := by
  have hitems : itemsOf (i, k) d'.keyed =
      (itemsOf (i, k) d.keyed).map fun s => ⟨s.labels, s.values.filter keep⟩ := by
    rw [h]
    exact itemsOf_map_value
      (fun s : TimeSeries V => (⟨s.labels, s.values.filter keep⟩ : TimeSeries V)) _ _
  rw [TimeSeriesData.points, hitems, TimeSeriesData.points, List.filter_flatMap, List.flatMap_map]

theorem trimDataToFluxBoundary_points (d : TimeSeriesData V) (boundary i : Nat) (k : String) :
    (trimDataToFluxBoundary d boundary).points i k = (d.points i k).filter fun v =>
      !v.isPartial && decide (uint64 v.timestamp ≤ boundary) :=
  points_of_keyed_filter (trimDataToFluxBoundary_keyed d boundary) i k

/-- Every complete value of the window is a number that JSON keeps. -/
def ValuesKept [JsonValue V] (src : DataSource S V) (stepMs : Nat) (w : TimeRange) : Prop :=
  ∀ i k, ∀ p ∈ src.points stepMs w i k, p.isPartial = false →
    JsonValue.sanitizeValue p.value = some p.value

/-- A stored result is read back as it was, when JSON keeps its values. -/
theorem data_of_kept [JsonValue V] (hvalue : b.value = d.marshal)
    (hkept : ∀ i k, ∀ p ∈ d.points i k, JsonValue.sanitizeValue p.value = some p.value) :
    b.data = d := by
  refine CachedBucket.data_eq ?_
  rw [hvalue, TimeSeriesData.marshal_of_kept, TimeSeriesData.unmarshal_mapValues_some]
  rintro ⟨⟨i, k⟩, s⟩ he p hp
  exact hkept i k p (TimeSeriesData.mem_points.2 ⟨s, he, hp⟩)

/-- The bucket made of a correct result is exact. -/
theorem bucketExact_of_fresh [JsonValue V] (hs : 0 < stepMs) {fluxMs : Nat} {c : PutCall V}
    (hstep : c.stepMs = stepMs) (hto : c.window.toMs < 2 ^ 64)
    (hsum : c.window.fromMs + stepMs < 2 ^ 64) (hvalues : ValuesKept src stepMs c.window)
    (hpoints : ∀ i k, (c.fresh.points i k).Perm (src.points stepMs c.window i k))
    (hb : b ∈ c.freshBuckets fluxMs) : BucketExact src stepMs b := by
  subst hstep
  obtain ⟨-, hlt, -, hbucket⟩ := (mem_freshBuckets_iff hs).1 hb
  have hcut : c.cut fluxMs ≤ c.window.toMs := by
    rw [PutCall.cut, cutMs_eq_min]
    exact Nat.min_le_right _ _
  have hfloor := gridFloor_le c.stepMs (c.cut fluxMs)
  have hceil := le_gridCeil hs c.window.fromMs
  have hnext := gridCeil_lt_add hs c.window.fromMs
  rw [firstStep_eq (by omega)] at hlt hbucket
  have hkept : ∀ i k p, p ∈ (trimDataToFluxBoundary c.fresh (c.cut fluxMs)).points i k ↔
      p ∈ src.points c.stepMs c.window i k ∧ p.isPartial = false ∧
        uint64 p.timestamp ≤ c.cut fluxMs := by
    intro i k p
    rw [trimDataToFluxBoundary_points, List.mem_filter, (hpoints i k).mem_iff]
    simp
  have hdata : b.data = trimDataToFluxBoundary c.fresh (c.cut fluxMs) := by
    refine data_of_kept (by rw [hbucket]) fun i k p hp => ?_
    obtain ⟨hmem, hpart, -⟩ := (hkept i k p).1 hp
    exact hvalues i k p hmem hpart
  refine ⟨by rw [hbucket], hbucket ▸ dvd_gridCeil _ _, hbucket ▸ dvd_gridFloor _ _,
    hbucket ▸ hlt, ?_, ?_, ?_⟩
  · intro i k p hp
    rw [hdata] at hp
    obtain ⟨hmem, hpart, -⟩ := (hkept i k p).1 hp
    exact (isFull_of_mem_points hs hto hmem hpart).1
  · intro i k p hp hlo hhi
    simp only [hbucket] at hlo hhi
    rw [hdata]
    refine (hkept i k p).2 ⟨mem_points_of_full hs hto hp (by omega) (by omega), ?_, ?_⟩
    · obtain ⟨t, v, -, -, -, rfl⟩ := hp
      rfl
    · obtain ⟨t, v, -, ht, -, rfl⟩ := hp
      simp only at hhi
      rw [uint64_natCast ht]
      omega
  · intro i k
    simp only [hdata, trimDataToFluxBoundary_points]
    have hnodup := ((hpoints i k).map TimeSeriesValue.timestamp).nodup_iff.2
      (DataSource.nodup_timestamps hs _)
    exact List.Sublist.nodup (List.filter_sublist.map _) hnodup

variable {cache : Cache V} {w : TimeRange}

/-- Storing a correct result keeps the cache right. -/
theorem storeExact_put [JsonValue V] (hs : 0 < stepMs) {fluxMs putMs : Nat} {fingerprint : String}
    (hto : w.toMs < 2 ^ 64) (hsum : w.fromMs + stepMs < 2 ^ 64) (hvalues : ValuesKept src stepMs w)
    {r : Result V} (hr : src.IsResultOf stepMs w r) {key : String}
    (hcache : StoreExact src stepMs cache key) :
    StoreExact src stepMs (put fluxMs putMs cache fingerprint w.fromMs w.toMs stepMs r) key := by
  obtain ⟨htype, d, hd, hpoints⟩ := hr
  obtain ⟨type, value, stats, warnings, url⟩ := r
  simp only at htype hd
  subst htype hd
  let c : PutCall V := ⟨fingerprint, w, stepMs, putMs, d, stats, warnings⟩
  have hput : put fluxMs putMs cache fingerprint w.fromMs w.toMs stepMs
      ⟨.timeSeries, .timeSeries d, stats, warnings, url⟩ = c.apply fluxMs cache := rfl
  rw [hput]
  intro data hdata b hb
  rcases apply_cases fluxMs cache c hdata hb with ⟨old, hold, hbold⟩ | ⟨-, hfresh⟩
  · exact hcache old hold b hbold
  · exact bucketExact_of_fresh (c := c) hs rfl hto hsum hvalues hpoints hfresh

/-! ## Reading -/

theorem filterDataToTimeRange_points (d : TimeSeriesData V) (startMs endMs i : Nat) (k : String) :
    (filterDataToTimeRange d startMs endMs).points i k = (d.points i k).filter fun v =>
      decide (startMs ≤ uint64 v.timestamp) && decide (uint64 v.timestamp < endMs) := by
  refine points_of_keyed_filter ?_ i k
  simp only [TimeSeriesData.keyed, filterDataToTimeRange, List.map_flatMap, List.map_map]
  induction d.aggregations with
  | nil => rfl
  | cons a as ih =>
    -- an aggregation without series is dropped, and had nothing to contribute
    cases hseries : a.series with
    | nil => simpa [hseries] using ih
    | cons s ss => simpa [hseries, Function.comp_def] using ih

variable {buckets : List (CachedBucket V)}

theorem mem_filterRelevantBuckets {startMs endMs : Nat} :
   b ∈ filterRelevantBuckets buckets startMs endMs ↔
      b ∈ buckets ∧ b.overlaps startMs endMs = true := by
  rw [filterRelevantBuckets, mem_sortBuckets, List.mem_filter]

/-- A bucket that contains a millisecond of the window overlaps it. -/
theorem overlaps_of_mem {x : Nat} (hb : b.Mem x) (hx : w.Mem x) :
   b.overlaps w.fromMs w.toMs = true := by
  unfold CachedBucket.Mem at hb
  unfold TimeRange.Mem at hx
  simp only [CachedBucket.overlaps, Bool.and_eq_true, decide_eq_true_eq]
  omega

/-- What the cache serves for `w`: the points its overlapping buckets hold between the bounds. -/
structure Serves (buckets : List (CachedBucket V)) (w : TimeRange) (d : TimeSeriesData V) :
    Prop where
  sub : ∀ i k, ∀ p ∈ d.points i k, (w.fromMs : Int) ≤ p.timestamp ∧ p.timestamp < w.toMs ∧
    ∃ b ∈ buckets, b.overlaps w.fromMs w.toMs = true ∧ p ∈ b.data.points i k
  cover : ∀ i k (p : TimeSeriesValue V), (w.fromMs : Int) ≤ p.timestamp → p.timestamp < w.toMs →
    ∀ b ∈ buckets, b.overlaps w.fromMs w.toMs = true → p ∈ b.data.points i k →
      p ∈ d.points i k
  nodup : ∀ i k, ((d.points i k).map TimeSeriesValue.timestamp).Nodup

/-- The points that buckets may hold: their timestamps are numbers below `2 ^ 64`, and two of one
series with one timestamp are the same. -/
structure GoodPoints (good : Nat → String → TimeSeriesValue V → Prop) : Prop where
  stamp : ∀ i k p, good i k p → ∃ t : Nat, t < 2 ^ 64 ∧ p.timestamp = t
  eq_of_stamp : ∀ i k p q, good i k p → good i k q → p.timestamp = q.timestamp → p = q

/-- The bucket holds such points only, each once. -/
structure HoldsGood (good : Nat → String → TimeSeriesValue V → Prop) (b : CachedBucket V) :
    Prop where
  type_eq : b.type = .timeSeries
  good : ∀ i k, ∀ p ∈ b.data.points i k, good i k p
  nodup : ∀ i k, ((b.data.points i k).map TimeSeriesValue.timestamp).Nodup

/-- The cached result is served from the overlapping buckets. -/
theorem serves_of_holdsGood {good : Nat → String → TimeSeriesValue V → Prop}
    (hgood : GoodPoints good) (hholds : ∀ b ∈ buckets, HoldsGood good b) (warnings : List String)
    (hrel : filterRelevantBuckets buckets w.fromMs w.toMs ≠ []) :
    ∃ c d, filterResultToTimeRange (mergeBuckets (filterRelevantBuckets buckets w.fromMs w.toMs)
        warnings) w.fromMs w.toMs = c ∧ c.type = .timeSeries ∧ c.value = .timeSeries d ∧
      Serves buckets w d := by
  have hmem : ∀ b, b ∈ filterRelevantBuckets buckets w.fromMs w.toMs ↔
      b ∈ buckets ∧ b.overlaps w.fromMs w.toMs = true := fun b => mem_filterRelevantBuckets
  generalize filterRelevantBuckets buckets w.fromMs w.toMs = relevant at hrel hmem
  obtain ⟨b₀, rest, rfl⟩ := List.exists_cons_of_ne_nil hrel
  have htype := (hholds b₀ ((hmem b₀).1 List.mem_cons_self).1).type_eq
  have hM := mergeTimeSeriesValues_merges (b₀ :: rest)
  refine ⟨_, filterDataToTimeRange (mergeTimeSeriesValues (b₀ :: rest)) w.fromMs w.toMs, rfl, ?_,
    ?_, ?_⟩
  · simp [mergeBuckets, filterResultToTimeRange, htype]
  · simp [mergeBuckets, filterResultToTimeRange, htype]
  have hpoints := filterDataToTimeRange_points (mergeTimeSeriesValues (b₀ :: rest)) w.fromMs w.toMs
  -- every point of the merged buckets is good, so its timestamp is a number below `2 ^ 64`
  have hall : ∀ i k, ∀ p ∈ (mergeTimeSeriesValues (b₀ :: rest)).points i k,
      good i k p ∧ ∃ b ∈ buckets, b.overlaps w.fromMs w.toMs = true ∧
        p ∈ b.data.points i k := by
    intro i k p hp
    obtain ⟨d', hd', hpd⟩ := hM.sub i k p hp
    obtain ⟨b, hb, hread⟩ := List.mem_filterMap.1 hd'
    obtain ⟨hbmem, hbover⟩ := (hmem b).1 hb
    rw [← CachedBucket.data_eq hread] at hpd
    exact ⟨(hholds b hbmem).good i k p hpd, b, hbmem, hbover, hpd⟩
  refine ⟨?_, ?_, ?_⟩
  · intro i k p hp
    rw [hpoints, List.mem_filter] at hp
    obtain ⟨hp, hrange⟩ := hp
    obtain ⟨hgoodp, hb⟩ := hall i k p hp
    obtain ⟨t, ht, hstamp⟩ := hgood.stamp i k p hgoodp
    simp only [hstamp, uint64_natCast ht, Bool.and_eq_true, decide_eq_true_eq] at hrange
    exact ⟨by omega, by omega, hb⟩
  · intro i k p hlo hhi b hb hover hp
    have hread : b.data ∈ (b₀ :: rest).filterMap fun b => b.value.unmarshal :=
      List.mem_filterMap.2 ⟨b, (hmem b).2 ⟨hb, hover⟩, CachedBucket.unmarshal_of_mem hp⟩
    obtain ⟨q, hq, hqt⟩ := hM.cover i k b.data hread p hp
    obtain ⟨hqgood, -⟩ := hall i k q hq
    obtain rfl := hgood.eq_of_stamp i k q p hqgood ((hholds b hb).good i k p hp) hqt
    rw [hpoints, List.mem_filter]
    obtain ⟨t, ht, hstamp⟩ := hgood.stamp i k q hqgood
    refine ⟨hq, ?_⟩
    simp only [hstamp, uint64_natCast ht, Bool.and_eq_true, decide_eq_true_eq]
    omega
  · intro i k
    rw [hpoints]
    refine List.Sublist.nodup (List.filter_sublist.map _) (hM.nodup i k ?_)
    intro d' hd'
    obtain ⟨b, hb, hread⟩ := List.mem_filterMap.1 hd'
    rw [← CachedBucket.data_eq hread]
    exact (hholds b ((hmem b).1 hb).1).nodup i k

theorem goodPoints_isFull : GoodPoints (src.IsFull stepMs) where
  stamp := by
    rintro i k p ⟨t, v, -, ht, -, rfl⟩
    exact ⟨t, ht, rfl⟩
  eq_of_stamp := fun _ _ _ _ hp hq h => DataSource.IsFull.eq hp hq h

theorem BucketExact.holdsGood (h : BucketExact src stepMs b) :
    HoldsGood (src.IsFull stepMs) b :=
  ⟨h.type_eq, h.full, h.nodup⟩

/-! ## One call -/

/-- `b` holds a point at the timestamp `t`. -/
def CachedBucket.HoldsPointAt (b : CachedBucket V) (t : Nat) : Prop :=
  ∃ i k, ∃ p ∈ b.data.points i k, p.timestamp = t

/-- No bucket that overlaps the window holds the point of an interval the window cuts off at its
end, nor, for a window shorter than a step, at its start. -/
def CutsNoPoint (stepMs : Nat) (buckets : List (CachedBucket V)) (w : TimeRange) : Prop :=
  ∀ b ∈ buckets, b.overlaps w.fromMs w.toMs = true →
    (¬ stepMs ∣ w.toMs → ¬ b.HoldsPointAt (gridFloor stepMs w.toMs)) ∧
    (¬ stepMs ∣ w.fromMs → w.toMs < w.fromMs + stepMs →
      ¬ b.HoldsPointAt (gridFloor stepMs w.fromMs))

/-- A window shorter than a step does not contain a flux boundary off the grid that no bucket
contains. -/
def BoundaryFits (boundary stepMs : Nat) (buckets : List (CachedBucket V)) (w : TimeRange) : Prop :=
  w.toMs < w.fromMs + stepMs → boundary ≤ w.fromMs ∨ w.toMs ≤ boundary ∨ stepMs ∣ boundary ∨
    ∃ b ∈ buckets, b.Mem boundary

/-- A complete point that is served belongs to an interval inside the window. -/
theorem mem_points_of_served (hs : 0 < stepMs) (hto : w.toMs < 2 ^ 64)
    (hexact : ∀ b ∈ buckets, BucketExact src stepMs b) (hcut : CutsNoPoint stepMs buckets w)
    (hd : Serves buckets w d) {i : Nat} {k : String} {p : TimeSeriesValue V} (hp : p ∈ d.points i k) :
    p ∈ src.points stepMs w i k := by
  obtain ⟨hlo, hhi, b, hb, hover, hpb⟩ := hd.sub i k p hp
  have hfull := (hexact b hb).full i k p hpb
  refine mem_points_of_full hs hto hfull hlo ?_
  by_contra hend
  obtain ⟨t, v, ht, -, -, rfl⟩ := hfull
  simp only at hlo hhi hend
  have hnot : ¬ stepMs ∣ w.toMs := by
    intro hd
    have := add_le_of_dvd_of_lt ht hd (by omega)
    omega
  refine (hcut b hb hover).1 hnot ⟨i, k, _, hpb, ?_⟩
  rw [gridFloor_eq_of_mem hs ht (by omega) (by omega)]

/-- The point of an interval that a bucket contains, when nothing of it is fetched, is complete
and is served. -/
theorem mem_served_of_bucket (hs : 0 < stepMs) (hto : w.toMs < 2 ^ 64)
    (hexact : ∀ b ∈ buckets, BucketExact src stepMs b) (hcut : CutsNoPoint stepMs buckets w)
    (hd : Serves buckets w d) {i : Nat} {k : String} {t : Nat} {v : V} (ht : stepMs ∣ t)
    (hlo : w.fromMs < t + stepMs) (hhi : t < w.toMs)
    (hv : src.value i k (max t w.fromMs) (min (t + stepMs) w.toMs) = some v)
    (hfetched : w.fromMs + stepMs ≤ w.toMs → w.fromMs ≤ t) (hb : b ∈ buckets)
    (hbx : b.Mem (max t w.fromMs)) (hover : b.overlaps w.fromMs w.toMs = true) :
    ⟨(t : Int), v, isPartialValue w stepMs t⟩ ∈ d.points i k := by
  have hx := hexact b hb
  have hstart : b.startMs ≤ t := by
    by_contra hlt
    have := add_le_of_dvd_of_lt ht hx.step_dvd_start (by omega)
    have := hbx.1
    omega
  have hend : t + stepMs ≤ b.endMs :=
    add_le_of_dvd_of_lt ht hx.step_dvd_end (by have := hbx.2; omega)
  obtain ⟨v', hv'⟩ := DataSource.value_mono hv (Nat.le_max_left _ _) (Nat.min_le_left _ _)
  have hheld : (⟨(t : Int), v', false⟩ : TimeSeriesValue V) ∈ b.data.points i k :=
    hx.holds i k _ ⟨t, v', ht, by omega, hv', rfl⟩ (by simp only; omega) (by simp only; omega)
  -- the window does not cut off the interval, at its start or at its end
  have hfrom : w.fromMs ≤ t := by
    by_contra hlt
    have hnot : ¬ stepMs ∣ w.fromMs := by
      intro hd
      have := add_le_of_dvd_of_lt ht hd (by omega)
      omega
    refine (hcut b hb hover).2 hnot (by by_contra h; exact hlt (hfetched (by omega)))
      ⟨i, k, _, hheld, ?_⟩
    rw [gridFloor_eq_of_mem hs ht (by omega) (by omega)]
  have hto' : t + stepMs ≤ w.toMs := by
    by_contra hlt
    have hnot : ¬ stepMs ∣ w.toMs := by
      intro hd
      have := add_le_of_dvd_of_lt ht hd (by omega)
      omega
    refine (hcut b hb hover).1 hnot ⟨i, k, _, hheld, ?_⟩
    rw [gridFloor_eq_of_mem hs ht (by omega) (by omega)]
  rw [Nat.max_eq_left hfrom, Nat.min_eq_left hto', hv'] at hv
  rw [isPartialValue_of_inside hs hto ht hfrom hto', ← Option.some.inj hv]
  exact hd.cover i k _ (by simp only; omega) (by simp only; omega) b hb hover hheld

variable {first : Nat} {missing : List TimeRange}

theorem Complements.piece (hC : Complements stepMs buckets w first missing) {r : TimeRange}
    (hr : r ∈ missing) : Piece stepMs w r := by
  obtain ⟨h1, h2, h3⟩ := hC.inside r hr
  exact ⟨h1, h2, h3, hC.from_on_grid r hr, hC.to_on_grid r hr⟩

/-- What is served and what is fetched together give the points of plain execution. -/
theorem perm_of_serves (hs : 0 < stepMs) (hlt : w.fromMs < w.toMs) (hto : w.toMs < 2 ^ 64)
    (hexact : ∀ b ∈ buckets, BucketExact src stepMs b) (hcut : CutsNoPoint stepMs buckets w)
    (hfirst : w.fromMs + stepMs ≤ w.toMs → first = gridCeil stepMs w.fromMs)
    (hC : Complements stepMs buckets w first missing) {inputs : List (TimeSeriesData V)}
    (hM : Merges inputs d)
    (hinputs : ∀ d' ∈ inputs, Serves buckets w d' ∨
      ∃ r ∈ missing, ∀ i k, (d'.points i k).Perm (src.points stepMs r i k))
    (hserved : ∀ b ∈ buckets, b.overlaps w.fromMs w.toMs = true → ∃ d' ∈ inputs, Serves buckets w
    d')
    (hfetched : ∀ r ∈ missing, ∃ d' ∈ inputs, ∀ i k, (d'.points i k).Perm (src.points stepMs r i k))
    (i : Nat) (k : String) : (d.points i k).Perm (src.points stepMs w i k) := by
  have hsub : ∀ d' ∈ inputs, ∀ p ∈ d'.points i k, p ∈ src.points stepMs w i k := by
    intro d' hd' p hp
    rcases hinputs d' hd' with hd | ⟨r, hr, hperm⟩
    · exact mem_points_of_served hs hto hexact hcut hd hp
    · exact ((mem_points_of_piece hs (hC.piece hr) hto).1 ((hperm i k).mem_iff.1 hp)).1
  have hcover : ∀ p ∈ src.points stepMs w i k, ∃ d' ∈ inputs, p ∈ d'.points i k := by
    intro p hp
    obtain ⟨t, v, ht, hlo, hhi, hv, rfl⟩ := (DataSource.mem_points hs).1 hp
    -- the first millisecond of the interval inside the window decides where the point comes from
    have hx : w.Mem (max t w.fromMs) := ⟨Nat.le_max_right _ _, Nat.max_lt.2 ⟨hhi, hlt⟩⟩
    by_cases hmiss : ∃ r ∈ missing, r.Mem (max t w.fromMs)
    · obtain ⟨r, hr, hrx⟩ := hmiss
      obtain ⟨d', hd', hperm⟩ := hfetched r hr
      refine ⟨d', hd', (hperm i k).mem_iff.2 ((mem_points_of_piece hs (hC.piece hr) hto).2 ⟨hp, t,
        rfl, ?_, ?_⟩)⟩
      · have := hrx.1
        omega
      · have := hrx.2
        omega
    · obtain ⟨b, hb, hbx⟩ := (hC.covered _ hx).resolve_left hmiss
      obtain ⟨d', hd', hserves⟩ := hserved b hb (overlaps_of_mem hbx hx)
      refine ⟨d', hd', mem_served_of_bucket hs hto hexact hcut hserves ht hlo hhi hv ?_ hb hbx
        (overlaps_of_mem hbx hx)⟩
      intro hlong
      by_contra hfrom
      refine hmiss (hC.first_fetched _ hx ?_)
      have hceil := le_gridCeil hs w.fromMs
      have hne : gridCeil stepMs w.fromMs ≠ w.fromMs := by
        intro he
        have := add_le_of_dvd_of_lt ht (he ▸ dvd_gridCeil stepMs w.fromMs) (by omega)
        omega
      rw [hfirst hlong]
      omega
  refine hM.perm (DataSource.nodup_timestamps hs w) (fun d' hd' => ?_) hsub hcover
  rcases hinputs d' hd' with hd | ⟨r, hr, hperm⟩
  · exact hd.nodup i k
  · exact ((hperm i k).map _).nodup_iff.2 (DataSource.nodup_timestamps hs r)

/-- Ranged copies of the query are shifted once more. -/
def Query.Shifts (q : Query V) : Prop :=
  ∃ shiftBy, q.kind = .builder shiftBy ∧ shiftBy ≠ 0 ∧
    (q.requestType = .timeSeries ∨ q.requestType = .scalar)

/-- A shifted query needs no ranged copies: the buckets cover its window, or no bucket overlaps it
and it is fetched in one piece. -/
def ShiftServed (boundary stepMs : Nat) (buckets : List (CachedBucket V)) (q : Query V) : Prop :=
  q.Shifts → (q.window.fromMs + stepMs ≤ q.window.toMs → stepMs ∣ q.window.fromMs) ∧
    ((∀ x, q.window.Mem x → ∃ b ∈ buckets, b.Mem x) ∨
      (∀ b ∈ buckets, b.overlaps q.window.fromMs q.window.toMs = false) ∧
      (q.window.toMs < q.window.fromMs + stepMs →
        boundary ≤ q.window.fromMs ∨ q.window.toMs ≤ boundary))

/-- `Execute` of the query returns what the data source has for a window. -/
def Query.Executes (src : DataSource S V) (stepMs : Nat) (q : Query V) : Prop :=
  ∀ w : TimeRange, w.fromMs < w.toMs → ∃ r, q.execute w = some r ∧ src.IsResultOf stepMs w r

theorem createRangedQuery_execute (q : Query V) (tr : TimeRange) :
    (createRangedQuery q tr).execute = q.execute := by
  unfold createRangedQuery
  split <;> rfl

variable {q : Query V}

theorem createRangedQuery_window (h : ¬ q.Shifts) (tr : TimeRange) :
    (createRangedQuery q tr).window = tr := by
  unfold createRangedQuery
  split
  · rename_i shiftBy hkind
    simp only [adjustTimeRangeForShift]
    by_cases hs : shiftBy = 0
    · simp [hs]
    · rw [if_pos]
      by_contra htype
      refine h ⟨shiftBy, hkind, hs, ?_⟩
      by_contra hno
      exact htype (not_or.1 hno)
  · rfl

/-- Running a fallible function over a list that it never fails on. -/
theorem exists_mapM {A B : Type} {f : A → Option B} {P : A → B → Prop} (l : List A)
    (h : ∀ a ∈ l, ∃ b, f a = some b ∧ P a b) : ∃ bs, l.mapM f = some bs ∧ List.Forall₂ P l bs := by
  induction l with
  | nil => exact ⟨[], rfl, .nil⟩
  | cons a l ih =>
    obtain ⟨b, hb, hab⟩ := h a List.mem_cons_self
    obtain ⟨bs, hbs, hall⟩ := ih fun a ha => h a (List.mem_cons_of_mem _ ha)
    exact ⟨b :: bs, by simp [List.mapM_cons, hb, hbs], .cons hab hall⟩

theorem merges_singleton (d : TimeSeriesData V) : Merges [d] d := by
  refine ⟨fun i k p hp => ⟨d, List.mem_singleton_self d, hp⟩, fun i k d' hd' p hp => ?_,
    fun i k h => h d (List.mem_singleton_self d)⟩
  obtain rfl := List.mem_singleton.1 hd'
  exact ⟨p, hp, rfl⟩

/-- A time series result with its data. -/
def HoldsData (r : Result V) (d : TimeSeriesData V) : Prop :=
  r.type = .timeSeries ∧ r.value = .timeSeries d

variable {cached : List (Result V)}

/-- `mergeResults` on time series, with or without a cached result, merges the data. -/
theorem mergeResults_spec (hone : cached.length ≤ 1) {fresh : List (Result V)}
    {ds ds' : List (TimeSeriesData V)} (hcached : List.Forall₂ HoldsData cached ds)
    (hfresh : List.Forall₂ HoldsData fresh ds') (hne : cached ++ fresh ≠ []) :
    ∃ merged d, mergeResults cached.head? fresh = some merged ∧ merged.type = .timeSeries ∧
      merged.value = .timeSeries d ∧ Merges (ds ++ ds') d := by
  have hdata : ∀ {fresh : List (Result V)} {ds' : List (TimeSeriesData V)},
      List.Forall₂ HoldsData fresh ds' → fresh.filterMap (fun r => r.value.timeSeriesData) = ds' := by
    intro fresh ds' h
    induction h with
    | nil => rfl
    | cons h _ ih => simp [h.2, ih]
  have hM := fun c => mergeTimeSeriesResults_merges c fresh
  rw [hdata hfresh] at hM
  cases hcached with
  | nil =>
    cases hfresh with
    | nil => exact absurd rfl hne
    | cons h htail =>
      cases htail with
      | nil => exact ⟨_, _, rfl, h.1, h.2, merges_singleton _⟩
      | cons h' htail' => exact ⟨_, _, rfl, h.1, by simp [h.1], hM none⟩
  | @cons c d _ _ h htail =>
    cases htail with
    | cons _ _ => simp at hone
    | nil =>
      cases hfresh with
      | nil => exact ⟨_, _, rfl, h.1, h.2, merges_singleton _⟩
      | cons h' htail' =>
        obtain ⟨type, value, stats, warnings, url⟩ := c
        unfold HoldsData at h
        simp only at h
        obtain ⟨rfl, rfl⟩ := h
        exact ⟨_, _, rfl, rfl, rfl, hM (some _)⟩

/-- The data of a list of results, with what each result is known to be. -/
theorem exists_data {A : Type} {P : A → TimeSeriesData V → Prop} {as : List A}
    {results : List (Result V)}
    (h : List.Forall₂ (fun a r => ∃ d, HoldsData r d ∧ P a d) as results) :
    ∃ ds, List.Forall₂ HoldsData results ds ∧ (∀ d ∈ ds, ∃ a ∈ as, P a d) ∧
      ∀ a ∈ as, ∃ d ∈ ds, P a d := by
  induction h with
  | nil => exact ⟨[], .nil, by simp, by simp⟩
  | @cons a r as results h _ ih =>
    obtain ⟨d, hd, hP⟩ := h
    obtain ⟨ds, hds, h1, h2⟩ := ih
    refine ⟨d :: ds, .cons hd hds, ?_, ?_⟩
    · intro d' hd'
      rcases List.mem_cons.1 hd' with rfl | hd'
      · exact ⟨a, List.mem_cons_self, hP⟩
      · obtain ⟨a', ha', hP'⟩ := h1 d' hd'
        exact ⟨a', List.mem_cons_of_mem _ ha', hP'⟩
    · intro a' ha'
      rcases List.mem_cons.1 ha' with rfl | ha'
      · exact ⟨d, List.mem_cons_self, hP⟩
      · obtain ⟨d', hd', hP'⟩ := h2 a' ha'
        exact ⟨d', List.mem_cons_of_mem _ hd', hP'⟩

/-- The result put into the cache for a query. -/
abbrev putResult [JsonValue V] (fluxMs putMs : Nat) (cache : Cache V) (q : Query V) (stepMs : Nat)
    (r : Result V) : Cache V :=
  put fluxMs putMs cache q.fingerprint q.window.fromMs q.window.toMs stepMs r

/-- Fetching what the cache lacks merges what is served with what is fetched. -/
theorem executeMissing_merges [JsonValue V] (stepMs fluxMs putMs : Nat) (cache : Cache V)
    (hshift : ¬ q.Shifts) {P : TimeRange → TimeSeriesData V → Prop}
    (hexec : ∀ r ∈ missing, ∃ res, q.execute r = some res ∧ ∃ d, HoldsData res d ∧ P r d)
    (hone : cached.length ≤ 1)
    (hcached : ∀ c ∈ cached, ∃ d, HoldsData c d ∧ Serves buckets q.window d)
    (hne : cached = [] → missing ≠ []) :
    ∃ r d inputs, executeMissing fluxMs putMs cache q stepMs cached.head? missing =
        (some r, putResult fluxMs putMs cache q stepMs r) ∧ HoldsData r d ∧ Merges inputs d ∧
      (∀ d' ∈ inputs, Serves buckets q.window d' ∨ ∃ r ∈ missing, P r d') ∧
      (cached ≠ [] → ∃ d' ∈ inputs, Serves buckets q.window d') ∧
      ∀ r ∈ missing, ∃ d' ∈ inputs, P r d' := by
  obtain ⟨fresh, hmap, hall⟩ := exists_mapM (P := fun r res => ∃ d, HoldsData res d ∧ P r d)
    (f := fun tr => (createRangedQuery q tr).execute (createRangedQuery q tr).window) missing (by
      intro r hr
      rw [createRangedQuery_execute, createRangedQuery_window hshift]
      exact hexec r hr)
  obtain ⟨ds', hfresh, hds', hfetched⟩ := exists_data hall
  obtain ⟨ds, hheld, hds, hserves⟩ := @exists_data _ _
    (fun _ d => Serves buckets q.window d) cached cached (List.forall₂_same.2 hcached)
  have hlen := hall.length_eq
  obtain ⟨merged, d, hmerge, htype, hvalue, hM⟩ := mergeResults_spec hone hheld hfresh (by
    intro hnil
    obtain ⟨h1, h2⟩ := List.append_eq_nil_iff.1 hnil
    refine hne h1 (List.length_eq_zero_iff.1 ?_)
    rw [hlen, h2, List.length_nil])
  refine ⟨{ merged with stats := merged.stats.add (totalStats fresh) }, d, ds ++ ds', ?_,
    ⟨htype, hvalue⟩, hM, ?_, ?_, ?_⟩
  · unfold executeMissing
    rw [hmap]
    simp only [hmerge]
  · intro d' hd'
    rcases List.mem_append.1 hd' with h | h
    · obtain ⟨-, -, hd⟩ := hds d' h
      exact Or.inl hd
    · exact Or.inr (hds' d' h)
  · intro hcachedne
    obtain ⟨c, hc⟩ := List.exists_mem_of_ne_nil _ hcachedne
    obtain ⟨d', hd', hd⟩ := hserves c hc
    exact ⟨d', List.mem_append_left _ hd', hd⟩
  · intro r hr
    obtain ⟨d', hd', hP⟩ := hfetched r hr
    exact ⟨d', List.mem_append_right _ hd', hP⟩

/-- Fetching what the cache lacks and merging gives the result of plain execution. -/
theorem executeMissing_exact [JsonValue V] (hs : 0 < stepMs) (fluxMs putMs : Nat) (cache : Cache V)
    (hlt : q.window.fromMs < q.window.toMs) (hto : q.window.toMs < 2 ^ 64)
    (hexec : q.Executes src stepMs) (hshift : ¬ q.Shifts)
    (hexact : ∀ b ∈ buckets, BucketExact src stepMs b) (hcut : CutsNoPoint stepMs buckets q.window)
    (hfirst : q.window.fromMs + stepMs ≤ q.window.toMs → first = gridCeil stepMs q.window.fromMs)
    (hC : Complements stepMs buckets q.window first missing) (hone : cached.length ≤ 1)
    (hcached : ∀ c ∈ cached, ∃ d, HoldsData c d ∧ Serves buckets q.window d)
    (hserved : ∀ b ∈ buckets, b.overlaps q.window.fromMs q.window.toMs = true → cached ≠ [])
    (hne : cached = [] → missing ≠ []) :
    ∃ r, executeMissing fluxMs putMs cache q stepMs cached.head? missing =
      (some r, putResult fluxMs putMs cache q stepMs r) ∧ src.IsResultOf stepMs q.window r := by
  obtain ⟨r, d, inputs, hr, ⟨htype, hvalue⟩, hM, hinputs, hserves, hfetched⟩ :=
    executeMissing_merges stepMs fluxMs putMs cache hshift
      (P := fun r d => ∀ i k, (d.points i k).Perm (src.points stepMs r i k)) (fun r hr => by
        obtain ⟨res, hres, htype, d, hvalue, hperm⟩ := hexec r (hC.inside r hr).2.1
        exact ⟨res, hres, d, ⟨htype, hvalue⟩, hperm⟩) hone hcached hne
  refine ⟨r, hr, htype, d, hvalue, ?_⟩
  exact perm_of_serves hs hlt hto hexact hcut hfirst hC hM hinputs
    (fun b hb hover => hserves (hserved b hb hover)) hfetched

theorem executeFully_exact [JsonValue V] (fluxMs putMs : Nat) (cache : Cache V)
    (hlt : q.window.fromMs < q.window.toMs) (hexec : q.Executes src stepMs) :
    ∃ r, executeFully fluxMs putMs cache q stepMs =
      (some r, putResult fluxMs putMs cache q stepMs r) ∧ src.IsResultOf stepMs q.window r := by
  obtain ⟨r, hr, hresult⟩ := hexec q.window hlt
  exact ⟨r, by rw [executeFully, hr], hresult⟩

/-- The state of the cache serves the query exactly. -/
def ServedExactly (fluxMs getMs stepMs : Nat) (cache : Cache V) (q : Query V) : Prop :=
  ∀ data, cache (generateCacheKey q.fingerprint) = some data →
    CutsNoPoint stepMs data.buckets q.window ∧
    BoundaryFits (fluxBoundary fluxMs getMs) stepMs data.buckets q.window ∧
    ShiftServed (fluxBoundary fluxMs getMs) stepMs data.buckets q

/-- The missing ranges complement the buckets, from the first grid point of a window of at least
one step, from the start of a shorter one. -/
theorem complements_of_boundaryFits (fluxMs getMs : Nat) (hs : 0 < stepMs)
    (hgrid : OnGrid stepMs buckets) (hlt : w.fromMs < w.toMs) (hto : w.toMs < 2 ^ 64)
    (hsum : w.fromMs + stepMs < 2 ^ 64)
    (hfits : BoundaryFits (fluxBoundary fluxMs getMs) stepMs buckets w) :
    ∃ first, (w.fromMs + stepMs ≤ w.toMs → first = gridCeil stepMs w.fromMs) ∧
      ((w.fromMs + stepMs ≤ w.toMs → stepMs ∣ w.fromMs) → first = w.fromMs) ∧
      Complements stepMs buckets w first
        (findMissingRangesWithStep fluxMs getMs buckets w.fromMs w.toMs stepMs) := by
  by_cases hlong : w.fromMs + stepMs ≤ w.toMs
  · exact ⟨_, fun _ => rfl, fun h => gridCeil_eq_self (h hlong),
      complements_of_long fluxMs getMs hs hgrid hto hlong⟩
  · exact ⟨_, fun h => absurd h hlong, fun _ => rfl,
      complements_of_short fluxMs getMs hgrid hlt hsum (by omega) (hfits (by omega))⟩

/-- A call returns the cached result, or stores and returns what it executes: the whole window, or
the missing ranges merged into what is cached. -/
theorem executeWithCache_result [JsonValue V] {P : Result V → Prop} {fluxMs getMs putMs : Nat}
    {cached : Option (Result V)}
    (hget : getMissRanges fluxMs getMs cache q.fingerprint q.window.fromMs q.window.toMs stepMs =
      (cached, missing)) (hcovered : missing = [] → ∃ c, cached = some c ∧ P c)
    (hfull : cached = none → missing = [q.window] →
      ∃ r, executeFully fluxMs putMs cache q stepMs =
        (some r, putResult fluxMs putMs cache q stepMs r) ∧ P r)
    (hfetch : missing ≠ [] → (cached = none → missing ≠ [q.window]) →
      ∃ r, executeMissing fluxMs putMs cache q stepMs cached missing =
        (some r, putResult fluxMs putMs cache q stepMs r) ∧ P r) :
    ∃ r, P r ∧ (executeWithCache fluxMs getMs putMs cache q stepMs = (some r, cache) ∨
      executeWithCache fluxMs getMs putMs cache q stepMs =
        (some r, putResult fluxMs putMs cache q stepMs r)) := by
  unfold executeWithCache
  rw [hget]
  match cached, missing with
  | none, [] =>
    obtain ⟨c, hc, -⟩ := hcovered rfl
    cases hc
  | some c, [] =>
    obtain ⟨c', hc, hP⟩ := hcovered rfl
    exact ⟨c', hP, .inl (by rw [hc])⟩
  | none, [r] =>
    by_cases hr : r = q.window
    · obtain ⟨res, hres, hP⟩ := hfull rfl (by rw [hr])
      exact ⟨res, hP, .inr (by simp only [if_pos hr, hres])⟩
    · obtain ⟨res, hres, hP⟩ := hfetch (by simp) fun _ h => hr (List.singleton_inj.1 h)
      exact ⟨res, hP, .inr (by simp only [if_neg hr, hres])⟩
  | none, _ :: _ :: _ =>
    obtain ⟨res, hres, hP⟩ := hfetch (by simp) (by simp)
    exact ⟨res, hP, .inr hres⟩
  | some _, _ :: _ =>
    obtain ⟨res, hres, hP⟩ := hfetch (by simp) (by simp)
    exact ⟨res, hP, .inr hres⟩

/-- A shifted query that is served misses nothing, or its whole window while nothing is cached. -/
theorem missing_of_shifts (hs : 0 < stepMs) (fluxMs getMs : Nat)
    (hlt : q.window.fromMs < q.window.toMs) (hto : q.window.toMs < 2 ^ 64)
    (hsum : q.window.fromMs + stepMs < 2 ^ 64) (hgrid : OnGrid stepMs buckets)
    (haligned : (q.window.fromMs + stepMs ≤ q.window.toMs → stepMs ∣ q.window.fromMs) →
      first = q.window.fromMs)
    (hC : Complements stepMs buckets q.window first
      (findMissingRangesWithStep fluxMs getMs buckets q.window.fromMs q.window.toMs stepMs))
    (hshift : ShiftServed (fluxBoundary fluxMs getMs) stepMs buckets q) (hshifts : q.Shifts) :
    findMissingRangesWithStep fluxMs getMs buckets q.window.fromMs q.window.toMs stepMs = [] ∨
      filterRelevantBuckets buckets q.window.fromMs q.window.toMs = [] ∧
        findMissingRangesWithStep fluxMs getMs buckets q.window.fromMs q.window.toMs stepMs =
          [q.window] := by
  obtain ⟨hdvd, hcov | ⟨hdis, hfit⟩⟩ := hshift hshifts
  · refine .inl (List.eq_nil_iff_forall_not_mem.2 fun r hr => ?_)
    obtain ⟨h1, h2, h3⟩ := hC.inside r hr
    obtain ⟨b, hb, hbx⟩ := hcov r.fromMs ⟨h1, by omega⟩
    exact hC.disjoint r hr r.fromMs ⟨Nat.le_refl _, h2⟩ (by rw [haligned hdvd]; exact h1) b hb hbx
  · refine .inr ⟨List.eq_nil_iff_forall_not_mem.2 fun b hb => ?_,
      findMissingRangesWithStep_of_disjoint fluxMs getMs hs hgrid hlt hto hsum hdis hdvd hfit⟩
    obtain ⟨hb, h⟩ := mem_filterRelevantBuckets.1 hb
    exact absurd h (by simp [hdis b hb])

/-- What is missing of a window that no bucket overlaps is not nothing. -/
theorem Complements.ne_nil (hC : Complements stepMs buckets w first missing)
    (hlt : w.fromMs < w.toMs) (hrel : filterRelevantBuckets buckets w.fromMs w.toMs = []) :
    missing ≠ [] := by
  rintro rfl
  have hstart : w.Mem w.fromMs := ⟨Nat.le_refl _, hlt⟩
  obtain ⟨b, hb, hbx⟩ := (hC.covered _ hstart).resolve_left (by simp)
  have hmem := mem_filterRelevantBuckets.2 ⟨hb, overlaps_of_mem hbx hstart⟩
  rw [hrel] at hmem
  cases hmem

/-- A call answers as plain execution does, and keeps the cache right. -/
theorem executeWithCache_exact [JsonValue V] (hs : 0 < stepMs) (fluxMs getMs putMs : Nat)
    (hlt : q.window.fromMs < q.window.toMs) (hto : q.window.toMs < 2 ^ 64)
    (hsum : q.window.fromMs + stepMs < 2 ^ 64) (hvalues : ValuesKept src stepMs q.window)
    (hexec : q.Executes src stepMs)
    (hcache : StoreExact src stepMs cache (generateCacheKey q.fingerprint))
    (hserved : ServedExactly fluxMs getMs stepMs cache q) :
    ∃ r, (executeWithCache fluxMs getMs putMs cache q stepMs).1 = some r ∧
      src.IsResultOf stepMs q.window r ∧
      StoreExact src stepMs (executeWithCache fluxMs getMs putMs cache q stepMs).2
        (generateCacheKey q.fingerprint) := by
  have hfull := executeFully_exact fluxMs putMs cache hlt hexec
  suffices hresult : ∃ r, src.IsResultOf stepMs q.window r ∧
      (executeWithCache fluxMs getMs putMs cache q stepMs = (some r, cache) ∨
        executeWithCache fluxMs getMs putMs cache q stepMs =
          (some r, putResult fluxMs putMs cache q stepMs r)) by
    obtain ⟨r, hr, hcall | hcall⟩ := hresult
    · exact ⟨r, by rw [hcall], hr, by rw [hcall]; exact hcache⟩
    · exact ⟨r, by rw [hcall], hr, by rw [hcall]; exact storeExact_put hs hto hsum hvalues hr hcache⟩
  cases hentry : cache (generateCacheKey q.fingerprint) with
  | none =>
    have hget : getMissRanges fluxMs getMs cache q.fingerprint q.window.fromMs q.window.toMs
        stepMs = (none, [q.window]) := by rw [getMissRanges, hentry]
    exact executeWithCache_result hget (by simp) (fun _ _ => hfull)
      fun _ hwhole => absurd rfl (hwhole rfl)
  | some data =>
    have hexact := hcache data hentry
    obtain ⟨hcut, hfits, hshift⟩ := hserved data hentry
    have hgrid : OnGrid stepMs data.buckets := fun b hb =>
      ⟨(hexact b hb).step_dvd_start, (hexact b hb).step_dvd_end, (hexact b hb).start_lt_end⟩
    obtain ⟨first, hlong, haligned, hC⟩ :=
      complements_of_boundaryFits fluxMs getMs hs hgrid hlt hto hsum hfits
    have hshifted := missing_of_shifts hs fluxMs getMs hlt hto hsum hgrid haligned hC hshift
    by_cases hrel : filterRelevantBuckets data.buckets q.window.fromMs q.window.toMs = []
    · -- nothing is cached for the window
      have hget : getMissRanges fluxMs getMs cache q.fingerprint q.window.fromMs q.window.toMs
          stepMs = (none, findMissingRangesWithStep fluxMs getMs data.buckets q.window.fromMs
            q.window.toMs stepMs) := by
        simp only [getMissRanges, hentry, if_pos hrel]
      have hmissing := hC.ne_nil hlt hrel
      refine executeWithCache_result hget (fun h => absurd h hmissing) (fun _ _ => hfull)
        fun _ hwhole => ?_
      have hshifts : ¬ q.Shifts := fun h => by
        rcases hshifted h with hnil | ⟨-, hone⟩
        · exact hmissing hnil
        · exact hwhole rfl hone
      refine executeMissing_exact hs fluxMs putMs cache hlt hto hexec hshifts hexact hcut hlong hC
        (show ([] : List (Result V)).length ≤ 1 from Nat.zero_le _) (by simp) (fun b hb h => ?_)
        fun _ => hmissing
      have hmem := mem_filterRelevantBuckets.2 ⟨hb, h⟩
      rw [hrel] at hmem
      cases hmem
    · obtain ⟨c, d, hc, htype, hvalue, hd⟩ :=
        serves_of_holdsGood goodPoints_isFull (fun b hb => (hexact b hb).holdsGood) data.warnings
          hrel
      have hget : getMissRanges fluxMs getMs cache q.fingerprint q.window.fromMs q.window.toMs
          stepMs = (some c, findMissingRangesWithStep fluxMs getMs data.buckets q.window.fromMs
            q.window.toMs stepMs) := by
        simp only [getMissRanges, hentry, if_neg hrel, hc]
      refine executeWithCache_result hget (fun hnil => ⟨c, rfl, htype, d, hvalue, ?_⟩) (by simp)
        fun hmissing _ => ?_
      · -- everything is cached
        rw [hnil] at hC
        refine perm_of_serves hs hlt hto hexact hcut hlong hC (merges_singleton d) ?_ ?_ (by simp)
        · intro d' hd'
          obtain rfl := List.mem_singleton.1 hd'
          exact Or.inl hd
        · exact fun b hb h => ⟨d, List.mem_singleton_self d, hd⟩
      · have hshifts : ¬ q.Shifts := fun h => by
          rcases hshifted h with hnil | ⟨hnone, -⟩
          · exact hmissing hnil
          · exact hrel hnone
        exact executeMissing_exact hs fluxMs putMs cache hlt hto hexec hshifts hexact hcut hlong hC
          (show [c].length ≤ 1 from Nat.le_refl _) (by simpa using ⟨d, ⟨htype, hvalue⟩, hd⟩)
          (by simp) (by simp)

/-! ## Runs -/

/-- A call of `executeWithCache`, with its two readings of the clock. -/
structure Call (V : Type) where
  query : Query V
  getMs : Nat
  putMs : Nat

/-- The calls one after the other: what each returns. -/
def runCalls [JsonValue V] (fluxMs stepMs : Nat) : Cache V → List (Call V) → List (Option (Result V))
  | _, [] => []
  | cache, c :: calls =>
    let r := executeWithCache fluxMs c.getMs c.putMs cache c.query stepMs
    r.1 :: runCalls fluxMs stepMs r.2 calls

/-- Every call of the run finds a cache that serves it exactly. -/
def RunServed [JsonValue V] (fluxMs stepMs : Nat) : Cache V → List (Call V) → Prop
  | _, [] => True
  | cache, c :: calls =>
    ServedExactly fluxMs c.getMs stepMs cache c.query ∧
    RunServed fluxMs stepMs (executeWithCache fluxMs c.getMs c.putMs cache c.query stepMs).2 calls

/-- A call of the run: a non-empty window, and a query of the common fingerprint that executes on
the data source. -/
structure Call.Valid (src : DataSource S V) (stepMs : Nat) (fingerprint : String) (c : Call V) :
    Prop where
  fingerprint_eq : c.query.fingerprint = fingerprint
  from_lt : c.query.window.fromMs < c.query.window.toMs
  to_lt : c.query.window.toMs < 2 ^ 63
  executes : c.query.Executes src stepMs

/-- Every call returned exactly the points of plain execution on its window. -/
def AnswersExact (src : DataSource S V) (stepMs : Nat) (calls : List (Call V))
    (answers : List (Option (Result V))) : Prop :=
  List.Forall₂ (fun c answer => ∃ r, answer = some r ∧ src.IsResultOf stepMs c.query.window r)
    calls answers

/-- Cached execution is plain execution, in every run whose calls find a cache that serves them
exactly. -/
theorem cachedExecution_exact [JsonValue V] (src : DataSource S V) {stepMs : Nat}
    (hs : 0 < stepMs) (hstep : stepMs < 2 ^ 63) (fluxMs : Nat) (fingerprint : String)
    (calls : List (Call V)) (hvalid : ∀ c ∈ calls, c.Valid src stepMs fingerprint)
    (hvalues : ∀ c ∈ calls, ValuesKept src stepMs c.query.window)
    (hserved : RunServed fluxMs stepMs (fun _ => none) calls) :
    AnswersExact src stepMs calls (runCalls fluxMs stepMs (fun _ => none) calls) := by
  have hrun : ∀ (calls : List (Call V)) (cache : Cache V),
      StoreExact src stepMs cache (generateCacheKey fingerprint) →
      (∀ c ∈ calls, c.Valid src stepMs fingerprint) →
      (∀ c ∈ calls, ValuesKept src stepMs c.query.window) → RunServed fluxMs stepMs cache calls →
      AnswersExact src stepMs calls (runCalls fluxMs stepMs cache calls) := by
    intro calls
    induction calls with
    | nil => exact fun _ _ _ _ _ => .nil
    | cons c calls ih =>
      intro cache hcache hvalid hvalues hserved
      have hc := hvalid c List.mem_cons_self
      have hlt := hc.from_lt
      have hto := hc.to_lt
      obtain ⟨r, hr, hresult, hnext⟩ := executeWithCache_exact hs fluxMs c.getMs c.putMs hlt
        (by omega) (by omega) (hvalues c List.mem_cons_self) hc.executes
        (hc.fingerprint_eq ▸ hcache) hserved.1
      rw [hc.fingerprint_eq] at hnext
      exact .cons ⟨r, hr, hresult⟩
        (ih _ hnext (fun c' hc' => hvalid c' (List.mem_cons_of_mem _ hc'))
          (fun c' hc' => hvalues c' (List.mem_cons_of_mem _ hc')) hserved.2)
  exact hrun calls _ (fun _ h => absurd h (by simp)) hvalid hvalues hserved

/-! ## Two runs -/

/-- One series without labels that counts events at the given times. -/
def eventsAt (times : List Nat) : DataSource Unit Nat where
  samples := fun i k => if i = 0 ∧ k = "" then times.map fun t => (t, ()) else []
  aggregate := fun _ _ samples => samples.length

/-- A query that counts the events. -/
def countQuery (times : List Nat) (stepMs : Nat) (w : TimeRange) : Query Nat where
  fingerprint := "count"
  window := w
  kind := .builder 0
  requestType := .timeSeries
  execute := fun w => some
    ⟨.timeSeries, .timeSeries ⟨"A", [⟨0, "", "", [⟨[], (eventsAt times).points stepMs w 0 ""⟩]⟩]⟩,
      .zero, [], ""⟩

theorem countQuery_executes (times : List Nat) (stepMs : Nat) (w : TimeRange) :
    (countQuery times stepMs w).Executes (eventsAt times) stepMs := by
  intro w' _
  refine ⟨_, rfl, rfl, _, rfl, fun i k => ?_⟩
  by_cases h : i = 0 ∧ k = ""
  · obtain ⟨rfl, rfl⟩ := h
    simp [TimeSeriesData.points, TimeSeriesData.keyed, itemsOf, getUniqueSeriesKey]
  · have hitems : itemsOf (i, k) [((0, ""), (⟨[], (eventsAt times).points stepMs w' 0 ""⟩ :
        TimeSeries Nat))] = [] := by
      simp only [itemsOf_cons, itemsOf_nil, Prod.mk.injEq]
      rw [if_neg fun h' => h ⟨h'.1.symm, h'.2.symm⟩]
    have hnone : (eventsAt times).points stepMs w' i k = [] := by
      simp [DataSource.points, DataSource.value, eventsAt, h]
    rw [hnone]
    exact List.Perm.of_eq (congrArg (List.flatMap TimeSeries.values) hitems)

/-- A call at clock 1000 that counts the events in a window with step 10. -/
def countAt1000 (times : List Nat) (w : TimeRange) : Call Nat :=
  ⟨countQuery times 10 w, 1000, 1000⟩

/-- Windows that end on the grid are served exactly. -/
theorem cachedExecution_exact_aligned : AnswersExact (eventsAt [3, 42, 92]) 10
    [countAt1000 [3, 42, 92] ⟨0, 100⟩, countAt1000 [3, 42, 92] ⟨15, 90⟩]
    (runCalls 0 10 (fun _ => none)
      [countAt1000 [3, 42, 92] ⟨0, 100⟩, countAt1000 [3, 42, 92] ⟨15, 90⟩]) := by
  have hserved : ∀ cache w, 10 ∣ w.toMs → w.fromMs + 10 ≤ w.toMs →
      ServedExactly 0 1000 10 cache (countQuery [3, 42, 92] 10 w) := by
    intro cache w hdvd hlong data _
    refine ⟨fun b _ _ => ⟨fun h => absurd hdvd h, fun _ h => ?_⟩, fun h => ?_, ?_⟩
    · exact absurd h (Nat.not_lt.2 hlong)
    · exact absurd h (Nat.not_lt.2 hlong)
    · rintro ⟨shiftBy, hkind, hne, -⟩
      exact absurd (QueryKind.builder.inj hkind).symm hne
  refine cachedExecution_exact _ (by decide) (by decide) 0 "count" _ ?_
    (fun _ _ _ _ _ _ _ => rfl) ⟨hserved _ _ ?_ ?_, hserved _ _ ?_ ?_, trivial⟩
  · simp only [List.forall_mem_cons, List.not_mem_nil, false_imp_iff, implies_true, and_true]
    exact ⟨⟨rfl, by decide, by decide, countQuery_executes _ _ _⟩,
      ⟨rfl, by decide, by decide, countQuery_executes _ _ _⟩⟩
  all_goals decide

/-- After the window `[0, 100)`, the window `[0, 95)` is answered with the complete point of the
interval `[90, 100)`, not with the partial one. -/
theorem complete_point_served_for_cut_interval :
    ¬ ∀ (src : DataSource Unit Nat) (stepMs fluxMs : Nat) (fingerprint : String)
      (calls : List (Call Nat)), 0 < stepMs → (∀ c ∈ calls, c.Valid src stepMs fingerprint) →
      (calls.flatMap fun c => [c.getMs, c.putMs]).Pairwise (· ≤ ·) →
      AnswersExact src stepMs calls (runCalls fluxMs stepMs (fun _ => none) calls) := by
  intro h
  have hrun := h (eventsAt [92]) 10 0 "count"
    [countAt1000 [92] ⟨0, 100⟩, countAt1000 [92] ⟨0, 95⟩] (by decide)
    (by
      simp only [List.forall_mem_cons, List.not_mem_nil, false_imp_iff, implies_true, and_true]
      exact ⟨⟨rfl, by decide, by decide, countQuery_executes _ _ _⟩,
        ⟨rfl, by decide, by decide, countQuery_executes _ _ _⟩⟩)
    (by decide)
  have hanswers : runCalls 0 10 (fun _ => none)
      [countAt1000 [92] ⟨0, 100⟩, countAt1000 [92] ⟨0, 95⟩] =
      [some ⟨.timeSeries, .timeSeries ⟨"A", [⟨0, "", "", [⟨[], [⟨90, 1, false⟩]⟩]⟩]⟩, .zero, [], ""⟩,
       some ⟨.timeSeries, .timeSeries ⟨"", [⟨0, "", "", [⟨[], [⟨90, 1, false⟩]⟩]⟩]⟩, .zero, [],
         ""⟩] := by
    decide +kernel
  rw [hanswers] at hrun
  cases hrun with
  | cons _ htail =>
    cases htail with
    | cons hlast _ =>
      obtain ⟨r, hr, -, d, hd, hperm⟩ := hlast
      obtain rfl := Option.some.inj hr
      obtain rfl := ResultValue.timeSeries.inj hd
      exact absurd ((hperm 0 "").mem_iff (a := ⟨90, 1, false⟩)) (by decide +kernel)

end CachedExecution

end Signoz.Querier
