import Signoz.Lib.Grid
import Signoz.Querier.BucketCache

/-!
# What a stored bucket may hold

A bucket promises complete intervals: its bounds are multiples of the step, it ends behind the flux
boundary, and each of its points covers an interval inside the bucket. `Put` trims the points to
the flux boundary or the query end and rounds the bounds down to the step afterwards, so a complete
point of the interval that the cut falls into is kept although the bucket ends before it
(`point_outside_its_bucket`). That is the only way the promise breaks: when no complete point of a
result lies between the last step boundary and the cut, every bucket keeps it
(`buckets_complete_of_cutOnStep`).
-/

namespace Signoz.Querier

open Lib.Grid Lib.KeyedFold

/-- `isPartialValue`: the flag `readAsTimeSeries` gives a point of a query over `window`. -/
def isPartialValue (window : TimeRange) (stepMs : Nat) (timestamp : Int) : Bool :=
  if stepMs = 0 then false
  else
    let firstCompleteInterval :=
      if window.fromMs % stepMs ≠ 0 then (window.fromMs / stepMs + 1) * stepMs else window.fromMs
    if uint64 timestamp < firstCompleteInterval then true
    else if window.toMs < uint64 timestamp + stepMs then decide (window.toMs % stepMs ≠ 0)
    else false

section Partial

variable {stepMs : Nat}

theorem roundUp_eq_gridCeil (step n : Nat) :
    (if n % step ≠ 0 then (n / step + 1) * step else n) = gridCeil step n := by
  by_cases h : n % step = 0 <;> simp [gridCeil, h]

theorem roundDown_eq_gridFloor (step n : Nat) :
    (if n % step ≠ 0 then n / step * step else n) = gridFloor step n := by
  by_cases h : n % step = 0
  · rw [if_neg (not_not.2 h), gridFloor_eq_self (Nat.dvd_of_mod_eq_zero h)]
  · rw [if_pos h, gridFloor]

/-- A point is complete when it starts no earlier than the first step boundary and its interval
ends by the query end, unless the query ends on a step boundary. -/
theorem isPartialValue_eq_false_iff (hs : 0 < stepMs) {window : TimeRange} {t : Int} :
    isPartialValue window stepMs t = false ↔
      gridCeil stepMs window.fromMs ≤ uint64 t ∧
        (uint64 t + stepMs ≤ window.toMs ∨ stepMs ∣ window.toMs) := by
  unfold isPartialValue
  rw [if_neg (Nat.pos_iff_ne_zero.1 hs)]
  simp only [roundUp_eq_gridCeil, Nat.dvd_iff_mod_eq_zero]
  by_cases h1 : uint64 t < gridCeil stepMs window.fromMs
  · simp [h1, Nat.not_le.2 h1]
  · by_cases h2 : window.toMs < uint64 t + stepMs
    · simp [h1, h2, Nat.not_lt.1 h1, Nat.not_le.2 h2]
    · simp [h1, h2, Nat.not_lt.1 h1, Nat.not_lt.1 h2]

end Partial

/-! ## The range that is cached -/

theorem fluxBoundary_eq_sub {flux now : Nat} (hle : flux ≤ now) (hnow : now < 2 ^ 64) :
    fluxBoundary flux now = now - flux := subUint64_of_le hle hnow

/-- Where `Put` cuts a result: the earlier of the flux boundary and the query end. -/
def cutMs (boundary endMs : Nat) : Nat := if boundary < endMs then boundary else endMs

theorem cutMs_eq_min (boundary endMs : Nat) : cutMs boundary endMs = min boundary endMs := by
  unfold cutMs
  split <;> omega

/-- The step boundary at or behind `n`, in `uint64`. -/
def firstStep (stepMs n : Nat) : Nat :=
  if n % stepMs ≠ 0 then (n / stepMs + 1) * stepMs % 2 ^ 64 else n

/-- A boundary that fits does not wrap around. -/
theorem firstStep_eq {stepMs n : Nat} (h : gridCeil stepMs n < 2 ^ 64) :
    firstStep stepMs n = gridCeil stepMs n := by
  rw [← roundUp_eq_gridCeil] at h ⊢
  unfold firstStep
  by_cases hmod : n % stepMs = 0
  · rw [if_neg (not_not_intro hmod), if_neg (not_not_intro hmod)]
  · rw [if_pos hmod] at h ⊢
    rw [if_pos hmod, Nat.mod_eq_of_lt h]

theorem cachableRange_eq_some {boundary startMs endMs stepMs : Nat} (hs : 0 < stepMs)
    {r : TimeRange} :
    cachableRange boundary startMs endMs stepMs = some r ↔
      startMs < boundary ∧ r.fromMs = firstStep stepMs startMs ∧
        r.toMs = gridFloor stepMs (cutMs boundary endMs) ∧ r.fromMs < r.toMs := by
  obtain ⟨f, t⟩ := r
  unfold cachableRange
  simp only [if_pos hs, roundDown_eq_gridFloor]
  change (if boundary ≤ startMs then none
    else if gridFloor stepMs (cutMs boundary endMs) ≤ firstStep stepMs startMs then none
    else some ⟨firstStep stepMs startMs, gridFloor stepMs (cutMs boundary endMs)⟩) =
      some (⟨f, t⟩ : TimeRange) ↔ _
  by_cases h1 : boundary ≤ startMs
  · simp [h1, Nat.not_lt.2 h1]
  · by_cases h2 : gridFloor stepMs (cutMs boundary endMs) ≤ firstStep stepMs startMs
    · simp only [h1, h2, if_false, if_true, reduceCtorEq, false_iff, not_and]
      rintro - rfl rfl
      exact Nat.not_lt.2 h2
    · simp only [h1, h2, if_false, Option.some.injEq, TimeRange.mk.injEq]
      constructor
      · rintro ⟨rfl, rfl⟩
        exact ⟨Nat.not_le.1 h1, rfl, rfl, Nat.not_le.1 h2⟩
      · rintro ⟨-, rfl, rfl, -⟩
        exact ⟨rfl, rfl⟩

/-! ## Puts -/

section Puts

variable {V : Type}

/-- One call of `Put`. -/
structure PutCall (V : Type) where
  fingerprint : String
  window : TimeRange
  stepMs : Nat
  currentMs : Nat
  fresh : TimeSeriesData V
  stats : ExecStats
  warnings : List String

namespace PutCall

/-- The result that is put. -/
def result (c : PutCall V) : Result V :=
  { type := .timeSeries, value := .timeSeries c.fresh, stats := c.stats, warnings := c.warnings
    warningsDocURL := "" }

/-- The cache after the call. -/
def apply [JsonValue V] (fluxMs : Nat) (cache : Cache V) (c : PutCall V) : Cache V :=
  put fluxMs c.currentMs cache c.fingerprint c.window.fromMs c.window.toMs c.stepMs c.result

/-- Where the call cuts its result. -/
def cut (fluxMs : Nat) (c : PutCall V) : Nat :=
  cutMs (fluxBoundary fluxMs c.currentMs) c.window.toMs

/-- The bucket the call makes out of its result, if any. -/
def freshBuckets [JsonValue V] (fluxMs : Nat) (c : PutCall V) : List (CachedBucket V) :=
  match trimResultToFluxBoundary c.result (c.cut fluxMs),
      cachableRange (fluxBoundary fluxMs c.currentMs) c.window.fromMs c.window.toMs c.stepMs with
  | some trimmed, some range => resultToBuckets trimmed range.fromMs range.toMs
  | _, _ => []

/-- A call as the querier makes it: a positive step, bounds and clock in their Go types, and each
point flagged as `readAsTimeSeries` flags it. -/
structure Valid (c : PutCall V) : Prop where
  step_pos : 0 < c.stepMs
  from_lt : c.window.fromMs < c.window.toMs
  to_lt : c.window.toMs < 2 ^ 64
  clock_lt : c.currentMs < 2 ^ 63
  int64 : ∀ e ∈ c.fresh.keyed, ∀ p ∈ e.2.values, -2 ^ 63 ≤ p.timestamp ∧ p.timestamp < 2 ^ 63
  flags : ∀ e ∈ c.fresh.keyed, ∀ p ∈ e.2.values,
    p.isPartial = isPartialValue c.window c.stepMs p.timestamp

/-- Nothing is cached (the range behind the cut holds no complete interval, or the result no
aggregation), or the clock is past the flux interval and no complete point not after the cut
reaches beyond the last step boundary before the cut. -/
def CutOnStep (fluxMs : Nat) (c : PutCall V) : Prop :=
  fluxBoundary fluxMs c.currentMs ≤ c.window.fromMs ∨
  gridFloor c.stepMs (c.cut fluxMs) ≤ firstStep c.stepMs c.window.fromMs ∨
  c.fresh.aggregations = [] ∨
  fluxMs ≤ c.currentMs ∧
    ∀ e ∈ c.fresh.keyed, ∀ p ∈ e.2.values, p.isPartial = false → uint64 p.timestamp ≤ c.cut fluxMs →
      p.timestamp + c.stepMs ≤ gridFloor c.stepMs (c.cut fluxMs)

end PutCall

/-- What the bucket `b`, written by the call `c`, promises. -/
structure BucketComplete (fluxMs : Nat) (c : PutCall V) (b : CachedBucket V) : Prop where
  step_dvd_start : c.stepMs ∣ b.startMs
  step_dvd_end : c.stepMs ∣ b.endMs
  start_lt_end : b.startMs < b.endMs
  behind_flux : (b.endMs : Int) ≤ c.currentMs - fluxMs
  points_inside : ∀ e ∈ b.value.keyed, ∀ p ∈ e.2.values, p.isPartial = false ∧
    (b.startMs : Int) ≤ p.timestamp ∧ p.timestamp + c.stepMs ≤ b.endMs

/-- The cache after a sequence of calls, starting empty. -/
def runPuts [JsonValue V] (fluxMs : Nat) (calls : List (PutCall V)) : Cache V :=
  calls.foldl (PutCall.apply fluxMs) fun _ => none

theorem trimDataToFluxBoundary_keyed (d : TimeSeriesData V) (boundary : Nat) :
    (trimDataToFluxBoundary d boundary).keyed =
      d.keyed.map fun e => (e.1, ⟨e.2.labels, e.2.values.filter fun v =>
        !v.isPartial && decide (uint64 v.timestamp ≤ boundary)⟩) := by
  simp only [TimeSeriesData.keyed, trimDataToFluxBoundary, List.flatMap_map, List.map_flatMap,
    List.map_map]
  rfl

variable {d : TimeSeriesData V}

/-- The points a trimmed result keeps. -/
theorem mem_trimmed_values {boundary : Nat} {e : (Nat × String) × TimeSeries V}
    (he : e ∈ (trimDataToFluxBoundary d boundary).keyed) {p : TimeSeriesValue V}
    (hp : p ∈ e.2.values) :
    ∃ e' ∈ d.keyed, e'.1 = e.1 ∧ p ∈ e'.2.values ∧ p.isPartial = false ∧
      uint64 p.timestamp ≤ boundary := by
  rw [trimDataToFluxBoundary_keyed, List.mem_map] at he
  obtain ⟨e', he', rfl⟩ := he
  obtain ⟨hmem, hkeep⟩ := List.mem_filter.1 hp
  simp only [Bool.and_eq_true, Bool.not_eq_true', decide_eq_true_eq] at hkeep
  exact ⟨e', he', rfl, hmem, hkeep.1, hkeep.2⟩

/-- A point is stored with its timestamp and its flag. -/
theorem mem_marshal_keyed [JsonValue V] {e : (Nat × String) × TimeSeries V} (he : e ∈ d.keyed) :
   (e.1, (⟨e.2.labels, e.2.values.map fun v =>
      ⟨v.timestamp, JsonValue.sanitizeValue v.value, v.isPartial⟩⟩ : TimeSeries (Option V))) ∈
        d.marshal.keyed := by
  rw [TimeSeriesData.marshal, TimeSeriesData.mapValues_keyed]
  exact List.mem_map_of_mem he

/-- A stored point comes from a point with its timestamp and its flag. -/
theorem of_mem_marshal_keyed [JsonValue V] {e : (Nat × String) × TimeSeries (Option V)}
    (he : e ∈ d.marshal.keyed) {p : TimeSeriesValue (Option V)} (hp : p ∈ e.2.values) :
    ∃ e' ∈ d.keyed, ∃ v ∈ e'.2.values, p.timestamp = v.timestamp ∧ p.isPartial = v.isPartial := by
  rw [TimeSeriesData.marshal, TimeSeriesData.mapValues_keyed, List.mem_map] at he
  obtain ⟨e', he', rfl⟩ := he
  obtain ⟨v, hv, rfl⟩ := List.mem_map.1 hp
  exact ⟨e', he', v, hv, rfl, rfl⟩

theorem isEmptyResult_eq_true_false_iff {r : Result V} (ht : r.type = .timeSeries)
    (hv : r.value = .timeSeries d) :
    ((isEmptyResult r).1 = true ∧ (isEmptyResult r).2 = false) ↔ d.aggregations = [] := by
  obtain ⟨queryName, aggregations⟩ := d
  unfold isEmptyResult
  rw [ht, hv]
  cases aggregations with
  | nil => simp
  | cons a as =>
    simp only [List.isEmpty_cons, Bool.false_eq_true, if_false, reduceCtorEq, iff_false]
    split <;> simp

/-- A time-series result becomes one bucket, unless it holds no aggregation at all. -/
theorem resultToBuckets_timeSeries [JsonValue V] {r : Result V} (ht : r.type = .timeSeries)
    (hv : r.value = .timeSeries d) (startMs endMs : Nat) :
    resultToBuckets r startMs endMs =
      if d.aggregations = [] then [] else [⟨startMs, endMs, .timeSeries, d.marshal, r.stats⟩] := by
  simp only [resultToBuckets, isEmptyResult_eq_true_false_iff ht hv, hv, ht]

variable {b : CachedBucket V}

/-- The bucket a call makes: its bounds, and its trimmed payload. -/
theorem mem_freshBuckets_iff [JsonValue V] {fluxMs : Nat} {c : PutCall V} (hs : 0 < c.stepMs) :
    b ∈ c.freshBuckets fluxMs ↔
      c.window.fromMs < fluxBoundary fluxMs c.currentMs ∧
      firstStep c.stepMs c.window.fromMs < gridFloor c.stepMs (c.cut fluxMs) ∧
      c.fresh.aggregations ≠ [] ∧
      b = ⟨firstStep c.stepMs c.window.fromMs, gridFloor c.stepMs (c.cut fluxMs), .timeSeries,
        (trimDataToFluxBoundary c.fresh (c.cut fluxMs)).marshal, c.stats⟩ := by
  have htrim : trimResultToFluxBoundary c.result (c.cut fluxMs) =
      some ⟨.timeSeries, .timeSeries (trimDataToFluxBoundary c.fresh (c.cut fluxMs)), c.stats,
        c.warnings, ""⟩ := rfl
  have hagg : (trimDataToFluxBoundary c.fresh (c.cut fluxMs)).aggregations = [] ↔
      c.fresh.aggregations = [] := by simp [trimDataToFluxBoundary]
  unfold PutCall.freshBuckets
  rw [htrim]
  cases hr : cachableRange (fluxBoundary fluxMs c.currentMs) c.window.fromMs c.window.toMs
      c.stepMs with
  | none =>
    simp only [List.not_mem_nil, false_iff]
    rintro ⟨h1, h2, -, -⟩
    have hsome := (cachableRange_eq_some hs
      (r := ⟨firstStep c.stepMs c.window.fromMs, gridFloor c.stepMs (c.cut fluxMs)⟩)).2
      ⟨h1, rfl, rfl, h2⟩
    simp [hr] at hsome
  | some range =>
    obtain ⟨h1, h2, h3, h4⟩ := (cachableRange_eq_some hs).1 hr
    rw [h2, h3] at h4
    simp only [h2, h3]
    rw [resultToBuckets_timeSeries (d := trimDataToFluxBoundary c.fresh (c.cut fluxMs)) rfl rfl]
    by_cases ha : c.fresh.aggregations = []
    · rw [if_pos (hagg.2 ha)]
      simp [ha]
    · rw [if_neg (mt hagg.1 ha)]
      simp [ha, h1, PutCall.cut, h4]

theorem mem_mergeAndDeduplicateBuckets {existing fresh : List (CachedBucket V)}
    (hb : b ∈ mergeAndDeduplicateBuckets existing fresh) :
    b ∈ existing ∨ b ∈ fresh := by
  unfold mergeAndDeduplicateBuckets at hb
  rw [mem_sortBuckets, List.mem_map] at hb
  obtain ⟨⟨k, b'⟩, hmem, rfl⟩ := hb
  have hnodup := nodup_keys_accumulate id (fun _ b => b)
    ((existing ++ fresh).map fun b => ((b.startMs, b.endMs), b)) (m := []) List.nodup_nil
  have hlook := (mem_iff_lookup hnodup).1 hmem
  rw [lookup_accumulate] at hlook
  rcases foldItems_replace hlook with h | h
  · simp at h
  · rw [mem_itemsOf, List.mem_map] at h
    obtain ⟨x, hx, hxe⟩ := h
    obtain ⟨-, rfl⟩ := Prod.mk.inj hxe
    exact List.mem_append.1 hx

/-- A bucket found after a call was there before or was made by it. -/
theorem apply_cases [JsonValue V] (fluxMs : Nat) (cache : Cache V) (c : PutCall V) {key : String}
    {data : CachedData V} (hd : c.apply fluxMs cache key = some data) (hb : b ∈ data.buckets) :
    (∃ old, cache key = some old ∧ b ∈ old.buckets) ∨
      key = generateCacheKey c.fingerprint ∧ b ∈ c.freshBuckets fluxMs := by
  have hsame : cache key = some data → (∃ old, cache key = some old ∧ b ∈ old.buckets) ∨
      key = generateCacheKey c.fingerprint ∧ b ∈ c.freshBuckets fluxMs :=
    fun h => Or.inl ⟨data, h, hb⟩
  have htrim : trimResultToFluxBoundary c.result (c.cut fluxMs) =
      some ⟨.timeSeries, .timeSeries (trimDataToFluxBoundary c.fresh (c.cut fluxMs)), c.stats,
        c.warnings, ""⟩ := rfl
  unfold PutCall.apply put at hd
  rw [show (if fluxBoundary fluxMs c.currentMs < c.window.toMs then
    fluxBoundary fluxMs c.currentMs else c.window.toMs) = c.cut fluxMs from rfl, htrim] at hd
  cases hr : cachableRange (fluxBoundary fluxMs c.currentMs) c.window.fromMs c.window.toMs
      c.stepMs with
  | none =>
    simp only [hr] at hd
    exact hsame hd
  | some range =>
    have hfresh : c.freshBuckets fluxMs = resultToBuckets ⟨.timeSeries,
        .timeSeries (trimDataToFluxBoundary c.fresh (c.cut fluxMs)), c.stats, c.warnings, ""⟩
        range.fromMs range.toMs := by
      unfold PutCall.freshBuckets
      rw [htrim, hr]
    simp only [hr] at hd
    rw [← hfresh] at hd
    split at hd
    · exact hsame hd
    · by_cases hk : key = generateCacheKey c.fingerprint
      · subst hk
        rw [Cache.set_self, Option.some.injEq] at hd
        subst hd
        rcases mem_mergeAndDeduplicateBuckets hb with h | h
        · left
          cases hc : cache (generateCacheKey c.fingerprint) with
          | none => simp [hc] at h
          | some old => exact ⟨old, rfl, by simpa [hc] using h⟩
        · exact Or.inr ⟨rfl, h⟩
      · rw [Cache.set, if_neg hk] at hd
        exact hsame hd

/-- A call makes a complete bucket, if any, exactly when its result stays within the last step
boundary before the cut. -/
theorem freshBuckets_complete_iff [JsonValue V] {fluxMs : Nat} {c : PutCall V} (hv : c.Valid) :
    (∀ b ∈ c.freshBuckets fluxMs, BucketComplete fluxMs c b) ↔ c.CutOnStep fluxMs := by
  have hclk := hv.clock_lt
  constructor
  · intro hall
    by_contra hno
    simp only [PutCall.CutOnStep, not_or, not_le] at hno
    obtain ⟨h1, h2, h3, h4⟩ := hno
    have hb := hall _ ((mem_freshBuckets_iff hv.step_pos).2 ⟨h1, h2, h3, rfl⟩)
    refine h4 ⟨?_, fun e he p hp hpart hle => ?_⟩
    · have := hb.behind_flux
      simp only at this
      omega
    · have hkept : ∃ e' ∈ (trimDataToFluxBoundary c.fresh (c.cut fluxMs)).keyed,
          p ∈ e'.2.values := by
        rw [trimDataToFluxBoundary_keyed]
        exact ⟨_, List.mem_map_of_mem he, by simp [hp, hpart, hle]⟩
      obtain ⟨e', he', hp'⟩ := hkept
      exact (hb.points_inside _ (mem_marshal_keyed he') _ (List.mem_map_of_mem hp')).2.2
  · intro hsafe b hb
    obtain ⟨h1, h2, h3, rfl⟩ := (mem_freshBuckets_iff hv.step_pos).1 hb
    obtain ⟨hclock, hpoints⟩ : fluxMs ≤ c.currentMs ∧ _ := by
      rcases hsafe with h | h | h | h
      · omega
      · omega
      · exact absurd h h3
      · exact h
    have hcut : c.cut fluxMs ≤ c.currentMs - fluxMs := by
      rw [← fluxBoundary_eq_sub hclock (by omega), PutCall.cut, cutMs_eq_min]
      exact Nat.min_le_left _ _
    have hfloor := gridFloor_le c.stepMs (c.cut fluxMs)
    -- a step that fits before the cut is so small that the first boundary does not wrap around
    have hstep : c.stepMs ≤ gridFloor c.stepMs (c.cut fluxMs) :=
      Nat.le_of_dvd (by omega) (dvd_gridFloor _ _)
    have hstart : firstStep c.stepMs c.window.fromMs = gridCeil c.stepMs c.window.fromMs := by
      have hboundary := fluxBoundary_eq_sub hclock (show c.currentMs < 2 ^ 64 by omega)
      have hceil := gridCeil_lt_add hv.step_pos c.window.fromMs
      exact firstStep_eq (by omega)
    rw [hstart] at h2 ⊢
    refine ⟨dvd_gridCeil _ _, dvd_gridFloor _ _, h2, ?_, ?_⟩
    · simp only
      omega
    · intro e he p hp
      obtain ⟨e₁, he₁, v, hv₁, hstamp, hflag₁⟩ := of_mem_marshal_keyed he hp
      rw [hstamp, hflag₁]
      obtain ⟨e', he', -, hp', hpart, hle⟩ := mem_trimmed_values he₁ hv₁
      have hflag := hv.flags e' he' v hp'
      rw [hpart] at hflag
      have hfirst := ((isPartialValue_eq_false_iff hv.step_pos).1 hflag.symm).1
      have hint := hv.int64 e' he' v hp'
      -- behind the flux boundary the timestamp is a non-negative number, so nothing wraps
      have hu : (uint64 v.timestamp : Int) = v.timestamp := by
        unfold uint64 at hle ⊢
        omega
      refine ⟨hpart, ?_, hpoints e' he' v hp' hpart hle⟩
      simp only
      omega

/-- Every bucket in the cache after the calls was written by one of them and is complete. -/
def BucketsComplete [JsonValue V] (fluxMs : Nat) (calls : List (PutCall V)) : Prop :=
  ∀ (key : String) (data : CachedData V) (b : CachedBucket V),
    runPuts fluxMs calls key = some data → b ∈ data.buckets →
      ∃ c ∈ calls, key = generateCacheKey c.fingerprint ∧ b ∈ c.freshBuckets fluxMs ∧
        BucketComplete fluxMs c b

/-- Every bucket in the cache after a run was made by one of its calls. -/
theorem mem_runPuts [JsonValue V] (fluxMs : Nat) (calls : List (PutCall V)) {key : String}
    {data : CachedData V} (hd : runPuts fluxMs calls key = some data) (hb : b ∈ data.buckets) :
    ∃ c ∈ calls, key = generateCacheKey c.fingerprint ∧ b ∈ c.freshBuckets fluxMs := by
  revert key data b
  refine List.foldlRecOn calls (PutCall.apply fluxMs) (b := fun _ => none)
    (motive := fun cache => ∀ {key data b}, cache key = some data → b ∈ data.buckets →
      ∃ c ∈ calls, key = generateCacheKey c.fingerprint ∧ b ∈ c.freshBuckets fluxMs) ?_ ?_
  · intro key data b hd
    exact absurd hd (by simp)
  · intro cache ih c hc key data b hd hb
    rcases apply_cases fluxMs cache c hd hb with ⟨old, hold, hbold⟩ | ⟨hk, hfresh⟩
    · exact ih hold hbold
    · exact ⟨c, hc, hk, hfresh⟩

/-- Every stored bucket is complete, in every run whose calls leave no complete point between the
last step boundary and the cut. -/
theorem buckets_complete_of_cutOnStep [JsonValue V] (fluxMs : Nat) (calls : List (PutCall V))
    (hvalid : ∀ c ∈ calls, c.Valid) (hcut : ∀ c ∈ calls, c.CutOnStep fluxMs) :
    BucketsComplete fluxMs calls := by
  intro key data b hd hb
  obtain ⟨c, hc, hk, hfresh⟩ := mem_runPuts fluxMs calls hd hb
  exact ⟨c, hc, hk, hfresh, (freshBuckets_complete_iff (hvalid c hc)).2 (hcut c hc) b hfresh⟩

/-- A call at clock 100 with the window `[0, 200)`, step 10 and two complete points. -/
def putAt100 (t₁ t₂ : Int) : PutCall Nat :=
  ⟨"q", ⟨0, 200⟩, 10, 100, ⟨"A", [⟨0, "", "", [⟨[], [⟨t₁, 1, false⟩, ⟨t₂, 2, false⟩]⟩]⟩]⟩, .zero, []⟩

theorem putAt100_valid {t₁ t₂ : Int} (h₁ : 0 ≤ t₁ ∧ t₁ < 2 ^ 63) (h₂ : 0 ≤ t₂ ∧ t₂ < 2 ^ 63) :
    (putAt100 t₁ t₂).Valid := by
  have hpoints : ∀ e ∈ (putAt100 t₁ t₂).fresh.keyed, ∀ p ∈ e.2.values,
      (0 ≤ p.timestamp ∧ p.timestamp < 2 ^ 63) ∧ p.isPartial = false := by
    simp only [putAt100, TimeSeriesData.keyed, List.flatMap_cons, List.map_cons, List.map_nil,
      List.flatMap_nil, List.append_nil, List.forall_mem_cons]
    simpa using ⟨h₁, h₂⟩
  refine ⟨by simp [putAt100], by simp [putAt100], by simp [putAt100], by simp [putAt100], ?_, ?_⟩
  · intro e he p hp
    obtain ⟨h, -⟩ := hpoints e he p hp
    omega
  · intro e he p hp
    rw [(hpoints e he p hp).2]
    exact ((isPartialValue_eq_false_iff (by simp [putAt100])).2
      ⟨by simp [putAt100, gridCeil_eq_self], Or.inr (by simp [putAt100])⟩).symm

/-- With a flux interval of 15 ms the cut is at 85: points up to 70 keep the promise. -/
theorem buckets_complete_putAt100 : BucketsComplete 15 [putAt100 60 70] := by
  refine buckets_complete_of_cutOnStep 15 [putAt100 60 70] ?_ ?_ <;>
    simp only [List.mem_singleton, forall_eq]
  · exact putAt100_valid (by omega) (by omega)
  · exact Or.inr (Or.inr (Or.inr (by decide)))

/-- With a flux interval of 5 ms the cut is at 95: the bucket ends at 90 and holds the point of the
interval `[90, 100)`. -/
theorem point_outside_its_bucket :
    ¬ ∀ (fluxMs : Nat) (calls : List (PutCall Nat)), (∀ c ∈ calls, c.Valid) →
      calls.Pairwise (fun c d => c.currentMs ≤ d.currentMs) → BucketsComplete fluxMs calls := by
  intro h
  have hrun := h 5 [putAt100 80 90]
    (by simp only [List.mem_singleton, forall_eq]; exact putAt100_valid (by omega) (by omega))
    (List.pairwise_singleton _ _)
  have hstored : runPuts 5 [putAt100 80 90] "v5:query:q" = some ⟨[⟨0, 90, .timeSeries,
      ⟨"", [⟨0, "", "", [⟨[], [⟨80, some 1, false⟩, ⟨90, some 2, false⟩]⟩]⟩]⟩, .zero⟩], []⟩ := by
    decide +kernel
  obtain ⟨c, hc, -, -, hcomplete⟩ := hrun "v5:query:q" _ _ hstored (List.mem_singleton.2 rfl)
  obtain rfl := List.mem_singleton.1 hc
  have hpoint := hcomplete.points_inside
    ((0, ""), ⟨[], [⟨80, some 1, false⟩, ⟨90, some 2, false⟩]⟩)
    (List.mem_singleton.2 rfl) ⟨90, some 2, false⟩ (by simp)
  exact absurd hpoint.2.2 (by decide)

end Puts

end Signoz.Querier
