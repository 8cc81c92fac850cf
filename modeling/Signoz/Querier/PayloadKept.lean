import Signoz.Querier.CachedExecution
import Signoz.Querier.KeyedUnion

/-!
# The payload of a partially cached query

When every range that `executeWithCache` executes succeeds, its result should hold time series data
with every fresh point that was not cached. It does in three cases out of four: without a cached
result, several fresh results are merged only for time series requests, so the payload of a scalar
metric query is dropped; and where two fresh ranges have different points at one timestamp, one of
them is. `executeWithCache_keeps_iff` says exactly when the payload is kept.
-/

namespace Signoz.Querier

open Lib.KeyedFold

section PayloadKept

variable {V : Type}

/-! ## What is read from the cache -/

/-- The buckets that are read for a query. -/
def relevantBuckets (cache : Cache V) (q : Query V) : List (CachedBucket V) :=
  match cache (generateCacheKey q.fingerprint) with
  | none => []
  | some data => filterRelevantBuckets data.buckets q.window.fromMs q.window.toMs

/-- The time series in them, inside the window. -/
def cachedData (cache : Cache V) (q : Query V) : TimeSeriesData V :=
  filterDataToTimeRange (mergeTimeSeriesValues (relevantBuckets cache q)) q.window.fromMs
    q.window.toMs

/-- The ranges that the cache lacks. -/
def missingRanges (fluxMs getMs stepMs : Nat) (cache : Cache V) (q : Query V) : List TimeRange :=
  (getMissRanges fluxMs getMs cache q.fingerprint q.window.fromMs q.window.toMs stepMs).2

/-- `c` is the result that is read from the relevant buckets. -/
structure ReadFrom (cache : Cache V) (q : Query V) (first : CachedBucket V) (c : Result V) :
    Prop where
  type : c.type = first.type
  value : c.value = if first.type = .timeSeries then .timeSeries (cachedData cache q) else .none

/-- `GetMissRanges` returns a cached result when there are relevant buckets, of the type of the
first. -/
theorem getMissRanges_cases (fluxMs getMs stepMs : Nat) (cache : Cache V) (q : Query V) :
    (relevantBuckets cache q = [] ∧
      getMissRanges fluxMs getMs cache q.fingerprint q.window.fromMs q.window.toMs stepMs =
        (none, missingRanges fluxMs getMs stepMs cache q)) ∨
    ∃ first rest c, relevantBuckets cache q = first :: rest ∧ ReadFrom cache q first c ∧
      getMissRanges fluxMs getMs cache q.fingerprint q.window.fromMs q.window.toMs stepMs =
        (some c, missingRanges fluxMs getMs stepMs cache q) := by
  cases hdata : cache (generateCacheKey q.fingerprint) with
  | none =>
    left
    simp [relevantBuckets, missingRanges, getMissRanges, hdata]
  | some data =>
    cases hrel : filterRelevantBuckets data.buckets q.window.fromMs q.window.toMs with
    | nil =>
      left
      simp [relevantBuckets, missingRanges, getMissRanges, hdata, hrel]
    | cons first rest =>
      right
      have hread : relevantBuckets cache q = first :: rest := by
        simp [relevantBuckets, hdata, hrel]
      refine ⟨first, rest, _, hread, ?_, by
        simp [missingRanges, getMissRanges, hdata, hrel]; rfl⟩
      by_cases htype : first.type = .timeSeries
      · constructor <;> simp [mergeBuckets, filterResultToTimeRange, htype, cachedData, hread]
      · constructor <;> simp [mergeBuckets, filterResultToTimeRange, htype]

variable {buckets : List (CachedBucket V)}

/-- Buckets outside the window do not move the bucket loop of `findMissingRangesWithStep`. -/
theorem stepLoop_of_disjoint {stepMs startMs endMs : Nat}
    (h : ∀ b ∈ buckets, b.overlaps startMs endMs = false) {currentMs : Nat}
    (hcur : startMs ≤ currentMs) (missing : List TimeRange) :
    stepLoop stepMs endMs buckets currentMs missing = (currentMs, missing) := by
  induction buckets with
  | nil => rfl
  | cons b rest ih =>
    have hb := h b List.mem_cons_self
    have hrest := ih fun b hb => h b (List.mem_cons_of_mem _ hb)
    simp only [CachedBucket.overlaps, Bool.and_eq_false_iff, decide_eq_false_iff_not] at hb
    rw [stepLoop]
    by_cases hend : b.endMs ≤ currentMs
    · rw [if_pos hend, hrest]
    · rw [if_neg hend, if_pos (by omega)]

theorem basicLoop_of_disjoint {startMs endMs : Nat}
    (h : ∀ b ∈ buckets, b.overlaps startMs endMs = false) (currentMs : Nat)
    (missing : List TimeRange) :
    basicLoop startMs endMs buckets currentMs missing = (currentMs, missing) := by
  induction buckets with
  | nil => rfl
  | cons b rest ih =>
    have hb := h b List.mem_cons_self
    have hrest := ih fun b hb => h b (List.mem_cons_of_mem _ hb)
    simp only [CachedBucket.overlaps, Bool.and_eq_false_iff, decide_eq_false_iff_not] at hb
    rw [basicLoop]
    by_cases hend : b.endMs ≤ startMs
    · rw [if_pos hend, hrest]
    · rw [if_neg hend, if_pos (by omega)]

/-- The bucket loop keeps the ranges that it starts with. -/
theorem stepLoop_keeps (stepMs endMs : Nat) (buckets : List (CachedBucket V)) :
    ∀ (currentMs : Nat) (missing : List TimeRange), missing ≠ [] →
      (stepLoop stepMs endMs buckets currentMs missing).2 ≠ [] := by
  induction buckets with
  | nil => exact fun _ _ h => h
  | cons b rest ih =>
    intro currentMs missing h
    rw [stepLoop]
    split
    · exact ih _ _ h
    · split
      · exact h
      · exact ih _ _ fun hnil => h (List.append_eq_nil_iff.1 hnil).1

/-- Where no bucket is relevant, something is missing. -/
theorem findMissingRangesWithStep_ne_nil (fluxMs getMs stepMs : Nat) {startMs endMs : Nat}
    (hlt : startMs < endMs) (h : ∀ b ∈ buckets, b.overlaps startMs endMs = false) :
    findMissingRangesWithStep fluxMs getMs buckets startMs endMs stepMs ≠ [] := by
  have hsorted : ∀ b ∈ sortBuckets buckets, b.overlaps startMs endMs = false :=
    fun b hb => h b ((sortBuckets_perm buckets).mem_iff.1 hb)
  rw [findMissingRangesWithStep]
  split
  · rw [findMissingRangesBasic, basicLoop_of_disjoint hsorted, finalGap, if_pos hlt]
    split <;> simp
  · by_cases hoff : startMs % stepMs ≠ 0
    · -- the partial window at the start is missing in any case
      have hstart : (partialStart stepMs startMs endMs).2 ≠ [] := by
        rw [partialStart, if_pos hoff]
        simp
      intro hnil
      obtain ⟨hloop, -⟩ := List.append_eq_nil_iff.1 hnil
      split at hloop
      · exact hstart hloop
      · exact stepLoop_keeps _ _ _ _ _ hstart hloop
    · have hstart : partialStart stepMs startMs endMs = (startMs, []) := if_neg hoff
      have hloop : (if buckets = [] then ((startMs, []) : Nat × List TimeRange)
          else stepLoop stepMs endMs (sortBuckets buckets) startMs []) = (startMs, []) := by
        split
        · rfl
        · exact stepLoop_of_disjoint hsorted (Nat.le_refl _) _
      simp only [hstart, hloop, if_pos hlt]
      simp

variable {cache : Cache V} {q : Query V}

theorem missingRanges_ne_nil (fluxMs getMs stepMs : Nat) (hlt : q.window.fromMs < q.window.toMs)
    (h : relevantBuckets cache q = []) :
    missingRanges fluxMs getMs stepMs cache q ≠ [] := by
  rw [missingRanges, getMissRanges]
  cases hdata : cache (generateCacheKey q.fingerprint) with
  | none => simp
  | some data =>
    have hnone : filterRelevantBuckets data.buckets q.window.fromMs q.window.toMs = [] := by
      simpa [relevantBuckets, hdata] using h
    simp only [hnone, if_true]
    refine findMissingRangesWithStep_ne_nil _ _ _ hlt fun b hb => ?_
    by_contra hover
    have hmem : b ∈ filterRelevantBuckets data.buckets q.window.fromMs q.window.toMs :=
      mem_filterRelevantBuckets.2 ⟨hb, by simpa using hover⟩
    rw [hnone] at hmem
    cases hmem

/-! ## What is executed -/

/-- The windows that `executeWithCache` executes. -/
def executedWindows (fluxMs getMs stepMs : Nat) (cache : Cache V) (q : Query V) :
    List TimeRange :=
  if relevantBuckets cache q = [] ∧ missingRanges fluxMs getMs stepMs cache q = [q.window] then
    [q.window]
  else (missingRanges fluxMs getMs stepMs cache q).map fun tr => (createRangedQuery q tr).window

/-- The execution over a window succeeds: with the request type, and with time series data that has
one point for each aggregation, series key and timestamp. -/
structure Answers (q : Query V) (w : TimeRange) (r : Result V) (d : TimeSeriesData V) : Prop where
  execute : q.execute w = some r
  type : r.type = q.requestType
  value : r.value = .timeSeries d
  distinct : ∀ i k, ((d.points i k).map TimeSeriesValue.timestamp).Nodup

/-- The data of the executed windows. -/
def freshPayloads (fluxMs getMs stepMs : Nat) (cache : Cache V) (q : Query V) :
    List (TimeSeriesData V) :=
  (executedWindows fluxMs getMs stepMs cache q).filterMap fun w =>
    (q.execute w).bind fun r => r.value.timeSeriesData

/-- The cached data has no point of that aggregation, series key and timestamp. -/
def Uncached (cache : Cache V) (q : Query V) (i : Nat) (k : String) (t : Int) : Prop :=
  ∀ c ∈ (cachedData cache q).points i k, c.timestamp ≠ t

/-- There is a result, with time series data that has every fresh point that was not cached. -/
def KeepsPayload [JsonValue V] (fluxMs getMs putMs stepMs : Nat) (cache : Cache V)
    (q : Query V) : Prop :=
  ∃ r d, (executeWithCache fluxMs getMs putMs cache q stepMs).1 = some r ∧
    r.value = .timeSeries d ∧
    ∀ fresh ∈ freshPayloads fluxMs getMs stepMs cache q, ∀ i k, ∀ p ∈ fresh.points i k,
      Uncached cache q i k p.timestamp → p ∈ d.points i k

/-- Fresh payloads do not contradict each other at a point that was not cached. -/
def FreshAgree (cache : Cache V) (q : Query V) (payloads : List (TimeSeriesData V)) : Prop :=
  ∀ fresh ∈ payloads, ∀ fresh' ∈ payloads, ∀ i k, ∀ p ∈ fresh.points i k,
    ∀ p' ∈ fresh'.points i k, p.timestamp = p'.timestamp → Uncached cache q i k p.timestamp →
      p = p'

/-- When the payload is kept: the first relevant bucket holds time series; where there is none,
only one range is missing or time series are requested; and the fresh payloads agree. -/
structure PayloadSafe (fluxMs getMs stepMs : Nat) (cache : Cache V) (q : Query V) : Prop where
  bucket : ∀ b ∈ (relevantBuckets cache q).head?, b.type = .timeSeries
  request : relevantBuckets cache q = [] →
    (missingRanges fluxMs getMs stepMs cache q).length ≤ 1 ∨ q.requestType = .timeSeries
  agree : FreshAgree cache q (freshPayloads fluxMs getMs stepMs cache q)

/-! ## Merging fresh payloads -/

/-- Two points of one timestamp in a merged series come from one of its series. -/
theorem same_series_foldl (ss : List (TimeSeries V)) : ∀ s : TimeSeries V,
    ∀ p ∈ (ss.foldl mergeSeries s).values, ∀ p' ∈ (ss.foldl mergeSeries s).values,
      p.timestamp = p'.timestamp → ∃ s' ∈ s :: ss, p ∈ s'.values ∧ p' ∈ s'.values := by
  induction ss with
  | nil => exact fun s p hp p' hp' _ => ⟨s, List.mem_cons_self, hp, hp'⟩
  | cons a ss ih =>
    intro s p hp p' hp' ht
    obtain ⟨s', hs', h, h'⟩ := ih (mergeSeries s a) p hp p' hp' ht
    rcases List.mem_cons.1 hs' with rfl | hs'
    · -- a timestamp that was there keeps its points, a new one gets those of `a`
      rcases mem_mergeValues.1 h with h | ⟨h, hnew⟩
      · rcases mem_mergeValues.1 h' with h' | ⟨-, hnew'⟩
        · exact ⟨s, List.mem_cons_self, h, h'⟩
        · exact absurd ht (hnew' p h)
      · rcases mem_mergeValues.1 h' with h' | ⟨h', -⟩
        · exact absurd ht.symm (hnew p' h')
        · exact ⟨a, List.mem_cons_of_mem _ List.mem_cons_self, h, h'⟩
    · exact ⟨s', List.mem_cons_of_mem _ (List.mem_cons_of_mem _ hs'), h, h'⟩

/-- Two points of one key and timestamp in merged data come from one of the inputs. -/
theorem Grouped.same_input {inputs : List (TimeSeriesData V)} {d : TimeSeriesData V}
    (h : Grouped inputs d) {i : Nat} {k : String} {p p' : TimeSeriesValue V}
    (hp : p ∈ d.points i k) (hp' : p' ∈ d.points i k) (ht : p.timestamp = p'.timestamp) :
    ∃ input ∈ inputs, p ∈ input.points i k ∧ p' ∈ input.points i k := by
  rw [h.points] at hp hp'
  cases hl : inputs.flatMap fun input => itemsOf (i, k) input.keyed with
  | nil =>
    rw [hl] at hp
    cases hp
  | cons s ss =>
    rw [hl] at hp hp'
    obtain ⟨s', hs', hps, hps'⟩ := same_series_foldl ss s p (mem_sortByTimestamp.1 hp) p'
      (mem_sortByTimestamp.1 hp') ht
    obtain ⟨input, hinput, hitem⟩ := List.mem_flatMap.1 (hl ▸ hs')
    have hkeyed := mem_itemsOf.1 hitem
    exact ⟨input, hinput, TimeSeriesData.mem_points.2 ⟨s', hkeyed, hps⟩,
      TimeSeriesData.mem_points.2 ⟨s', hkeyed, hps'⟩⟩

theorem eq_of_timestamp {values : List (TimeSeriesValue V)}
    (hnodup : (values.map TimeSeriesValue.timestamp).Nodup) {p p' : TimeSeriesValue V}
    (hp : p ∈ values) (hp' : p' ∈ values) (ht : p.timestamp = p'.timestamp) : p = p' :=
  List.inj_on_of_nodup_map hnodup hp hp' ht

/-- Merged data keeps the fresh points that were not cached exactly when the fresh payloads agree
on them. -/
theorem merged_keeps_iff {old payloads : List (TimeSeriesData V)} {d : TimeSeriesData V}
    (h : Grouped (old ++ payloads) d) (hold : ∀ input ∈ old, input = cachedData cache q)
    (hdistinct : ∀ fresh ∈ payloads, ∀ i k,
      ((fresh.points i k).map TimeSeriesValue.timestamp).Nodup) :
    (∀ fresh ∈ payloads, ∀ i k, ∀ p ∈ fresh.points i k, Uncached cache q i k p.timestamp →
      p ∈ d.points i k) ↔ FreshAgree cache q payloads := by
  have hfresh : ∀ i k, ∀ input ∈ old ++ payloads, ∀ p ∈ input.points i k,
      Uncached cache q i k p.timestamp → input ∈ payloads := by
    intro i k input hinput p hp hun
    rcases List.mem_append.1 hinput with hinput | hinput
    · rw [hold input hinput] at hp
      exact absurd rfl (hun p hp)
    · exact hinput
  constructor
  · intro hkept fresh hmem fresh' hmem' i k p hp p' hp' ht hun
    have hin := hkept fresh hmem i k p hp hun
    have hin' := hkept fresh' hmem' i k p' hp' (ht ▸ hun)
    obtain ⟨input, hinput, hpi, hpi'⟩ := h.same_input hin hin' ht
    exact eq_of_timestamp (hdistinct input (hfresh i k input hinput p hpi hun) i k) hpi hpi' ht
  · intro hagree fresh hmem i k p hp hun
    obtain ⟨p', hp', ht⟩ := h.merges.cover i k fresh (List.mem_append_right _ hmem) p hp
    obtain ⟨input, hinput, hpi⟩ := h.merges.sub i k p' hp'
    have hmem' := hfresh i k input hinput p' hpi (ht ▸ hun)
    rw [hagree fresh hmem input hmem' i k p hp p' hpi ht.symm hun]
    exact hp'

/-- The results of the missing ranges, with their data. -/
theorem exists_freshResults {missing : List TimeRange}
    (hanswers : ∀ w ∈ missing.map fun tr => (createRangedQuery q tr).window,
      ∃ r d, Answers q w r d) :
    ∃ fresh ds, missing.mapM (fun tr =>
        (createRangedQuery q tr).execute (createRangedQuery q tr).window) = some fresh ∧
      fresh.length = missing.length ∧ (∀ r ∈ fresh, r.type = q.requestType) ∧
      fresh.map (fun r => r.value) = ds.map ResultValue.timeSeries ∧
      (missing.map fun tr => (createRangedQuery q tr).window).filterMap (fun w =>
        (q.execute w).bind fun r => r.value.timeSeriesData) = ds ∧
      ∀ d ∈ ds, ∀ i k, ((d.points i k).map TimeSeriesValue.timestamp).Nodup := by
  induction missing with
  | nil => exact ⟨[], [], rfl, rfl, by simp, rfl, rfl, by simp⟩
  | cons tr missing ih =>
    rw [List.map_cons, List.forall_mem_cons] at hanswers
    obtain ⟨⟨r, d, hr⟩, hrest⟩ := hanswers
    obtain ⟨fresh, ds, hmap, hlen, htype, hvalue, hds, hdistinct⟩ := ih hrest
    refine ⟨r :: fresh, d :: ds, ?_, by simp [hlen], ?_, ?_, ?_, ?_⟩
    · simp [List.mapM_cons, createRangedQuery_execute, hr.execute] at hmap ⊢
      simp [hmap]
    · exact List.forall_mem_cons.2 ⟨hr.type, htype⟩
    · rw [List.map_cons, List.map_cons, hr.value, hvalue]
    · rw [List.map_cons, List.filterMap_cons_some (b := d) (by simp [hr.execute, hr.value]), hds]
    · exact List.forall_mem_cons.2 ⟨hr.distinct, hdistinct⟩

theorem filterMap_timeSeriesData {fresh : List (Result V)} {ds : List (TimeSeriesData V)}
    (h : fresh.map (fun r => r.value) = ds.map ResultValue.timeSeries) :
    fresh.filterMap (fun r => r.value.timeSeriesData) = ds := by
  have hmap : fresh.filterMap (fun r => r.value.timeSeriesData) =
      (fresh.map fun r => r.value).filterMap ResultValue.timeSeriesData := by
    rw [List.filterMap_map]
    rfl
  rw [hmap, h, List.filterMap_map]
  have hsome : (ResultValue.timeSeriesData ∘ ResultValue.timeSeries : TimeSeriesData V → _) = some :=
    rfl
  rw [hsome, List.filterMap_some]

/-! ## Executing through the cache -/

/-- The payload is kept by what the returned result holds. -/
theorem keepsPayload_iff_of_result [JsonValue V] {fluxMs getMs putMs stepMs : Nat} {r : Result V}
    (h : (executeWithCache fluxMs getMs putMs cache q stepMs).1 = some r) :
    KeepsPayload fluxMs getMs putMs stepMs cache q ↔ ∃ d, r.value = .timeSeries d ∧
      ∀ fresh ∈ freshPayloads fluxMs getMs stepMs cache q, ∀ i k, ∀ p ∈ fresh.points i k,
        Uncached cache q i k p.timestamp → p ∈ d.points i k := by
  constructor
  · rintro ⟨r', d, hr', hd⟩
    obtain rfl : r = r' := Option.some.inj (h.symm.trans hr')
    exact ⟨d, hd⟩
  · rintro ⟨d, hd⟩
    exact ⟨r, d, h, hd⟩

/-- One payload agrees with itself. -/
theorem freshAgree_of_single {payloads : List (TimeSeriesData V)} (hone : payloads.length ≤ 1)
    (hdistinct : ∀ d ∈ payloads, ∀ i k,
      ((d.points i k).map TimeSeriesValue.timestamp).Nodup) : FreshAgree cache q payloads := by
  intro fresh hmem fresh' hmem' i k p hp p' hp' ht hun
  obtain rfl : fresh = fresh' := by
    match payloads, hone, hmem, hmem' with
    | [d], _, hmem, hmem' => rw [List.mem_singleton.1 hmem, List.mem_singleton.1 hmem']
  exact eq_of_timestamp (hdistinct fresh hmem i k) hp hp' ht

/-- The merged result is returned, with other statistics. -/
theorem executeMissing_fst [JsonValue V] (fluxMs putMs stepMs : Nat) (cache : Cache V)
    {cached : Option (Result V)} {missing : List TimeRange} {fresh : List (Result V)}
    {merged : Result V}
    (hmap : missing.mapM (fun tr =>
      (createRangedQuery q tr).execute (createRangedQuery q tr).window) = some fresh)
    (hmerge : mergeResults cached fresh = some merged) :
    (executeMissing fluxMs putMs cache q stepMs cached missing).1 =
      some { merged with stats := merged.stats.add (totalStats fresh) } := by
  rw [executeMissing, hmap]
  simp only [hmerge]

section Cases

variable [JsonValue V] {fluxMs getMs putMs stepMs : Nat} {cache : Cache V} {q : Query V}

/-- The whole window is executed: its result is returned. -/
theorem keeps_of_whole (hrel : relevantBuckets cache q = [])
    (hget : getMissRanges fluxMs getMs cache q.fingerprint q.window.fromMs q.window.toMs stepMs =
      (none, missingRanges fluxMs getMs stepMs cache q))
    (hwhole : missingRanges fluxMs getMs stepMs cache q = [q.window])
    (hanswers : ∀ w ∈ executedWindows fluxMs getMs stepMs cache q, ∃ r d, Answers q w r d) :
    KeepsPayload fluxMs getMs putMs stepMs cache q ∧ PayloadSafe fluxMs getMs stepMs cache q := by
  have hexec : executedWindows fluxMs getMs stepMs cache q = [q.window] := if_pos ⟨hrel, hwhole⟩
  obtain ⟨r, d, hr⟩ := hanswers q.window (by rw [hexec]; exact List.mem_singleton_self _)
  have hpayload : freshPayloads fluxMs getMs stepMs cache q = [d] := by
    simp [freshPayloads, hexec, hr.execute, hr.value]
  have hresult : (executeWithCache fluxMs getMs putMs cache q stepMs).1 = some r := by
    rw [executeWithCache, hget, hwhole]
    simp [executeFully, hr.execute]
  refine ⟨(keepsPayload_iff_of_result hresult).2 ⟨d, hr.value, ?_⟩, by simp [hrel],
    fun _ => .inl (by rw [hwhole]; exact Nat.le_refl _), ?_⟩
  · intro fresh hmem i k p hp hun
    rw [hpayload, List.mem_singleton] at hmem
    exact hmem ▸ hp
  · rw [hpayload]
    exact freshAgree_of_single (Nat.le_refl _) (by simpa using hr.distinct)

/-- Ranges are executed and there is nothing to merge them into. -/
theorem keeps_iff_of_ranges {fresh : List (Result V)} {ds : List (TimeSeriesData V)}
    (hrel : relevantBuckets cache q = [])
    (hpayload : freshPayloads fluxMs getMs stepMs cache q = ds)
    (hmissing : executeWithCache fluxMs getMs putMs cache q stepMs =
      executeMissing fluxMs putMs cache q stepMs none (missingRanges fluxMs getMs stepMs cache q))
    (hmap : (missingRanges fluxMs getMs stepMs cache q).mapM (fun tr =>
      (createRangedQuery q tr).execute (createRangedQuery q tr).window) = some fresh)
    (hlen : fresh.length = (missingRanges fluxMs getMs stepMs cache q).length)
    (hne : missingRanges fluxMs getMs stepMs cache q ≠ [])
    (htype : ∀ r ∈ fresh, r.type = q.requestType)
    (hvalue : fresh.map (fun r => r.value) = ds.map ResultValue.timeSeries)
    (hdistinct : ∀ d ∈ ds, ∀ i k, ((d.points i k).map TimeSeriesValue.timestamp).Nodup) :
    KeepsPayload fluxMs getMs putMs stepMs cache q ↔ PayloadSafe fluxMs getMs stepMs cache q := by
  have hbucket : ∀ b ∈ (relevantBuckets cache q).head?, b.type = .timeSeries := by simp [hrel]
  cases fresh with
  | nil => exact absurd (List.length_eq_zero_iff.1 hlen.symm) hne
  | cons r rest =>
    have hr := htype r List.mem_cons_self
    obtain ⟨d, ds, rfl⟩ : ∃ d ds', ds = d :: ds' := by
      cases ds with
      | nil => simp at hvalue
      | cons d ds => exact ⟨d, ds, rfl⟩
    obtain ⟨hrd, hrest⟩ := List.cons.inj (by simpa using hvalue)
    cases rest with
    | nil =>
      -- a single fresh result is returned as it is
      obtain rfl : ds = [] := by simpa using hrest
      have hresult := executeMissing_fst fluxMs putMs stepMs cache hmap
        (show mergeResults none [r] = some r from rfl)
      rw [← hmissing] at hresult
      refine iff_of_true ((keepsPayload_iff_of_result hresult).2 ⟨d, hrd, ?_⟩)
        ⟨hbucket, fun _ => .inl hlen.symm.le, ?_⟩
      · intro fresh hmem i k p hp hun
        rw [hpayload, List.mem_singleton] at hmem
        exact hmem ▸ hp
      · rw [hpayload]
        exact freshAgree_of_single (Nat.le_refl _) hdistinct
    | cons r' rest =>
      have hmerge : mergeResults none (r :: r' :: rest) = some
          { type := r.type
            value := if r.type = .timeSeries then
                .timeSeries (mergeTimeSeriesResults none (r :: r' :: rest)) else .none
            stats := r.stats, warnings := r.warnings, warningsDocURL := r.warningsDocURL } :=
        rfl
      have hresult := executeMissing_fst fluxMs putMs stepMs cache hmap hmerge
      rw [← hmissing] at hresult
      rw [keepsPayload_iff_of_result hresult, hpayload, hr]
      have hgrouped := mergeTimeSeriesResults_grouped none (r :: r' :: rest)
      rw [filterMap_timeSeriesData hvalue] at hgrouped
      have hkeeps := @merged_keeps_iff V cache q _ _ _ hgrouped (by simp) hdistinct
      by_cases hts : q.requestType = .timeSeries
      · simp only [hts, if_true]
        constructor
        · rintro ⟨_, h, hkept⟩
          obtain rfl := ResultValue.timeSeries.inj h
          exact ⟨hbucket, fun _ => .inr hts, by rw [hpayload]; exact hkeeps.1 hkept⟩
        · intro hsafe
          refine ⟨_, rfl, hkeeps.2 ?_⟩
          rw [← hpayload]
          exact hsafe.agree
      · simp only [hts, if_false]
        refine iff_of_false ?_ fun hsafe => ?_
        · rintro ⟨_, h, -⟩
          cases h
        · rcases hsafe.request hrel with h | h
          · rw [← hlen] at h
            simp at h
          · exact hts h

/-- Ranges are executed and merged into what is cached. -/
theorem keeps_iff_of_cached {fresh : List (Result V)} {ds : List (TimeSeriesData V)}
    {first : CachedBucket V} {rest : List (CachedBucket V)} {c : Result V}
    (hrel : relevantBuckets cache q = first :: rest) (hread : ReadFrom cache q first c)
    (hpayload : freshPayloads fluxMs getMs stepMs cache q = ds)
    (hmissing : executeWithCache fluxMs getMs putMs cache q stepMs =
      executeMissing fluxMs putMs cache q stepMs (some c)
        (missingRanges fluxMs getMs stepMs cache q))
    (hmap : (missingRanges fluxMs getMs stepMs cache q).mapM (fun tr =>
      (createRangedQuery q tr).execute (createRangedQuery q tr).window) = some fresh)
    (hne : fresh ≠ [])
    (hvalue : fresh.map (fun r => r.value) = ds.map ResultValue.timeSeries)
    (hdistinct : ∀ d ∈ ds, ∀ i k, ((d.points i k).map TimeSeriesValue.timestamp).Nodup) :
    KeepsPayload fluxMs getMs putMs stepMs cache q ↔ PayloadSafe fluxMs getMs stepMs cache q := by
  obtain ⟨r, fresh, rfl⟩ := List.exists_cons_of_ne_nil hne
  have hrequest : relevantBuckets cache q = [] →
      (missingRanges fluxMs getMs stepMs cache q).length ≤ 1 ∨ q.requestType = .timeSeries := by
    simp [hrel]
  obtain ⟨htype, hcvalue⟩ := hread
  by_cases hts : first.type = .timeSeries
  · rw [if_pos hts] at hcvalue
    have hmerge : mergeResults (some c) (r :: fresh) = some
        { c with
          value := .timeSeries (mergeTimeSeriesResults (some (cachedData cache q)) (r :: fresh))
          warnings := c.warnings ++ (r :: fresh).flatMap Result.warnings } := by
      simp [mergeResults, htype, hts, hcvalue]
    have hresult := executeMissing_fst fluxMs putMs stepMs cache hmap hmerge
    rw [← hmissing] at hresult
    rw [keepsPayload_iff_of_result hresult, hpayload]
    have hgrouped := mergeTimeSeriesResults_grouped (some (cachedData cache q)) (r :: fresh)
    rw [filterMap_timeSeriesData hvalue] at hgrouped
    have hkeeps := @merged_keeps_iff V cache q _ _ _ hgrouped (by simp) hdistinct
    constructor
    · rintro ⟨_, h, hkept⟩
      obtain rfl := ResultValue.timeSeries.inj h
      exact ⟨by simpa [hrel] using hts, hrequest, by rw [hpayload]; exact hkeeps.1 hkept⟩
    · intro hsafe
      refine ⟨_, rfl, hkeeps.2 ?_⟩
      rw [← hpayload]
      exact hsafe.agree
  · rw [if_neg hts] at hcvalue
    have hmerge : mergeResults (some c) (r :: fresh) = some
        { c with warnings := c.warnings ++ (r :: fresh).flatMap Result.warnings } := by
      simp [mergeResults, htype, hts]
    have hresult := executeMissing_fst fluxMs putMs stepMs cache hmap hmerge
    rw [← hmissing] at hresult
    rw [keepsPayload_iff_of_result hresult]
    refine iff_of_false ?_ fun hsafe => hts (hsafe.bucket first (by simp [hrel]))
    rintro ⟨_, h, -⟩
    rw [hcvalue] at h
    cases h

/-- Nothing is executed: the cached result is returned. -/
theorem keeps_iff_of_covered {first : CachedBucket V} {rest : List (CachedBucket V)}
    {c : Result V} (hrel : relevantBuckets cache q = first :: rest)
    (hread : ReadFrom cache q first c)
    (hresult : (executeWithCache fluxMs getMs putMs cache q stepMs).1 = some c)
    (hpayload : freshPayloads fluxMs getMs stepMs cache q = []) :
    KeepsPayload fluxMs getMs putMs stepMs cache q ↔ PayloadSafe fluxMs getMs stepMs cache q := by
  rw [keepsPayload_iff_of_result hresult, hread.value, hpayload]
  constructor
  · rintro ⟨d, hd, -⟩
    refine ⟨?_, by simp [hrel], by rw [hpayload]; exact freshAgree_of_single (by simp) (by simp)⟩
    intro b hb
    obtain rfl : first = b := by simpa [hrel] using hb
    by_contra hts
    rw [if_neg hts] at hd
    cases hd
  · intro hsafe
    exact ⟨_, if_pos (hsafe.bucket first (by simp [hrel])), by simp⟩

end Cases

/-- When all executed windows answer, `executeWithCache` keeps the payload exactly when the first
relevant bucket holds time series, several ranges without a cached result are fetched only for time
series, and the fresh payloads agree. -/
theorem executeWithCache_keeps_iff [JsonValue V] (fluxMs getMs putMs stepMs : Nat)
    (cache : Cache V) (q : Query V) (hlt : q.window.fromMs < q.window.toMs)
    (hanswers : ∀ w ∈ executedWindows fluxMs getMs stepMs cache q, ∃ r d, Answers q w r d) :
    KeepsPayload fluxMs getMs putMs stepMs cache q ↔ PayloadSafe fluxMs getMs stepMs cache q := by
  by_cases hwhole : relevantBuckets cache q = [] ∧
      missingRanges fluxMs getMs stepMs cache q = [q.window]
  · rcases getMissRanges_cases fluxMs getMs stepMs cache q with
      ⟨hrel, hget⟩ | ⟨first, rest, c, hrel, -, -⟩
    · have hboth := @keeps_of_whole V _ fluxMs getMs putMs stepMs cache q hrel hget hwhole.2 hanswers
      exact iff_of_true hboth.1 hboth.2
    · rw [hwhole.1] at hrel
      cases hrel
  · have hexec : executedWindows fluxMs getMs stepMs cache q =
        (missingRanges fluxMs getMs stepMs cache q).map fun tr =>
          (createRangedQuery q tr).window := if_neg hwhole
    rw [hexec] at hanswers
    obtain ⟨fresh, ds, hmap, hlen, htype, hvalue, hds, hdistinct⟩ := exists_freshResults hanswers
    have hpayload : freshPayloads fluxMs getMs stepMs cache q = ds := by
      rw [freshPayloads, hexec, hds]
    rcases getMissRanges_cases fluxMs getMs stepMs cache q with
      ⟨hrel, hget⟩ | ⟨first, rest, c, hrel, hread, hget⟩
    · have hne := missingRanges_ne_nil fluxMs getMs stepMs hlt hrel
      refine keeps_iff_of_ranges hrel hpayload ?_ hmap hlen hne htype hvalue hdistinct
      rw [executeWithCache, hget]
      match hm : missingRanges fluxMs getMs stepMs cache q with
      | [] => exact absurd hm hne
      | [tr] =>
        have htr : tr ≠ q.window := fun h => hwhole ⟨hrel, by rw [hm, h]⟩
        simp [htr]
      | _ :: _ :: _ => rfl
    · by_cases hnil : missingRanges fluxMs getMs stepMs cache q = []
      · refine keeps_iff_of_covered hrel hread ?_ ?_
        · rw [executeWithCache, hget, hnil]
        · rw [freshPayloads, hexec, hnil]
          rfl
      · refine keeps_iff_of_cached hrel hread hpayload ?_ hmap ?_ hvalue hdistinct
        · obtain ⟨tr, missing, hm⟩ := List.exists_cons_of_ne_nil hnil
          rw [executeWithCache, hget, hm]
        · rintro rfl
          exact hnil (List.length_eq_zero_iff.1 hlen.symm)

end PayloadKept

/-- A minute that is cached before the window. -/
def cachedMinute : Cache Nat := fun _ =>
  some ⟨[⟨0, 60000, .timeSeries, oneSeries [⟨0, some 1, false⟩], .zero⟩], []⟩

/-- A metric query over a window that begins off the grid, with a point at the begin of every window
that is executed. -/
def metricQuery (requestType : RequestType) : Query Nat where
  fingerprint := "builder&signal=metrics"
  window := ⟨90000, 240000⟩
  kind := .builder 0
  requestType := requestType
  execute w := some ⟨requestType, .timeSeries (oneSeries [⟨w.fromMs, 1, false⟩]), .zero, [], ""⟩

theorem metricQuery_answers (requestType : RequestType) (w : TimeRange) :
    Answers (metricQuery requestType) w
      ⟨requestType, .timeSeries (oneSeries [⟨w.fromMs, 1, false⟩]), .zero, [], ""⟩
      (oneSeries [⟨w.fromMs, 1, false⟩]) := by
  refine ⟨rfl, rfl, rfl, fun i k => ?_⟩
  by_cases h : (0, getUniqueSeriesKey []) = (i, k)
  · simp [TimeSeriesData.points, oneSeries, TimeSeriesData.keyed, itemsOf, h]
  · simp [TimeSeriesData.points, oneSeries, TimeSeriesData.keyed, itemsOf, h]

/-- The time series of the metric: both missing ranges are in the result. -/
theorem metricQuery_keeps_timeSeries :
    KeepsPayload 0 0 0 60000 cachedMinute (metricQuery .timeSeries) := by
  refine (executeWithCache_keeps_iff 0 0 0 60000 cachedMinute (metricQuery .timeSeries) (by decide)
    fun w _ => ⟨_, _, metricQuery_answers _ w⟩).2 ⟨?_, fun _ => .inr rfl, ?_⟩
  · decide +kernel
  · have hpayload : freshPayloads 0 0 60000 cachedMinute (metricQuery .timeSeries) =
        [oneSeries [⟨90000, 1, false⟩], oneSeries [⟨120000, 1, false⟩]] := by decide +kernel
    rw [hpayload]
    intro fresh hmem fresh' hmem' i k p hp p' hp' ht _
    have hvalues : ∀ {values : List (TimeSeriesValue Nat)} {p : TimeSeriesValue Nat},
        p ∈ (oneSeries values).points i k → p ∈ values := by
      intro values p hp
      obtain ⟨s, hs, hps⟩ := TimeSeriesData.mem_points.1 hp
      simp only [oneSeries, TimeSeriesData.keyed, List.flatMap_cons, List.flatMap_nil,
        List.map_cons, List.map_nil, List.append_nil, List.mem_singleton, Prod.mk.injEq] at hs
      rw [hs.2] at hps
      exact hps
    simp only [List.mem_cons, List.not_mem_nil, or_false] at hmem hmem'
    rcases hmem with rfl | rfl <;> rcases hmem' with rfl | rfl <;>
      obtain rfl := List.mem_singleton.1 (hvalues hp) <;>
      obtain rfl := List.mem_singleton.1 (hvalues hp')
    · rfl
    · simp at ht
    · simp at ht
    · rfl

/-- The scalar query of the same metric returns no payload. -/
theorem metricQuery_loses_scalar :
    ¬ KeepsPayload 0 0 0 60000 cachedMinute (metricQuery .scalar) := by
  have hvalue : (executeWithCache 0 0 0 cachedMinute (metricQuery .scalar) 60000).1.map
      (fun r => r.value) = some .none := by decide +kernel
  rintro ⟨r, d, hr, hd, -⟩
  rw [hr] at hvalue
  simp [hd] at hvalue

end Signoz.Querier
