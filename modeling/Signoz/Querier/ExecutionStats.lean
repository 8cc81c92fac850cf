import Signoz.Querier.PayloadKept

/-!
# The statistics of a partially cached query

The statistics of a result should be those of the cached result, which are zero when there is none,
plus those of every range that is executed. `executeWithCache` adds the statistics of the executed
ranges to what `mergeResults` returns. Without a cached result that is the only fresh result, or a
result that begins with the statistics of the first one, so these are counted twice.
`executeWithCache_stats_iff` says that this is the only way in which the count goes wrong.
-/

namespace Signoz.Querier

namespace ExecStats

@[simp] theorem zero_add (s : ExecStats) : ExecStats.zero.add s = s := by
  cases s
  simp [ExecStats.zero, ExecStats.add]

/-- Statistics that change nothing when they are added are zero. -/
theorem add_eq_right_iff (a b : ExecStats) : a.add b = b ↔ a = .zero := by
  cases a
  cases b
  simp [ExecStats.add, ExecStats.zero]

end ExecStats

section ExecutionStats

variable {V : Type}

/-- The statistics of the cached result, zero when there is none. -/
def cachedStats (fluxMs getMs stepMs : Nat) (cache : Cache V) (q : Query V) : ExecStats :=
  match (getMissRanges fluxMs getMs cache q.fingerprint q.window.fromMs q.window.toMs stepMs).1 with
  | none => .zero
  | some cachedResult => cachedResult.stats

/-- The statistics of one execution, zero when it fails. -/
def Query.statsOf (q : Query V) (w : TimeRange) : ExecStats :=
  match q.execute w with
  | none => .zero
  | some r => r.stats

/-- The statistics of several executions, each counted once. -/
def Query.statsOfAll (q : Query V) (windows : List TimeRange) : ExecStats :=
  windows.foldl (fun s w => s.add (q.statsOf w)) .zero

/-- There is a result, and its statistics are those of the cached result plus those of the executed
windows. -/
def CountsOnce [JsonValue V] (fluxMs getMs putMs stepMs : Nat) (cache : Cache V)
    (q : Query V) : Prop :=
  ∃ r, (executeWithCache fluxMs getMs putMs cache q stepMs).1 = some r ∧
    r.stats = (cachedStats fluxMs getMs stepMs cache q).add
      (q.statsOfAll (executedWindows fluxMs getMs stepMs cache q))

/-- When every execution is counted once: something is read from the cache, or the whole window is
missing, or the first execution has nothing to count. -/
def StatsSafe (fluxMs getMs stepMs : Nat) (cache : Cache V) (q : Query V) : Prop :=
  relevantBuckets cache q ≠ [] ∨ missingRanges fluxMs getMs stepMs cache q = [q.window] ∨
    ∀ w ∈ (executedWindows fluxMs getMs stepMs cache q).head?, q.statsOf w = .zero

theorem countsOnce_iff_of_result [JsonValue V] {fluxMs getMs putMs stepMs : Nat}
    {cache : Cache V} {q : Query V} {r : Result V}
    (h : (executeWithCache fluxMs getMs putMs cache q stepMs).1 = some r) :
    CountsOnce fluxMs getMs putMs stepMs cache q ↔
      r.stats = (cachedStats fluxMs getMs stepMs cache q).add
        (q.statsOfAll (executedWindows fluxMs getMs stepMs cache q)) := by
  constructor
  · rintro ⟨r', hr', hstats⟩
    obtain rfl : r = r' := Option.some.inj (h.symm.trans hr')
    exact hstats
  · intro hstats
    exact ⟨r, h, hstats⟩

/-- The total of the code is the total over the windows that were executed. -/
theorem totalStats_eq_statsOfAll {q : Query V} {missing : List TimeRange} :
    ∀ {fresh : List (Result V)}, missing.mapM (fun tr =>
        (createRangedQuery q tr).execute (createRangedQuery q tr).window) = some fresh →
      ∀ s : ExecStats, fresh.foldl (fun s r => s.add r.stats) s =
        (missing.map fun tr => (createRangedQuery q tr).window).foldl
          (fun s w => s.add (q.statsOf w)) s := by
  induction missing with
  | nil =>
    intro fresh h s
    obtain rfl : fresh = [] := by simpa using h.symm
    rfl
  | cons tr missing ih =>
    intro fresh h s
    simp only [List.mapM_cons, createRangedQuery_execute, Option.bind_eq_bind,
      Option.bind_eq_some_iff] at h
    obtain ⟨r, hr, rest, hrest, hfresh⟩ := h
    obtain rfl : r :: rest = fresh := Option.some.inj hfresh
    have hone : q.statsOf (createRangedQuery q tr).window = r.stats := by
      rw [Query.statsOf, hr]
    rw [List.foldl_cons, List.map_cons, List.foldl_cons, hone]
    refine ih ?_ _
    simpa only [createRangedQuery_execute] using hrest

/-- Every missing range is executed when each of them succeeds. -/
theorem exists_mapM_of_executes {q : Query V} {missing : List TimeRange}
    (h : ∀ w ∈ missing.map fun tr => (createRangedQuery q tr).window, ∃ r, q.execute w = some r) :
    ∃ fresh, missing.mapM (fun tr =>
        (createRangedQuery q tr).execute (createRangedQuery q tr).window) = some fresh ∧
      fresh.length = missing.length := by
  induction missing with
  | nil => exact ⟨[], rfl, rfl⟩
  | cons tr missing ih =>
    rw [List.map_cons, List.forall_mem_cons] at h
    obtain ⟨⟨r, hr⟩, hrest⟩ := h
    obtain ⟨fresh, hmap, hlen⟩ := ih hrest
    refine ⟨r :: fresh, ?_, by simp [hlen]⟩
    simp only [createRangedQuery_execute] at hmap
    simp [List.mapM_cons, createRangedQuery_execute, hr, hmap]

/-- Merging without a cached result starts with the statistics of the first fresh one. -/
theorem mergeResults_none_stats (r : Result V) (rest : List (Result V)) :
    ∃ merged, mergeResults none (r :: rest) = some merged ∧ merged.stats = r.stats := by
  cases rest with
  | nil => exact ⟨r, rfl, rfl⟩
  | cons r' rest => exact ⟨_, rfl, rfl⟩

/-- Merging into a result that was read from the cache keeps its statistics. -/
theorem mergeResults_cached_stats {cache : Cache V} {q : Query V} {first : CachedBucket V}
    {c : Result V} (hread : ReadFrom cache q first c) (fresh : List (Result V)) :
    ∃ merged, mergeResults (some c) fresh = some merged ∧ merged.stats = c.stats := by
  cases fresh with
  | nil => exact ⟨c, rfl, rfl⟩
  | cons r fresh =>
    by_cases hts : first.type = .timeSeries
    · have hvalue := hread.value
      rw [if_pos hts] at hvalue
      refine ⟨{ c with
        value := .timeSeries (mergeTimeSeriesResults (some (cachedData cache q)) (r :: fresh))
        warnings := c.warnings ++ (r :: fresh).flatMap Result.warnings }, ?_, rfl⟩
      simp [mergeResults, hread.type, hts, hvalue]
    · refine ⟨{ c with warnings := c.warnings ++ (r :: fresh).flatMap Result.warnings }, ?_, rfl⟩
      simp [mergeResults, hread.type, hts]

/-- When all executed windows succeed and there are some, the statistics count the cached result and
every execution once exactly when something was cached, or the whole window was executed, or the
first execution had nothing to count. -/
theorem executeWithCache_stats_iff [JsonValue V] (fluxMs getMs putMs stepMs : Nat)
    (cache : Cache V) (q : Query V) (hmissing : missingRanges fluxMs getMs stepMs cache q ≠ [])
    (hexecutes : ∀ w ∈ executedWindows fluxMs getMs stepMs cache q, ∃ r, q.execute w = some r) :
    CountsOnce fluxMs getMs putMs stepMs cache q ↔ StatsSafe fluxMs getMs stepMs cache q := by
  by_cases hwhole : relevantBuckets cache q = [] ∧
      missingRanges fluxMs getMs stepMs cache q = [q.window]
  · -- the whole window is executed, and its result returned as it is
    have hexec : executedWindows fluxMs getMs stepMs cache q = [q.window] := if_pos hwhole
    rcases getMissRanges_cases fluxMs getMs stepMs cache q with
      ⟨-, hget⟩ | ⟨first, rest, c, hrel, -, -⟩
    · obtain ⟨r, hr⟩ := hexecutes q.window (by rw [hexec]; exact List.mem_singleton_self _)
      have hresult : (executeWithCache fluxMs getMs putMs cache q stepMs).1 = some r := by
        rw [executeWithCache, hget, hwhole.2]
        simp [executeFully, hr]
      rw [countsOnce_iff_of_result hresult]
      refine iff_of_true ?_ (Or.inr (Or.inl hwhole.2))
      simp [cachedStats, hget, hexec, Query.statsOfAll, Query.statsOf, hr]
    · rw [hwhole.1] at hrel
      cases hrel
  · have hexec : executedWindows fluxMs getMs stepMs cache q =
        (missingRanges fluxMs getMs stepMs cache q).map fun tr =>
          (createRangedQuery q tr).window := if_neg hwhole
    rw [hexec] at hexecutes
    obtain ⟨fresh, hmap, hlen⟩ := exists_mapM_of_executes hexecutes
    have htotal : totalStats fresh = q.statsOfAll (executedWindows fluxMs getMs stepMs cache q) := by
      rw [hexec]
      exact totalStats_eq_statsOfAll hmap .zero
    rcases getMissRanges_cases fluxMs getMs stepMs cache q with
      ⟨hrel, hget⟩ | ⟨first, rest, c, hrel, hread, hget⟩
    · obtain ⟨tr, missing, hm⟩ := List.exists_cons_of_ne_nil hmissing
      cases fresh with
      | nil =>
        rw [hm] at hlen
        simp at hlen
      | cons r rest =>
        obtain ⟨merged, hmerge, hstats⟩ := mergeResults_none_stats r rest
        have hresult := executeMissing_fst fluxMs putMs stepMs cache hmap hmerge
        have hnone : executeWithCache fluxMs getMs putMs cache q stepMs =
            executeMissing fluxMs putMs cache q stepMs none
              (missingRanges fluxMs getMs stepMs cache q) := by
          rw [executeWithCache, hget]
          cases hm : missingRanges fluxMs getMs stepMs cache q with
          | nil => exact absurd hm hmissing
          | cons tr more =>
            cases more with
            | nil =>
              have htr : tr ≠ q.window := fun h => hwhole ⟨hrel, by rw [hm, h]⟩
              simp [htr]
            | cons tr' more => rfl
        rw [← hnone] at hresult
        -- the first result is in the total and in what was merged
        have hfirst : q.statsOf (createRangedQuery q tr).window = r.stats := by
          rw [hm] at hmap
          simp only [List.mapM_cons, createRangedQuery_execute, Option.bind_eq_bind,
            Option.bind_eq_some_iff] at hmap
          obtain ⟨r', hr', rest', -, hfresh⟩ := hmap
          obtain ⟨rfl, -⟩ := List.cons.inj (Option.some.inj hfresh)
          rw [Query.statsOf, hr']
        have hcached : cachedStats fluxMs getMs stepMs cache q = .zero := by
          rw [cachedStats, hget]
        rw [countsOnce_iff_of_result hresult, hcached, ← htotal, ExecStats.zero_add, hstats,
          ExecStats.add_eq_right_iff]
        constructor
        · intro hzero
          refine Or.inr (Or.inr fun w hw => ?_)
          rw [hexec, hm] at hw
          obtain rfl := Option.some.inj hw
          rw [hfirst, hzero]
        · rintro (h | h | h)
          · exact absurd hrel h
          · exact absurd ⟨hrel, h⟩ hwhole
          · rw [← hfirst]
            refine h _ ?_
            rw [hexec, hm]
            rfl
    · obtain ⟨merged, hmerge, hstats⟩ := mergeResults_cached_stats hread fresh
      have hresult := executeMissing_fst fluxMs putMs stepMs cache hmap hmerge
      have hsome : executeWithCache fluxMs getMs putMs cache q stepMs =
          executeMissing fluxMs putMs cache q stepMs (some c)
            (missingRanges fluxMs getMs stepMs cache q) := by
        obtain ⟨tr, missing, hm⟩ := List.exists_cons_of_ne_nil hmissing
        rw [executeWithCache, hget, hm]
      rw [← hsome] at hresult
      have hcached : cachedStats fluxMs getMs stepMs cache q = c.stats := by
        rw [cachedStats, hget]
      rw [countsOnce_iff_of_result hresult]
      refine iff_of_true ?_ (Or.inl (by rw [hrel]; exact List.cons_ne_nil _ _))
      rw [hcached, ← htotal, hstats]

end ExecutionStats

/-- The metric query, whose executions scan one row for each second of the window. -/
def countingQuery : Query Nat :=
  { metricQuery .timeSeries with
    execute := fun w => some ⟨.timeSeries, .timeSeries (oneSeries [⟨w.fromMs, 1, false⟩]),
      ⟨(w.toMs - w.fromMs) / 1000, 0, 0⟩, [], ""⟩ }

/-- A minute that is cached inside the window. -/
def cachedInside : Cache Nat := fun _ =>
  some ⟨[⟨120000, 180000, .timeSeries, oneSeries [⟨120000, some 1, false⟩],
    ⟨60, 0, 0⟩⟩], []⟩

/-- A minute of the window is cached: 60 rows of it, 30 and 60 rows of the two missing ranges. -/
theorem countingQuery_counts_cached :
    CountsOnce 0 0 0 60000 cachedInside countingQuery :=
  (executeWithCache_stats_iff 0 0 0 60000 cachedInside countingQuery (by decide +kernel)
    fun _ _ => ⟨_, rfl⟩).2 (Or.inl (by decide +kernel))

/-- The cached minute is outside the window: 30 and 120 rows are scanned, and 180 are reported. -/
theorem countingQuery_counts_twice :
    ¬ CountsOnce 0 0 0 60000 cachedMinute countingQuery := by
  have hrows : (executeWithCache 0 0 0 cachedMinute countingQuery 60000).1.map
      (fun r => r.stats) = some ⟨180, 0, 0⟩ := by decide +kernel
  have htotal : (cachedStats 0 0 60000 cachedMinute countingQuery).add
      (countingQuery.statsOfAll (executedWindows 0 0 60000 cachedMinute countingQuery)) =
        ⟨150, 0, 0⟩ := by decide +kernel
  rintro ⟨r, hr, hstats⟩
  rw [hr, Option.map_some, hstats, htotal] at hrows
  simp at hrows

end Signoz.Querier
