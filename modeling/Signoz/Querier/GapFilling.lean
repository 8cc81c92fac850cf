import Signoz.Querier.PostProcess

/-!
# Gap filling

With `FillGaps` set, every series of an enabled builder query or formula should have a point at
every timestamp of its grid, and keep every point it had (`GapsFilled`). `fillValues_eq` says what
the gap-filling loop makes of one series: nothing if it is empty or the step is not positive, and
otherwise the points at the timestamps of the grid. `gapsFilled_iff` gives the exact condition on
the results that the loop starts from. An empty series stays empty, so the empty buckets that the
loop builds for a query without data are never filled.
-/

namespace Signoz.Querier

open Lib.KeyedFold Float64

section

variable {V : Type}

/-- All series of a result. -/
def Payload.allSeries : Payload V → List (TimeSeries V)
  | .timeSeries d => d.aggregations.flatMap AggregationBucket.series
  | _ => []

/-- The grid of a query: from `start - start % step` to `end`. -/
def QueryRangeRequest.grid (req : QueryRangeRequest V) (step : Int) : List Int :=
  fillTimestamps (req.start - (req.start : Int).tmod step) req.stop step

/-- The names of the enabled builder queries and formulas. -/
def QueryRangeRequest.enabledNames (req : QueryRangeRequest V) : List String :=
  req.queries.filterMap fun
    | .builder _ q => if q.disabled then none else some q.name
    | .formula f => if f.disabled then none else some f.name
    | _ => none

/-- A series has a point at every one of the timestamps. -/
def TimeSeries.Covers (s : TimeSeries V) (timestamps : List Int) : Prop :=
  ∀ t ∈ timestamps, ∃ p ∈ s.values, p.timestamp = t

/-- A series keeps the points of another, with their values. -/
def TimeSeries.KeepsPointsOf (s s₀ : TimeSeries V) : Prop :=
  ∀ p ∈ s₀.values, ∃ q ∈ s.values, q.timestamp = p.timestamp ∧ q.value = p.value

/-- The result of a query is filled: there is a series, every series covers the grid, and each
series keeps its points. -/
def Filled (req : QueryRangeRequest V) (step : Int) (before after : Payload V) : Prop :=
  0 < step ∧ after.allSeries ≠ [] ∧ (∀ s ∈ after.allSeries, s.Covers (req.grid step)) ∧
    ∀ (i : Nat) (s₀ : TimeSeries V), before.allSeries[i]? = some s₀ →
      ∃ s, after.allSeries[i]? = some s ∧ s.labels = s₀.labels ∧ s.KeepsPointsOf s₀

variable [Float64 V]

/-- Gap filling works: there are results, and in them every enabled builder query and formula is
filled on the grid of its step. -/
def GapsFilled (env : Environment V) (req : QueryRangeRequest V)
    (order : List (String × QueryBuilderFormula V)) (results : Results V) : Prop :=
  ∃ after, postProcessResults env req order results = .ok after ∧
    ∀ name ∈ req.enabledNames, ∃ step before value,
      req.stepIntervalForQuery env name = .ok step ∧
      (beforeFilling env req order results).lookup name = some before ∧
      after.lookup name = some value ∧ Filled req step before value

/-! ## One series -/

/-- The timestamps that `fillZero` gives a series, from the window and the step as `float64`
numbers; `none` where it does nothing. -/
def fillTimes (req : QueryRangeRequest V) (step : Int) : Option (List Int) :=
  let start := toInt (ofInt req.start : V)
  let stop := toInt (ofInt req.stop : V)
  let stepMs := toInt (ofInt step : V)
  if le (ofInt step : V) (ofInt 0) ∨ stepMs ≤ 0 then none
  else some (fillTimestamps (start - start.tmod stepMs) stop stepMs)

/-- The points of a series after gap filling. -/
def fillValues (req : QueryRangeRequest V) (step : Int) (values : List (TimeSeriesValue V)) :
    List (TimeSeriesValue V) :=
  applyFunctionsToValues (prepareFillZeroArgsWithStep [⟨.fillZero, []⟩] req step) values

omit [Float64 V] in
theorem lookup_existingValues (values : List (TimeSeriesValue V)) (t : Int) :
    (accumulate id (fun _ v => v) [] (values.map fun v => (v.timestamp, v))).lookup t =
      pointAt values t := by
  have hitems : itemsOf t (values.map fun v => (v.timestamp, v)) =
      values.filter fun v => v.timestamp = t := by
    induction values with
    | nil => rfl
    | cons v values ih =>
      rw [List.map_cons, itemsOf_cons, ih, List.filter_cons]
      by_cases h : v.timestamp = t <;> simp [h]
  rw [lookup_accumulate, hitems, List.lookup_nil, foldItems_replace_eq_getLast?, pointAt,
    ← List.head?_filter, List.filter_reverse, List.head?_reverse]

theorem fillValues_eq (req : QueryRangeRequest V) (step : Int)
    (values : List (TimeSeriesValue V)) :
    fillValues req step values =
      if values = [] then [] else
        match fillTimes req step with
        | none => values
        | some times => times.map fun t => (pointAt values t).getD ⟨t, ofInt 0, false⟩ := by
  by_cases hempty : values = []
  · subst hempty
    rfl
  · rw [if_neg hempty]
    have hargs : fillValues req step values =
        applyFillZero [.float (ofInt req.start), .float (ofInt req.stop), .float (ofInt step)]
          values := by
      simp [fillValues, prepareFillZeroArgsWithStep, applyFunctionsToValues, applyFunction, hempty]
    rw [hargs]
    simp only [applyFillZero, parseFloat64Arg, fillTimes, funcFillZero, lookup_existingValues]
    by_cases hle : le (ofInt step : V) (ofInt 0)
    · simp [hle]
    · by_cases hstep : toInt (ofInt step : V) ≤ 0
      · simp [hle, hstep]
      · simp [hle, hstep]

variable {values : List (TimeSeriesValue V)} {p : TimeSeriesValue V}

omit [Float64 V] in
theorem timestamp_of_pointAt {t : Int} (h : pointAt values t = some p) : p.timestamp = t := by
  simpa using List.find?_some h

omit [Float64 V] in
theorem mem_of_pointAt {t : Int} (h : pointAt values t = some p) : p ∈ values :=
  List.mem_reverse.1 (List.mem_of_find?_eq_some h)

omit [Float64 V] in
theorem pointAt_isSome (h : p ∈ values) : ∃ q, pointAt values p.timestamp = some q := by
  rw [← Option.isSome_iff_exists, pointAt, List.find?_isSome]
  exact ⟨p, List.mem_reverse.2 h, by simp⟩

/-- When gap filling fills a series: where it does nothing, the series must cover the grid
already; otherwise the series is not empty, the grid of the converted numbers contains the grid of
the query, every point lies on it, and no later point of the same timestamp has another value. -/
def SeriesFillable (req : QueryRangeRequest V) (skipped : Bool) (step : Int)
    (s : TimeSeries V) : Prop :=
  match if skipped then none else fillTimes req step with
  | none => s.Covers (req.grid step)
  | some times =>
    s.values ≠ [] ∧ (∀ t ∈ req.grid step, t ∈ times) ∧
      ∀ p ∈ s.values, p.timestamp ∈ times ∧
        ∃ q, pointAt s.values p.timestamp = some q ∧ q.value = p.value

variable {req : QueryRangeRequest V} {step : Int}

/-- Where the window and the step survive the conversion to `float64`, the series is filled on the
grid itself: it must have a point, and each of its points must lie on the grid and be the last of
its timestamp up to its value. -/
theorem seriesFillable_of_exact (hstep : 0 < step)
    (hstart : toInt (ofInt req.start : V) = req.start)
    (hstop : toInt (ofInt req.stop : V) = req.stop) (hstepMs : toInt (ofInt step : V) = step)
    (hle : le (ofInt step : V) (ofInt 0) = false) (s : TimeSeries V) :
    SeriesFillable req false step s ↔
      s.values ≠ [] ∧ ∀ p ∈ s.values, p.timestamp ∈ req.grid step ∧
        ∃ q, pointAt s.values p.timestamp = some q ∧ q.value = p.value := by
  have htimes : fillTimes req step = some (req.grid step) := by
    simp [fillTimes, hstart, hstop, hstepMs, hle, Int.not_le.2 hstep, QueryRangeRequest.grid]
  simp only [SeriesFillable, Bool.false_eq_true, if_false, htimes]
  exact and_congr_right fun _ => and_iff_right fun _ ht => ht

/-- A series after the gap-filling loop. -/
def fillSeries (req : QueryRangeRequest V) (skipped : Bool) (step : Int) (s : TimeSeries V) :
    TimeSeries V :=
  if skipped then s else ⟨s.labels, fillValues req step s.values⟩

theorem labels_fillSeries (req : QueryRangeRequest V) (skipped : Bool) (step : Int)
    (s : TimeSeries V) : (fillSeries req skipped step s).labels = s.labels := by
  unfold fillSeries
  split <;> rfl

omit [Float64 V] in
theorem TimeSeries.keepsPointsOf_self (s : TimeSeries V) : s.KeepsPointsOf s :=
  fun p hp => ⟨p, hp, rfl, rfl⟩

/-- A series that is filled has points exactly at the timestamps it is filled at. -/
theorem fillValues_covers_iff {times : List Int} (htimes : fillTimes req step = some times)
    {s : TimeSeries V} (hs : s.values ≠ []) (grid : List Int) :
    (⟨s.labels, fillValues req step s.values⟩ : TimeSeries V).Covers grid ↔
      ∀ t ∈ grid, t ∈ times := by
  have hvalues := fillValues_eq req step s.values
  rw [if_neg hs, htimes] at hvalues
  have hstamp : ∀ t, ((pointAt s.values t).getD ⟨t, ofInt 0, false⟩).timestamp = t := by
    intro t
    cases hp : pointAt s.values t with
    | none => rfl
    | some p => exact timestamp_of_pointAt hp
  simp only [TimeSeries.Covers, hvalues, List.mem_map]
  constructor
  · intro h t ht
    obtain ⟨p, ⟨t', ht', rfl⟩, hpt⟩ := h t ht
    rwa [← hpt, hstamp]
  · exact fun h t ht => ⟨_, ⟨t, h t ht, rfl⟩, hstamp t⟩

theorem fillValues_keeps_iff {times : List Int} (htimes : fillTimes req step = some times)
    {s : TimeSeries V} (hs : s.values ≠ []) :
    (⟨s.labels, fillValues req step s.values⟩ : TimeSeries V).KeepsPointsOf s ↔
      ∀ p ∈ s.values, p.timestamp ∈ times ∧
        ∃ q, pointAt s.values p.timestamp = some q ∧ q.value = p.value := by
  have hvalues := fillValues_eq req step s.values
  rw [if_neg hs, htimes] at hvalues
  simp only [TimeSeries.KeepsPointsOf, hvalues, List.mem_map]
  constructor
  · intro h p hp
    obtain ⟨p', ⟨t, ht, rfl⟩, hstamp, hvalue⟩ := h p hp
    cases hq : pointAt s.values t with
    | none =>
      -- a zero is filled in at `t`, yet `p` lies there
      rw [hq, Option.getD_none] at hstamp
      obtain ⟨q, hq'⟩ := pointAt_isSome hp
      rw [← hstamp, hq] at hq'
      cases hq'
    | some q =>
      rw [hq, Option.getD_some] at hstamp hvalue
      have ht' : t = p.timestamp := (timestamp_of_pointAt hq).symm.trans hstamp
      exact ⟨ht' ▸ ht, q, ht' ▸ hq, hvalue⟩
  · intro h p hp
    obtain ⟨ht, q, hq, hvalue⟩ := h p hp
    refine ⟨q, ⟨p.timestamp, ht, by rw [hq, Option.getD_some]⟩, timestamp_of_pointAt hq, hvalue⟩

theorem seriesFillable_iff (hgrid : req.grid step ≠ []) (skipped : Bool) (s : TimeSeries V) :
    ((fillSeries req skipped step s).Covers (req.grid step) ∧
      (fillSeries req skipped step s).KeepsPointsOf s) ↔ SeriesFillable req skipped step s := by
  have hempty : ¬(⟨s.labels, []⟩ : TimeSeries V).Covers (req.grid step) := by
    intro h
    obtain ⟨t, ht⟩ := List.exists_mem_of_ne_nil _ hgrid
    obtain ⟨p, hp, -⟩ := h t ht
    exact List.not_mem_nil hp
  cases skipped with
  | true => exact and_iff_left (TimeSeries.keepsPointsOf_self s)
  | false =>
    simp only [fillSeries, SeriesFillable, Bool.false_eq_true, if_false]
    cases htimes : fillTimes req step with
    | none =>
      have hsame : (⟨s.labels, fillValues req step s.values⟩ : TimeSeries V) = s := by
        rw [fillValues_eq, htimes]
        split_ifs with h
        · exact h ▸ rfl
        · rfl
      rw [hsame]
      exact and_iff_left (TimeSeries.keepsPointsOf_self s)
    | some times =>
      by_cases hs : s.values = []
      · rw [hs, fillValues_eq, if_pos rfl]
        exact ⟨fun h => absurd h.1 hempty, fun h => absurd rfl h.1⟩
      · rw [fillValues_covers_iff htimes hs, fillValues_keeps_iff htimes hs]
        exact ⟨fun h => ⟨hs, h⟩, fun h => h.2⟩

/-! ## One result -/

theorem allSeries_applyFunctions (value : Payload V) (functions : List (Function V)) :
    (applyFunctions value functions).allSeries =
      value.allSeries.map (applyFunctionsToSeries functions) := by
  cases value <;>
    simp [applyFunctions, Payload.mapSeries, Payload.allSeries, List.map_flatMap,
      List.flatMap_map]

/-- The value of a name after the gap-filling loop. -/
def filledValue (req : QueryRangeRequest V) (name : String) (step : Int) (value : Payload V) :
    Payload V :=
  if req.skipFillGaps name then value else fillGapsOf req name step value

variable {name : String} {value : Payload V}

omit [Float64 V] in
theorem addEmptyBuckets_of_series (h : value.allSeries ≠ []) :
   addEmptyBuckets req name value = value := by
  cases value with
  | timeSeries d =>
    have hne : d.aggregations ≠ [] := fun hnil => h (by simp [Payload.allSeries, hnil])
    simp [addEmptyBuckets, hne]
  | _ => rfl

omit [Float64 V] in
theorem values_addEmptyBuckets_of_nil (h : value.allSeries = []) :
    ∀ s ∈ (addEmptyBuckets req name value).allSeries, s.values = [] := by
  cases value with
  | timeSeries d =>
    by_cases hnil : d.aggregations = []
    · simp only [addEmptyBuckets, hnil, List.isEmpty_nil, if_true, Payload.allSeries,
        emptyBuckets, List.mem_flatMap, List.mem_map]
      rintro s ⟨_, ⟨_, _, rfl⟩, hmem⟩
      rw [List.mem_singleton.1 hmem]
    · have hsame : addEmptyBuckets req name (.timeSeries d) = .timeSeries d := by
        simp [addEmptyBuckets, hnil]
      simp [hsame, h]
  | _ => simp [addEmptyBuckets, Payload.allSeries]

/-- A result with series has them filled in place. -/
theorem allSeries_filledValue (req : QueryRangeRequest V) (name : String) (step : Int)
    (h : value.allSeries ≠ []) :
    (filledValue req name step value).allSeries =
      value.allSeries.map (fillSeries req (req.skipFillGaps name) step) := by
  unfold filledValue
  by_cases hskip : req.skipFillGaps name
  · have hid : fillSeries req (req.skipFillGaps name) step = id := by
      funext s
      simp [fillSeries, hskip]
    rw [if_pos hskip, hid, List.map_id]
  · have hfill : applyFunctionsToSeries (prepareFillZeroArgsWithStep [⟨.fillZero, []⟩] req step) =
        fillSeries req (req.skipFillGaps name) step := by
      funext s
      simp [fillSeries, hskip, applyFunctionsToSeries, fillValues]
    rw [if_neg hskip, fillGapsOf, addEmptyBuckets_of_series h, allSeries_applyFunctions, hfill]

/-- A result without series gets at most empty series, which stay empty. -/
theorem values_filledValue_of_nil (h : value.allSeries = []) :
    ∀ s ∈ (filledValue req name step value).allSeries, s.values = [] := by
  unfold filledValue
  split_ifs
  · simp [h]
  · rw [fillGapsOf, allSeries_applyFunctions]
    intro s hs
    obtain ⟨s', hs', rfl⟩ := List.mem_map.1 hs
    have hvalues := fillValues_eq req step s'.values
    rw [if_pos (values_addEmptyBuckets_of_nil h s' hs')] at hvalues
    exact hvalues

theorem filled_iff (hgrid : 0 < step → req.grid step ≠ []) (value : Payload V) :
    Filled req step value (filledValue req name step value) ↔
      0 < step ∧ value.allSeries ≠ [] ∧
        ∀ s ∈ value.allSeries, SeriesFillable req (req.skipFillGaps name) step s := by
  by_cases hstep : 0 < step
  swap
  · exact ⟨fun h => absurd h.1 hstep, fun h => absurd h.1 hstep⟩
  by_cases hnil : value.allSeries = []
  · constructor
    · rintro ⟨-, hne, hcovers, -⟩
      obtain ⟨s, hs⟩ := List.exists_mem_of_ne_nil _ hne
      obtain ⟨t, ht⟩ := List.exists_mem_of_ne_nil _ (hgrid hstep)
      obtain ⟨p, hp, -⟩ := hcovers s hs t ht
      rw [values_filledValue_of_nil hnil s hs] at hp
      exact absurd hp List.not_mem_nil
    · exact fun h => absurd hnil h.2.1
  · rw [Filled, allSeries_filledValue req name step hnil]
    simp only [hstep, true_and, ne_eq, List.map_eq_nil_iff, hnil, not_false_eq_true,
      List.forall_mem_map, List.getElem?_map, ← seriesFillable_iff (hgrid hstep)]
    constructor
    · rintro ⟨hcovers, hkeeps⟩ s hs
      obtain ⟨i, hi⟩ := List.getElem?_of_mem hs
      obtain ⟨s', hs', -, hkeep⟩ := hkeeps i s hi
      rw [hi, Option.map_some, Option.some_inj] at hs'
      exact ⟨hcovers s hs, hs' ▸ hkeep⟩
    · intro h
      refine ⟨fun s hs => (h s hs).1, fun i s hi => ?_⟩
      rw [hi]
      exact ⟨_, rfl, labels_fillSeries _ _ _ _, (h s (List.mem_of_getElem? hi)).2⟩

/-! ## The whole request -/

/-- The value of a name after the gap-filling loop, with the step of the request. -/
def filledAt (env : Environment V) (req : QueryRangeRequest V) (name : String)
    (value : Payload V) : Payload V :=
  match req.stepIntervalForQuery env name with
  | .ok step => filledValue req name step value
  | .error _ => value

theorem fillGaps_cons (env : Environment V) (req : QueryRangeRequest V)
    (p : String × Payload V) (rest : Results V) :
    fillGaps env req (p :: rest) =
      (if req.skipFillGaps p.1 then Except.ok p
        else (req.stepIntervalForQuery env p.1).map
          fun step => (p.1, fillGapsOf req p.1 step p.2)).bind
        fun q => (fillGaps env req rest).map fun after => q :: after := by
  simp only [fillGaps, List.mapM_cons]
  rfl

/-- The gap-filling loop fails if a name that it does not skip has no step, and otherwise fills
every result in its place. -/
theorem fillGaps_eq_ok_iff {env : Environment V} {results after : Results V} :
    fillGaps env req results = .ok after ↔
      (∀ p ∈ results, req.skipFillGaps p.1 ∨
        ∃ step, req.stepIntervalForQuery env p.1 = .ok step) ∧
      after = results.map fun p => (p.1, filledAt env req p.1 p.2) := by
  induction results generalizing after with
  | nil => exact ⟨fun h => ⟨by simp, (Except.ok.inj h).symm⟩, fun h => h.2 ▸ rfl⟩
  | cons p rest ih =>
    have hrest : ∀ q : String × Payload V,
        ((fillGaps env req rest).map fun after => q :: after) = .ok after ↔
          (∀ p ∈ rest, req.skipFillGaps p.1 ∨
            ∃ step, req.stepIntervalForQuery env p.1 = .ok step) ∧
          after = q :: rest.map fun p => (p.1, filledAt env req p.1 p.2) := by
      intro q
      cases hfill : fillGaps env req rest with
      | error e =>
        refine ⟨fun h => (by cases h), fun h => ?_⟩
        have hok := ih.2 ⟨h.1, rfl⟩
        rw [hfill] at hok
        cases hok
      | ok l =>
        obtain ⟨hsteps, rfl⟩ := ih.1 hfill
        exact ⟨fun h => ⟨hsteps, (Except.ok.inj h).symm⟩, fun h => h.2 ▸ rfl⟩
    rw [fillGaps_cons, List.forall_mem_cons, List.map_cons]
    by_cases hskip : req.skipFillGaps p.1
    · have hsame : filledAt env req p.1 p.2 = p.2 := by
        unfold filledAt filledValue
        cases req.stepIntervalForQuery env p.1 <;> simp [hskip]
      rw [if_pos hskip, hsame]
      exact (hrest p).trans (by simp [hskip])
    · rw [if_neg hskip]
      cases hstep : req.stepIntervalForQuery env p.1 with
      | error e =>
        refine ⟨fun h => (by cases h), fun h => ?_⟩
        exact absurd h.1.1 (by simp [hskip])
      | ok step =>
        have hvalue : filledAt env req p.1 p.2 = fillGapsOf req p.1 step p.2 := by
          simp [filledAt, filledValue, hstep, hskip]
        rw [hvalue]
        exact (hrest _).trans (by simp)

omit [Float64 V] in
theorem grid_ne_nil (hvalid : req.start < req.stop) (hstep : 0 < step) : req.grid step ≠ [] := by
  have hmod : 0 ≤ (req.start : Int).tmod step := Int.tmod_nonneg step (by omega)
  have hdiv : 0 ≤ ((req.stop : Int) - (req.start - (req.start : Int).tmod step)) / step :=
    Int.ediv_nonneg (by omega) hstep.le
  intro h
  have hlength := congrArg List.length h
  simp only [QueryRangeRequest.grid, fillTimestamps, List.length_map, List.length_range,
    List.length_nil] at hlength
  omega

/-- Gap filling has what it needs: every name that it does not skip has a step, and every enabled
builder query and formula has a positive step and a result with series, all of them fillable. -/
def Fillable (env : Environment V) (req : QueryRangeRequest V) (before : Results V) : Prop :=
  (∀ p ∈ before, req.skipFillGaps p.1 ∨ ∃ step, req.stepIntervalForQuery env p.1 = .ok step) ∧
    ∀ name ∈ req.enabledNames, ∃ step value,
      req.stepIntervalForQuery env name = .ok step ∧ before.lookup name = some value ∧
        0 < step ∧ value.allSeries ≠ [] ∧
          ∀ s ∈ value.allSeries, SeriesFillable req (req.skipFillGaps name) step s

/-- Gap filling is complete and lossless exactly when the results it starts from are fillable. -/
theorem gapsFilled_iff (env : Environment V) {req : QueryRangeRequest V}
    (hvalid : req.start < req.stop) (htype : req.requestType = .timeSeries)
    (hgaps : (req.formatOptions.map FormatOptions.fillGaps).getD false)
    (order : List (String × QueryBuilderFormula V)) (results : Results V) :
    GapsFilled env req order results ↔
      Fillable env req (beforeFilling env req order results) := by
  have hpost : postProcessResults env req order results =
      fillGaps env req (beforeFilling env req order results) := if_pos ⟨htype, hgaps⟩
  have hlookup : ∀ {name : String} {value : Payload V} {step : Int},
      (beforeFilling env req order results).lookup name = some value →
      req.stepIntervalForQuery env name = .ok step →
      ((beforeFilling env req order results).map fun p =>
        (p.1, filledAt env req p.1 p.2)).lookup name = some (filledValue req name step value) := by
    intro name value step hvalue hstep
    rw [lookup_map_entries (filledAt env req), hvalue, Option.map_some, filledAt, hstep]
  simp only [GapsFilled, hpost, fillGaps_eq_ok_iff]
  constructor
  · rintro ⟨after, ⟨hsteps, rfl⟩, hall⟩
    refine ⟨hsteps, fun name hname => ?_⟩
    obtain ⟨step, before, value, hstep, hbefore, hafter, hfilled⟩ := hall name hname
    rw [hlookup hbefore hstep, Option.some_inj] at hafter
    subst hafter
    exact ⟨step, before, hstep, hbefore, (filled_iff (grid_ne_nil hvalid) before).1 hfilled⟩
  · rintro ⟨hsteps, hall⟩
    refine ⟨_, ⟨hsteps, rfl⟩, fun name hname => ?_⟩
    obtain ⟨step, value, hstep, hvalue, hfillable⟩ := hall name hname
    exact ⟨step, value, _, hstep, hvalue, hlookup hvalue hstep,
      (filled_iff (grid_ne_nil hvalid) value).2 hfillable⟩

end

/-! ## A query without data -/

/-- A count of two minutes with gap filling. -/
def fillRequest : QueryRangeRequest (Option Rat) :=
  ⟨0, 120000, .timeSeries, [.builder false ⟨"A", false, .expressions ["count()"], 60000, [], 0, []⟩],
    some ⟨true, false⟩⟩

/-- A query that returned no rows gets an empty series, which is not filled. -/
theorem noData_not_filled :
    ¬GapsFilled variableEnvironment fillRequest [] [("A", .timeSeries ⟨"A", []⟩)] := by
  rintro ⟨after, hafter, hall⟩
  have hresult : postProcessResults variableEnvironment fillRequest []
      [("A", .timeSeries ⟨"A", []⟩)] =
        .ok [("A", .timeSeries ⟨"A", [⟨0, "", "", [⟨[], []⟩]⟩]⟩)] := by rfl
  obtain rfl := Except.ok.inj (hresult.symm.trans hafter)
  obtain ⟨step, before, value, -, -, hvalue, hstep, -, hcovers, -⟩ := hall "A" (by decide)
  obtain rfl := Option.some.inj hvalue
  obtain ⟨t, ht⟩ := List.exists_mem_of_ne_nil _ (@grid_ne_nil _ fillRequest _ (by decide) hstep)
  obtain ⟨p, hp, -⟩ := hcovers ⟨[], []⟩ (by decide) t ht
  exact absurd hp (by simp)

/-- The count with one point, in its second minute. -/
def secondMinute : TimeSeries (Option Rat) := ⟨[], [⟨60000, some 3, false⟩]⟩

/-- A query with a point on its grid is filled. -/
theorem gapsFilled_onePoint :
    GapsFilled variableEnvironment fillRequest []
      [("A", .timeSeries ⟨"A", [⟨0, "", "", [secondMinute]⟩]⟩)] := by
  have hbefore : beforeFilling variableEnvironment fillRequest []
      [("A", .timeSeries ⟨"A", [⟨0, "", "", [secondMinute]⟩]⟩)] =
        [("A", .timeSeries ⟨"A", [⟨0, "", "", [secondMinute]⟩]⟩)] := by decide +kernel
  have hstep : fillRequest.stepIntervalForQuery variableEnvironment "A" = .ok 60000 := rfl
  have hseries : SeriesFillable fillRequest false 60000 secondMinute := by
    refine (seriesFillable_of_exact (by decide) (by decide +kernel) (by decide +kernel)
      (by decide +kernel) (by decide +kernel) secondMinute).2 ⟨by decide, fun p hp => ?_⟩
    rw [List.mem_singleton.1 hp]
    exact ⟨by decide +kernel, _, rfl, rfl⟩
  refine (gapsFilled_iff variableEnvironment (by decide) rfl rfl _ _).2 ⟨?_, ?_⟩
  · rw [hbefore]
    intro p hp
    rw [List.mem_singleton.1 hp]
    exact Or.inr ⟨_, hstep⟩
  · intro name hname
    obtain rfl : name = "A" := List.mem_singleton.1 hname
    refine ⟨60000, _, hstep, by rw [hbefore]; rfl, by decide, by decide, fun s hs => ?_⟩
    rw [List.mem_singleton.1 hs]
    exact hseries

end Signoz.Querier
