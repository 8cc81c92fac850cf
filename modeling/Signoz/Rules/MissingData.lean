import Signoz.Rules.DuplicateAlerts

/-!
# Missing data

A rule with `AlertOnAbsent` raises the missing data alert by a single remembered time, the last
evaluation whose query returned series. Along a run this decides for every `AbsentFor`: the alert is
raised when all evaluations with data are at least that old (`noDataSample_iff`). A rule that has
never seen data has nothing to wait for, so its first evaluation raises the alert at once
(`first_evaluation_raises`); with a positive `AbsentFor` the alert says that no evaluation of that
last period saw data (`missing_data_respects_absence`).
-/

namespace Signoz.Rules

open Signoz.Querier Lib.Runs

section MissingData

variable {V : Type} [Float64 V] (env : RuleEnv V) (rule : BaseRule V)

/-- `time.Minute`, in nanoseconds. -/
def minuteNanos : Int := 60 * 10 ^ 9

/-- `time.Duration(AbsentFor) * time.Minute`, in `int64`. -/
def absentForDuration (absentFor : Nat) : Int := (absentFor * minuteNanos).bmod (2 ^ 64)

/-- The query of the evaluation returned series. -/
def EvalInput.sawData (input : EvalInput V) : Bool :=
  match input.series with
  | some series => !series.isEmpty
  | none => false

/-- The evaluation produces the sample of the missing data alert. -/
def NoDataSample (state : EvalState V) (input : EvalInput V) : Prop :=
  ∃ smpl ∈ evalSamples env rule state input, smpl.isMissing = true

variable {env rule}

/-! ## One evaluation -/

/-- The sample is produced when the alert is. -/
theorem noDataSample_of_series {state : EvalState V} {input : EvalInput V}
    {series : List (TimeSeries V)} (hseries : input.series = some series) :
    NoDataSample env rule state input ↔
      (handleMissingDataAlert env rule state.lastTimestampWithDatapoints input.ts
        (!series.isEmpty)).2.isSome = true := by
  have hsamples : evalSamples env rule state input =
      (samplesOfQuery env rule state input series).2 := by
    simp only [evalSamples, hseries]
  rw [NoDataSample, hsamples]
  cases halert : (handleMissingDataAlert env rule state.lastTimestampWithDatapoints input.ts
      (!series.isEmpty)).2 with
  | some smpl =>
    simp only [samplesOfQuery, halert]
    refine iff_of_true ⟨smpl, List.mem_singleton_self _, ?_⟩ rfl
    exact handleMissingDataAlert_isMissing halert
  | none =>
    simp only [samplesOfQuery, halert]
    refine iff_of_false ?_ (by simp)
    rintro ⟨smpl, hmem, hmissing⟩
    rw [(mem_samplesOf hmem).2] at hmissing
    cases hmissing

/-- `HandleMissingDataAlert` looks at the later of the last time and the present one. -/
theorem handleMissingDataAlert_isSome (halert : rule.alertOnAbsent = true) (last : Option Int)
    (ts : Int) (hasData : Bool) :
    (handleMissingDataAlert env rule last ts hasData).2.isSome = true ↔
      ∀ t ∈ (if hasData then some ts else last), t + rule.absentFor ≤ ts := by
  rw [handleMissingDataAlert]
  generalize (if hasData then some ts else last) = after
  cases after with
  | none => simp [dataIsRecent, halert]
  | some t =>
    by_cases h : ts < t + rule.absentFor
    · simp [dataIsRecent, halert, h]
    · have hle : t + rule.absentFor ≤ ts := Int.not_lt.1 h
      simp [dataIsRecent, halert, h, hle]

/-- An evaluation remembers its time when it saw data. -/
theorem lastTimestamp_eval (state : EvalState V) (input : EvalInput V) :
    (eval env rule state input).1.lastTimestampWithDatapoints =
      if input.sawData then some input.ts else state.lastTimestampWithDatapoints := by
  have hlast : ∀ hasData : Bool, (handleMissingDataAlert env rule
      state.lastTimestampWithDatapoints input.ts hasData).1 =
        if hasData then some input.ts else state.lastTimestampWithDatapoints := by
    intro hasData
    simp only [handleMissingDataAlert]
    generalize (if hasData then some input.ts else state.lastTimestampWithDatapoints) = last
    split <;> rfl
  cases hseries : input.series with
  | none => simp [eval, EvalInput.sawData, hseries]
  | some series =>
    have hquery : (samplesOfQuery env rule state input series).1 =
        if !series.isEmpty then some input.ts else state.lastTimestampWithDatapoints := by
      rw [samplesOfQuery, ← hlast]
      rcases handleMissingDataAlert env rule state.lastTimestampWithDatapoints input.ts
        (!series.isEmpty) with ⟨last, _ | smpl⟩ <;> rfl
    simp only [eval, EvalInput.sawData, hseries, ← hquery]
    split <;> rfl

/-! ## Runs -/

/-- After a run at increasing times, the remembered time is the latest at which data was seen. -/
structure Remembers (evals : List (EvalInput V)) (last : Option Int) : Prop where
  seen : ∀ t ∈ last, ∃ e ∈ evals, e.sawData = true ∧ e.ts = t
  latest : ∀ e ∈ evals, e.sawData = true → ∃ t ∈ last, e.ts ≤ t

theorem remembers_run {evals : List (EvalInput V)} {state : EvalState V}
    (hincr : evals.Pairwise fun a b => a.ts < b.ts)
    (hrun : exec (evalStep env rule) .new evals = some state) :
    Remembers evals state.lastTimestampWithDatapoints := by
  refine exec_invariant (I := fun evals state => (evals.Pairwise fun a b => a.ts < b.ts) →
    Remembers evals state.lastTimestampWithDatapoints) ?_ ?_ evals state hrun hincr
  · intro _
    refine ⟨?_, ?_⟩
    · intro t ht
      cases ht
    · intro e he
      cases he
  · intro before m input after ih hstep hincr
    obtain ⟨hbefore, -, hlast⟩ := List.pairwise_append.1 hincr
    obtain ⟨hseen, hlatest⟩ := ih hbefore
    obtain rfl := Option.some.inj hstep
    rw [lastTimestamp_eval]
    by_cases hdata : input.sawData = true
    · rw [if_pos hdata]
      refine ⟨?_, ?_⟩
      · rintro t ⟨⟩
        exact ⟨input, by simp, hdata, rfl⟩
      · intro e he _
        refine ⟨input.ts, rfl, ?_⟩
        rcases List.mem_append.1 he with he | he
        · exact (hlast e he input (List.mem_singleton_self _)).le
        · rw [List.mem_singleton.1 he]
    · rw [if_neg hdata]
      refine ⟨?_, ?_⟩
      · intro t ht
        obtain ⟨e, he, hedata, rfl⟩ := hseen t ht
        exact ⟨e, List.mem_append_left _ he, hedata, rfl⟩
      · intro e he hedata
        rcases List.mem_append.1 he with he | he
        · exact hlatest e he hedata
        · exact absurd (List.mem_singleton.1 he ▸ hedata) hdata

/-- Along a run, the sample is produced exactly when the query succeeds and every evaluation that
saw data, this one included, is at least `AbsentFor` old. -/
theorem noDataSample_iff (halert : rule.alertOnAbsent = true) {before : List (EvalInput V)}
    {input : EvalInput V} {state : EvalState V}
    (hincr : (before ++ [input]).Pairwise fun a b => a.ts < b.ts)
    (hrun : exec (evalStep env rule) .new before = some state) :
    NoDataSample env rule state input ↔ input.series.isSome = true ∧
      ∀ e ∈ before ++ [input], e.sawData = true → e.ts + rule.absentFor ≤ input.ts := by
  obtain ⟨hbefore, -, hlast⟩ := List.pairwise_append.1 hincr
  obtain ⟨hseen, hlatest⟩ := remembers_run hbefore hrun
  cases hseries : input.series with
  | none =>
    refine iff_of_false ?_ (by simp)
    rintro ⟨smpl, hmem, -⟩
    simp [evalSamples, hseries] at hmem
  | some series =>
    have hdata : input.sawData = !series.isEmpty := by rw [EvalInput.sawData, hseries]
    rw [noDataSample_of_series hseries, handleMissingDataAlert_isSome halert, ← hdata]
    simp only [Option.isSome_some, true_and]
    by_cases hnow : input.sawData = true
    · -- data now is the latest data, and older data is older than that
      rw [if_pos hnow]
      constructor
      · intro h e he _
        have hself : input.ts + rule.absentFor ≤ input.ts := h input.ts rfl
        rcases List.mem_append.1 he with he | he
        · have := hlast e he input (List.mem_singleton_self _)
          omega
        · rwa [List.mem_singleton.1 he]
      · rintro h t ⟨⟩
        exact h input (by simp) hnow
    · rw [if_neg hnow]
      constructor
      · intro h e he hedata
        rcases List.mem_append.1 he with he | he
        · obtain ⟨t, ht, hle⟩ := hlatest e he hedata
          have := h t ht
          omega
        · exact absurd (List.mem_singleton.1 he ▸ hedata) hnow
      · intro h t ht
        obtain ⟨e, he, hedata, rfl⟩ := hseen t ht
        exact h e (List.mem_append_left _ he) hedata

theorem absentForDuration_eq {absentFor : Nat} (hfit : absentFor * minuteNanos < 2 ^ 63) :
    absentForDuration absentFor = absentFor * minuteNanos := by
  have hpos : 0 ≤ (absentFor : Int) * minuteNanos :=
    Int.mul_nonneg (Int.natCast_nonneg _) (by decide)
  rw [absentForDuration]
  exact Int.bmod_eq_of_le (by omega) (by omega)

/-- With a positive `AbsentFor` of less than 292 years, a rule with `AlertOnAbsent` produces the
no-data sample in an evaluation exactly when its query succeeds and no evaluation of the last
`AbsentFor` minutes saw data; it never does in an evaluation that saw data. -/
theorem missing_data_respects_absence (env : RuleEnv V) {rule : BaseRule V}
    (halert : rule.alertOnAbsent = true) {absentFor : Nat}
    (habsent : rule.absentFor = absentForDuration absentFor) (hpos : 0 < absentFor)
    (hfit : absentFor * minuteNanos < 2 ^ 63) {before : List (EvalInput V)} {input : EvalInput V}
    {state : EvalState V} (hincr : (before ++ [input]).Pairwise fun a b => a.ts < b.ts)
    (hrun : exec (evalStep env rule) .new before = some state) :
    (NoDataSample env rule state input ↔ input.series.isSome = true ∧
      ∀ e ∈ before ++ [input], input.ts - absentFor * minuteNanos < e.ts → e.sawData = false) ∧
    (input.sawData = true → ¬ NoDataSample env rule state input) := by
  have hduration : rule.absentFor = absentFor * minuteNanos :=
    habsent.trans (absentForDuration_eq hfit)
  have hlong : 0 < (absentFor : Int) * minuteNanos :=
    Int.mul_pos (Int.natCast_pos.2 hpos) (by decide)
  have hiff : NoDataSample env rule state input ↔ input.series.isSome = true ∧
      ∀ e ∈ before ++ [input], input.ts - absentFor * minuteNanos < e.ts → e.sawData = false := by
    rw [noDataSample_iff halert hincr hrun, hduration]
    refine and_congr_right fun _ => forall₂_congr fun e _ => ?_
    constructor
    · intro h hrecent
      by_contra hdata
      have := h (by simpa using hdata)
      omega
    · intro h hdata
      by_contra hold
      rw [h (by omega)] at hdata
      cases hdata
  refine ⟨hiff, ?_⟩
  intro hdata hsample
  have hnone := (hiff.1 hsample).2 input (by simp) (by omega)
  rw [hnone] at hdata
  cases hdata

end MissingData

/-! ## A rule that has not seen data -/

/-- A rule that alerts when data is absent for five minutes. -/
def absentRule : BaseRule ℚ :=
  { latencyRule with alertOnAbsent := true, absentFor := absentForDuration 5 }

/-- No series, in the `n`-th minute. -/
def noReading (n : Int) : EvalInput ℚ := ⟨n * 60 * 10 ^ 9, some [], some, inOrder⟩

/-- Data in the first minute, none from then on: four minutes later there is no sample. -/
theorem four_minutes_without_data :
    ¬ NoDataSample plainEnv absentRule (eval plainEnv absentRule .new (reading 1 50)).1
      (noReading 5) := by
  have hrespects := (@missing_data_respects_absence ℚ _ plainEnv absentRule rfl 5 rfl (by decide)
    (by decide) [reading 1 50] (noReading 5) _ (by decide +kernel) rfl).1
  rw [hrespects]
  rintro ⟨-, hnone⟩
  have hdata := hnone (reading 1 50) (by simp) (by decide +kernel)
  revert hdata
  decide +kernel

/-- The first evaluation of a rule produces the sample when it sees no data, though no earlier
evaluation, let alone one five minutes ago, has seen anything. -/
theorem first_evaluation_raises :
    NoDataSample plainEnv absentRule .new (noReading 1) ∧
      ¬ ∃ e ∈ [noReading 1], e.ts + 5 * minuteNanos ≤ (noReading 1).ts := by
  refine ⟨?_, by decide +kernel⟩
  refine (@noDataSample_iff ℚ _ plainEnv absentRule rfl [] (noReading 1) .new (by simp) rfl).2
    ⟨rfl, ?_⟩
  intro e he hdata
  obtain rfl := List.mem_singleton.1 he
  cases hdata

end Signoz.Rules
