import Signoz.Rules.Eval

/-!
# Recovery targets and firing

A threshold with a recovery target keeps an alert alive while its series is at the recovery level.
`ActiveAlertsLabelFP` offers the fingerprints of all entries to the threshold evaluator, also of
resolved ones that wait for their retention to end and of pending ones, so a sample at the recovery
level can belong to an entry that is not alerting; such an entry is created anew and fires.
`hysteresis_never_raises_iff` says when it does: along a run, every alert that starts to fire comes
from a series that meets the target condition exactly when no evaluation meets a series at its
recovery level whose entry would fire.
-/

namespace Signoz.Rules

open Signoz.Querier Lib.KeyedFold Lib.Runs

variable {V : Type} [Float64 V] (env : RuleEnv V) (rule : BaseRule V)

/-! ## Series and thresholds -/

/-- The series that reach the thresholds in an evaluation: none when the query fails or the missing
data alert is raised. -/
def evaluatedSeries (state : EvalState V) (input : EvalInput V) : List (TimeSeries V) :=
  match input.series with
  | none => []
  | some series =>
    match (handleMissingDataAlert env rule state.lastTimestampWithDatapoints input.ts
        (!series.isEmpty)).2 with
    | some _ => []
    | none => seriesToEval rule input series

/-- The series meets the target condition of the threshold. -/
def MeetsTarget (s : TimeSeries V) (t : BasicRuleThreshold V) : Prop :=
  (t.shouldAlert env.lower (evaluableSeries s) rule.unit).2 = true

/-- The series is at the recovery level of the threshold: it does not meet the target condition,
but it meets the recovery condition and some entry has its fingerprint. -/
structure AtRecoveryLevel (active : ActiveMap V) (s : TimeSeries V) (t : BasicRuleThreshold V) :
    Prop where
  hasTarget : t.recoveryTarget.isSome = true
  notMet : ¬ MeetsTarget env rule s t
  hasEntry : (evalDataOf env rule active).hasActiveAlert
    ((prepareSampleLabelsForRule env.lower s.labels t.name).hash env.sum64) = true
  recovers : (t.matchesRecoveryThreshold env.lower (evaluableSeries s) rule.unit).2 = true

/-- The sample of a series that meets the target condition. -/
abbrev targetSample (s : TimeSeries V) (t : BasicRuleThreshold V) : Sample V :=
  t.alertingSample env.lower (evaluableSeries s) rule.unit

/-- The sample of a series at its recovery level. -/
abbrev recoverySample (s : TimeSeries V) (t : BasicRuleThreshold V) : Sample V :=
  t.recoveringSample env.lower (evaluableSeries s) rule.unit

/-- An entry with a sample now would fire now: it is pending for the hold duration, or it is
created, which takes no hold duration. -/
def wouldFire (ts : Int) (entry : Option (Alert V)) : Prop :=
  match entry with
  | none => rule.holdDuration ≤ 0
  | some a =>
    if a.state = .inactive then rule.holdDuration ≤ 0 else firesNow rule ts a = true

/-! ## The property and the condition -/

/-- Every alert that starts to fire in an evaluation, other than for missing data, comes from a
series that meets the target condition in this evaluation. -/
def FiresOnTargetOnly (state : EvalState V) (input : EvalInput V) : Prop :=
  ∀ k a, (k, a) ∈ (eval env rule state input).1.active → a.firedAt = some input.ts →
    a.missing = false →
      ∃ s ∈ evaluatedSeries env rule state input, ∃ t ∈ rule.thresholds,
        MeetsTarget env rule s t ∧ alertKey env rule (targetSample env rule s t) = k

/-- No series at its recovery level has an entry that would fire. Evaluations that fail, by their
query or by two samples with one key, are exempt. -/
def RecoversOnly (state : EvalState V) (input : EvalInput V) : Prop :=
  (evalKeys env rule state input).Nodup →
    ∀ s ∈ evaluatedSeries env rule state input, ∀ t ∈ rule.thresholds,
      AtRecoveryLevel env rule state.active s t →
        ¬ wouldFire rule input.ts
          (state.active.lookup (alertKey env rule (recoverySample env rule s t)))

section Samples

variable {env rule}

theorem shouldAlertWithTarget_flags (lower : String → String) (b : BasicRuleThreshold V)
    (series : TimeSeries V) (target : V) :
    (b.shouldAlertWithTarget lower series target).1.isMissing = false ∧
      (b.shouldAlertWithTarget lower series target).1.isRecovering = false := by
  simp only [BasicRuleThreshold.shouldAlertWithTarget]
  split
  · exact ⟨rfl, rfl⟩
  · split
    · split <;> exact ⟨rfl, rfl⟩
    · split <;> exact ⟨rfl, rfl⟩
    · exact ⟨rfl, rfl⟩
    · exact ⟨rfl, rfl⟩
    · exact ⟨rfl, rfl⟩
    · exact ⟨rfl, rfl⟩

theorem targetSample_flags (env : RuleEnv V) (rule : BaseRule V) (s : TimeSeries V)
    (t : BasicRuleThreshold V) :
    (targetSample env rule s t).isMissing = false ∧
      (targetSample env rule s t).isRecovering = false :=
  shouldAlertWithTarget_flags env.lower t (evaluableSeries s) _

theorem recoverySample_flags (env : RuleEnv V) (rule : BaseRule V) (s : TimeSeries V)
    (t : BasicRuleThreshold V) :
    (recoverySample env rule s t).isMissing = false ∧
      (recoverySample env rule s t).isRecovering = true :=
  ⟨(shouldAlertWithTarget_flags env.lower t (evaluableSeries s) _).1, rfl⟩

/-- Outside test mode a threshold gives a sample for a series that meets its target condition or is
at its recovery level. -/
theorem evalThreshold_eq_some_iff (hmode : rule.sendUnmatched = false) {active : ActiveMap V}
    {s : TimeSeries V} {t : BasicRuleThreshold V} {smpl : Sample V} :
    evalThreshold env.lower env.sum64 (evaluableSeries s) rule.unit (evalDataOf env rule active) t =
        some smpl ↔
      (MeetsTarget env rule s t ∧ targetSample env rule s t = smpl) ∨
        (AtRecoveryLevel env rule active s t ∧ recoverySample env rule s t = smpl) := by
  have htest : (evalDataOf env rule active).sendUnmatched = false := hmode
  cases hmeets : (t.shouldAlert env.lower (evaluableSeries s) rule.unit).2 with
  | true =>
    have hleft : MeetsTarget env rule s t := hmeets
    simp only [evalThreshold, hmeets, if_true, Option.some.injEq]
    constructor
    · exact fun h => Or.inl ⟨hleft, h⟩
    · rintro (⟨-, h⟩ | ⟨hrecovery, -⟩)
      · exact h
      · exact absurd hleft hrecovery.notMet
  | false =>
    have hnot : ¬ MeetsTarget env rule s t := by
      rw [MeetsTarget, hmeets]
      exact Bool.false_ne_true
    simp only [evalThreshold, hmeets, htest, Bool.false_eq_true, if_false]
    constructor
    · intro h
      split at h
      · cases h
      · rename_i hnone
        have htarget : t.recoveryTarget.isSome = true := by
          rwa [Option.isNone_iff_eq_none, ← ne_eq, Option.ne_none_iff_isSome] at hnone
        split at h
        · rename_i hentry
          split at h
          · rename_i hrecovers
            exact Or.inr ⟨⟨htarget, hnot, hentry, hrecovers⟩, Option.some.inj h⟩
          · cases h
        · cases h
    · rintro (⟨hmeets', -⟩ | ⟨hrecovery, h⟩)
      · exact absurd hmeets' hnot
      · have htarget : t.recoveryTarget.isNone = false := by
          simpa using hrecovery.hasTarget
        have hentry : (evalDataOf env rule active).hasActiveAlert
            ((prepareSampleLabelsForRule env.lower (evaluableSeries s).labels t.name).hash
              env.sum64) = true := hrecovery.hasEntry
        simp only [htarget, Bool.false_eq_true, if_false, hentry, if_true, hrecovery.recovers,
          Option.some.injEq]
        exact h

theorem handleMissingDataAlert_isMissing {last : Option Int} {ts : Int} {hasData : Bool}
    {smpl : Sample V} (h : (handleMissingDataAlert env rule last ts hasData).2 = some smpl) :
    smpl.isMissing = true := by
  unfold handleMissingDataAlert at h
  generalize (if hasData then some ts else last) = after at h
  cases hdue : !rule.alertOnAbsent || dataIsRecent rule after ts with
  | true =>
    simp only [hdue, if_true] at h
    cases h
  | false =>
    simp only [hdue, Bool.false_eq_true, if_false] at h
    obtain rfl := Option.some.inj h
    rfl

/-- The samples of an evaluation that are not for missing data. -/
theorem mem_evalSamples (hmode : rule.sendUnmatched = false) {state : EvalState V}
    {input : EvalInput V} {smpl : Sample V} (hmissing : smpl.isMissing = false) :
    smpl ∈ evalSamples env rule state input ↔
      ∃ s ∈ evaluatedSeries env rule state input, ∃ t ∈ rule.thresholds,
        (MeetsTarget env rule s t ∧ targetSample env rule s t = smpl) ∨
          (AtRecoveryLevel env rule state.active s t ∧ recoverySample env rule s t = smpl) := by
  cases hseries : input.series with
  | none => simp only [evalSamples, evaluatedSeries, hseries, List.not_mem_nil, false_and,
      exists_false]
  | some series =>
    cases halert : (handleMissingDataAlert env rule state.lastTimestampWithDatapoints input.ts
        (!series.isEmpty)).2 with
    | some alert =>
      -- The one sample is that of the missing data alert.
      have hflag := handleMissingDataAlert_isMissing halert
      simp only [evalSamples, evaluatedSeries, hseries, samplesOfQuery, halert,
        List.mem_singleton, List.not_mem_nil, false_and, exists_false, iff_false]
      rintro rfl
      rw [hflag] at hmissing
      cases hmissing
    | none =>
      simp only [evalSamples, evaluatedSeries, hseries, samplesOfQuery, halert, samplesOf,
        evalThresholds, List.mem_flatMap, List.mem_filterMap,
        evalThreshold_eq_some_iff hmode, (env.sort_perm rule.thresholds).mem_iff]

end Samples

/-! ## One evaluation -/

section Step

variable {env rule} {state : EvalState V} {input : EvalInput V}

omit [Float64 V] in
/-- A new alert fires at once when there is no hold duration. -/
theorem firesNow_newAlert (ts : Int) (smpl : Sample V) :
    firesNow rule ts (newAlert env rule ts smpl) = true ↔ rule.holdDuration ≤ 0 := by
  simp [firesNow, newAlert]

/-- The entry of a sample after the merge, in terms of the entry before. -/
theorem mergedEntry (hkeys : (evalKeys env rule state input).Nodup) {smpl : Sample V}
    (hsmpl : smpl ∈ evalSamples env rule state input) :
    ∃ b, (evalMerged env rule state input).lookup (alertKey env rule smpl) = some b ∧
      b.missing = smpl.isMissing ∧
      (firesNow rule input.ts b = true ↔
        wouldFire rule input.ts (state.active.lookup (alertKey env rule smpl))) ∧
      (b.firedAt = none ∨
        ∃ x, state.active.lookup (alertKey env rule smpl) = some x ∧ b.firedAt = x.firedAt) := by
  have hfst := map_fst_alertsOf env rule input.ts
    (evalSamples env rule state input)
  have hlookup : (alertsOf env rule input.ts (evalSamples env rule state input)).lookup
      (alertKey env rule smpl) = some (newAlert env rule input.ts smpl) :=
    (alertsOf_lookup hkeys).2 ⟨smpl, hsmpl, rfl, rfl⟩
  rw [evalMerged, mergeActive_lookup (by rw [hfst]; exact hkeys), hlookup]
  cases hentry : state.active.lookup (alertKey env rule smpl) with
  | none =>
    exact ⟨_, rfl, rfl, firesNow_newAlert input.ts smpl, Or.inl rfl⟩
  | some x =>
    refine ⟨_, rfl, ?_⟩
    by_cases hinactive : x.state = .inactive
    · -- An inactive entry is replaced by the new alert.
      have hmerge : mergeAlert env rule x (newAlert env rule input.ts smpl) =
          newAlert env rule input.ts smpl := by rw [mergeAlert, if_pos hinactive]
      simp only [Option.elim_some, hmerge, wouldFire, if_pos hinactive]
      exact ⟨rfl, firesNow_newAlert input.ts smpl, Or.inl rfl⟩
    · -- Another one keeps its state and its times.
      simp only [Option.elim_some, mergeAlert, wouldFire, if_neg hinactive]
      exact ⟨rfl, Iff.rfl, Or.inr ⟨x, rfl, rfl⟩⟩

/-- An entry that took its firing time in an evaluation has a sample there, and would have fired
before it. -/
theorem sample_of_fired (hactive : (state.active.map Prod.fst).Nodup)
    (hearlier : ∀ p ∈ state.active, p.2.firedAt ≠ some input.ts) {k : Nat} {a : Alert V}
    (ha : (k, a) ∈ (eval env rule state input).1.active) (hfired : a.firedAt = some input.ts) :
    (evalKeys env rule state input).Nodup ∧ ∃ smpl ∈ evalSamples env rule state input,
      alertKey env rule smpl = k ∧ a.missing = smpl.isMissing ∧
        wouldFire rule input.ts (state.active.lookup k) := by
  rcases eval_cases env rule state input with ⟨hsame, -, -⟩ | ⟨-, hkeys, last, heval⟩
  · rw [hsame] at ha
    exact absurd hfired (hearlier (k, a) ha)
  · refine ⟨hkeys, ?_⟩
    rw [heval, applyAlerts_active, mem_visited_iff hactive hkeys] at ha
    rcases ha with ⟨hfp, b, hb, rfl⟩ | ⟨-, x, hx, hvisit⟩
    · have hb := (mem_iff_lookup (nodup_evalMerged input hactive)).1 hb
      obtain ⟨smpl, hsmpl, rfl⟩ := List.mem_map.1 hfp
      obtain ⟨b', hb', hmissing, hfires, htimes⟩ := mergedEntry hkeys hsmpl
      obtain rfl := Option.some.inj (hb.symm.trans hb')
      refine ⟨smpl, hsmpl, rfl, (visitPresent_missing input.ts b).trans hmissing, ?_⟩
      rw [visitPresent_firedAt] at hfired
      by_cases hnow : firesNow rule input.ts b = true
      · exact hfires.1 hnow
      · -- Otherwise the time was there before, which it was not.
        rw [if_neg hnow] at hfired
        rcases htimes with hnone | ⟨x, hx, hsame⟩
        · rw [hnone] at hfired
          cases hfired
        · have hmem := (mem_iff_lookup hactive).2 hx
          exact absurd (hsame.symm.trans hfired) (hearlier _ hmem)
    · -- An entry without a sample keeps its times.
      rw [visitMissing_firedAt hvisit] at hfired
      exact absurd hfired (hearlier _ hx)

/-- A sample whose entry would fire makes it fire. -/
theorem fired_of_sample (hactive : (state.active.map Prod.fst).Nodup)
    (hkeys : (evalKeys env rule state input).Nodup) {smpl : Sample V}
    (hsmpl : smpl ∈ evalSamples env rule state input)
    (hwould : wouldFire rule input.ts (state.active.lookup (alertKey env rule smpl))) :
    ∃ a, (alertKey env rule smpl, a) ∈ (eval env rule state input).1.active ∧
      a.firedAt = some input.ts ∧ a.missing = smpl.isMissing := by
  have hfp : alertKey env rule smpl ∈ evalKeys env rule state input :=
    List.mem_map.2 ⟨smpl, hsmpl, rfl⟩
  rcases eval_cases env rule state input with ⟨-, -, hfail⟩ | ⟨-, -, last, heval⟩
  · -- A failed evaluation has no samples, or two with one key.
    rcases hfail with hnone | hdup
    · simp only [evalSamples, hnone, List.not_mem_nil] at hsmpl
    · exact absurd hkeys hdup
  · obtain ⟨b, hb, hmissing, hfires, -⟩ := mergedEntry hkeys hsmpl
    refine ⟨(visitPresent env rule input.ts b).1, ?_, ?_, ?_⟩
    · rw [heval, applyAlerts_active]
      apply mem_visitActive.2
      refine ⟨b, (mem_iff_lookup (nodup_evalMerged input hactive)).2 hb, ?_⟩
      simp only [visitEntry, List.contains_iff_mem.2 hfp, if_true]
    · rw [visitPresent_firedAt, if_pos (hfires.2 hwould)]
    · exact (visitPresent_missing input.ts b).trans hmissing

/-- Two samples of one evaluation with one key are the same sample. -/
theorem sample_unique (hkeys : (evalKeys env rule state input).Nodup) {x y : Sample V}
    (hx : x ∈ evalSamples env rule state input) (hy : y ∈ evalSamples env rule state input)
    (hkey : alertKey env rule x = alertKey env rule y) : x = y :=
  List.inj_on_of_nodup_map hkeys hx hy hkey

/-- In one evaluation, every alert that starts to fire meets its target condition exactly when no
series at its recovery level has an entry that would fire. -/
theorem firesOnTargetOnly_iff (hmode : rule.sendUnmatched = false)
    (hactive : (state.active.map Prod.fst).Nodup)
    (hearlier : ∀ p ∈ state.active, p.2.firedAt ≠ some input.ts) :
    FiresOnTargetOnly env rule state input ↔ RecoversOnly env rule state input := by
  constructor
  · intro hfires hkeys s hs t ht hrecovery hwould
    obtain ⟨hmissing, hrecovering⟩ := recoverySample_flags env rule s t
    have hmem : recoverySample env rule s t ∈ evalSamples env rule state input :=
      (mem_evalSamples hmode hmissing).2 ⟨s, hs, t, ht, Or.inr ⟨hrecovery, rfl⟩⟩
    obtain ⟨a, ha, hfired, hmiss⟩ := fired_of_sample hactive hkeys hmem hwould
    obtain ⟨s', hs', t', ht', hmeets, hkey⟩ := hfires _ a ha hfired (hmiss.trans hmissing)
    -- The sample that meets a target has the same key, so it would be the same sample.
    obtain ⟨hmissing', hrecovering'⟩ := targetSample_flags env rule s' t'
    have hmem' : targetSample env rule s' t' ∈ evalSamples env rule state input :=
      (mem_evalSamples hmode hmissing').2 ⟨s', hs', t', ht', Or.inl ⟨hmeets, rfl⟩⟩
    have hsame := sample_unique hkeys hmem' hmem hkey
    rw [← hsame, hrecovering'] at hrecovering
    cases hrecovering
  · intro hrecovers k a ha hfired hmissing
    obtain ⟨hkeys, smpl, hsmpl, rfl, hmiss, hwould⟩ :=
      sample_of_fired hactive hearlier ha hfired
    have hmissing' : smpl.isMissing = false := hmiss.symm.trans hmissing
    obtain ⟨s, hs, t, ht, hsample⟩ := (mem_evalSamples hmode hmissing').1 hsmpl
    rcases hsample with ⟨hmeets, rfl⟩ | ⟨hrecovery, rfl⟩
    · exact ⟨s, hs, t, ht, hmeets, rfl⟩
    · exact absurd hwould (hrecovers hkeys s hs t ht hrecovery)

end Step

/-! ## Runs -/

/-- The keys of the map are distinct and every firing time lies before the evaluations to come. -/
structure FiredEarlier (state : EvalState V) (rest : List (EvalInput V)) : Prop where
  keys : (state.active.map Prod.fst).Nodup
  times : ∀ p ∈ state.active, ∀ t, p.2.firedAt = some t → ∀ input ∈ rest, t < input.ts
  increasing : rest.Pairwise fun a b => a.ts < b.ts

section Runs

variable {env rule}

/-- A firing time after an evaluation is that of the evaluation, or it was there before. -/
theorem firedAt_eval {state : EvalState V} {input : EvalInput V}
    (hactive : (state.active.map Prod.fst).Nodup) {p : Nat × Alert V}
    (hp : p ∈ (eval env rule state input).1.active) {t : Int} (hfired : p.2.firedAt = some t) :
    t = input.ts ∨ ∃ q ∈ state.active, q.2.firedAt = some t := by
  obtain ⟨k, a⟩ := p
  rcases eval_cases env rule state input with ⟨hsame, -, -⟩ | ⟨-, hkeys, last, heval⟩
  · rw [hsame] at hp
    exact Or.inr ⟨(k, a), hp, hfired⟩
  · rw [heval, applyAlerts_active, mem_visited_iff hactive hkeys] at hp
    rcases hp with ⟨hfp, b, hb, rfl⟩ | ⟨-, x, hx, hvisit⟩
    · have hb := (mem_iff_lookup (nodup_evalMerged input hactive)).1 hb
      obtain ⟨smpl, hsmpl, rfl⟩ := List.mem_map.1 hfp
      obtain ⟨b', hb', -, -, htimes⟩ := mergedEntry hkeys hsmpl
      obtain rfl := Option.some.inj (hb.symm.trans hb')
      simp only [visitPresent_firedAt] at hfired
      split at hfired
      · exact Or.inl (Option.some.inj hfired).symm
      · rcases htimes with hnone | ⟨x, hx, hsame⟩
        · rw [hnone] at hfired
          cases hfired
        · exact Or.inr ⟨_, (mem_iff_lookup hactive).2 hx, hsame.symm.trans hfired⟩
    · exact Or.inr ⟨(k, x), hx, (visitMissing_firedAt hvisit).symm.trans hfired⟩

theorem firedEarlier_step {state after : EvalState V} {input : EvalInput V}
    {rest : List (EvalInput V)} (h : FiredEarlier state (input :: rest))
    (hstep : evalStep env rule state input = some after) : FiredEarlier after rest := by
  obtain rfl := Option.some.inj hstep
  obtain ⟨hfirst, hrest⟩ := List.pairwise_cons.1 h.increasing
  refine ⟨nodup_eval input h.keys, ?_, hrest⟩
  intro p hp t hfired next hnext
  rcases firedAt_eval h.keys hp hfired with rfl | ⟨q, hq, hold⟩
  · exact hfirst next hnext
  · exact h.times q hq t hold next (List.mem_cons_of_mem _ hnext)

end Runs

/-- Hysteresis never raises an alert, exactly: along every run of evaluations at increasing times,
every alert that starts to fire comes from a series that meets its target condition if and only if
no evaluation meets a series at its recovery level whose entry would fire. -/
theorem hysteresis_never_raises_iff (hmode : rule.sendUnmatched = false)
    (inputs : List (EvalInput V)) (hincreasing : inputs.Pairwise fun a b => a.ts < b.ts) :
    StepsMeet (evalStep env rule) (FiresOnTargetOnly env rule) .new inputs ↔
      StepsMeet (evalStep env rule) (RecoversOnly env rule) .new inputs := by
  apply stepsMeet_congr (I := FiredEarlier)
  · exact fun s a as t hs hstep => firedEarlier_step hs hstep
  · intro s a as hs
    apply firesOnTargetOnly_iff hmode hs.keys
    intro p hp hfired
    -- A firing time lies before the evaluation.
    exact absurd (hs.times p hp a.ts hfired a List.mem_cons_self) (lt_irrefl a.ts)
  · exact ⟨List.nodup_nil, nofun, hincreasing⟩

/-! ## A resolved alert that fires again -/

/-- Surroundings that change nothing: texts stand as they are and the hash adds up lengths. -/
def plainEnv : RuleEnv ℚ where
  lower := id
  sum64 parts := (parts.map String.length).sum
  sort := id
  sort_perm := fun l => List.Perm.refl l
  format _ _ := ""
  expand _ _ _ text := text
  annotationsOf _ _ := []
  formatTime _ := ""

/-- Visit the map in the order of its entries. -/
def inOrder : MapOrder ℚ := ⟨id, fun m => List.Perm.refl m⟩

/-- Critical above 100, recovered at 80 and below. -/
def latencyRule : BaseRule ℚ where
  kind := .threshold
  id := "r1"
  name := "latency"
  generatorURL := ""
  unit := "ms"
  labels := []
  thresholds := [⟨"critical", some 100, "ms", some 80, .last, .valueIsAbove, []⟩]
  alertOnAbsent := false
  absentFor := 0
  requireMinPoints := false
  requiredNumPoints := 0
  newGroupEvalDelay := 0
  holdDuration := 0
  sendUnmatched := false

/-- One series without labels that shows one value, in the `n`-th minute. -/
def reading (n : Int) (v : ℚ) : EvalInput ℚ :=
  ⟨n * 60 * 10 ^ 9, some [⟨[], [⟨0, v, false⟩]⟩], some, inOrder⟩

/-- Fire, resolve, and come back between the two targets. -/
def comesBack : List (EvalInput ℚ) := [reading 1 150, reading 2 50, reading 3 90]

/-- The state before the last evaluation, where the alert is resolved. -/
def resolvedState : EvalState ℚ :=
  (eval plainEnv latencyRule (eval plainEnv latencyRule .new (reading 1 150)).1 (reading 2 50)).1

/-- The value 90 does not meet the target 100, and yet the resolved alert fires. -/
theorem resolved_alert_fires_again :
    validateThresholds latencyRule.thresholds = [] ∧
      (comesBack.Pairwise fun a b => a.ts < b.ts) ∧
      ¬ StepsMeet (evalStep plainEnv latencyRule) (FiresOnTargetOnly plainEnv latencyRule) .new
        comesBack := by
  refine ⟨by decide +kernel, by decide +kernel, ?_⟩
  rintro ⟨-, hrest⟩
  obtain ⟨-, hrest⟩ := hrest _ rfl
  obtain ⟨hlast, -⟩ := hrest resolvedState rfl
  have hfires : ((eval plainEnv latencyRule resolvedState (reading 3 90)).1.active.any fun p =>
      p.2.firedAt = some (reading 3 90).ts && !p.2.missing) = true := by decide +kernel
  obtain ⟨⟨k, a⟩, hmem, hflags⟩ := List.any_eq_true.1 hfires
  obtain ⟨hfired, hmissing⟩ := Bool.and_eq_true_iff.1 hflags
  obtain ⟨s, hs, t, ht, hmeets, -⟩ :=
    hlast k a hmem (of_decide_eq_true hfired) (Bool.not_eq_true' _ ▸ hmissing)
  have hnone : ((evaluatedSeries plainEnv latencyRule resolvedState (reading 3 90)).all fun s =>
      latencyRule.thresholds.all fun t =>
        !(t.shouldAlert plainEnv.lower (evaluableSeries s) latencyRule.unit).2) = true := by
    decide +kernel
  have hnot := List.all_eq_true.1 (List.all_eq_true.1 hnone s hs) t ht
  rw [MeetsTarget] at hmeets
  rw [hmeets] at hnot
  cases hnot

theorem hysteresis_never_raises_iff_comesBack :
    StepsMeet (evalStep plainEnv latencyRule) (FiresOnTargetOnly plainEnv latencyRule) .new
        comesBack ↔
      StepsMeet (evalStep plainEnv latencyRule) (RecoversOnly plainEnv latencyRule) .new
        comesBack :=
  hysteresis_never_raises_iff plainEnv latencyRule rfl comesBack (by decide +kernel)

end Signoz.Rules
