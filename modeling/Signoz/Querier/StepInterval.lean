import Signoz.Querier.WindowList
import Signoz.Lib.Grid

/-!
# Recommended and least allowed steps

`QueryRange` gives a query without a step the recommended one and raises a step that is below the
least allowed. For logs, traces and metrics the recommended step is allowed on every window. For
meters it is rounded to the nearest day, and so falls below the least allowed step when that step is
a day or more and at most eleven hours above a whole number of days (`recommended_allowed_iff`).
-/

namespace Signoz.Querier

open Lib.Grid

def recommendedNumberOfPoints : Nat := 300

def maxAllowedNumberOfPoints : Nat := 1500

def dayNanos : Nat := 24 * hourNanos

/-- `end - start` in the functions below, both in nanoseconds. -/
def rangeNanos (start stop : Nat) : Nat := subUint64 (toNanoSecs stop) (toNanoSecs start)

/-- The step in seconds that gives so many points. -/
def stepFor (range points : Nat) : Nat := range / points / 10 ^ 9

/-- `uint64(math.Round(float64(n)/multiple)) * multiple`, half away from zero. The steps are far
below `2 ^ 53`, and their quotients halfway between two numbers are floats. -/
def roundTo (multiple n : Nat) : Nat := (2 * n + multiple) / (2 * multiple) * multiple

/-- At least `least`, and down to a multiple of it. -/
def flooredStep (least step : Nat) : Nat := if step < least then least else step - step % least

/-- `RecommendedStepInterval`. -/
def recommendedStepInterval (start stop : Nat) : Nat :=
  flooredStep 5 (stepFor (rangeNanos start stop) recommendedNumberOfPoints)

/-- `MinAllowedStepInterval`. -/
def minAllowedStepInterval (start stop : Nat) : Nat :=
  flooredStep 5 (stepFor (rangeNanos start stop) maxAllowedNumberOfPoints)

/-- `RecommendedStepIntervalForMeter`. -/
def recommendedStepIntervalForMeter (start stop : Nat) : Nat :=
  let range := rangeNanos start stop
  let step := stepFor range recommendedNumberOfPoints
  if step < 3600 then 3600
  else
    let recommended := step - step % 3600
    if 30 * dayNanos ≤ range then
      if recommended < 86400 then 86400 else roundTo 86400 recommended
    else recommended

/-- `MinAllowedStepIntervalForMeter`. -/
def minAllowedStepIntervalForMeter (start stop : Nat) : Nat :=
  flooredStep 3600 (stepFor (rangeNanos start stop) recommendedNumberOfPoints)

/-- The body of the two functions for metrics. -/
def metricStep (range : Nat) : Nat :=
  let step := stepFor range recommendedNumberOfPoints
  if step < 60 then 60
  else
    let recommended := step - step % 60
    if dayNanos ≤ range ∧ range < 7 * dayNanos then roundTo 300 recommended
    else if 7 * dayNanos ≤ range then roundTo 1800 recommended
    else recommended

/-- `RecommendedStepIntervalForMetric`. -/
def recommendedStepIntervalForMetric (start stop : Nat) : Nat := metricStep (rangeNanos start stop)

/-- `MinAllowedStepIntervalForMetric`, which has the same body. -/
def minAllowedStepIntervalForMetric (start stop : Nat) : Nat := metricStep (rangeNanos start stop)

/-- The three pairs of functions: for logs, traces and trace operators, for metrics, for meters. -/
inductive StepRule where
  | signal | metric | meter

def StepRule.recommended : StepRule → Nat → Nat → Nat
  | .signal => recommendedStepInterval
  | .metric => recommendedStepIntervalForMetric
  | .meter => recommendedStepIntervalForMeter

def StepRule.minAllowed : StepRule → Nat → Nat → Nat
  | .signal => minAllowedStepInterval
  | .metric => minAllowedStepIntervalForMetric
  | .meter => minAllowedStepIntervalForMeter

/-- What `QueryRange` makes of the step of a query (nanoseconds): without one it takes the
recommended one, and then it raises a step below the least allowed. -/
def StepRule.stepOf (rule : StepRule) (start stop stepInterval : Nat) : Nat :=
  let step := if stepInterval = 0 then rule.recommended start stop * 10 ^ 9 else stepInterval
  if step < rule.minAllowed start stop * 10 ^ 9 then rule.minAllowed start stop * 10 ^ 9 else step

/-- The recommended steps are allowed: all steps are positive, and the step that `QueryRange`
chooses stays. -/
def RecommendedAllowed (start stop : Nat) : Prop :=
  ∀ rule : StepRule, 0 < rule.minAllowed start stop ∧
    rule.minAllowed start stop ≤ rule.recommended start stop ∧
    rule.stepOf start stop 0 = rule.recommended start stop * 10 ^ 9

/-- The least allowed step for meters, in hours. -/
def meterHours (start stop : Nat) : Nat := minAllowedStepIntervalForMeter start stop / 3600

/-! ## Rounding -/

/-- Rounding goes up from the middle on. -/
theorem roundTo_eq {multiple : Nat} (hpos : 0 < multiple) (n : Nat) :
    roundTo multiple n =
      gridFloor multiple n + if multiple ≤ 2 * (n % multiple) then multiple else 0 := by
  have hmod := Nat.mod_lt n hpos
  have hsplit : 2 * n + multiple =
      (2 * (n % multiple) + multiple) + 2 * multiple * (n / multiple) := by
    have h := Nat.mod_add_div n multiple
    rw [Nat.mul_assoc]
    omega
  have hquot : (2 * (n % multiple) + multiple) / (2 * multiple) =
      if multiple ≤ 2 * (n % multiple) then 1 else 0 := by
    split
    · rw [Nat.div_eq_iff (by omega)]
      omega
    · exact Nat.div_eq_of_lt (by omega)
  rw [roundTo, hsplit, Nat.add_mul_div_left _ _ (by omega), hquot, Nat.add_mul, gridFloor,
    Nat.add_comm]
  split <;> simp

/-- Rounding to the nearest does not go below the number when it stands on the grid or goes up. -/
theorem le_roundTo_iff {multiple : Nat} (hpos : 0 < multiple) (n : Nat) :
    n ≤ roundTo multiple n ↔ n % multiple = 0 ∨ multiple ≤ 2 * (n % multiple) := by
  have hlt := lt_gridFloor_add hpos n
  have hfloor := gridFloor_eq_sub_mod multiple n
  have hle := Nat.mod_le n multiple
  rw [roundTo_eq hpos]
  split <;> omega

theorem roundTo_pos {multiple n : Nat} (hpos : 0 < multiple) (h : multiple ≤ 2 * n) :
    0 < roundTo multiple n := by
  have hquot : 1 ≤ (2 * n + multiple) / (2 * multiple) :=
    (Nat.one_le_div_iff (by omega)).2 (by omega)
  exact Nat.mul_pos hquot hpos

/-! ## The steps -/

theorem flooredStep_pos {least : Nat} (hpos : 0 < least) (step : Nat) :
    0 < flooredStep least step := by
  have := Nat.mod_lt step hpos
  rw [flooredStep]
  split <;> omega

/-- A longer step stays longer. -/
theorem flooredStep_mono {least step step' : Nat} (hpos : 0 < least) (h : step ≤ step') :
    flooredStep least step ≤ flooredStep least step' := by
  have hfloor : ∀ n, n - n % least = gridFloor least n :=
    fun n => (gridFloor_eq_sub_mod least n).symm
  have hmono : gridFloor least step ≤ gridFloor least step' :=
    Nat.mul_le_mul_right least (Nat.div_le_div_right h)
  have hleast : least ≤ step' → least ≤ gridFloor least step' :=
    (le_gridFloor_iff hpos (Nat.dvd_refl least)).2
  rw [flooredStep, flooredStep, hfloor, hfloor]
  split_ifs <;> omega

/-- Fewer points mean a longer step. -/
theorem stepFor_anti {points points' : Nat} (range : Nat) (hpos : 0 < points)
    (h : points ≤ points') : stepFor range points' ≤ stepFor range points :=
  Nat.div_le_div_right (Nat.div_le_div_left h hpos)

theorem metricStep_pos (range : Nat) : 0 < metricStep range := by
  have hday : dayNanos ≤ range → 288 ≤ stepFor range recommendedNumberOfPoints := by
    simp only [stepFor, recommendedNumberOfPoints, dayNanos, hourNanos]
    omega
  have hweek : 7 * dayNanos ≤ range → 2016 ≤ stepFor range recommendedNumberOfPoints := by
    simp only [stepFor, recommendedNumberOfPoints, dayNanos, hourNanos]
    omega
  simp only [metricStep]
  generalize stepFor range recommendedNumberOfPoints = step at hday hweek ⊢
  split_ifs with hshort hmiddle hlong
  · decide
  · have := hday hmiddle.1
    apply roundTo_pos (by decide)
    omega
  · have := hweek hlong
    apply roundTo_pos (by decide)
    omega
  · omega

/-- The recommended step for meters: a whole number of days from 30 days on. -/
theorem recommendedStepIntervalForMeter_eq (start stop : Nat) :
    recommendedStepIntervalForMeter start stop =
      let least := minAllowedStepIntervalForMeter start stop
      if 30 * dayNanos ≤ rangeNanos start stop then
        if least < 86400 then 86400 else roundTo 86400 least
      else least := by
  have hmonth : 30 * dayNanos ≤ rangeNanos start stop →
      8640 ≤ stepFor (rangeNanos start stop) recommendedNumberOfPoints := by
    simp only [stepFor, recommendedNumberOfPoints, dayNanos, hourNanos]
    omega
  by_cases hshort : stepFor (rangeNanos start stop) recommendedNumberOfPoints < 3600
  · have hleast : minAllowedStepIntervalForMeter start stop = 3600 := if_pos hshort
    rw [recommendedStepIntervalForMeter, if_pos hshort, hleast]
    exact (if_neg fun h => absurd (hmonth h) (by omega)).symm
  · have hleast : minAllowedStepIntervalForMeter start stop =
        stepFor (rangeNanos start stop) recommendedNumberOfPoints -
          stepFor (rangeNanos start stop) recommendedNumberOfPoints % 3600 := if_neg hshort
    rw [recommendedStepIntervalForMeter, if_neg hshort, hleast]

/-- The least step is on the grid of hours, and is a day or more only on windows of more than 30
days. -/
theorem dvd_minAllowedStepIntervalForMeter (start stop : Nat) :
    3600 ∣ minAllowedStepIntervalForMeter start stop ∧
      (86400 ≤ minAllowedStepIntervalForMeter start stop →
        30 * dayNanos ≤ rangeNanos start stop) := by
  have hstep : stepFor (rangeNanos start stop) recommendedNumberOfPoints =
      rangeNanos start stop / 300 / 10 ^ 9 := rfl
  rw [minAllowedStepIntervalForMeter, flooredStep, hstep, dayNanos, hourNanos]
  split <;> omega

theorem minAllowed_le_recommended_meter_iff (start stop : Nat) :
    minAllowedStepIntervalForMeter start stop ≤ recommendedStepIntervalForMeter start stop ↔
      meterHours start stop < 24 ∨ meterHours start stop % 24 = 0 ∨
        12 ≤ meterHours start stop % 24 := by
  obtain ⟨hdvd, hlong⟩ := dvd_minAllowedStepIntervalForMeter start stop
  rw [recommendedStepIntervalForMeter_eq, meterHours]
  generalize minAllowedStepIntervalForMeter start stop = least at hdvd hlong ⊢
  by_cases hday : least < 86400
  · simp only [hday, if_true]
    split_ifs <;> omega
  · simp only [hday, if_false, if_pos (hlong (by omega)), le_roundTo_iff (show 0 < 86400 by decide)]
    omega

theorem minAllowed_pos (rule : StepRule) (start stop : Nat) : 0 < rule.minAllowed start stop := by
  cases rule with
  | signal => exact flooredStep_pos (by decide) _
  | metric => exact metricStep_pos _
  | meter => exact flooredStep_pos (by decide) _

/-- A chosen step stays when it is allowed. -/
theorem stepOf_zero_iff (rule : StepRule) (start stop : Nat) :
    rule.stepOf start stop 0 = rule.recommended start stop * 10 ^ 9 ↔
      rule.minAllowed start stop ≤ rule.recommended start stop := by
  simp only [StepRule.stepOf, if_pos]
  split <;> omega

/-- The recommended steps are allowed unless the least step for meters is one to eleven hours above
a whole number of days, of one day or more. -/
theorem recommended_allowed_iff (start stop : Nat) :
    RecommendedAllowed start stop ↔
      meterHours start stop < 24 ∨ meterHours start stop % 24 = 0 ∨
        12 ≤ meterHours start stop % 24 := by
  rw [← minAllowed_le_recommended_meter_iff]
  constructor
  · intro h
    exact (h .meter).2.1
  · intro hmeter rule
    have hle : rule.minAllowed start stop ≤ rule.recommended start stop := by
      cases rule with
      | signal => exact flooredStep_mono (by decide) (stepFor_anti _ (by decide) (by decide))
      | metric => exact Nat.le_refl _
      | meter => exact hmeter
    exact ⟨minAllowed_pos rule start stop, hle, (stepOf_zero_iff rule start stop).2 hle⟩

/-- A window of 312 and a half days: the least step is 25 hours, the recommended one a day. -/
theorem year_overridden :
    (Nat.toDigits 10 1700000000000).length = (Nat.toDigits 10 1727000000000).length ∧
      recommendedStepIntervalForMeter 1700000000000 1727000000000 = 86400 ∧
      StepRule.meter.stepOf 1700000000000 1727000000000 0 = 90000 * 10 ^ 9 ∧
      ¬ RecommendedAllowed 1700000000000 1727000000000 := by
  refine ⟨by decide, by decide, by decide, fun h => ?_⟩
  exact absurd (h .meter).2.1 (by decide)

end Signoz.Querier
