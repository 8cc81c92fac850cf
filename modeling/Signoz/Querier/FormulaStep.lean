import Signoz.Lib.SplitOn
import Signoz.Querier.QueryRequest

/-!
# The gap-fill step of a formula

`StepIntervalForQuery` combines the steps of the variables of a formula with `LCMList`. It looks a
variable up by its whole text, while the evaluation of the formula takes the part before the dot for
the name of the query. So `A.0`, `A.total`, or a query without a step, give the step zero, which
makes the least common multiple zero or divides by zero (`lcmList_of_zero`).

As long as no product of two steps leaves the range of `int64`, the step is positive and a multiple
of every referenced step exactly when each variable is the exact name of a query with a positive
step (`stepIntervalForQuery_right_iff`).
-/

namespace Signoz.Querier

open Lib.KeyedFold

/-! ## Least common multiples of machine integers -/

/-- On natural numbers the loop of `GCD` is Euclid's algorithm. -/
theorem gcdLoop_eq : ∀ (fuel a b : Nat), b < fuel → gcdLoop fuel a b = Nat.gcd a b := by
  intro fuel
  induction fuel with
  | zero => intro a b h; omega
  | succ fuel ih =>
    intro a b h
    rw [gcdLoop]
    by_cases hb : b = 0
    · subst hb
      simp
    · have hmod : a % b < fuel := Nat.lt_of_lt_of_le (Nat.mod_lt a (Nat.pos_of_ne_zero hb))
        (Nat.lt_succ_iff.1 h)
      rw [if_neg (by omega), Int.tmod_eq_emod_of_nonneg (by omega), ← Int.natCast_emod,
        ih b (a % b) hmod, Nat.gcd_comm b, ← Nat.gcd_rec, Nat.gcd_comm]

theorem gcd64_eq (a b : Nat) : gcd64 a b = Nat.gcd a b :=
  gcdLoop_eq _ a b (by omega)

/-- Without overflow `LCM` is the least common multiple. -/
theorem lcm64_of_fits {a b : Nat} (hpos : 0 < a ∨ 0 < b) (h : a * b < 2 ^ 63) :
    lcm64 a b = .ok (Nat.lcm a b) := by
  have hgcd : gcd64 a b ≠ 0 := by
    rw [gcd64_eq]
    have := Nat.gcd_pos_iff.2 hpos
    omega
  rw [lcm64, if_neg hgcd, gcd64_eq, ← Int.natCast_mul, wrapInt64_of_lt h, Nat.lcm_eq_mul_div,
    Int.natCast_div, Int.tdiv_eq_ediv_of_nonneg (by omega)]

/-- A product that overflows does not give a common multiple. -/
theorem lcm64_of_overflow {a b : Nat} (h : 2 ^ 63 ≤ a * b) {r : Int} (hr : lcm64 a b = .ok r)
    (hpos : 0 < r) : ¬ ((a : Int) ∣ r ∧ (b : Int) ∣ r) := by
  rintro ⟨hdvd, hdvd'⟩
  rw [lcm64, gcd64_eq] at hr
  split at hr
  · cases hr
  · next hgcd =>
      have hr := Except.ok.inj hr
      have hlt : wrapInt64 (a * b) < 2 ^ 63 := by
        rw [wrapInt64]
        omega
      generalize wrapInt64 (a * b) = w at hr hlt
      have hwpos : 0 ≤ w := by
        by_contra hneg
        have hquot := Int.tdiv_nonneg (a := -w) (b := (Nat.gcd a b : Int)) (by omega) (by omega)
        rw [Int.neg_tdiv] at hquot
        omega
      -- the product is the common multiple times the divisor, and the quotient is smaller
      have hlcm : ((Nat.lcm a b : Nat) : Int) ≤ r := by
        refine Int.le_of_dvd hpos ?_
        rw [← Int.natAbs_dvd_natAbs, Int.natAbs_natCast]
        exact Nat.lcm_dvd (Int.ofNat_dvd_left.1 hdvd) (Int.ofNat_dvd_left.1 hdvd')
      have hproduct : ((Nat.gcd a b : Nat) : Int) * (Nat.lcm a b : Nat) = ((a * b : Nat) : Int) := by
        rw [← Int.natCast_mul, Nat.gcd_mul_lcm]
      have hquotient : ((Nat.gcd a b : Nat) : Int) * r ≤ w := by
        rw [← hr, Int.tdiv_eq_ediv_of_nonneg hwpos]
        exact Int.mul_ediv_self_le hgcd
      have hmul := Int.mul_le_mul_of_nonneg_left hlcm (Int.natCast_nonneg (Nat.gcd a b))
      omega

/-- A step of zero makes the result zero, or divides by zero. -/
theorem lcm64_of_zero {a b r : Int} (h : lcm64 a b = .ok r) (hzero : a = 0 ∨ b = 0) : r = 0 := by
  have hmul : a * b = 0 := Int.mul_eq_zero.2 hzero
  rw [lcm64, hmul] at h
  split at h
  · cases h
  · obtain rfl := Except.ok.inj h
    exact Int.zero_tdiv _

theorem foldlM_lcm64_of_zero : ∀ {steps : List Int} {a r : Int},
    steps.foldlM lcm64 a = .ok r → 0 ∈ a :: steps → r = 0 := by
  intro steps
  induction steps with
  | nil =>
    intro a r h hmem
    obtain rfl := Except.ok.inj h
    exact (List.mem_singleton.1 hmem).symm
  | cons b steps ih =>
    intro a r h hmem
    rw [List.foldlM_cons] at h
    cases hlcm : lcm64 a b with
    | error e =>
      rw [hlcm] at h
      cases h
    | ok c =>
      rw [hlcm] at h
      refine ih h ?_
      rcases List.mem_cons.1 hmem with ha | hmem
      · exact List.mem_cons.2 (.inl (lcm64_of_zero hlcm (.inl ha.symm)).symm)
      · rcases List.mem_cons.1 hmem with hb | hmem
        · exact List.mem_cons.2 (.inl (lcm64_of_zero hlcm (.inr hb.symm)).symm)
        · exact List.mem_cons_of_mem _ hmem

theorem lcmList_of_zero {steps : List Int} {r : Int} (h : lcmList steps = .ok r)
    (hzero : 0 ∈ steps) : r = 0 := by
  cases steps with
  | nil => cases hzero
  | cons a steps => exact foldlM_lcm64_of_zero h hzero

/-- No product of `LCMList` overflows, from the common multiple so far on. -/
def productsFit : Nat → List Nat → Prop
  | _, [] => True
  | acc, step :: steps => acc * step < 2 ^ 63 ∧ productsFit (Nat.lcm acc step) steps

instance : ∀ (acc : Nat) (steps : List Nat), Decidable (productsFit acc steps)
  | _, [] => inferInstanceAs (Decidable True)
  | acc, step :: steps =>
    have := instDecidableProductsFit (Nat.lcm acc step) steps
    inferInstanceAs (Decidable (acc * step < 2 ^ 63 ∧ productsFit (Nat.lcm acc step) steps))

/-- Two steps of zero, in any places, divide by zero; otherwise the loop is right. -/
theorem foldlM_lcm64_of_fits : ∀ {steps : List Nat} {acc : Nat}, productsFit acc steps →
    (steps.map Nat.cast).foldlM lcm64 (acc : Int) =
      if 2 ≤ (acc :: steps).count 0 then .error .divisionByZero
      else .ok ((steps.foldl Nat.lcm acc : Nat) : Int) := by
  intro steps
  induction steps with
  | nil =>
    intro acc _
    have hone : [acc].count 0 ≤ 1 := List.count_le_length
    rw [if_neg (by omega)]
    rfl
  | cons step steps ih =>
    intro acc hfit
    rw [List.map_cons, List.foldlM_cons]
    by_cases hpos : 0 < acc ∨ 0 < step
    · have hcount : (Nat.lcm acc step :: steps).count 0 = (acc :: step :: steps).count 0 := by
        simp only [List.count_cons, beq_iff_eq, Nat.lcm_eq_zero_iff]
        split_ifs <;> omega
      rw [lcm64_of_fits hpos hfit.1, List.foldl_cons, ← hcount]
      exact ih hfit.2
    · -- the divisor is the greatest common divisor of zero and zero
      obtain ⟨rfl, rfl⟩ : acc = 0 ∧ step = 0 := by omega
      have htwo : 2 ≤ (0 :: 0 :: steps).count 0 := by
        rw [List.count_cons_self, List.count_cons_self]
        omega
      rw [if_pos htwo]
      rfl

/-- The least common multiple of some steps. -/
def stepsLcm (steps : List Nat) : Nat := steps.foldl Nat.lcm 1

theorem foldl_lcm_dvd_iff {m : Nat} : ∀ {steps : List Nat} {acc : Nat},
    steps.foldl Nat.lcm acc ∣ m ↔ acc ∣ m ∧ ∀ step ∈ steps, step ∣ m := by
  intro steps
  induction steps with
  | nil => intro acc; simp
  | cons step steps ih =>
    intro acc
    rw [List.foldl_cons, ih, Nat.lcm_dvd_iff, List.forall_mem_cons, and_assoc]

theorem dvd_stepsLcm {steps : List Nat} {step : Nat} (h : step ∈ steps) : step ∣ stepsLcm steps :=
  (foldl_lcm_dvd_iff.1 (Nat.dvd_refl (stepsLcm steps))).2 step h

theorem foldl_lcm_pos : ∀ {steps : List Nat} {acc : Nat}, 0 < acc →
    (∀ step ∈ steps, 0 < step) → 0 < steps.foldl Nat.lcm acc := by
  intro steps
  induction steps with
  | nil => intro acc hacc _; exact hacc
  | cons step steps ih =>
    intro acc hacc hsteps
    exact ih (Nat.lcm_pos hacc (hsteps step List.mem_cons_self))
      fun s hs => hsteps s (List.mem_cons_of_mem _ hs)

/-- `LCMList` is the least common multiple as long as nothing overflows and no two steps are zero. -/
theorem lcmList_eq_of_fits {steps : List Nat} (hfit : productsFit 1 steps) :
    lcmList (steps.map Nat.cast) =
      if 2 ≤ steps.count 0 then .error .divisionByZero else .ok (stepsLcm steps) := by
  cases steps with
  | nil => rfl
  | cons step steps =>
    have hfit' : productsFit step steps := by
      have := hfit.2
      rwa [Nat.lcm_one_left] at this
    rw [List.map_cons, lcmList, foldlM_lcm64_of_fits hfit', stepsLcm, List.foldl_cons,
      Nat.lcm_one_left]

/-- On positive steps, `LCMList` is the least common multiple as long as nothing overflows. -/
theorem lcmList_of_fits {steps : List Nat} (hpos : ∀ step ∈ steps, 0 < step)
    (hfit : productsFit 1 steps) : lcmList (steps.map Nat.cast) = .ok (stepsLcm steps) := by
  have hzero : steps.count 0 = 0 := List.count_eq_zero.2 fun h => Nat.lt_irrefl 0 (hpos 0 h)
  rw [lcmList_eq_of_fits hfit, hzero, if_neg (by omega)]

/-! ## The step of a formula -/

section

variable {V : Type} (req : QueryRangeRequest V) (env : Environment V)

/-- The step of the query that a variable refers to, if it has one. The evaluation of the formula
finds the query by the part of the variable before the dot, up to case. -/
def QueryRangeRequest.referencedStep (v : String) : Option Int :=
  (parseAggregationReference v).bind fun ref =>
    lookupFold env.simpleFold req.stepsMap ref.queryName

/-- There is a step to fill the gaps of a formula with: it is positive and a multiple of the step
of every query that the variables refer to. -/
def QueryRangeRequest.FillStepRight (name : String) (vars : List String) : Prop :=
  ∃ step, req.stepIntervalForQuery env name = .ok step ∧ 0 < step ∧
    ∀ v ∈ vars, ∀ s, req.referencedStep env v = some s → s ∣ step

/-- The step that `StepIntervalForQuery` takes for a variable. -/
def QueryRangeRequest.variableStep (v : String) : Nat := ((req.stepsMap.lookup v).getD 0).toNat

/-- The texts of all variables name queries with a positive step. -/
def QueryRangeRequest.NamesSteps (vars : List String) : Prop :=
  ∀ v ∈ vars, ∃ step, req.stepsMap.lookup v = some step ∧ 0 < step

/-- When the steps combine: for a formula with the name of a query, that query has a positive step
that fits; otherwise every variable is the exact name of a query with a positive step, and where
such a name has a dot in it, the step of the query that the variable refers to fits as well. -/
def QueryRangeRequest.StepsCombine (name : String) (vars : List String) : Prop :=
  match req.stepsMap.lookup name with
  | some step => 0 < step ∧ ∀ v ∈ vars, ∀ s, req.referencedStep env v = some s → s ∣ step
  | none => req.NamesSteps vars ∧ ∀ v ∈ vars, splitDots v ≠ [v] →
      ∀ s, req.referencedStep env v = some s → s ∣ stepsLcm (vars.map req.variableStep)

variable {req env}

/-- Steps are not negative. -/
theorem stepsMap_nonneg {v : String} {step : Int} (h : req.stepsMap.lookup v = some step) :
    0 ≤ step := by
  rw [QueryRangeRequest.stepsMap, lookup_accumulate, List.lookup_nil,
    foldItems_replace_eq_getLast?] at h
  obtain ⟨q, -, hq⟩ := List.mem_filterMap.1 (mem_itemsOf.1 (List.mem_of_getLast? h))
  cases q <;> simp only [Option.some.injEq, Prod.mk.injEq, reduceCtorEq] at hq <;> omega

theorem variableStep_cast (v : String) :
    ((req.variableStep v : Nat) : Int) = (req.stepsMap.lookup v).getD 0 := by
  rw [QueryRangeRequest.variableStep]
  cases h : req.stepsMap.lookup v with
  | none => rfl
  | some step => exact Int.toNat_of_nonneg (stepsMap_nonneg h)

/-- A variable without a dot refers to the query of its name. -/
theorem referencedStep_of_name {v : String} (hdots : splitDots v = [v]) {step : Int}
    (h : req.stepsMap.lookup v = some step) : req.referencedStep env v = some step := by
  rw [QueryRangeRequest.referencedStep, parseAggregationReference, hdots]
  simp only [Option.bind_some, lookupFold, h]

variable {name : String} {vars : List String}

/-- What `StepIntervalForQuery` does for a formula whose name is not that of a query. -/
theorem stepIntervalForQuery_of_formula (hname : req.stepsMap.lookup name = none)
    (hvars : env.lib.vars (req.expressionOf name) = some vars) :
    req.stepIntervalForQuery env name =
      lcmList ((vars.map req.variableStep).map Nat.cast) := by
  rw [QueryRangeRequest.stepIntervalForQuery, hname]
  simp only [hvars, List.map_map]
  refine congrArg lcmList (List.map_congr_left fun v _ => ?_)
  exact (variableStep_cast v).symm

/-- Only variables that name queries with a positive step give a positive step. -/
theorem namesSteps_of_pos (hname : req.stepsMap.lookup name = none)
    (hvars : env.lib.vars (req.expressionOf name) = some vars) {step : Int}
    (hstep : req.stepIntervalForQuery env name = .ok step) (hpos : 0 < step) :
    req.NamesSteps vars := by
  intro v hv
  rw [stepIntervalForQuery_of_formula hname hvars] at hstep
  have hne : req.variableStep v ≠ 0 := by
    intro hzero
    have := lcmList_of_zero hstep (List.mem_map.2 ⟨0, List.mem_map.2 ⟨v, hv, hzero⟩, rfl⟩)
    omega
  have hcast := @variableStep_cast _ req v
  cases h : req.stepsMap.lookup v with
  | none =>
    rw [h, Option.getD_none] at hcast
    omega
  | some s =>
    rw [h, Option.getD_some] at hcast
    exact ⟨s, rfl, by omega⟩

/-- The step of named queries, as long as nothing overflows: their least common multiple. -/
theorem stepIntervalForQuery_of_fits (hname : req.stepsMap.lookup name = none)
    (hvars : env.lib.vars (req.expressionOf name) = some vars) (hnamed : req.NamesSteps vars)
    (hfit : productsFit 1 (vars.map req.variableStep)) :
    req.stepIntervalForQuery env name = .ok (stepsLcm (vars.map req.variableStep)) ∧
      0 < stepsLcm (vars.map req.variableStep) := by
  have hpos : ∀ step ∈ vars.map req.variableStep, 0 < step := by
    intro step hstep
    obtain ⟨v, hv, rfl⟩ := List.mem_map.1 hstep
    obtain ⟨s, hs, hspos⟩ := hnamed v hv
    have hcast := @variableStep_cast _ req v
    rw [hs, Option.getD_some] at hcast
    omega
  rw [stepIntervalForQuery_of_formula hname hvars, lcmList_of_fits hpos hfit]
  exact ⟨rfl, foldl_lcm_pos Nat.one_pos hpos⟩

/-- With two variables an overflow always shows: the step is not a multiple of both steps. -/
theorem product_lt_of_pair {v w : String} (hname : req.stepsMap.lookup name = none)
    (hvars : env.lib.vars (req.expressionOf name) = some [v, w]) (hv : splitDots v = [v])
    (hw : splitDots w = [w]) (h : req.FillStepRight env name [v, w]) :
    req.variableStep v * req.variableStep w < 2 ^ 63 := by
  obtain ⟨step, hstep, hpos, hdvd⟩ := h
  have hnamed := namesSteps_of_pos hname hvars hstep hpos
  have hmultiple : ∀ u ∈ [v, w], splitDots u = [u] → ((req.variableStep u : Nat) : Int) ∣ step := by
    intro u hu hdots
    obtain ⟨s, hs, -⟩ := hnamed u hu
    rw [variableStep_cast, hs, Option.getD_some]
    exact hdvd u hu s (referencedStep_of_name hdots hs)
  rw [stepIntervalForQuery_of_formula hname hvars] at hstep
  have hlcm : lcm64 (req.variableStep v) (req.variableStep w) = .ok step := by
    cases hlcm : lcm64 (req.variableStep v) (req.variableStep w) with
    | error e => simp [lcmList, hlcm] at hstep
    | ok r => simpa [lcmList, hlcm] using hstep
  by_contra hoverflow
  exact lcm64_of_overflow (Nat.le_of_not_lt hoverflow) hlcm hpos
    ⟨hmultiple v (by simp) hv, hmultiple w (by simp) hw⟩

/-- The step of a formula is right exactly when the steps of its variables combine, as long as no
product of steps overflows; and a formula whose name is not that of a query never has a positive
step when some variable is not the exact name of a query with one. The step of a formula of two such
variables is not right when their product overflows. -/
theorem stepIntervalForQuery_right_iff
    (hvars : env.lib.vars (req.expressionOf name) = some vars) :
    ((req.stepsMap.lookup name = none → productsFit 1 (vars.map req.variableStep)) →
      (req.FillStepRight env name vars ↔ req.StepsCombine env name vars)) ∧
    (req.stepsMap.lookup name = none → req.FillStepRight env name vars →
      req.NamesSteps vars ∧
        ∀ v w, vars = [v, w] → splitDots v = [v] → splitDots w = [w] →
          req.variableStep v * req.variableStep w < 2 ^ 63) := by
  constructor
  · intro hfit
    cases hname : req.stepsMap.lookup name with
    | some step =>
      have hstep : req.stepIntervalForQuery env name = .ok step := by
        rw [QueryRangeRequest.stepIntervalForQuery, hname]
      simp only [QueryRangeRequest.FillStepRight, QueryRangeRequest.StepsCombine, hname, hstep,
        Except.ok.injEq, exists_eq_left']
    | none =>
      simp only [QueryRangeRequest.StepsCombine, hname]
      constructor
      · rintro ⟨step, hstep, hpos, hdvd⟩
        have hnamed := namesSteps_of_pos hname hvars hstep hpos
        obtain ⟨hlcm, -⟩ := stepIntervalForQuery_of_fits hname hvars hnamed (hfit hname)
        obtain rfl := Except.ok.inj (hstep.symm.trans hlcm)
        exact ⟨hnamed, fun v hv _ s hs => hdvd v hv s hs⟩
      · rintro ⟨hnamed, hdotted⟩
        obtain ⟨hlcm, hpos⟩ := stepIntervalForQuery_of_fits hname hvars hnamed (hfit hname)
        refine ⟨_, hlcm, by exact_mod_cast hpos, fun v hv s hs => ?_⟩
        by_cases hdots : splitDots v = [v]
        · -- the step under the name of the variable is one of those that were combined
          obtain ⟨step, hstep, -⟩ := hnamed v hv
          rw [referencedStep_of_name hdots hstep, Option.some.injEq] at hs
          subst hs
          have hcast := @variableStep_cast _ req v
          rw [hstep, Option.getD_some] at hcast
          rw [← hcast, Int.natCast_dvd_natCast]
          exact dvd_stepsLcm (List.mem_map_of_mem hv)
        · exact hdotted v hv hdots s hs
  · intro hname hright
    refine ⟨?_, ?_⟩
    · obtain ⟨step, hstep, hpos, -⟩ := hright
      exact namesSteps_of_pos hname hvars hstep hpos
    · rintro v w rfl hv hw
      exact product_lt_of_pair hname hvars hv hw hright

end

/-! ## Formulas of one and of two variables -/

/-- A count of spans every minute and one every minute and a half, and a formula over them. -/
def fillStepRequest (expression : String) : QueryRangeRequest (Option Rat) where
  start := 0
  stop := 600000
  requestType := .timeSeries
  queries := [
    .builder false ⟨"A", false, .expressions ["count()"], 60000, [], 0, []⟩,
    .builder false ⟨"B", false, .expressions ["count()"], 90000, [], 0, []⟩,
    .formula ⟨"F1", expression, false, [], 0, []⟩]
  formatOptions := some ⟨true, false⟩

/-- The sum of two variables, and the expressions that are a single one. -/
def pairEnvironment : Environment (Option Rat) where
  lib := {
    vars := fun expr => if expr = "A + B" then some ["A", "B"] else some [expr]
    evaluate := fun expr values =>
      if expr = "A + B" then do
        let a ← values "A"
        let b ← values "B"
        some (Float64.add a b)
      else values expr }
  varsWithoutFunctions expr := if expr = "A + B" then some ["A", "B"] else some [expr]
  simpleFold := Char.toLower
  toLower := Char.toLower

/-- The gaps of `A + B` are filled every three minutes. -/
theorem fillStepRequest_names :
    (fillStepRequest "A + B").FillStepRight pairEnvironment "F1" ["A", "B"] := by
  have hname : (fillStepRequest "A + B").stepsMap.lookup "F1" = none := rfl
  refine ((stepIntervalForQuery_right_iff (by decide)).1 fun _ => by decide).2 ?_
  simp only [QueryRangeRequest.StepsCombine, hname]
  refine ⟨fun v hv => ?_, fun v hv hdots => ?_⟩
  · rcases List.mem_pair.1 hv with rfl | rfl
    · exact ⟨60000, rfl, by decide⟩
    · exact ⟨90000, rfl, by decide⟩
  · rcases List.mem_pair.1 hv with rfl | rfl <;> exact absurd (by decide) hdots

/-- The first aggregation of `A` has the step zero. -/
theorem fillStepRequest_indexed :
    ¬ (fillStepRequest "A.0").FillStepRight variableEnvironment "F1" ["A.0"] := by
  rintro ⟨step, hstep, hpos, -⟩
  have hzero : (fillStepRequest "A.0").stepIntervalForQuery variableEnvironment "F1" = .ok 0 := rfl
  rw [hzero] at hstep
  obtain rfl := Except.ok.inj hstep
  exact absurd hpos (by decide)

end Signoz.Querier
