import Signoz.Querier.DataSource
import Signoz.Querier.GapFilling

/-!
# Shifts in time

A `timeShift` function moves the window that a builder query reads backwards, and `ApplyFunctions`
moves the points that come back forwards again. The window is moved when `QueryRange` builds the
query and once more when `createRangedQuery` copies it for a missing range, so a copy reads the range
it was asked for only without a shift (`createRangedQuery_window_iff`). The window is moved by the
whole seconds of the first shift, the points by the milliseconds of every shift: what is taken away
is given back when these are the same (`shiftUndone_iff`).
-/

namespace Signoz.Querier

section TimeShift

variable {V : Type} [Float64 V]

open Float64

/-! ## The shift of the window -/

/-- The cases of `extractShiftFromBuilderQuery`: an argument in whole seconds. -/
def wholeSeconds : ArgValue V → Option Int
  | .float v => some (toInt v)
  | .int n => some n
  | .str s => (parseFloat s : Option V).map toInt
  | .other => none

/-- `extractShiftFromBuilderQuery`: the first `timeShift` with a numeric argument, or zero. -/
def extractShiftFromBuilderQuery : List (Function V) → Int
  | [] => 0
  | fn :: functions =>
    if fn.name = .timeShift then
      match fn.args.head?.bind wholeSeconds with
      | some shift => shift
      | none => extractShiftFromBuilderQuery functions
    else extractShiftFromBuilderQuery functions

/-- A builder query as `QueryRange` makes it, with the shifted window. Traces, logs and metrics do
the same here; what the cache and the statement builder make of the rest of the specification are
the fingerprint and the execution. -/
def newBuilderQuery (req : QueryRangeRequest V) (spec : BuilderQuery V) (fingerprint : String)
    (execute : TimeRange → Option (Result V)) : Query V :=
  let shiftBy := extractShiftFromBuilderQuery spec.functions
  { fingerprint := fingerprint
    window := adjustTimeRangeForShift shiftBy ⟨req.start, req.stop⟩ req.requestType
    kind := .builder shiftBy
    requestType := req.requestType
    execute := execute }

/-- The request types whose window is shifted. -/
def RequestType.shifts (requestType : RequestType) : Prop :=
  requestType = .timeSeries ∨ requestType = .scalar

/-- Both bounds of a range, `ms` milliseconds later, in `uint64`. -/
def TimeRange.later (tr : TimeRange) (ms : Int) : TimeRange :=
  ⟨uint64 (tr.fromMs + ms), uint64 (tr.toMs + ms)⟩

/-- The bounds are `uint64`. -/
structure TimeRange.Fits (tr : TimeRange) : Prop where
  fromMs_lt : tr.fromMs < 2 ^ 64
  toMs_lt : tr.toMs < 2 ^ 64

theorem subUint64_uint64 (a : Nat) (ms : Int) : subUint64 a (uint64 ms) = uint64 (a - ms) := by
  unfold subUint64 uint64
  omega

omit [Float64 V] in
theorem TimeRange.later_later (tr : TimeRange) (a b : Int) :
    (tr.later a).later b = tr.later (a + b) := by
  have hadd : ∀ n : Nat, uint64 ((uint64 (n + a) : Nat) + b) = uint64 (n + (a + b)) := by
    intro n
    unfold uint64
    omega
  simp only [TimeRange.later, hadd]

variable {tr : TimeRange}

omit [Float64 V] in
/-- A range stays where it is when it is moved by a multiple of `2 ^ 64`. -/
theorem TimeRange.later_eq_self_iff (h : tr.Fits) (ms : Int) :
    tr.later ms = tr ↔ (2 ^ 64 : Int) ∣ ms := by
  obtain ⟨hfrom, hto⟩ := h
  have hbound : ∀ n : Nat, n < 2 ^ 64 → (uint64 (n + ms) = n ↔ (2 ^ 64 : Int) ∣ ms) := by
    intro n hn
    unfold uint64
    omega
  constructor
  · intro heq
    exact (hbound _ hfrom).1 (congrArg TimeRange.fromMs heq)
  · intro hdvd
    simp only [TimeRange.later, (hbound _ hfrom).2 hdvd, (hbound _ hto).2 hdvd]

omit [Float64 V] in
/-- `adjustTimeRangeForShift` moves the window back. -/
theorem adjustTimeRangeForShift_eq {requestType : RequestType} (hshifts : requestType.shifts)
    (shiftBy : Int) (h : tr.Fits) :
    adjustTimeRangeForShift shiftBy tr requestType = tr.later (-(shiftBy * 1000)) := by
  have hkind : ¬ (requestType ≠ .timeSeries ∧ requestType ≠ .scalar) := by
    rcases hshifts with rfl | rfl <;> decide
  rw [adjustTimeRangeForShift, if_neg hkind]
  by_cases hzero : shiftBy = 0
  · rw [if_pos hzero, hzero]
    exact ((TimeRange.later_eq_self_iff h _).2 (by simp)).symm
  · rw [if_neg hzero, subUint64_uint64, subUint64_uint64, TimeRange.later]
    rfl

/-- A ranged copy of a query reads the range it was asked for exactly when its request type is not
shifted or its shift is no shift in `uint64` milliseconds. -/
theorem createRangedQuery_window_iff (req : QueryRangeRequest V) (spec : BuilderQuery V)
    (fingerprint : String) (execute : TimeRange → Option (Result V)) {tr : TimeRange}
    (hfits : tr.Fits) :
    (createRangedQuery (newBuilderQuery req spec fingerprint execute) tr).window = tr ↔
      ¬ req.requestType.shifts ∨
        (2 ^ 64 : Int) ∣ extractShiftFromBuilderQuery spec.functions * 1000 := by
  have hwindow : (createRangedQuery (newBuilderQuery req spec fingerprint execute) tr).window =
      adjustTimeRangeForShift (extractShiftFromBuilderQuery spec.functions) tr req.requestType := rfl
  rw [hwindow]
  by_cases hshifts : req.requestType.shifts
  · rw [adjustTimeRangeForShift_eq hshifts _ hfits, TimeRange.later_eq_self_iff hfits]
    simp [hshifts]
  · have hsame : req.requestType ≠ .timeSeries ∧ req.requestType ≠ .scalar := not_or.1 hshifts
    rw [adjustTimeRangeForShift, if_pos hsame]
    simp [hshifts]

/-! ## The shift of the points -/

/-- What `ApplyFunction` adds to the timestamps, in milliseconds. -/
def Function.addedMs (fn : Function V) : Int :=
  if fn.name = .timeShift then
    ((fn.args.head?.bind parseFloat64Arg).map fun shift => toInt (mul shift (ofInt 1000))).getD 0
  else 0

/-- What `ApplyFunctions` adds to the timestamps. -/
def addedMs (functions : List (Function V)) : Int := (functions.map Function.addedMs).sum

/-- The timestamps that a `fillZero` gives its series. -/
def Function.filledTimestamps (fn : Function V) : List Int :=
  match fn.args with
  | start :: stop :: step :: _ =>
    match parseFloat64Arg start, parseFloat64Arg stop, parseFloat64Arg step with
    | some start, some stop, some step =>
      fillTimestamps (toInt start - (toInt start).tmod (toInt step)) (toInt stop) (toInt step)
    | _, _, _ => []
  | _ => []

/-- A timestamp that a `fillZero` of the list sets, moved by the functions behind it. -/
def SetByFillZero (functions : List (Function V)) (timestamp : Int) : Prop :=
  ∃ before fill behind, functions = before ++ fill :: behind ∧ fill.name = .fillZero ∧
    ∃ t ∈ fill.filledTimestamps, timestamp = t + addedMs behind

/-- The timestamps of the points. -/
def timestamps (values : List (TimeSeriesValue V)) : List Int :=
  values.map TimeSeriesValue.timestamp

omit [Float64 V] in
@[simp] theorem timestamps_mapValue (f : V → V) (values : List (TimeSeriesValue V)) :
    timestamps (mapValue f values) = timestamps values := by
  simp [timestamps, mapValue, Function.comp_def]

variable {values : List (TimeSeriesValue V)}

theorem timestamps_withArg {args : List (ArgValue V)}
    {f : V → List (TimeSeriesValue V) → List (TimeSeriesValue V)}
    (hf : ∀ x, timestamps (f x values) = timestamps values) :
    timestamps (withArg args f values) = timestamps values := by
  unfold withArg
  split
  · exact hf _
  · rfl

theorem timestamps_funcRunningDiff (values : List (TimeSeriesValue V)) :
    timestamps (funcRunningDiff values) = (timestamps values).tail := by
  induction values with
  | nil => rfl
  | cons before rest ih =>
    cases rest with
    | nil => rfl
    | cons point rest => simpa [timestamps, funcRunningDiff] using ih

theorem timestamps_cumulativeSumFrom (values : List (TimeSeriesValue V)) :
    ∀ sum : V, timestamps (cumulativeSumFrom sum values) = timestamps values := by
  induction values with
  | nil => exact fun _ => rfl
  | cons point rest ih =>
    intro sum
    exact congrArg (point.timestamp :: ·) (ih _)

theorem timestamps_ewmaFrom (alpha : V) (values : List (TimeSeriesValue V)) :
    ∀ ewma : Option V, timestamps (ewmaFrom alpha ewma values) = timestamps values := by
  induction values with
  | nil => exact fun ewma => by cases ewma <;> rfl
  | cons point rest ih =>
    intro ewma
    cases ewma with
    | none => exact congrArg (point.timestamp :: ·) (ih _)
    | some ewma => exact congrArg (point.timestamp :: ·) (ih _)

theorem timestamps_funcMedianN (n : Nat) (values : List (TimeSeriesValue V)) :
    timestamps (funcMedianN n values) = timestamps values := by
  unfold funcMedianN
  split_ifs
  · rfl
  · apply List.ext_getElem
    · simp [timestamps]
    · intro i h₁ h₂
      simp only [timestamps, List.getElem_map, List.getElem_mapIdx]
      split <;> rfl

variable {fn : Function V}

/-- `timeShift` moves every point, the other functions move none. -/
theorem timestamps_applyFunction (hfill : fn.name ≠ .fillZero) (values : List (TimeSeriesValue V)) :
    timestamps (applyFunction fn values) =
      (if fn.name = .runningDiff then (timestamps values).tail else timestamps values).map
        (· + fn.addedMs) := by
  obtain ⟨name, args⟩ := fn
  unfold applyFunction
  split_ifs with hempty hdiff hdiff
  · obtain rfl : values = [] := List.isEmpty_iff.1 hempty
    rfl
  · obtain rfl : values = [] := List.isEmpty_iff.1 hempty
    rfl
  · obtain rfl : name = .runningDiff := hdiff
    simp [Function.addedMs, timestamps_funcRunningDiff]
  · by_cases hshift : name = .timeShift
    · subst hshift
      simp only [Function.addedMs, withArg, if_true]
      cases args.head?.bind parseFloat64Arg with
      | none => simp
      | some shift => simp [timestamps, funcTimeShift, Function.comp_def]
    · cases name <;>
        simp [Function.addedMs, timestamps_withArg, funcCutOffMin, funcCutOffMax, funcClampMin,
          funcClampMax, funcAbsolute, funcLog2, funcLog10, funcCumulativeSum, funcEWMA,
          timestamps_cumulativeSumFrom, timestamps_ewmaFrom, timestamps_funcMedianN]
          at hfill hdiff hshift ⊢

/-- `fillZero` keeps points and makes points at its own timestamps. -/
theorem mem_applyFillZero {p : TimeSeriesValue V} (hp : p ∈ applyFillZero fn.args values) :
    p ∈ values ∨ p.timestamp ∈ fn.filledTimestamps := by
  obtain ⟨name, args⟩ := fn
  match args, hp with
  | [], hp => exact .inl hp
  | [_], hp => exact .inl hp
  | [_, _], hp => exact .inl hp
  | start :: stop :: step :: _, hp =>
    simp only [applyFillZero] at hp
    simp only [Function.filledTimestamps]
    cases ha : parseFloat64Arg start with
    | none => exact .inl (by simpa only [ha] using hp)
    | some a =>
      cases hb : parseFloat64Arg stop with
      | none => exact .inl (by simpa only [ha, hb] using hp)
      | some b =>
        cases hc : parseFloat64Arg step with
        | none => exact .inl (by simpa only [ha, hb, hc] using hp)
        | some c =>
          simp only [ha, hb, hc] at hp
          split at hp
          · exact .inl hp
          · simp only [funcFillZero, lookup_existingValues] at hp
            split at hp
            · exact .inl hp
            · obtain ⟨t, ht, rfl⟩ := List.mem_map.1 hp
              cases hpoint : pointAt values t with
              | none => exact .inr ht
              | some q => exact .inl (mem_of_pointAt hpoint)

/-- One function: every point is an input point, moved, or was set by `fillZero`. -/
theorem mem_applyFunction {p : TimeSeriesValue V} (hp : p ∈ applyFunction fn values) :
    (∃ q ∈ values, p.timestamp = q.timestamp + fn.addedMs) ∨
      fn.name = .fillZero ∧ p.timestamp ∈ fn.filledTimestamps := by
  by_cases hfill : fn.name = .fillZero
  · have hadded : fn.addedMs = 0 := by rw [Function.addedMs, if_neg (by rw [hfill]; decide)]
    by_cases hempty : values.isEmpty
    · rw [applyFunction, if_pos hempty, List.isEmpty_iff.1 hempty] at hp
      cases hp
    · rw [applyFunction, if_neg hempty, hfill] at hp
      rcases mem_applyFillZero hp with hp | hp
      · exact .inl ⟨p, hp, by rw [hadded, add_zero]⟩
      · exact .inr ⟨hfill, hp⟩
  · have ht : p.timestamp ∈ timestamps (applyFunction fn values) := List.mem_map_of_mem hp
    rw [timestamps_applyFunction hfill] at ht
    obtain ⟨t, ht, heq⟩ := List.mem_map.1 ht
    have hin : t ∈ timestamps values := by
      split at ht
      · exact List.mem_of_mem_tail ht
      · exact ht
    obtain ⟨q, hq, rfl⟩ := List.mem_map.1 hin
    exact .inl ⟨q, hq, heq.symm⟩

/-- Every point that `ApplyFunctions` returns is an input point, moved by all shifts, or was set by
a `fillZero`. -/
theorem mem_applyFunctionsToValues (functions : List (Function V)) :
    ∀ {values : List (TimeSeriesValue V)} {p : TimeSeriesValue V},
      p ∈ applyFunctionsToValues functions values →
        (∃ q ∈ values, p.timestamp = q.timestamp + addedMs functions) ∨
          SetByFillZero functions p.timestamp := by
  induction functions with
  | nil => exact fun {values} {p} hp => .inl ⟨p, hp, by simp [addedMs]⟩
  | cons fn functions ih =>
    intro values p hp
    have hsum : addedMs (fn :: functions) = fn.addedMs + addedMs functions := List.sum_cons
    rcases ih hp with ⟨q, hq, ht⟩ | ⟨before, fill, behind, heq, hfill, ht⟩
    · rcases mem_applyFunction hq with ⟨q', hq', ht'⟩ | ⟨hfill, ht'⟩
      · exact .inl ⟨q', hq', by rw [ht, ht', hsum, add_assoc]⟩
      · exact .inr ⟨[], fn, functions, rfl, hfill, q.timestamp, ht', ht⟩
    · exact .inr ⟨fn :: before, fill, behind, by rw [heq]; rfl, hfill, ht⟩

/-! ## Undoing the shift -/

/-- The numeric arguments of the shifts of a list, in order. -/
def timeShiftArgs (functions : List (Function V)) : List (ArgValue V) :=
  functions.filterMap fun fn =>
    if fn.name = .timeShift then fn.args.head?.filter fun arg => (parseFloat64Arg arg).isSome
    else none

/-- An argument in milliseconds, as `funcTimeShift` takes it. -/
def shiftMs (arg : ArgValue V) : Int :=
  ((parseFloat64Arg arg).map fun shift => toInt (mul shift (ofInt 1000))).getD 0

/-- What the first shift has beyond its whole seconds and the milliseconds of the later shifts
cancel out in 64 bits. -/
def ShiftsCancel (functions : List (Function V)) : Prop :=
  match timeShiftArgs functions with
  | [] => True
  | first :: later =>
    (2 ^ 64 : Int) ∣
      (shiftMs first - (wholeSeconds first).getD 0 * 1000) + (later.map shiftMs).sum

/-- The shift of a query is undone: moved by what the functions add, the window that is read is the
window that was requested, and where the window that is read begins with a step, the points of it
come out in the requested window, but for those that a `fillZero` sets. -/
structure ShiftUndone (functions : List (Function V)) (requestType : RequestType) : Prop where
  amount : ∀ tr : TimeRange, tr.Fits →
    (adjustTimeRangeForShift (extractShiftFromBuilderQuery functions) tr requestType).later
      (addedMs functions) = tr
  points : ∀ (tr : TimeRange) (stepMs : Nat) (values : List (TimeSeriesValue V)), tr.Fits →
    tr.fromMs ≤ tr.toMs → 0 < stepMs →
    stepMs ∣ (adjustTimeRangeForShift (extractShiftFromBuilderQuery functions) tr
      requestType).fromMs →
    (∀ q ∈ values, ∃ t ∈ gridTimes stepMs (adjustTimeRangeForShift
      (extractShiftFromBuilderQuery functions) tr requestType), q.timestamp = (t : Int)) →
    ∀ p ∈ applyFunctionsToValues functions values,
      tr.Mem (uint64 p.timestamp) ∨ SetByFillZero functions p.timestamp

theorem parseFloat64Arg_isSome_iff (arg : ArgValue V) :
    (parseFloat64Arg arg).isSome ↔ (wholeSeconds arg).isSome := by
  cases arg <;> simp [parseFloat64Arg, wholeSeconds]

theorem timeShiftArgs_cons (fn : Function V) (functions : List (Function V)) :
    timeShiftArgs (fn :: functions) =
      (if fn.name = .timeShift then
        (fn.args.head?.filter fun arg => (parseFloat64Arg arg).isSome).toList else []) ++
        timeShiftArgs functions := by
  unfold timeShiftArgs
  by_cases h : fn.name = .timeShift
  · rw [List.filterMap_cons, if_pos h, if_pos h]
    cases fn.args.head?.filter fun arg => (parseFloat64Arg arg).isSome <;> rfl
  · rw [List.filterMap_cons, if_neg h, if_neg h]
    rfl

/-- The window is moved by the whole seconds of the first shift. -/
theorem extractShiftFromBuilderQuery_eq (functions : List (Function V)) :
    extractShiftFromBuilderQuery functions =
      ((timeShiftArgs functions).head?.bind wholeSeconds).getD 0 := by
  induction functions with
  | nil => rfl
  | cons fn functions ih =>
    rw [extractShiftFromBuilderQuery, timeShiftArgs_cons]
    by_cases hname : fn.name = .timeShift
    · rw [if_pos hname, if_pos hname]
      cases hargs : fn.args.head? with
      | none => simpa using ih
      | some arg =>
        have hsome := parseFloat64Arg_isSome_iff arg
        cases hsecs : wholeSeconds arg with
        | none =>
          have hnone : (parseFloat64Arg arg).isSome = false := by
            rw [hsecs] at hsome
            simpa using hsome
          simpa [hsecs, Option.filter, hnone] using ih
        | some shift =>
          have hparse : (parseFloat64Arg arg).isSome = true := by
            rw [hsecs] at hsome
            simpa using hsome
          simp [hsecs, Option.filter, hparse]
    · rw [if_neg hname, if_neg hname]
      exact ih

/-- The points are moved by the milliseconds of every shift. -/
theorem addedMs_eq (functions : List (Function V)) :
    addedMs functions = ((timeShiftArgs functions).map shiftMs).sum := by
  induction functions with
  | nil => rfl
  | cons fn functions ih =>
    have hsum : addedMs (fn :: functions) = fn.addedMs + addedMs functions := List.sum_cons
    rw [hsum, timeShiftArgs_cons, List.map_append, List.sum_append, ih, Function.addedMs]
    congr 1
    by_cases hname : fn.name = .timeShift
    · rw [if_pos hname, if_pos hname]
      cases fn.args.head? with
      | none => rfl
      | some arg =>
        cases hparse : parseFloat64Arg arg with
        | none => simp [hparse, Option.filter]
        | some shift => simp [hparse, Option.filter, shiftMs]
    · rw [if_neg hname, if_neg hname]
      rfl

/-- The amounts agree when the shifts cancel out. -/
theorem shiftsCancel_iff (functions : List (Function V)) :
    ShiftsCancel functions ↔
      (2 ^ 64 : Int) ∣ -(extractShiftFromBuilderQuery functions * 1000) + addedMs functions := by
  rw [ShiftsCancel, extractShiftFromBuilderQuery_eq, addedMs_eq]
  cases timeShiftArgs functions with
  | nil => simp
  | cons first later =>
    simp only [List.head?_cons, Option.bind_some, List.map_cons, List.sum_cons]
    rw [show -((wholeSeconds first).getD 0 * 1000) + (shiftMs first + (later.map shiftMs).sum) =
      shiftMs first - (wholeSeconds first).getD 0 * 1000 + (later.map shiftMs).sum by ring]

omit [Float64 V] in
/-- A time in a range that was moved back is in the range when it is moved forward again. -/
theorem TimeRange.mem_of_mem_later (hfits : tr.Fits) (hle : tr.fromMs ≤ tr.toMs) {back forth : Int}
    (hsame : (2 ^ 64 : Int) ∣ -back + forth) {t : Nat} (ht : (tr.later (-back)).Mem t) :
   tr.Mem (uint64 (t + forth)) := by
  obtain ⟨hfrom, hto⟩ := hfits
  simp only [TimeRange.Mem, TimeRange.later, uint64] at ht ⊢
  omega

/-- A time shift is undone exactly when the rest of its first second and the later shifts cancel
out. -/
theorem shiftUndone_iff (functions : List (Function V)) {requestType : RequestType}
    (hshifts : requestType.shifts) :
    ShiftUndone functions requestType ↔ ShiftsCancel functions := by
  have hamount : ∀ tr : TimeRange, tr.Fits →
      ((adjustTimeRangeForShift (extractShiftFromBuilderQuery functions) tr requestType).later
        (addedMs functions) = tr ↔ ShiftsCancel functions) := by
    intro tr hfits
    rw [adjustTimeRangeForShift_eq hshifts _ hfits, TimeRange.later_later,
      TimeRange.later_eq_self_iff hfits, shiftsCancel_iff]
  constructor
  · intro h
    exact (hamount ⟨0, 0⟩ ⟨by decide, by decide⟩).1 (h.amount _ ⟨by decide, by decide⟩)
  · intro hcancel
    refine ⟨fun tr hfits => (hamount tr hfits).2 hcancel, ?_⟩
    intro tr stepMs values hfits hle hstep halign hvalues p hp
    rw [adjustTimeRangeForShift_eq hshifts _ hfits] at halign hvalues
    rcases mem_applyFunctionsToValues functions hp with ⟨q, hq, ht⟩ | hset
    · obtain ⟨t, hgrid, hqt⟩ := hvalues q hq
      obtain ⟨hdvd, hlow, hhigh⟩ := (mem_gridTimes hstep).1 hgrid
      -- a step that meets a window which begins with a step begins in it
      have hbegin : (tr.later (-(extractShiftFromBuilderQuery functions * 1000))).fromMs ≤ t := by
        obtain ⟨a, ha⟩ := halign
        obtain ⟨b, rfl⟩ := hdvd
        rw [ha] at hlow ⊢
        refine Nat.mul_le_mul_left _ (Nat.le_of_lt_succ ?_)
        exact Nat.lt_of_mul_lt_mul_left (a := stepMs) (by rw [Nat.mul_succ]; exact hlow)
      left
      rw [ht, hqt]
      exact TimeRange.mem_of_mem_later hfits hle ((shiftsCancel_iff functions).1 hcancel)
        ⟨hbegin, hhigh⟩
    · exact .inr hset

end TimeShift

/-- A shift by an hour, over a window from ten o'clock to eight in the evening. -/
def anHourAgo : List (Function (Option Rat)) := [⟨.timeShift, [.float (some 3600)]⟩]

/-- The log query of a time series with its shift. -/
def shiftedQuery (functions : List (Function (Option Rat))) : Query (Option Rat) :=
  newBuilderQuery ⟨36000000, 72000000, .timeSeries, [], none⟩
    ⟨"A", false, .expressions ["count()"], 60000, functions, 0, []⟩ "" fun _ => none

/-- Without functions a copy reads the range it was asked for. -/
theorem unshifted_window :
    (createRangedQuery (shiftedQuery []) ⟨36000000, 39600000⟩).window = ⟨36000000, 39600000⟩ :=
  (createRangedQuery_window_iff _ _ _ _ ⟨by decide, by decide⟩).2 (.inr (by decide))

/-- With the shift, a copy for the hour from nine reads the hour from eight. -/
theorem anHourAgo_shifted_twice :
    (shiftedQuery anHourAgo).window = ⟨32400000, 68400000⟩ ∧
      (createRangedQuery (shiftedQuery anHourAgo) ⟨32400000, 36000000⟩).window =
        ⟨28800000, 32400000⟩ := by
  decide +kernel

/-- An hour is undone. -/
theorem anHourAgo_undone : ShiftUndone anHourAgo .timeSeries :=
  (shiftUndone_iff anHourAgo (.inl rfl)).2 (by
    rw [shiftsCancel_iff]
    decide +kernel)

/-- Of one and a half seconds the window is moved by one, the points by one and a half. -/
theorem half_second_not_undone :
    ¬ ShiftUndone [(⟨.timeShift, [.float (some (3 / 2))]⟩ : Function (Option Rat))]
      .timeSeries := by
  intro h
  have hfirst := congrArg TimeRange.fromMs (h.amount ⟨60000, 120000⟩ ⟨by decide, by decide⟩)
  revert hfirst
  decide +kernel

end Signoz.Querier
