import Signoz.Lib.Recurring

/-!
# Planned maintenance

`maintenance.go`: `ShouldSkip` says whether a maintenance mutes a rule now, by its fixed window or
by its recurrence. For a recurrence the check looks at one candidate of each day, the last one that
should not be ahead.

The check is compared with the occurrences of the recurrence (`shouldSkip_faithful_iff`). It differs
in two ways: an occurrence that lies before the start of the recurrence counts, and behind a monthly
occurrence that is still ahead, `AddDate` may carry the day over into the month again, so that the
candidate stays ahead.
-/

namespace Signoz.Rules

open Lib.CivilDate Lib.GoTime Lib.Recurring

/-! ## Data -/

/-- `valuer.TextDuration`. -/
structure TextDuration where
  text : String
  value : ℤ

/-- `RepeatType`. -/
inductive RepeatType where
  | daily
  | weekly
  | monthly
  | other (value : String)
deriving DecidableEq

/-- `RepeatOn`. -/
inductive RepeatOn where
  | sunday
  | monday
  | tuesday
  | wednesday
  | thursday
  | friday
  | saturday
  | other (value : String)

/-- `RepeatOnAllMap`. -/
def repeatOnAllMap : RepeatOn → Option ℤ
  | .sunday => some 0
  | .monday => some 1
  | .tuesday => some 2
  | .wednesday => some 3
  | .thursday => some 4
  | .friday => some 5
  | .saturday => some 6
  | .other _ => none

/-- `Recurrence`. -/
structure Recurrence where
  startTime : Time
  endTime : Option Time
  duration : TextDuration
  repeatType : RepeatType
  repeatOn : List RepeatOn

/-- `Schedule`. -/
structure Schedule where
  timezone : String
  startTime : Time
  endTime : Time
  recurrence : Option Recurrence

/-- `GettablePlannedMaintenance`, with the fields that the functions here read. -/
structure GettablePlannedMaintenance where
  name : String
  schedule : Option Schedule
  ruleIDs : List String

/-! ## The check -/

/-- `checkDaily`. -/
def checkDaily (currentTime : Time) (rec : Recurrence) (loc : Location) : Bool :=
  let candidate := date currentTime.year currentTime.month currentTime.day rec.startTime.hour
    rec.startTime.minute 0 0 loc
  let candidate := if candidate.after currentTime then candidate.addDate 0 0 (-1) else candidate
  currentTime.sub candidate ≤ rec.duration.value

/-- One round of the loop of `checkWeekly`. -/
def checkWeekday (currentTime : Time) (rec : Recurrence) (loc : Location) (allowedDay : ℤ) : Bool :=
  let delta := allowedDay - currentTime.weekday
  let candidate := (date currentTime.year currentTime.month currentTime.day rec.startTime.hour
    rec.startTime.minute 0 0 loc).addDate 0 0 delta
  let candidate := if candidate.after currentTime then candidate.addDate 0 0 (-7) else candidate
  currentTime.sub candidate ≤ rec.duration.value

/-- `checkWeekly`. -/
def checkWeekly (currentTime : Time) (rec : Recurrence) (loc : Location) : Bool :=
  if rec.repeatOn = [] then checkDaily currentTime rec loc
  else
    rec.repeatOn.any fun day =>
      match repeatOnAllMap day with
      | some allowedDay => checkWeekday currentTime rec loc allowedDay
      | none => false

/-- `checkMonthly`. -/
def checkMonthly (currentTime : Time) (rec : Recurrence) (loc : Location) : Bool :=
  let start := rec.startTime
  let refDay := start.day
  let lastDay := (date currentTime.year (currentTime.month + 1) 0 0 0 0 0 loc).day
  let day := if refDay > lastDay then lastDay else refDay
  let candidate := date currentTime.year currentTime.month day start.hour start.minute start.second
    start.nanosecond loc
  let candidate :=
    if candidate.after currentTime then
      let previous := candidate.addDate 0 (-1) 0
      let lastDayPrev := (date previous.year (previous.month + 1) 0 0 0 0 0 loc).day
      if refDay > lastDayPrev then
        date previous.year previous.month lastDayPrev start.hour start.minute start.second
          start.nanosecond loc
      else
        date previous.year previous.month refDay start.hour start.minute start.second
          start.nanosecond loc
    else candidate
  currentTime.sub candidate ≤ rec.duration.value

namespace GettablePlannedMaintenance

/-- The recurring part of `ShouldSkip`. -/
def skipsRecurring (rec : Recurrence) (currentTime : Time) (loc : Location) : Bool :=
  if currentTime.before rec.startTime then false
  else if rec.endTime.any fun endTime => !endTime.isZero && currentTime.after endTime then false
  else
    match rec.repeatType with
    | .daily => checkDaily currentTime rec loc
    | .weekly => checkWeekly currentTime rec loc
    | .monthly => checkMonthly currentTime rec loc
    | .other _ => false

/-- `ShouldSkip`, where `loadLocation` is `time.LoadLocation`. A schedule that is nil, which
`Validate` rejects, would panic. -/
def shouldSkip (loadLocation : String → Option Location) (m : GettablePlannedMaintenance)
    (ruleID : String) (now : Time) : Bool :=
  let found := m.ruleIDs = [] || m.ruleIDs.contains ruleID
  if !found then false
  else
    match m.schedule with
    | none => false
    | some schedule =>
      match loadLocation schedule.timezone with
      | none => false
      | some loc =>
        let currentTime := now.inLocation loc
        let startTime := schedule.startTime.inLocation loc
        let endTime := schedule.endTime.inLocation loc
        if !schedule.startTime.isZero && !schedule.endTime.isZero &&
            (currentTime.equal startTime || currentTime.equal endTime ||
              (currentTime.after startTime && currentTime.before endTime)) then true
        else
          match schedule.recurrence with
          | some rec => skipsRecurring rec currentTime loc
          | none => false

/-- `IsActive`. -/
def isActive (loadLocation : String → Option Location) (m : GettablePlannedMaintenance)
    (now : Time) : Bool :=
  m.shouldSkip loadLocation (m.ruleIDs.head?.getD "maintenance") now

/-- `IsUpcoming` at a time. -/
def isUpcoming (loadLocation : String → Option Location) (m : GettablePlannedMaintenance)
    (now : Time) : Bool :=
  match m.schedule with
  | none => false
  | some schedule =>
    match loadLocation schedule.timezone with
    | none => false
    | some loc =>
      let now := now.inLocation loc
      if !schedule.startTime.isZero && !schedule.endTime.isZero then
        now.before schedule.startTime
      else
        match schedule.recurrence with
        | some rec => now.before rec.startTime
        | none => false

/-- The kind that `MarshalJSON` reports. -/
def kind (m : GettablePlannedMaintenance) : String :=
  match m.schedule with
  | none => "recurring"
  | some schedule =>
    if !schedule.startTime.isZero && !schedule.endTime.isZero &&
        schedule.endTime.after schedule.startTime then "fixed"
    else "recurring"

/-- `Validate`: the message of its error. -/
def validate (loadLocation : String → Option Location) (m : GettablePlannedMaintenance) :
    Option String :=
  if m.name = "" then some "missing name in the payload"
  else
    match m.schedule with
    | none => some "missing schedule in the payload"
    | some schedule =>
      if schedule.timezone = "" then some "missing timezone in the payload"
      else if (loadLocation schedule.timezone).isNone then some "invalid timezone in the payload"
      else if !schedule.startTime.isZero && !schedule.endTime.isZero &&
          schedule.startTime.after schedule.endTime then
        some "start time cannot be after end time"
      else
        match schedule.recurrence with
        | none => none
        | some rec =>
          if rec.repeatType = .other "" then some "missing repeat type in the payload"
          else if rec.duration.value = 0 then some "missing duration in the payload"
          else if rec.endTime.any fun endTime => endTime.before rec.startTime then
            some "end time cannot be before start time"
          else none

end GettablePlannedMaintenance

/-! ## Occurrences -/

/-- The rule is covered: it is listed, or none is. -/
def GettablePlannedMaintenance.Covers (m : GettablePlannedMaintenance) (ruleID : String) : Prop :=
  m.ruleIDs = [] ∨ ruleID ∈ m.ruleIDs

/-- The fixed window has both ends and contains an instant. -/
def Schedule.FixedAt (s : Schedule) (now : ℤ) : Prop :=
  s.startTime.nanos ≠ 0 ∧ s.endTime.nanos ≠ 0 ∧ s.startTime.nanos ≤ now ∧ now ≤ s.endTime.nanos

namespace Recurrence

variable (r : Recurrence)

/-- The recurrence has started and not ended. -/
def RunningAt (now : ℤ) : Prop :=
  r.startTime.nanos ≤ now ∧ ∀ e ∈ r.endTime, e.nanos = 0 ∨ now ≤ e.nanos

/-- The time of day of the occurrences: to the minute, and monthly ones as the start has it. -/
def clock : ℤ :=
  match r.repeatType with
  | .monthly => r.startTime.clock
  | _ => clockOf r.startTime.hour r.startTime.minute 0 0

/-- The occurrences, read in the time zone of the schedule. Where no weekday is listed, a weekly
one occurs on each. -/
def Occurs (t : Time) : Prop :=
  t.clock = r.clock ∧
    match r.repeatType with
    | .daily => True
    | .weekly => r.repeatOn = [] ∨ ∃ day ∈ r.repeatOn, repeatOnAllMap day = some t.weekday
    | .monthly => t.day = min r.startTime.day (monthLength t.monthNumber)
    | .other _ => False

/-- An occurrence from the start on lasts until now. -/
def OpenAt (loc : Location) (now : ℤ) : Prop :=
  ∃ o, r.Occurs ⟨o, loc⟩ ∧ r.startTime.nanos ≤ o ∧ o ≤ now ∧ now ≤ o + r.duration.value

/-- This month's occurrence is ahead, on a day that the previous month does not have. -/
def CarriesOver (loc : Location) (now : ℤ) : Prop :=
  let k := (⟨now, loc⟩ : Time).monthNumber
  r.repeatType = .monthly ∧ now < monthly loc r.startTime.day r.clock k ∧
    monthLength (k - 1) < min r.startTime.day (monthLength k)

/-- The last occurrence up to now is one from the start on, if it lasts until now. Where the day is
carried over, it is one that lasts until now. -/
def Kept (loc : Location) (now : ℤ) : Prop :=
  ∀ last, IsGreatest {o | r.Occurs ⟨o, loc⟩ ∧ o ≤ now} last →
    (¬ r.CarriesOver loc now → now ≤ last + r.duration.value → r.startTime.nanos ≤ last) ∧
    (r.CarriesOver loc now →
      now ≤ monthly loc r.startTime.day r.clock (⟨now, loc⟩ : Time).monthNumber + r.duration.value →
        r.startTime.nanos ≤ last ∧ now ≤ last + r.duration.value)

end Recurrence

/-- What a maintenance says: the rule is covered, and the fixed window or an occurrence is open. -/
def InMaintenance (loadLocation : String → Option Location) (m : GettablePlannedMaintenance)
    (ruleID : String) (now : ℤ) : Prop :=
  m.Covers ruleID ∧ ∃ schedule ∈ m.schedule, ∃ loc ∈ loadLocation schedule.timezone,
    schedule.FixedAt now ∨ ∃ r ∈ schedule.recurrence, r.RunningAt now ∧ r.OpenAt loc now

/-- Where the check gets to the occurrences, the last one is as it should be. -/
def KeptInMaintenance (loadLocation : String → Option Location) (m : GettablePlannedMaintenance)
    (ruleID : String) (now : ℤ) : Prop :=
  m.Covers ruleID → ∀ schedule ∈ m.schedule, ∀ loc ∈ loadLocation schedule.timezone,
    ¬ schedule.FixedAt now → ∀ r ∈ schedule.recurrence, r.RunningAt now → r.Kept loc now

/-! ## The candidates -/

section Candidates

variable {curr : Time} {r : Recurrence}

theorem sub_le_iff (t u : Time) (d : ℤ) : t.sub u ≤ d ↔ t.nanos ≤ u.nanos + d := by
  rw [Time.sub]
  omega

theorem clock_bounds_of_minute (t : Time) :
    0 ≤ clockOf t.hour t.minute 0 0 ∧ clockOf t.hour t.minute 0 0 < 86400000000000 := by
  have hhour := t.hour_bounds
  have hminute := t.minute_bounds
  rw [clockOf]
  omega

/-- A check of a candidate is one of all instants that recur. -/
theorem check_iff_exists {seq : ℤ → ℤ} {P : Time → Prop} {candidate : Time}
    (hset : ∀ t : Time, t.loc = curr.loc → (P t ↔ t.nanos ∈ Set.range seq))
    (h : IsGreatest {o | o ∈ Set.range seq ∧ o ≤ curr.nanos} candidate.nanos) (d : ℤ) :
    curr.sub candidate ≤ d ↔ ∃ o, P ⟨o, curr.loc⟩ ∧ o ≤ curr.nanos ∧ curr.nanos ≤ o + d := by
  rw [sub_le_iff, ← exists_recent_iff h]
  exact exists_congr fun o => and_congr_left fun _ => (hset ⟨o, curr.loc⟩ rfl).symm

theorem checkDaily_iff :
    checkDaily curr r curr.loc ↔ ∃ o, (⟨o, curr.loc⟩ : Time).clock =
        clockOf r.startTime.hour r.startTime.minute 0 0 ∧
      o ≤ curr.nanos ∧ curr.nanos ≤ o + r.duration.value := by
  have hclock := clock_bounds_of_minute r.startTime
  generalize hof : clockOf r.startTime.hour r.startTime.minute 0 0 = clock at hclock
  have hset : ∀ t : Time, t.loc = curr.loc →
      (t.clock = clock ↔ t.nanos ∈ Set.range (daily curr.loc clock)) := by
    intro t hloc
    rw [← hloc, mem_daily_iff hclock]
  obtain ⟨hbefore, hafter⟩ := daily_around curr hclock
  have hcandidate : (date curr.year curr.month curr.day r.startTime.hour r.startTime.minute 0 0
      curr.loc).nanos = daily curr.loc clock curr.dayNumber := by
    rw [nanos_date_of_day, hof]
  rw [checkDaily, decide_eq_true_iff]
  refine check_iff_exists hset (isGreatest_candidate (daily_strictMono _ _) hcandidate
    (fun _ => ?_) hbefore hafter) _
  rw [nanos_addDate_days, hcandidate, daily, daily]
  omega

theorem checkWeekday_iff {allowedDay : ℤ} (hday : 0 ≤ allowedDay ∧ allowedDay < 7) :
    checkWeekday curr r curr.loc allowedDay ↔
      ∃ o, ((⟨o, curr.loc⟩ : Time).weekday = allowedDay ∧ (⟨o, curr.loc⟩ : Time).clock =
          clockOf r.startTime.hour r.startTime.minute 0 0) ∧
        o ≤ curr.nanos ∧ curr.nanos ≤ o + r.duration.value := by
  have hclock := clock_bounds_of_minute r.startTime
  generalize hof : clockOf r.startTime.hour r.startTime.minute 0 0 = clock at hclock
  have hset : ∀ t : Time, t.loc = curr.loc → (t.weekday = allowedDay ∧ t.clock = clock ↔
      t.nanos ∈ Set.range (weekly curr.loc allowedDay clock)) := by
    intro t hloc
    rw [← hloc, mem_weekly_iff hday hclock]
  -- The candidate is on that weekday of the week from Sunday on.
  have hdays := curr.weekday_bounds
  have hcurr : curr.weekday = (curr.dayNumber + 1) % 7 := rfl
  obtain ⟨k, hk⟩ : ∃ k, 7 * k + allowedDay - 1 = curr.dayNumber + (allowedDay - curr.weekday) :=
    ⟨(curr.dayNumber + 1) / 7, by omega⟩
  have hcandidate : ((date curr.year curr.month curr.day r.startTime.hour r.startTime.minute 0 0
      curr.loc).addDate 0 0 (allowedDay - curr.weekday)).nanos =
      weekly curr.loc allowedDay clock k := by
    rw [nanos_addDate_days, nanos_date_of_day, hof, weekly, hk, daily, daily]
    omega
  obtain ⟨hbefore, hafter⟩ := daily_around curr hclock
  have hmono := (daily_strictMono curr.loc clock).monotone
  rw [checkWeekday, decide_eq_true_iff]
  refine check_iff_exists hset (isGreatest_candidate (weekly_strictMono _ allowedDay _) hcandidate
    (fun _ => ?_) ?_ ?_) _
  · rw [nanos_addDate_days, hcandidate, weekly, weekly, daily, daily]
    omega
  · exact le_trans (hmono (by omega)) hbefore
  · exact lt_of_lt_of_le hafter (hmono (by omega))

theorem weekday_of_repeatOn {day : RepeatOn} {allowedDay : ℤ}
    (h : repeatOnAllMap day = some allowedDay) : 0 ≤ allowedDay ∧ allowedDay < 7 := by
  cases day <;> cases h <;> decide

/-- A check that is right but for the start of the recurrence. -/
def Recurrence.Recent (r : Recurrence) (loc : Location) (now : ℤ) : Prop :=
  ∃ o, r.Occurs ⟨o, loc⟩ ∧ o ≤ now ∧ now ≤ o + r.duration.value

theorem checkDaily_iff_recent (htype : r.repeatType = .daily) :
    checkDaily curr r curr.loc ↔ r.Recent curr.loc curr.nanos := by
  rw [checkDaily_iff]
  simp only [Recurrence.Recent, Recurrence.Occurs, Recurrence.clock, htype, and_true]

theorem checkWeekly_iff_recent (htype : r.repeatType = .weekly) :
    checkWeekly curr r curr.loc ↔ r.Recent curr.loc curr.nanos := by
  simp only [checkWeekly, Recurrence.Recent, Recurrence.Occurs, Recurrence.clock, htype]
  by_cases hall : r.repeatOn = []
  · simp only [hall, if_true, true_or, and_true]
    exact checkDaily_iff
  · simp only [hall, if_false, false_or, List.any_eq_true]
    constructor
    · rintro ⟨day, hmem, h⟩
      cases hmap : repeatOnAllMap day with
      | none =>
        rw [hmap] at h
        cases h
      | some allowedDay =>
        rw [hmap] at h
        obtain ⟨o, ⟨hweekday, hclock⟩, hnow⟩ :=
          (checkWeekday_iff (weekday_of_repeatOn hmap)).1 h
        exact ⟨o, ⟨hclock, day, hmem, hweekday ▸ hmap⟩, hnow⟩
    · rintro ⟨o, ⟨hclock, day, hmem, hmap⟩, hnow⟩
      refine ⟨day, hmem, ?_⟩
      rw [hmap]
      exact (checkWeekday_iff (weekday_of_repeatOn hmap)).2 ⟨o, ⟨rfl, hclock⟩, hnow⟩

/-! ## Months -/

theorem occurs_monthly_iff (htype : r.repeatType = .monthly) (t : Time) :
    r.Occurs t ↔ t.nanos ∈ Set.range (monthly t.loc r.startTime.day r.startTime.clock) := by
  rw [mem_monthly_iff r.startTime.day_bounds.1 r.startTime.clock_bounds]
  simp only [Recurrence.Occurs, Recurrence.clock, htype]
  exact and_comm

/-- The occurrence of a month, on its clamped day. -/
theorem nanos_date_of_min (t : Time) (loc : Location) {d : ℤ}
    (hd : d = min r.startTime.day (monthLength t.monthNumber)) :
    (date t.year t.month d r.startTime.hour r.startTime.minute r.startTime.second
      r.startTime.nanosecond loc).nanos =
      monthly loc r.startTime.day r.startTime.clock t.monthNumber := by
  rw [hd, nanos_date_of_month, r.startTime.clockOf_clock, monthly]

/-- The occurrence of a month as a date. -/
theorem date_of_min (t : Time) (loc : Location) :
    (date t.year t.month (min r.startTime.day (monthLength t.monthNumber)) r.startTime.hour
        r.startTime.minute r.startTime.second r.startTime.nanosecond loc).monthNumber =
          t.monthNumber ∧
      (date t.year t.month (min r.startTime.day (monthLength t.monthNumber)) r.startTime.hour
        r.startTime.minute r.startTime.second r.startTime.nanosecond loc).day =
          min r.startTime.day (monthLength t.monthNumber) := by
  have hday := r.startTime.day_bounds.1
  have hlength := (monthLength_bounds t.monthNumber).1
  have hclock := r.startTime.clock_bounds
  refine Time.monthNumber_eq_of_day (by omega) ?_
  rw [Time.dayNumber, Time.wall_date, t.monthNumber_eq, r.startTime.clockOf_clock]
  omega

theorem clamped_eq_min (a b : ℤ) : (if a > b then b else a) = min a b := by
  split <;> omega

/-- The candidate of the check: this month's occurrence, or the one of the month that `AddDate`
finds. -/
theorem exists_candidate_monthly (curr : Time) (r : Recurrence) :
    ∃ candidate previous : Time,
      candidate.nanos = monthly curr.loc r.startTime.day r.startTime.clock curr.monthNumber ∧
      (checkMonthly curr r curr.loc ↔
        curr.sub (if candidate.after curr then previous else candidate) ≤ r.duration.value) ∧
      (min r.startTime.day (monthLength curr.monthNumber) ≤ monthLength (curr.monthNumber - 1) →
        previous.nanos =
          monthly curr.loc r.startTime.day r.startTime.clock (curr.monthNumber - 1)) ∧
      (monthLength (curr.monthNumber - 1) < min r.startTime.day (monthLength curr.monthNumber) →
        previous.nanos =
          monthly curr.loc r.startTime.day r.startTime.clock curr.monthNumber) := by
  obtain ⟨hmonth, hday⟩ := date_of_min (r := r) curr curr.loc
  generalize hcandidate : date curr.year curr.month
    (min r.startTime.day (monthLength curr.monthNumber)) r.startTime.hour r.startTime.minute
    r.startTime.second r.startTime.nanosecond curr.loc = candidate at hmonth hday
  have hprevious : (if r.startTime.day > monthLength (candidate.addDate 0 (-1) 0).monthNumber then
      date (candidate.addDate 0 (-1) 0).year (candidate.addDate 0 (-1) 0).month
        (monthLength (candidate.addDate 0 (-1) 0).monthNumber) r.startTime.hour r.startTime.minute
        r.startTime.second r.startTime.nanosecond curr.loc
    else
      date (candidate.addDate 0 (-1) 0).year (candidate.addDate 0 (-1) 0).month r.startTime.day
        r.startTime.hour r.startTime.minute r.startTime.second r.startTime.nanosecond
        curr.loc).nanos = monthly curr.loc r.startTime.day r.startTime.clock
          (candidate.addDate 0 (-1) 0).monthNumber := by
    split
    · exact nanos_date_of_min _ _ (by omega)
    · exact nanos_date_of_min _ _ (by omega)
  refine ⟨candidate, _, ?_, ?_, fun h => hprevious.trans ?_, fun h => hprevious.trans ?_⟩
  · rw [← hcandidate, nanos_date_of_min curr curr.loc rfl]
  · rw [checkMonthly, decide_eq_true_iff, day_date_zero, clamped_eq_min, hcandidate]
    dsimp only
    rw [day_date_zero]
  · rw [monthNumber_addDate_of_le candidate (by rw [hmonth, hday]; exact h), hmonth]
  · rw [monthNumber_addDate_of_lt candidate (by rw [hmonth, hday]; exact h), hmonth]

theorem checkMonthly_iff_recent (htype : r.repeatType = .monthly)
    (h : ¬ r.CarriesOver curr.loc curr.nanos) :
    checkMonthly curr r curr.loc ↔ r.Recent curr.loc curr.nanos := by
  obtain ⟨candidate, previous, hcandidate, hcheck, hprevious, -⟩ :=
    exists_candidate_monthly curr r
  have hday := r.startTime.day_bounds.1
  obtain ⟨hbefore, hafter⟩ := monthly_around curr hday r.startTime.clock_bounds
  have hset : ∀ t : Time, t.loc = curr.loc → (r.Occurs t ↔
      t.nanos ∈ Set.range (monthly curr.loc r.startTime.day r.startTime.clock)) := by
    intro t hloc
    rw [← hloc]
    exact occurs_monthly_iff htype t
  have hclock : r.clock = r.startTime.clock := by
    rw [Recurrence.clock, htype]
  rw [hcheck]
  refine check_iff_exists hset (isGreatest_candidate (monthly_strictMono _ hday _) hcandidate
    (fun hahead => hprevious (not_lt.1 fun hcarry => h ⟨htype, ?_, hcarry⟩)) hbefore hafter) _
  rw [hclock]
  exact hahead

theorem checkMonthly_iff_of_carriesOver (h : r.CarriesOver curr.loc curr.nanos) :
    checkMonthly curr r curr.loc ↔ curr.nanos ≤
      monthly curr.loc r.startTime.day r.clock curr.monthNumber + r.duration.value := by
  obtain ⟨candidate, previous, hcandidate, hcheck, -, hprevious⟩ :=
    exists_candidate_monthly curr r
  obtain ⟨htype, hahead, hcarry⟩ := h
  have hclock : r.clock = r.startTime.clock := by
    rw [Recurrence.clock, htype]
  rw [hclock] at hahead ⊢
  have hafter : candidate.after curr := by
    rw [Time.after, hcandidate]
    exact decide_eq_true hahead
  rw [hcheck, if_pos hafter, sub_le_iff, hprevious hcarry]

end Candidates

/-! ## The check and the occurrences -/

section Faithful

variable {r : Recurrence} (curr : Time)

/-- A recurrence that has started and not ended is checked by its type. -/
theorem skipsRecurring_eq (h : r.RunningAt curr.nanos) :
    GettablePlannedMaintenance.skipsRecurring r curr curr.loc =
      match r.repeatType with
      | .daily => checkDaily curr r curr.loc
      | .weekly => checkWeekly curr r curr.loc
      | .monthly => checkMonthly curr r curr.loc
      | .other _ => false := by
  obtain ⟨hstart, hend⟩ := h
  have hbefore : ¬ curr.before r.startTime :=
    fun h => absurd hstart (not_le.2 (of_decide_eq_true h))
  have hover : ¬ r.endTime.any fun endTime => !endTime.isZero && curr.after endTime := by
    intro h
    obtain ⟨e, he, h⟩ := (Option.any_eq_true _ _).1 h
    simp only [Time.isZero, Time.after, Bool.and_eq_true, Bool.not_eq_true', decide_eq_true_eq,
      decide_eq_false_iff_not] at h
    rcases hend e he with hzero | hle
    · exact h.1 hzero
    · exact absurd hle (not_le.2 h.2)
  rw [GettablePlannedMaintenance.skipsRecurring, if_neg hbefore, if_neg hover]

theorem skipsRecurring_eq_false (h : ¬ r.RunningAt curr.nanos) :
    GettablePlannedMaintenance.skipsRecurring r curr curr.loc = false := by
  rw [GettablePlannedMaintenance.skipsRecurring]
  split
  · rfl
  · next hbefore =>
      split
      · rfl
      · next hover =>
          refine absurd ⟨not_lt.1 fun hlt => hbefore (decide_eq_true hlt), fun e he => ?_⟩ h
          by_contra hnot
          rw [not_or, not_le] at hnot
          refine hover ((Option.any_eq_true _ _).2 ⟨e, he, ?_⟩)
          simpa [Time.isZero, Time.after] using hnot

/-- What the check of a recurrence finds, but for the day that is carried over. -/
theorem skipsRecurring_iff (h : r.RunningAt curr.nanos)
    (hcarry : ¬ r.CarriesOver curr.loc curr.nanos) :
    GettablePlannedMaintenance.skipsRecurring r curr curr.loc ↔
      r.Recent curr.loc curr.nanos := by
  rw [skipsRecurring_eq curr h]
  cases htype : r.repeatType with
  | daily => exact checkDaily_iff_recent htype
  | weekly => exact checkWeekly_iff_recent htype
  | monthly => exact checkMonthly_iff_recent htype hcarry
  | other value =>
    refine ⟨nofun, ?_⟩
    rintro ⟨o, hoccurs, -⟩
    rw [Recurrence.Occurs, htype] at hoccurs
    exact hoccurs.2.elim

/-- The check agrees with the occurrences exactly when the last one is as it should be. -/
theorem skipsRecurring_faithful_iff (h : r.RunningAt curr.nanos) :
    (GettablePlannedMaintenance.skipsRecurring r curr curr.loc ↔ r.OpenAt curr.loc curr.nanos) ↔
      r.Kept curr.loc curr.nanos := by
  by_cases hlast : ∃ last, IsGreatest {o | r.Occurs ⟨o, curr.loc⟩ ∧ o ≤ curr.nanos} last
  · obtain ⟨last, hlast⟩ := hlast
    have hopen : r.OpenAt curr.loc curr.nanos ↔
        r.startTime.nanos ≤ last ∧ curr.nanos ≤ last + r.duration.value := exists_window_iff hlast
    have hkept : r.Kept curr.loc curr.nanos ↔
        (¬ r.CarriesOver curr.loc curr.nanos → curr.nanos ≤ last + r.duration.value →
          r.startTime.nanos ≤ last) ∧
        (r.CarriesOver curr.loc curr.nanos → curr.nanos ≤ monthly curr.loc r.startTime.day r.clock
            curr.monthNumber + r.duration.value →
          r.startTime.nanos ≤ last ∧ curr.nanos ≤ last + r.duration.value) := by
      refine ⟨fun hk => hk last hlast, fun hk last' hlast' => ?_⟩
      rw [hlast'.unique hlast]
      exact hk
    rw [hopen, hkept]
    by_cases hcarry : r.CarriesOver curr.loc curr.nanos
    · have hcheck := checkMonthly_iff_of_carriesOver hcarry
      have hahead := hcarry.2.1
      have hle : last ≤ curr.nanos := hlast.1.2
      rw [skipsRecurring_eq curr h, hcarry.1]
      dsimp only
      rw [hcheck]
      have hmonth : (⟨curr.nanos, curr.loc⟩ : Time).monthNumber = curr.monthNumber := rfl
      rw [hmonth] at hahead
      constructor
      · exact fun hiff => ⟨fun hno => absurd hcarry hno, fun _ => hiff.1⟩
      · exact fun hk => ⟨hk.2 hcarry, fun ⟨_, hlasts⟩ => by omega⟩
    · have hrecent : r.Recent curr.loc curr.nanos ↔ curr.nanos ≤ last + r.duration.value :=
        exists_recent_iff hlast
      rw [skipsRecurring_iff curr h hcarry, hrecent]
      constructor
      · exact fun hiff => ⟨fun _ hlasts => (hiff.1 hlasts).1, fun hyes => absurd hyes hcarry⟩
      · exact fun hk => ⟨fun hlasts => ⟨hk.1 hcarry hlasts, hlasts⟩, And.right⟩
  · -- There is no occurrence up to now, and so no window and no day that is carried over.
    have hnone : ∀ o, r.Occurs ⟨o, curr.loc⟩ → ¬ o ≤ curr.nanos :=
      fun o hoccurs hle =>
        hlast (exists_last (P := fun o => r.Occurs ⟨o, curr.loc⟩) hoccurs hle)
    have hcarry : ¬ r.CarriesOver curr.loc curr.nanos := by
      rintro ⟨htype, -⟩
      have hbefore := (monthly_around curr r.startTime.day_bounds.1 r.startTime.clock_bounds).1
      exact hnone _ ((occurs_monthly_iff htype ⟨_, curr.loc⟩).2 ⟨_, rfl⟩) hbefore
    rw [skipsRecurring_iff curr h hcarry]
    refine iff_of_true (iff_of_false ?_ ?_) fun last hgreatest => absurd ⟨last, hgreatest⟩ hlast
    · exact fun ⟨o, hoccurs, hle, _⟩ => hnone o hoccurs hle
    · exact fun ⟨o, hoccurs, _, hle, _⟩ => hnone o hoccurs hle

end Faithful

section ShouldSkip

variable {loadLocation : String → Option Location} {m : GettablePlannedMaintenance}

/-- What `Validate` says of the schedule. -/
theorem schedule_of_validate (h : m.validate loadLocation = none) :
    ∃ schedule loc, m.schedule = some schedule ∧ loadLocation schedule.timezone = some loc ∧
      (schedule.startTime.nanos ≠ 0 → schedule.endTime.nanos ≠ 0 →
        schedule.startTime.nanos ≤ schedule.endTime.nanos) := by
  rw [GettablePlannedMaintenance.validate] at h
  split at h
  · cases h
  split at h
  · cases h
  next schedule hschedule =>
    split at h
    · cases h
    split at h
    · cases h
    next hzone =>
      split at h
      · cases h
      next horder =>
        have hne : loadLocation schedule.timezone ≠ none := by
          intro h
          rw [h] at hzone
          exact hzone rfl
        obtain ⟨loc, hloc⟩ := Option.ne_none_iff_exists'.1 hne
        refine ⟨schedule, loc, hschedule, hloc, fun hstart hend => not_lt.1 fun hlt => horder ?_⟩
        simp [Bool.eq_false_iff, hstart, hend, hlt]

theorem fixedAt_iff {schedule : Schedule} (now : Time) (loc : Location)
    (horder : schedule.startTime.nanos ≠ 0 → schedule.endTime.nanos ≠ 0 →
      schedule.startTime.nanos ≤ schedule.endTime.nanos) :
    (!schedule.startTime.isZero && !schedule.endTime.isZero &&
      ((now.inLocation loc).equal (schedule.startTime.inLocation loc) ||
        (now.inLocation loc).equal (schedule.endTime.inLocation loc) ||
        ((now.inLocation loc).after (schedule.startTime.inLocation loc) &&
          (now.inLocation loc).before (schedule.endTime.inLocation loc)))) = true ↔
      schedule.FixedAt now.nanos := by
  simp only [Bool.and_eq_true, Bool.or_eq_true, Bool.not_eq_true', Bool.eq_false_iff, ne_eq,
    Time.isZero_iff, Time.equal_iff, Time.after_iff, Time.before_iff]
  rw [Schedule.FixedAt]
  dsimp only [Time.inLocation]
  constructor
  · rintro ⟨⟨hstart, hend⟩, h⟩
    have hle := horder hstart hend
    refine ⟨hstart, hend, ?_⟩
    omega
  · rintro ⟨hstart, hend, hafter, hbefore⟩
    refine ⟨⟨hstart, hend⟩, ?_⟩
    omega

/-- A maintenance mutes a rule exactly when it says so, where the last occurrence is as it should
be, and only there. -/
theorem shouldSkip_faithful_iff (hvalid : m.validate loadLocation = none) (ruleID : String)
    (now : Time) :
    (m.shouldSkip loadLocation ruleID now ↔ InMaintenance loadLocation m ruleID now.nanos) ↔
      KeptInMaintenance loadLocation m ruleID now.nanos := by
  obtain ⟨schedule, loc, hschedule, hloc, horder⟩ := schedule_of_validate hvalid
  have hcovers : (m.ruleIDs = [] || m.ruleIDs.contains ruleID) = true ↔ m.Covers ruleID := by
    rw [Bool.or_eq_true, decide_eq_true_iff, List.contains_iff_mem]
    rfl
  by_cases hcover : m.Covers ruleID
  swap
  · -- another rule is neither skipped nor in maintenance
    have hfound : (m.ruleIDs = [] || m.ruleIDs.contains ruleID) = false :=
      Bool.eq_false_iff.2 fun h => hcover (hcovers.1 h)
    rw [GettablePlannedMaintenance.shouldSkip, hfound]
    exact iff_of_true (iff_of_false nofun fun h => hcover h.1) fun h => absurd h hcover
  have hskip : m.shouldSkip loadLocation ruleID now =
      if !schedule.startTime.isZero && !schedule.endTime.isZero &&
          ((now.inLocation loc).equal (schedule.startTime.inLocation loc) ||
            (now.inLocation loc).equal (schedule.endTime.inLocation loc) ||
            ((now.inLocation loc).after (schedule.startTime.inLocation loc) &&
              (now.inLocation loc).before (schedule.endTime.inLocation loc))) then true
      else
        match schedule.recurrence with
        | some rec => GettablePlannedMaintenance.skipsRecurring rec (now.inLocation loc) loc
        | none => false := by
    rw [GettablePlannedMaintenance.shouldSkip, hcovers.2 hcover, hschedule]
    dsimp only
    rw [hloc]
    rfl
  have hin : InMaintenance loadLocation m ruleID now.nanos ↔
      (schedule.FixedAt now.nanos ∨
        ∃ r ∈ schedule.recurrence, r.RunningAt now.nanos ∧ r.OpenAt loc now.nanos) := by
    rw [InMaintenance, hschedule]
    refine ⟨?_, fun h => ⟨hcover, schedule, rfl, loc, hloc, h⟩⟩
    rintro ⟨-, _, ⟨⟩, loc', hloc', h⟩
    obtain rfl : loc = loc' := Option.some.inj (hloc.symm.trans hloc')
    exact h
  have hkept : KeptInMaintenance loadLocation m ruleID now.nanos ↔
      (¬ schedule.FixedAt now.nanos →
        ∀ r ∈ schedule.recurrence, r.RunningAt now.nanos → r.Kept loc now.nanos) := by
    rw [KeptInMaintenance, hschedule]
    refine ⟨fun h => h hcover schedule rfl loc hloc, ?_⟩
    rintro h - _ ⟨⟩ loc' hloc'
    obtain rfl : loc = loc' := Option.some.inj (hloc.symm.trans hloc')
    exact h
  rw [hskip, hin, hkept]
  by_cases hfixed : schedule.FixedAt now.nanos
  · rw [if_pos ((fixedAt_iff now loc horder).2 hfixed)]
    exact iff_of_true (iff_of_true rfl (.inl hfixed)) fun h => absurd hfixed h
  rw [if_neg fun h => hfixed ((fixedAt_iff now loc horder).1 h)]
  cases hrec : schedule.recurrence with
  | none =>
    have hno : ¬ (schedule.FixedAt now.nanos ∨
        ∃ r ∈ (none : Option Recurrence), r.RunningAt now.nanos ∧ r.OpenAt loc now.nanos) := by
      rintro (h | ⟨r, hr, -⟩)
      · exact hfixed h
      · cases hr
    refine iff_of_true (iff_of_false Bool.false_ne_true hno) ?_
    rintro - r hr
    cases hr
  | some r =>
    have hexists : (schedule.FixedAt now.nanos ∨
        ∃ r' ∈ some r, r'.RunningAt now.nanos ∧ r'.OpenAt loc now.nanos) ↔
        r.RunningAt now.nanos ∧ r.OpenAt loc now.nanos := by
      simp [hfixed]
    have hforall : (¬ schedule.FixedAt now.nanos →
        ∀ r' ∈ some r, r'.RunningAt now.nanos → r'.Kept loc now.nanos) ↔
        (r.RunningAt now.nanos → r.Kept loc now.nanos) := by
      simp [hfixed]
    rw [hexists, hforall]
    by_cases hrun : r.RunningAt now.nanos
    · have hfaithful :
          (GettablePlannedMaintenance.skipsRecurring r (now.inLocation loc) loc ↔
            r.OpenAt loc now.nanos) ↔ r.Kept loc now.nanos :=
        skipsRecurring_faithful_iff (now.inLocation loc) hrun
      simpa only [hrun, true_and, forall_const] using hfaithful
    · have hfalse :
          GettablePlannedMaintenance.skipsRecurring r (now.inLocation loc) loc = false :=
        skipsRecurring_eq_false (now.inLocation loc) hrun
      dsimp only
      rw [hfalse]
      exact iff_of_true (iff_of_false nofun fun h => hrun h.1) fun h => absurd h hrun

end ShouldSkip

/-! ## Two maintenances -/

/-- A maintenance of all rules in UTC that recurs for an hour from a start on. -/
def hourFrom (repeatType : RepeatType) (start : Time) : GettablePlannedMaintenance where
  name := "upgrade"
  schedule := some ⟨"UTC", ⟨0, .utc⟩, ⟨0, .utc⟩,
    some ⟨start, none, ⟨"1h", 3600000000000⟩, repeatType, []⟩⟩
  ruleIDs := []

/-- Every zone is UTC. -/
def alwaysUTC (_ : String) : Option Location := some .utc

theorem shouldSkip_faithful_iff_daily :
    (hourFrom .daily (date 2025 1 31 9 0 0 0 .utc)).shouldSkip alwaysUTC "r"
        (date 2025 3 10 9 30 0 0 .utc) ∧
      InMaintenance alwaysUTC (hourFrom .daily (date 2025 1 31 9 0 0 0 .utc)) "r"
        (date 2025 3 10 9 30 0 0 .utc).nanos := by
  have hkept : KeptInMaintenance alwaysUTC (hourFrom .daily (date 2025 1 31 9 0 0 0 .utc)) "r"
      (date 2025 3 10 9 30 0 0 .utc).nanos := by
    rintro - _ ⟨⟩ _ ⟨⟩ - r ⟨⟩ - last hlast
    have hle : (date 2025 3 10 9 0 0 0 .utc).nanos ≤ last :=
      hlast.2 ⟨⟨by decide, trivial⟩, by decide⟩
    have hstart : (date 2025 1 31 9 0 0 0 .utc).nanos ≤ (date 2025 3 10 9 0 0 0 .utc).nanos := by
      decide
    exact ⟨fun _ _ => hstart.trans hle, fun hcarry => nomatch hcarry.1⟩
  have hskip : (hourFrom .daily (date 2025 1 31 9 0 0 0 .utc)).shouldSkip alwaysUTC "r"
      (date 2025 3 10 9 30 0 0 .utc) := by decide
  exact ⟨hskip, ((shouldSkip_faithful_iff (by decide) "r" _).2 hkept).1 hskip⟩

/-- A maintenance on the 31st of each month mutes all rules at noon on 10 March. -/
theorem shouldSkip_carried_over :
    (hourFrom .monthly (date 2025 1 31 9 0 0 0 .utc)).validate alwaysUTC = none ∧
      (hourFrom .monthly (date 2025 1 31 9 0 0 0 .utc)).shouldSkip alwaysUTC "r"
        (date 2025 3 10 12 0 0 0 .utc) ∧
      ¬ InMaintenance alwaysUTC (hourFrom .monthly (date 2025 1 31 9 0 0 0 .utc)) "r"
        (date 2025 3 10 12 0 0 0 .utc).nanos := by
  refine ⟨by decide, by decide, ?_⟩
  rintro ⟨-, _, ⟨⟩, _, ⟨⟩, hfixed | ⟨r, ⟨⟩, -, o, ⟨hclock, -⟩, -, hle, hopen⟩⟩
  · exact hfixed.1 rfl
  · -- An occurrence is at nine, and noon is more than an hour later.
    have hnine : (o + 0) % 86400000000000 = 32400000000000 := hclock
    have hnow : (date 2025 3 10 12 0 0 0 .utc).nanos =
        739319 * 86400000000000 + 43200000000000 := by decide
    have hlasts : (date 2025 3 10 12 0 0 0 .utc).nanos ≤ o + 3600000000000 := hopen
    omega

end Signoz.Rules
