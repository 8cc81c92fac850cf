import Signoz.Lib.Recurring

/-!
# Cumulative windows

`CumulativeWindow` of `evaluation.go`: an evaluation window that opens at the last instant of a
schedule and ends now. `getLastScheduleTime` steps back from a candidate that the clock of the time
zone gives.

Behind a candidate of this month that is still ahead, a monthly schedule looks for the previous
month with `AddDate`, which carries a day that this month does not have over into the month again.
So the window opens at the last instant exactly when that does not happen
(`nextWindowFor_latest_iff`).
-/

namespace Signoz.Rules

open Lib.CivilDate Lib.GoTime Lib.Recurring

/-! ## Schedules -/

/-- `ScheduleType`. -/
inductive ScheduleType where
  | hourly
  | daily
  | weekly
  | monthly
  | other (value : String)

/-- `CumulativeSchedule`. -/
structure CumulativeSchedule where
  type : ScheduleType
  minute : Option ℤ
  hour : Option ℤ
  day : Option ℤ
  weekday : Option ℤ

/-- `CumulativeWindow`. -/
structure CumulativeWindow where
  schedule : CumulativeSchedule
  frequency : ℤ
  timezone : String

/-- The error of a field that is not between two bounds. -/
def outOfRange (value low high : ℤ) (message : String) : Option String :=
  if value < low ∨ high < value then some message else none

namespace CumulativeSchedule

def minuteError (minute : ℤ) : Option String :=
  outOfRange minute 0 59 "minute must be between 0 and 59"

def hourError (hour : ℤ) : Option String := outOfRange hour 0 23 "hour must be between 0 and 23"

/-- `CumulativeSchedule.Validate`: the message of its error. -/
def validate (cs : CumulativeSchedule) : Option String :=
  match cs.type with
  | .hourly =>
    match cs.minute with
    | some minute => minuteError minute
    | none => some "minute must be specified for hourly schedule"
  | .daily =>
    match cs.hour, cs.minute with
    | some hour, some minute => (hourError hour).or (minuteError minute)
    | _, _ => some "hour and minute must be specified for daily schedule"
  | .weekly =>
    match cs.weekday, cs.hour, cs.minute with
    | some weekday, some hour, some minute =>
      ((outOfRange weekday 0 6 "weekday must be between 0 and 6 (Sunday=0)").or
        (hourError hour)).or (minuteError minute)
    | _, _, _ => some "weekday, hour and minute must be specified for weekly schedule"
  | .monthly =>
    match cs.day, cs.hour, cs.minute with
    | some day, some hour, some minute =>
      ((outOfRange day 1 31 "day must be between 1 and 31").or (hourError hour)).or
        (minuteError minute)
    | _, _, _ => some "day, hour and minute must be specified for monthly schedule"
  | .other _ => some "invalid schedule type"

end CumulativeSchedule

namespace CumulativeWindow

/-- `CumulativeWindow.Validate`, where `loadLocation` is `time.LoadLocation`. -/
def validate (loadLocation : String → Option Location) (w : CumulativeWindow) : Option String :=
  (w.schedule.validate.or
    (if (loadLocation w.timezone).isNone then some "timezone is invalid" else none)).or
    (if 0 < w.frequency then none else some "frequency must be greater than zero")

/-- `getLastScheduleTime`. A field that is nil, which `Validate` rejects, would panic. -/
def getLastScheduleTime (w : CumulativeWindow) (curr : Time) (loc : Location) : Time :=
  let minute := w.schedule.minute.getD 0
  let hour := w.schedule.hour.getD 0
  match w.schedule.type with
  | .hourly =>
    let candidate := date curr.year curr.month curr.day curr.hour minute 0 0 loc
    if candidate.after curr then candidate.add (-3600000000000) else candidate
  | .daily =>
    let candidate := date curr.year curr.month curr.day hour minute 0 0 loc
    if candidate.after curr then candidate.addDate 0 0 (-1) else candidate
  | .weekly =>
    let daysBack := curr.weekday - w.schedule.weekday.getD 0
    let daysBack := if daysBack < 0 then daysBack + 7 else daysBack
    let candidate :=
      (date curr.year curr.month curr.day hour minute 0 0 loc).addDate 0 0 (-daysBack)
    if candidate.after curr then candidate.addDate 0 0 (-7) else candidate
  | .monthly =>
    let targetDay := w.schedule.day.getD 0
    let lastDayOfCurrentMonth := (date curr.year (curr.month + 1) 0 0 0 0 0 loc).day
    let dayInCurrentMonth :=
      if targetDay > lastDayOfCurrentMonth then lastDayOfCurrentMonth else targetDay
    let candidate := date curr.year curr.month dayInCurrentMonth hour minute 0 0 loc
    if candidate.after curr then
      let prevMonth := curr.addDate 0 (-1) 0
      let lastDayOfPrevMonth := (date prevMonth.year (prevMonth.month + 1) 0 0 0 0 0 loc).day
      let dayInPrevMonth :=
        if targetDay > lastDayOfPrevMonth then lastDayOfPrevMonth else targetDay
      date prevMonth.year prevMonth.month dayInPrevMonth hour minute 0 0 loc
    else candidate
  | .other _ => curr

/-- The location that `NextWindowFor` works in. -/
def location (loadLocation : String → Option Location) (w : CumulativeWindow) : Location :=
  if w.timezone = "" then .utc else (loadLocation w.timezone).getD .utc

/-- `NextWindowFor`. -/
def nextWindowFor (loadLocation : String → Option Location) (w : CumulativeWindow) (curr : Time) :
    Time × Time :=
  let loc := w.location loadLocation
  let currInTZ := curr.inLocation loc
  let windowStart := w.getLastScheduleTime currInTZ loc
  (windowStart.inLocation .utc, currInTZ.inLocation .utc)

end CumulativeWindow

/-! ## What a schedule says -/

/-- The instants of a schedule, read in its time zone. -/
def CumulativeSchedule.Scheduled (cs : CumulativeSchedule) (t : Time) : Prop :=
  t.second = 0 ∧ t.nanosecond = 0 ∧ cs.minute = some t.minute ∧
    match cs.type with
    | .hourly => True
    | .daily => cs.hour = some t.hour
    | .weekly => cs.hour = some t.hour ∧ cs.weekday = some t.weekday
    | .monthly =>
      cs.hour = some t.hour ∧
        ∃ day, cs.day = some day ∧ t.day = min day (monthLength t.monthNumber)
    | .other _ => False

/-! ## Fields of an accepted schedule -/

theorem outOfRange_eq_none {value low high : ℤ} {message : String}
    (h : outOfRange value low high message = none) : low ≤ value ∧ value ≤ high := by
  rw [outOfRange] at h
  split at h
  · cases h
  · omega

/-- The fields that a schedule of each type has. -/
def CumulativeSchedule.HasFields (cs : CumulativeSchedule) : Prop :=
  ∃ minute, cs.minute = some minute ∧ (0 ≤ minute ∧ minute ≤ 59) ∧
    (cs.type = .hourly ∨ ∃ hour, cs.hour = some hour ∧ (0 ≤ hour ∧ hour ≤ 23) ∧
      (cs.type = .daily ∨
        (cs.type = .weekly ∧ ∃ weekday, cs.weekday = some weekday ∧ 0 ≤ weekday ∧ weekday ≤ 6) ∨
        (cs.type = .monthly ∧ ∃ day, cs.day = some day ∧ 1 ≤ day ∧ day ≤ 31)))

theorem CumulativeSchedule.hasFields_of_validate {cs : CumulativeSchedule}
    (h : cs.validate = none) : cs.HasFields := by
  rw [validate] at h
  split at h
  case h_1 htype =>
    split at h
    case h_1 minute hminute =>
      exact ⟨minute, hminute, outOfRange_eq_none h, .inl htype⟩
    case h_2 => cases h
  case h_2 htype =>
    split at h
    case h_1 hour minute hhour hminute =>
      obtain ⟨h₁, h₂⟩ := Option.or_eq_none_iff.1 h
      exact ⟨minute, hminute, outOfRange_eq_none h₂,
        .inr ⟨hour, hhour, outOfRange_eq_none h₁, .inl htype⟩⟩
    case h_2 => cases h
  case h_3 htype =>
    split at h
    case h_1 weekday hour minute hweekday hhour hminute =>
      obtain ⟨h₁, h₂⟩ := Option.or_eq_none_iff.1 h
      obtain ⟨h₀, h₁⟩ := Option.or_eq_none_iff.1 h₁
      exact ⟨minute, hminute, outOfRange_eq_none h₂, .inr ⟨hour, hhour, outOfRange_eq_none h₁,
        .inr (.inl ⟨htype, weekday, hweekday, outOfRange_eq_none h₀⟩)⟩⟩
    case h_2 => cases h
  case h_4 htype =>
    split at h
    case h_1 day hour minute hday hhour hminute =>
      obtain ⟨h₁, h₂⟩ := Option.or_eq_none_iff.1 h
      obtain ⟨h₀, h₁⟩ := Option.or_eq_none_iff.1 h₁
      exact ⟨minute, hminute, outOfRange_eq_none h₂, .inr ⟨hour, hhour, outOfRange_eq_none h₁,
        .inr (.inr ⟨htype, day, hday, outOfRange_eq_none h₀⟩)⟩⟩
    case h_2 => cases h
  case h_5 => cases h

/-! ## The last instant -/

/-- The window opens at the last instant of the schedule and ends at the time asked for. -/
def OpensAtLast (loadLocation : String → Option Location) (w : CumulativeWindow) (curr : Time) :
    Prop :=
  let loc := w.location loadLocation
  let window := w.nextWindowFor loadLocation curr
  window.2.nanos = curr.nanos ∧
    IsGreatest {o | w.schedule.Scheduled ⟨o, loc⟩ ∧ o ≤ curr.nanos} window.1.nanos

/-- The instant of this month is still ahead, on a day of the month that the previous month does not
have. -/
def CarriesOver (loadLocation : String → Option Location) (w : CumulativeWindow) (curr : Time) :
    Prop :=
  let loc := w.location loadLocation
  let t := curr.inLocation loc
  let clock := clockOf (w.schedule.hour.getD 0) (w.schedule.minute.getD 0) 0 0
  w.schedule.type = .monthly ∧
    t.nanos < monthly loc (w.schedule.day.getD 0) clock t.monthNumber ∧
    monthLength (t.monthNumber - 1) < t.day

section LastScheduleTime

variable {w : CumulativeWindow} {curr : Time} {minute hour : ℤ}

theorem clockOf_bounds (hminute : 0 ≤ minute ∧ minute ≤ 59) (hhour : 0 ≤ hour ∧ hour ≤ 23) :
    0 ≤ clockOf hour minute 0 0 ∧ clockOf hour minute 0 0 < 86400000000000 := by
  rw [clockOf]
  omega

theorem clock_eq_iff_fields (t : Time) (hminute : 0 ≤ minute ∧ minute ≤ 59) :
    t.clock = clockOf hour minute 0 0 ↔
      t.hour = hour ∧ t.minute = minute ∧ t.second = 0 ∧ t.nanosecond = 0 :=
  t.clock_eq_iff (by omega) (by omega) (by omega)

/-- A window over a sequence of the calendar. -/
theorem isGreatest_of_sequence {cs : CumulativeSchedule} {loc : Location} {seq : ℤ → ℤ}
    {now last : ℤ} (hset : ∀ t : Time, t.loc = loc → (cs.Scheduled t ↔ t.nanos ∈ Set.range seq))
    (h : IsGreatest {o | o ∈ Set.range seq ∧ o ≤ now} last) :
    IsGreatest {o | cs.Scheduled ⟨o, loc⟩ ∧ o ≤ now} last := by
  have heq : {o | cs.Scheduled ⟨o, loc⟩ ∧ o ≤ now} = {o | o ∈ Set.range seq ∧ o ≤ now} :=
    Set.ext fun o => and_congr_left fun _ => hset ⟨o, loc⟩ rfl
  rw [heq]
  exact h

theorem isGreatest_hourly (htype : w.schedule.type = .hourly)
    (hmin : w.schedule.minute = some minute) (hminute : 0 ≤ minute ∧ minute ≤ 59) :
    IsGreatest {o | w.schedule.Scheduled ⟨o, curr.loc⟩ ∧ o ≤ curr.nanos}
      (w.getLastScheduleTime curr curr.loc).nanos := by
  have hset : ∀ t : Time, t.loc = curr.loc →
      (w.schedule.Scheduled t ↔ t.nanos ∈ Set.range (hourly curr.loc (minute * 60000000000))) := by
    rintro t hloc
    have hclock := t.clock_bounds
    rw [← hloc, mem_hourly_iff (by omega), CumulativeSchedule.Scheduled, htype, hmin,
      Option.some_inj, Time.minute, Time.second, Time.nanosecond]
    dsimp only
    rw [and_true]
    omega
  have hwall := curr.wall_eq
  have hclock := curr.clock_bounds
  have hhour : curr.hour = curr.clock / 3600000000000 := rfl
  rw [Time.wall] at hwall
  have hcandidate : (date curr.year curr.month curr.day curr.hour minute 0 0 curr.loc).nanos =
      hourly curr.loc (minute * 60000000000) (24 * curr.dayNumber + curr.hour) := by
    rw [nanos_date_of_day, daily, hourly, clockOf]
    omega
  refine isGreatest_of_sequence hset ?_
  rw [CumulativeWindow.getLastScheduleTime, htype, hmin]
  refine isGreatest_candidate (hourly_strictMono _ _) hcandidate (fun _ => ?_) ?_ ?_
  · rw [Option.getD_some, Time.nanos_add, hcandidate, hourly, hourly]
    omega
  · rw [hourly]
    omega
  · rw [hourly]
    omega

theorem isGreatest_daily (htype : w.schedule.type = .daily)
    (hmin : w.schedule.minute = some minute) (hminute : 0 ≤ minute ∧ minute ≤ 59)
    (hhr : w.schedule.hour = some hour) (hhour : 0 ≤ hour ∧ hour ≤ 23) :
    IsGreatest {o | w.schedule.Scheduled ⟨o, curr.loc⟩ ∧ o ≤ curr.nanos}
      (w.getLastScheduleTime curr curr.loc).nanos := by
  have hclock := clockOf_bounds hminute hhour
  have hset : ∀ t : Time, t.loc = curr.loc →
      (w.schedule.Scheduled t ↔
        t.nanos ∈ Set.range (daily curr.loc (clockOf hour minute 0 0))) := by
    rintro t hloc
    rw [← hloc, mem_daily_iff hclock, clock_eq_iff_fields t hminute, CumulativeSchedule.Scheduled,
      htype, hmin, hhr, Option.some_inj, Option.some_inj]
    dsimp only
    omega
  obtain ⟨hbefore, hafter⟩ := daily_around curr hclock
  refine isGreatest_of_sequence hset ?_
  rw [CumulativeWindow.getLastScheduleTime, htype, hmin, hhr]
  refine isGreatest_candidate (daily_strictMono _ _) (nanos_date_of_day curr hour minute 0 0)
    (fun _ => ?_) hbefore hafter
  rw [nanos_addDate_days, nanos_date_of_day, Option.getD_some, Option.getD_some, daily, daily]
  omega

theorem isGreatest_weekly (htype : w.schedule.type = .weekly)
    (hmin : w.schedule.minute = some minute) (hminute : 0 ≤ minute ∧ minute ≤ 59)
    (hhr : w.schedule.hour = some hour) (hhour : 0 ≤ hour ∧ hour ≤ 23) {weekday : ℤ}
    (hwd : w.schedule.weekday = some weekday) (hweekday : 0 ≤ weekday ∧ weekday ≤ 6) :
    IsGreatest {o | w.schedule.Scheduled ⟨o, curr.loc⟩ ∧ o ≤ curr.nanos}
      (w.getLastScheduleTime curr curr.loc).nanos := by
  have hclock := clockOf_bounds hminute hhour
  have hset : ∀ t : Time, t.loc = curr.loc →
      (w.schedule.Scheduled t ↔
        t.nanos ∈ Set.range (weekly curr.loc weekday (clockOf hour minute 0 0))) := by
    rintro t hloc
    rw [← hloc, mem_weekly_iff (by omega) hclock, clock_eq_iff_fields t hminute,
      CumulativeSchedule.Scheduled, htype, hmin, hhr, hwd, Option.some_inj, Option.some_inj,
      Option.some_inj]
    dsimp only
    omega
  have hdays := curr.weekday_bounds
  have hcurr : curr.weekday = (curr.dayNumber + 1) % 7 := rfl
  refine isGreatest_of_sequence hset ?_
  rw [CumulativeWindow.getLastScheduleTime, htype, hmin, hhr, hwd]
  dsimp only [Option.getD_some]
  -- The last day up to today that is such a weekday.
  generalize hback : (if curr.weekday - weekday < 0 then curr.weekday - weekday + 7
    else curr.weekday - weekday) = back
  obtain ⟨k, hk⟩ : ∃ k, 7 * k + weekday - 1 = curr.dayNumber - back := by
    refine ⟨(curr.dayNumber + 1 - weekday) / 7, ?_⟩
    split at hback <;> omega
  have hback : 0 ≤ back ∧ back < 7 := by
    split at hback <;> omega
  have hcandidate : ((date curr.year curr.month curr.day hour minute 0 0 curr.loc).addDate 0 0
      (-back)).nanos = weekly curr.loc weekday (clockOf hour minute 0 0) k := by
    rw [nanos_addDate_days, nanos_date_of_day, weekly, hk, daily, daily]
    omega
  obtain ⟨hbefore, hafter⟩ := daily_around curr hclock
  have hmono := (daily_strictMono curr.loc (clockOf hour minute 0 0)).monotone
  refine isGreatest_candidate (weekly_strictMono _ weekday _) hcandidate (fun _ => ?_) ?_ ?_
  · rw [nanos_addDate_days, hcandidate, weekly, weekly, daily, daily]
    omega
  · exact le_trans (hmono (by omega)) hbefore
  · exact lt_of_lt_of_le hafter (hmono (by omega))

theorem isGreatest_monthly (htype : w.schedule.type = .monthly)
    (hmin : w.schedule.minute = some minute) (hminute : 0 ≤ minute ∧ minute ≤ 59)
    (hhr : w.schedule.hour = some hour) (hhour : 0 ≤ hour ∧ hour ≤ 23) {day : ℤ}
    (hd : w.schedule.day = some day) (hday : 1 ≤ day) :
    IsGreatest {o | w.schedule.Scheduled ⟨o, curr.loc⟩ ∧ o ≤ curr.nanos}
        (w.getLastScheduleTime curr curr.loc).nanos ↔
      ¬ (curr.nanos < monthly curr.loc day (clockOf hour minute 0 0) curr.monthNumber ∧
        monthLength (curr.monthNumber - 1) < curr.day) := by
  have hclock := clockOf_bounds hminute hhour
  have hset : ∀ t : Time, t.loc = curr.loc →
      (w.schedule.Scheduled t ↔
        t.nanos ∈ Set.range (monthly curr.loc day (clockOf hour minute 0 0))) := by
    rintro t hloc
    rw [← hloc, mem_monthly_iff hday hclock, clock_eq_iff_fields t hminute,
      CumulativeSchedule.Scheduled, htype, hmin, hhr, hd, Option.some_inj, Option.some_inj]
    dsimp only
    constructor
    · rintro ⟨hs, hn, hm, hh, d, hd, hmin⟩
      exact ⟨(Option.some.inj hd) ▸ hmin, hh.symm, hm.symm, hs, hn⟩
    · rintro ⟨hmin, hh, hm, hs, hn⟩
      exact ⟨hs, hn, hm.symm, hh.symm, day, rfl, hmin⟩
  have hmonth : ∀ t : Time, (date t.year t.month
      (if day > monthLength t.monthNumber then monthLength t.monthNumber else day)
      hour minute 0 0 curr.loc).nanos =
      monthly curr.loc day (clockOf hour minute 0 0) t.monthNumber := by
    intro t
    have hmin : (if day > monthLength t.monthNumber then monthLength t.monthNumber else day) =
        min day (monthLength t.monthNumber) := by
      split <;> omega
    rw [hmin, nanos_date_of_month, monthly]
  obtain ⟨hbefore, hafter⟩ := monthly_around curr hday hclock
  have hseq := monthly_strictMono curr.loc hday (clockOf hour minute 0 0)
  rw [CumulativeWindow.getLastScheduleTime, htype, hmin, hhr, hd]
  dsimp only [Option.getD_some]
  rw [day_date_zero, day_date_zero]
  constructor
  · rintro h ⟨hahead, hcarry⟩
    -- The previous month is this one, whose instant is ahead.
    have hafter : (date curr.year curr.month
        (if day > monthLength curr.monthNumber then monthLength curr.monthNumber else day)
        hour minute 0 0 curr.loc).after curr := by
      rw [Time.after, hmonth]
      exact decide_eq_true hahead
    rw [if_pos hafter, hmonth, monthNumber_addDate_of_lt curr hcarry] at h
    exact absurd h.1.2 (not_le.2 hahead)
  · intro h
    refine isGreatest_of_sequence hset ?_
    refine isGreatest_candidate hseq (hmonth curr) (fun hahead => ?_) hbefore hafter
    have hdays : curr.day ≤ monthLength (curr.monthNumber - 1) :=
      not_lt.1 fun hcarry => h ⟨hahead, hcarry⟩
    rw [hmonth, monthNumber_addDate_of_le curr hdays]

end LastScheduleTime

/-- The window opens at the last instant of the schedule up to now, unless the search for the
previous month ends in this one. -/
theorem nextWindowFor_latest_iff {loadLocation : String → Option Location} {w : CumulativeWindow}
    (h : w.validate loadLocation = none) (curr : Time) :
    OpensAtLast loadLocation w curr ↔ ¬ CarriesOver loadLocation w curr := by
  obtain ⟨h, -⟩ := Option.or_eq_none_iff.1 h
  obtain ⟨h, -⟩ := Option.or_eq_none_iff.1 h
  have hend : (w.nextWindowFor loadLocation curr).2.nanos = curr.nanos := rfl
  generalize hloc : w.location loadLocation = loc
  generalize ht : curr.inLocation loc = t
  have hnanos : t.nanos = curr.nanos := by rw [← ht, Time.inLocation]
  obtain rfl : t.loc = loc := by rw [← ht, Time.inLocation]
  have hstart : (w.nextWindowFor loadLocation curr).1.nanos =
      (w.getLastScheduleTime t t.loc).nanos := by
    rw [CumulativeWindow.nextWindowFor, hloc, ht, Time.inLocation]
  have hopens : OpensAtLast loadLocation w curr ↔
      IsGreatest {o | w.schedule.Scheduled ⟨o, t.loc⟩ ∧ o ≤ t.nanos}
        (w.getLastScheduleTime t t.loc).nanos := by
    rw [OpensAtLast, hloc, hstart, hnanos]
    exact and_iff_right hend
  have hno : w.schedule.type ≠ .monthly → ¬ CarriesOver loadLocation w curr :=
    fun hne hcarry => hne hcarry.1
  rw [hopens]
  obtain ⟨minute, hmin, hminute, htype | ⟨hour, hhr, hhour, hrest⟩⟩ :=
    CumulativeSchedule.hasFields_of_validate h
  · exact iff_of_true (isGreatest_hourly htype hmin hminute) (hno (by rw [htype]; nofun))
  obtain htype | ⟨htype, weekday, hwd, hweekday⟩ | ⟨htype, day, hd, hday⟩ := hrest
  · exact iff_of_true (isGreatest_daily htype hmin hminute hhr hhour) (hno (by rw [htype]; nofun))
  · exact iff_of_true (isGreatest_weekly htype hmin hminute hhr hhour hwd hweekday)
      (hno (by rw [htype]; nofun))
  · rw [isGreatest_monthly htype hmin hminute hhr hhour hd hday.1, CarriesOver, hloc, ht, hmin, hhr,
      hd]
    exact not_congr (and_iff_right htype).symm

/-- On the 31st of each month at 09:00. -/
def endOfMonth : CumulativeWindow :=
  ⟨⟨.monthly, some 0, some 9, some 31, none⟩, 3600000000000, "UTC"⟩

/-- The zones by name: only UTC. -/
def onlyUTC (name : String) : Option Location :=
  if name = "" ∨ name = "UTC" then some .utc else none

/-- At noon on 15 April 2025 the window opens on 31 March. -/
theorem nextWindowFor_latest_iff_april :
    endOfMonth.validate onlyUTC = none ∧
      OpensAtLast onlyUTC endOfMonth (date 2025 4 15 12 0 0 0 .utc) ∧
      (endOfMonth.nextWindowFor onlyUTC (date 2025 4 15 12 0 0 0 .utc)).1 =
        date 2025 3 31 9 0 0 0 .utc := by
  have hvalid : endOfMonth.validate onlyUTC = none := by decide
  refine ⟨hvalid, (nextWindowFor_latest_iff hvalid _).2 ?_, by decide⟩
  rintro ⟨-, -, hcarry⟩
  exact absurd hcarry (by decide)

/-- On 31 March 2025 at 08:00 February is the previous month, and the window opens at 09:00. -/
theorem endOfMonth_opens_ahead :
    endOfMonth.validate onlyUTC = none ∧
      (endOfMonth.nextWindowFor onlyUTC (date 2025 3 31 8 0 0 0 .utc)).1 =
        date 2025 3 31 9 0 0 0 .utc ∧
      ¬ OpensAtLast onlyUTC endOfMonth (date 2025 3 31 8 0 0 0 .utc) := by
  refine ⟨by decide, by decide, fun h => ?_⟩
  have hle := h.2.1.2
  exact absurd hle (by decide)

end Signoz.Rules
