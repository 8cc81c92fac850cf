import Signoz.Lib.CivilDate

/-!
# Times

Package `time` of Go, for locations whose offset from UTC never changes. A time is an instant, in
nanoseconds since the first of January of year 1 in UTC, with the location that its clock is read
in. Instants are unbounded.
-/

namespace Lib.GoTime

open CivilDate

/-- A location with a fixed offset from UTC, in seconds, of less than a day. -/
structure Location where
  offset : ℤ
  lt_day : -86400 < offset ∧ offset < 86400
deriving DecidableEq

namespace Location

/-- `time.UTC`. -/
def utc : Location := ⟨0, by decide⟩

/-- The offset in nanoseconds. -/
def nanos (loc : Location) : ℤ := loc.offset * 1000000000

end Location

/-- `time.Time`. -/
structure Time where
  nanos : ℤ
  loc : Location
deriving DecidableEq

namespace Time

/-- `In`. -/
def inLocation (t : Time) (loc : Location) : Time := ⟨t.nanos, loc⟩

/-- What the clock and the calendar of the location show, in nanoseconds. -/
def wall (t : Time) : ℤ := t.nanos + t.loc.nanos

def dayNumber (t : Time) : ℤ := t.wall / 86400000000000

def monthNumber (t : Time) : ℤ := monthOf t.dayNumber

/-- The nanoseconds since midnight. -/
def clock (t : Time) : ℤ := t.wall % 86400000000000

/-- `Year`. -/
def year (t : Time) : ℤ := t.monthNumber / 12

/-- `Month`. -/
def month (t : Time) : ℤ := t.monthNumber % 12 + 1

/-- `Day`. -/
def day (t : Time) : ℤ := t.dayNumber - monthStart t.monthNumber + 1

/-- `Hour`. -/
def hour (t : Time) : ℤ := t.clock / 3600000000000

/-- `Minute`. -/
def minute (t : Time) : ℤ := t.clock / 60000000000 % 60

/-- `Second`. -/
def second (t : Time) : ℤ := t.clock / 1000000000 % 60

/-- `Nanosecond`. -/
def nanosecond (t : Time) : ℤ := t.clock % 1000000000

/-- `Weekday`, with Sunday as 0: day 0 is a Monday. -/
def weekday (t : Time) : ℤ := (t.dayNumber + 1) % 7

/-- `IsZero`. -/
def isZero (t : Time) : Bool := t.nanos = 0

/-- `After`. -/
def after (t u : Time) : Bool := u.nanos < t.nanos

/-- `Before`. -/
def before (t u : Time) : Bool := t.nanos < u.nanos

/-- `Equal`. -/
def equal (t u : Time) : Bool := t.nanos = u.nanos

/-- `Add`, of a duration in nanoseconds. -/
def add (t : Time) (d : ℤ) : Time := ⟨t.nanos + d, t.loc⟩

/-- `Sub`. -/
def sub (t u : Time) : ℤ := t.nanos - u.nanos

@[simp]
theorem isZero_iff (t : Time) : t.isZero ↔ t.nanos = 0 := decide_eq_true_iff

@[simp]
theorem after_iff (t u : Time) : t.after u ↔ u.nanos < t.nanos := decide_eq_true_iff

@[simp]
theorem before_iff (t u : Time) : t.before u ↔ t.nanos < u.nanos := decide_eq_true_iff

@[simp]
theorem equal_iff (t u : Time) : t.equal u ↔ t.nanos = u.nanos := decide_eq_true_iff

end Time

/-- The nanoseconds of a time of day. -/
def clockOf (hour min sec nsec : ℤ) : ℤ :=
  hour * 3600000000000 + min * 60000000000 + sec * 1000000000 + nsec

/-- `time.Date`. What is out of its range is carried over: months into years, and the rest into
days. -/
def date (year month day hour min sec nsec : ℤ) (loc : Location) : Time :=
  ⟨(monthStart (12 * year + (month - 1)) + (day - 1)) * 86400000000000 +
    clockOf hour min sec nsec - loc.nanos, loc⟩

/-- `AddDate`. -/
def Time.addDate (t : Time) (years months days : ℤ) : Time :=
  date (t.year + years) (t.month + months) (t.day + days) t.hour t.minute t.second t.nanosecond
    t.loc

namespace Time

/-! ## The calendar -/

theorem nanos_add (t : Time) (d : ℤ) : (t.add d).nanos = t.nanos + d := rfl

theorem clock_bounds (t : Time) : 0 ≤ t.clock ∧ t.clock < 86400000000000 := by
  rw [clock]
  omega

theorem wall_eq (t : Time) : t.wall = t.dayNumber * 86400000000000 + t.clock := by
  rw [dayNumber, clock]
  omega

theorem eq_of_wall {t u : Time} (hwall : t.wall = u.wall) (hloc : t.loc = u.loc) : t = u := by
  cases t
  cases u
  simp only [wall] at hwall hloc
  subst hloc
  rw [add_right_cancel hwall]

theorem year_eq_of_wall {t u : Time} (h : t.wall = u.wall) : t.year = u.year := by
  rw [year, year, monthNumber, monthNumber, dayNumber, dayNumber, h]

theorem nanosecond_eq_of_wall {t u : Time} (h : t.wall = u.wall) :
    t.nanosecond = u.nanosecond := by
  rw [nanosecond, nanosecond, clock, clock, h]

theorem monthNumber_eq (t : Time) : 12 * t.year + (t.month - 1) = t.monthNumber := by
  rw [year, month]
  omega

theorem clockOf_clock (t : Time) : clockOf t.hour t.minute t.second t.nanosecond = t.clock := by
  have h := t.clock_bounds
  rw [clockOf, hour, minute, second, nanosecond]
  omega

/-- A clock shows a time of day exactly when hour, minute, second and nanosecond do. -/
theorem clock_eq_iff (t : Time) {h m s n : ℤ} (hm : 0 ≤ m ∧ m < 60) (hs : 0 ≤ s ∧ s < 60)
    (hn : 0 ≤ n ∧ n < 1000000000) :
    t.clock = clockOf h m s n ↔
      t.hour = h ∧ t.minute = m ∧ t.second = s ∧ t.nanosecond = n := by
  constructor
  · intro hclock
    rw [hour, minute, second, nanosecond, hclock, clockOf]
    omega
  · rintro ⟨rfl, rfl, rfl, rfl⟩
    exact t.clockOf_clock.symm

theorem hour_bounds (t : Time) : 0 ≤ t.hour ∧ t.hour < 24 := by
  have h := t.clock_bounds
  rw [hour]
  omega

theorem minute_bounds (t : Time) : 0 ≤ t.minute ∧ t.minute < 60 := by
  rw [minute]
  omega

theorem second_bounds (t : Time) : 0 ≤ t.second ∧ t.second < 60 := by
  rw [second]
  omega

theorem day_bounds (t : Time) : 1 ≤ t.day ∧ t.day ≤ monthLength t.monthNumber := by
  have h := monthOf_spec t.dayNumber
  rw [day, monthLength, monthNumber]
  omega

theorem month_bounds (t : Time) : 1 ≤ t.month ∧ t.month ≤ 12 := by
  rw [month]
  omega

theorem weekday_bounds (t : Time) : 0 ≤ t.weekday ∧ t.weekday < 7 := by
  rw [weekday]
  omega

/-- A day of a month. -/
theorem monthNumber_eq_of_day {t : Time} {k d : ℤ} (hd : 1 ≤ d ∧ d ≤ monthLength k)
    (h : t.dayNumber = monthStart k + d - 1) : t.monthNumber = k ∧ t.day = d := by
  rw [monthLength] at hd
  have hmonth : t.monthNumber = k := monthOf_eq_iff.2 (by omega)
  refine ⟨hmonth, ?_⟩
  rw [day, hmonth]
  omega

theorem dayNumber_eq (t : Time) : t.dayNumber = monthStart t.monthNumber + t.day - 1 := by
  rw [day]
  omega

/-! ## Dates -/

theorem wall_date (year month day hour min sec nsec : ℤ) (loc : Location) :
    (date year month day hour min sec nsec loc).wall =
      (monthStart (12 * year + (month - 1)) + (day - 1)) * 86400000000000 +
        clockOf hour min sec nsec := by
  rw [wall, date, sub_add_cancel]

/-- The fields of a time are the time. -/
theorem date_fields (t : Time) (loc : Location) :
    (date t.year t.month t.day t.hour t.minute t.second t.nanosecond loc).wall = t.wall := by
  rw [wall_date, monthNumber_eq, clockOf_clock, t.wall_eq, t.dayNumber_eq]
  omega

/-- Days are added to the calendar. -/
theorem wall_addDate_days (t : Time) (days : ℤ) :
    (t.addDate 0 0 days).wall = t.wall + days * 86400000000000 := by
  rw [addDate, wall_date, add_zero, add_zero, monthNumber_eq, clockOf_clock, t.wall_eq,
    t.dayNumber_eq]
  omega

/-- Months are added to the month, and the day counted from its start. -/
theorem wall_addDate_months (t : Time) (months : ℤ) :
    (t.addDate 0 months 0).wall =
      (monthStart (t.monthNumber + months) + (t.day - 1)) * 86400000000000 + t.clock := by
  have hmonth : 12 * t.year + (t.month + months - 1) = t.monthNumber + months := by
    rw [← t.monthNumber_eq]
    omega
  rw [addDate, wall_date, add_zero, add_zero, hmonth, clockOf_clock]

end Time

end Lib.GoTime
