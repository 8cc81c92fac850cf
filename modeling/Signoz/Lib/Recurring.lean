import Signoz.Lib.GoTime

/-!
# Recurring instants

An instant recurs as the values of a strictly increasing sequence: every hour, every day, every
week, or every month on a day that is clamped to the length of the month. The last of them up to a
time is found from one candidate that is close enough (`isGreatest_candidate`).
-/

namespace Lib.Recurring

open CivilDate GoTime

/-! ## The last instant up to a time -/

section Sequences

variable {s : ℤ → ℤ} {k now : ℤ}

theorem isGreatest_of_between (hs : StrictMono s) (hle : s k ≤ now) (hlt : now < s (k + 1)) :
    IsGreatest {o | o ∈ Set.range s ∧ o ≤ now} (s k) := by
  refine ⟨⟨⟨k, rfl⟩, hle⟩, ?_⟩
  rintro _ ⟨⟨j, rfl⟩, hj⟩
  have hjk : j < k + 1 := hs.lt_iff_lt.1 (lt_of_le_of_lt hj hlt)
  exact hs.monotone (Int.lt_add_one_iff.1 hjk)

/-- A candidate that may be too late by one. -/
theorem isGreatest_candidate (hs : StrictMono s) {curr candidate previous : Time}
    (hcandidate : candidate.nanos = s k) (hprevious : curr.nanos < s k → previous.nanos = s (k - 1))
    (hbefore : s (k - 1) ≤ curr.nanos) (hafter : curr.nanos < s (k + 1)) :
    IsGreatest {o | o ∈ Set.range s ∧ o ≤ curr.nanos}
      (if candidate.after curr then previous else candidate).nanos := by
  have hiff : candidate.after curr ↔ curr.nanos < s k := by
    rw [← hcandidate]
    exact decide_eq_true_iff
  split
  · next h =>
      rw [hprevious (hiff.1 h)]
      refine isGreatest_of_between hs hbefore ?_
      rw [sub_add_cancel]
      exact hiff.1 h
  · next h =>
      rw [hcandidate]
      exact isGreatest_of_between hs (not_lt.1 fun hlt => h (hiff.2 hlt)) hafter

end Sequences

variable {P : ℤ → Prop}

/-- Whether a window that opens at one of some instants is open now is decided by the last of
them. -/
theorem exists_window_iff {now last start d : ℤ} (h : IsGreatest {o | P o ∧ o ≤ now} last) :
    (∃ o, P o ∧ start ≤ o ∧ o ≤ now ∧ now ≤ o + d) ↔ start ≤ last ∧ now ≤ last + d := by
  constructor
  · rintro ⟨o, hP, hstart, hle, hd⟩
    have hlast : o ≤ last := h.2 ⟨hP, hle⟩
    exact ⟨hstart.trans hlast, by omega⟩
  · rintro ⟨hstart, hd⟩
    exact ⟨last, h.1.1, hstart, h.1.2, hd⟩

/-- The same, where it does not matter when the first window opened. -/
theorem exists_recent_iff {now last d : ℤ} (h : IsGreatest {o | P o ∧ o ≤ now} last) :
    (∃ o, P o ∧ o ≤ now ∧ now ≤ o + d) ↔ now ≤ last + d := by
  constructor
  · rintro ⟨o, hP, hle, hd⟩
    have hlast : o ≤ last := h.2 ⟨hP, hle⟩
    omega
  · exact fun hd => ⟨last, h.1.1, h.1.2, hd⟩

/-- Of instants up to a time there is a last one. -/
theorem exists_last {now o : ℤ} (hP : P o) (hle : o ≤ now) :
    ∃ last, IsGreatest {o | P o ∧ o ≤ now} last := by
  obtain ⟨last, hlast, hmax⟩ := Int.exists_greatest_of_bdd
    (P := fun o => P o ∧ o ≤ now) ⟨now, fun _ h => h.2⟩ ⟨o, hP, hle⟩
  exact ⟨last, hlast, fun z hz => hmax z hz⟩

/-! ## Sequences of the calendar -/

variable (loc : Location)

/-- Every hour, so long after its start. -/
def hourly (clock k : ℤ) : ℤ := k * 3600000000000 + clock - loc.nanos

/-- Every day at a time of day. -/
def daily (clock k : ℤ) : ℤ := k * 86400000000000 + clock - loc.nanos

/-- Every week on a weekday. -/
def weekly (weekday clock k : ℤ) : ℤ := daily loc clock (7 * k + weekday - 1)

/-- Every month on a day, or on its last day. -/
def monthly (day clock k : ℤ) : ℤ :=
  daily loc clock (monthStart k + min day (monthLength k) - 1)

theorem hourly_strictMono (clock : ℤ) : StrictMono (hourly loc clock) := by
  intro j k hjk
  rw [hourly, hourly]
  omega

theorem daily_strictMono (clock : ℤ) : StrictMono (daily loc clock) := by
  intro j k hjk
  rw [daily, daily]
  omega

theorem weekly_strictMono (weekday clock : ℤ) : StrictMono (weekly loc weekday clock) :=
  fun _ _ hjk => daily_strictMono loc clock (by omega)

theorem monthly_strictMono {day : ℤ} (hday : 1 ≤ day) (clock : ℤ) :
    StrictMono (monthly loc day clock) := by
  refine strictMono_int_of_lt_succ fun k => daily_strictMono loc clock ?_
  have hnext := (monthLength_bounds (k + 1)).1
  have hlength : monthLength k = monthStart (k + 1) - monthStart k := rfl
  omega

variable {loc} {t : Time}

theorem mem_hourly_iff {clock : ℤ} (hclock : 0 ≤ clock ∧ clock < 3600000000000) :
    t.nanos ∈ Set.range (hourly t.loc clock) ↔ t.clock % 3600000000000 = clock := by
  have hwall := t.wall_eq
  rw [Time.wall] at hwall
  constructor
  · rintro ⟨k, hk⟩
    rw [hourly] at hk
    omega
  · intro h
    refine ⟨24 * t.dayNumber + t.clock / 3600000000000, ?_⟩
    rw [hourly]
    omega

theorem mem_daily_iff {clock : ℤ} (hclock : 0 ≤ clock ∧ clock < 86400000000000) :
    t.nanos ∈ Set.range (daily t.loc clock) ↔ t.clock = clock := by
  have hwall := t.wall_eq
  have hbounds := t.clock_bounds
  rw [Time.wall] at hwall
  constructor
  · rintro ⟨k, hk⟩
    rw [daily] at hk
    omega
  · intro h
    refine ⟨t.dayNumber, ?_⟩
    rw [daily]
    omega

/-- The day of an instant of a daily sequence. -/
theorem nanos_eq_daily_iff {clock n : ℤ} (hclock : 0 ≤ clock ∧ clock < 86400000000000) :
    daily t.loc clock n = t.nanos ↔ t.dayNumber = n ∧ t.clock = clock := by
  have hwall := t.wall_eq
  have hbounds := t.clock_bounds
  rw [Time.wall] at hwall
  rw [daily]
  omega

theorem mem_weekly_iff {weekday clock : ℤ} (hweekday : 0 ≤ weekday ∧ weekday < 7)
    (hclock : 0 ≤ clock ∧ clock < 86400000000000) :
    t.nanos ∈ Set.range (weekly t.loc weekday clock) ↔
      t.weekday = weekday ∧ t.clock = clock := by
  rw [Time.weekday]
  constructor
  · rintro ⟨k, hk⟩
    obtain ⟨hday, h⟩ := (nanos_eq_daily_iff hclock).1 hk
    exact ⟨by omega, h⟩
  · rintro ⟨hday, h⟩
    exact ⟨(t.dayNumber + 1) / 7, (nanos_eq_daily_iff hclock).2 ⟨by omega, h⟩⟩

theorem mem_monthly_iff {day clock : ℤ} (hday : 1 ≤ day)
    (hclock : 0 ≤ clock ∧ clock < 86400000000000) :
    t.nanos ∈ Set.range (monthly t.loc day clock) ↔
      t.day = min day (monthLength t.monthNumber) ∧ t.clock = clock := by
  constructor
  · rintro ⟨k, hk⟩
    obtain ⟨hnumber, h⟩ := (nanos_eq_daily_iff hclock).1 hk
    have hlength := (monthLength_bounds k).1
    obtain ⟨rfl, hmin⟩ := Time.monthNumber_eq_of_day (by omega) hnumber
    exact ⟨hmin, h⟩
  · rintro ⟨hmin, h⟩
    refine ⟨t.monthNumber, (nanos_eq_daily_iff hclock).2 ⟨?_, h⟩⟩
    rw [t.dayNumber_eq, hmin]

/-! ## Dates of the sequences -/

section Dates

variable (t : Time) (hour min sec nsec : ℤ)

theorem nanos_date_of_month (d : ℤ) :
    (date t.year t.month d hour min sec nsec loc).nanos =
      daily loc (clockOf hour min sec nsec) (monthStart t.monthNumber + d - 1) := by
  rw [daily, date, t.monthNumber_eq]
  dsimp only
  omega

theorem nanos_date_of_day :
    (date t.year t.month t.day hour min sec nsec loc).nanos =
      daily loc (clockOf hour min sec nsec) t.dayNumber := by
  rw [nanos_date_of_month, ← t.dayNumber_eq]

theorem nanos_addDate_days (days : ℤ) :
    (t.addDate 0 0 days).nanos = t.nanos + days * 86400000000000 := by
  have h := t.wall_addDate_days days
  rw [Time.wall, Time.wall] at h
  have hloc : (t.addDate 0 0 days).loc = t.loc := rfl
  rw [hloc] at h
  omega

/-- Day 0 of the next month is the last day of this one. -/
theorem day_date_zero (loc : Location) :
    (date t.year (t.month + 1) 0 0 0 0 0 loc).day = monthLength t.monthNumber := by
  have hnext : 12 * t.year + (t.month + 1 - 1) = t.monthNumber + 1 := by
    rw [← t.monthNumber_eq]
    omega
  have hlength : monthLength t.monthNumber =
      monthStart (t.monthNumber + 1) - monthStart t.monthNumber := rfl
  have hbounds := monthLength_bounds t.monthNumber
  refine (Time.monthNumber_eq_of_day ⟨by omega, le_refl _⟩ ?_).2
  rw [Time.dayNumber, Time.wall_date, hnext, clockOf]
  omega

theorem dayNumber_addDate_months (months : ℤ) :
    (t.addDate 0 months 0).dayNumber = monthStart (t.monthNumber + months) + t.day - 1 := by
  have hclock := t.clock_bounds
  rw [Time.dayNumber, Time.wall_addDate_months]
  omega

/-- A month back from a day that the previous month has. -/
theorem monthNumber_addDate_of_le (h : t.day ≤ monthLength (t.monthNumber - 1)) :
    (t.addDate 0 (-1) 0).monthNumber = t.monthNumber - 1 :=
  (Time.monthNumber_eq_of_day ⟨t.day_bounds.1, h⟩ (dayNumber_addDate_months t (-1))).1

/-- A day that the previous month does not have is carried over into the month again. -/
theorem monthNumber_addDate_of_lt (h : monthLength (t.monthNumber - 1) < t.day) :
    (t.addDate 0 (-1) 0).monthNumber = t.monthNumber := by
  have hday := t.day_bounds.2
  have hbefore := monthLength_bounds (t.monthNumber - 1)
  have hbounds := monthLength_bounds t.monthNumber
  have hlength : monthLength (t.monthNumber - 1) =
      monthStart (t.monthNumber - 1 + 1) - monthStart (t.monthNumber - 1) := rfl
  rw [sub_add_cancel] at hlength
  refine (Time.monthNumber_eq_of_day
    (d := t.day - monthLength (t.monthNumber - 1)) ⟨by omega, by omega⟩ ?_).1
  rw [dayNumber_addDate_months, Int.add_neg_one]
  omega

end Dates

/-! ## Candidates -/

section Candidates

variable (t : Time) {clock : ℤ}

/-- The day of a time is a candidate of a daily sequence. -/
theorem daily_around (hclock : 0 ≤ clock ∧ clock < 86400000000000) :
    daily t.loc clock (t.dayNumber - 1) ≤ t.nanos ∧
      t.nanos < daily t.loc clock (t.dayNumber + 1) := by
  have hwall := t.wall_eq
  have hbounds := t.clock_bounds
  rw [Time.wall] at hwall
  rw [daily, daily]
  omega

/-- The month of a time is a candidate of a monthly sequence. -/
theorem monthly_around {day : ℤ} (hday : 1 ≤ day)
    (hclock : 0 ≤ clock ∧ clock < 86400000000000) :
    monthly t.loc day clock (t.monthNumber - 1) ≤ t.nanos ∧
      t.nanos < monthly t.loc day clock (t.monthNumber + 1) := by
  obtain ⟨hbefore, hafter⟩ := daily_around t hclock
  have hdays := t.day_bounds
  have hnumber := t.dayNumber_eq
  have hlength : ∀ k, monthLength k = monthStart (k + 1) - monthStart k := fun _ => rfl
  have hprevious := hlength (t.monthNumber - 1)
  rw [sub_add_cancel] at hprevious
  have hnext := (monthLength_bounds (t.monthNumber + 1)).1
  constructor
  · refine le_trans ((daily_strictMono t.loc clock).monotone ?_) hbefore
    omega
  · refine lt_of_lt_of_le hafter ((daily_strictMono t.loc clock).monotone ?_)
    have hthis := hlength t.monthNumber
    omega

end Candidates

end Lib.Recurring
