import Signoz.Lib.Rfc3339
import Signoz.Rules.Maintenance

/-!
# Storing a maintenance schedule

`MarshalJSON` and `UnmarshalJSON` of `Schedule` in `recurrence.go`. Both read the clock and the
calendar of a time again in the time zone of the schedule. The JSON object is modelled by its
fields, which package `json` writes and reads as they are.

A time that is not set is written as midnight of the first of January of year 1, and read back as
that date in the time zone. So a schedule is the same after it is stored exactly when both times are
set or the zone is UTC, and no year has more than four digits (`survives_iff`).
-/

namespace Signoz.Rules

open Lib.CivilDate Lib.GoTime

/-! ## Durations -/

/-- `Duration.String` and `ParseDuration`. -/
structure DurationText where
  string : ℤ → String
  parse : String → Option ℤ

namespace TextDuration

variable (env : DurationText)

/-- `String`. -/
def string (d : TextDuration) : String := if d.text ≠ "" then d.text else env.string d.value

/-- `ParseTextDuration`, which `UnmarshalJSON` of a string agrees with. -/
def parse (s : String) : Option TextDuration := (env.parse s).map fun value => ⟨s, value⟩

/-- The text of a duration, where it has one, is a text of its value. -/
def WellFormed (d : TextDuration) : Prop := d.text = "" ∨ env.parse d.text = some d.value

end TextDuration

/-! ## The JSON object -/

/-- The object of a recurrence. -/
structure RecurrenceJSON where
  startTime : String
  endTime : Option String
  duration : String
  repeatType : RepeatType
  repeatOn : List RepeatOn

/-- The object of a schedule. -/
structure ScheduleJSON where
  timezone : String
  startTime : String
  endTime : String
  recurrence : Option RecurrenceJSON

/-- The clock and the calendar of a time, read in a location. -/
def rebase (t : Time) (loc : Location) : Time :=
  date t.year t.month t.day t.hour t.minute t.second t.nanosecond loc

/-- `MarshalJSON` of a time, which has to have a year of four digits. -/
def marshalTime (t : Time) : Option String :=
  if 0 ≤ t.year ∧ t.year ≤ 9999 then some (String.ofList (t.formatRFC3339 true)) else none

/-- `Format(time.RFC3339)`. -/
def formatTime (t : Time) : String := String.ofList (t.formatRFC3339 false)

/-- `Parse(time.RFC3339, s)`, and `UnmarshalJSON` of a time. -/
def parseTime (s : String) : Option Time := parseRFC3339 s.toList

/-- A field that may be missing. -/
def optionally {α β : Type} (f : α → Option β) : Option α → Option (Option β)
  | none => some none
  | some a => (f a).map some

variable (env : DurationText) (loadLocation : String → Option Location)

namespace Recurrence

/-- `json.Marshal` of a recurrence. -/
def marshalJSON (r : Recurrence) : Option RecurrenceJSON := do
  let startTime ← marshalTime r.startTime
  let endTime ← optionally marshalTime r.endTime
  return ⟨startTime, endTime, r.duration.string env, r.repeatType, r.repeatOn⟩

/-- `json.Unmarshal` into a recurrence. -/
def unmarshalJSON (aux : RecurrenceJSON) : Option Recurrence := do
  let startTime ← parseTime aux.startTime
  let endTime ← optionally parseTime aux.endTime
  let duration ← TextDuration.parse env aux.duration
  return ⟨startTime, endTime, duration, aux.repeatType, aux.repeatOn⟩

end Recurrence

/-- A time that is written and parsed once more. -/
def reparse (loc : Location) (t : Time) : Option Time :=
  (parseTime (formatTime t)).map fun t => rebase t loc

/-- The recurrence that `MarshalJSON` of a schedule writes. -/
def Recurrence.rebased (loc : Location) (r : Recurrence) : Recurrence :=
  { r with
    startTime := rebase r.startTime loc
    endTime := r.endTime.map fun e => rebase e loc }

/-- The recurrence that `UnmarshalJSON` of a schedule makes of the one in the object. -/
def Recurrence.reparsed (loc : Location) (r : Recurrence) : Option Recurrence := do
  let startTime ← reparse loc r.startTime
  let endTime ← optionally (reparse loc) r.endTime
  return { r with startTime := startTime, endTime := endTime }

/-- A time that is parsed and read in a location; an empty text leaves it unset. -/
def readTime (loc : Location) (s : String) : Option Time :=
  if s = "" then some ⟨0, .utc⟩ else (parseTime s).map fun t => rebase t loc

namespace Schedule

/-- The time that `MarshalJSON` writes. -/
def written (loc : Location) (t : Time) : Time := if t.isZero then ⟨0, .utc⟩ else rebase t loc

/-- `MarshalJSON`. -/
def marshalJSON (s : Schedule) : Option ScheduleJSON := do
  let loc ← loadLocation s.timezone
  let recurrence ← optionally (fun r : Recurrence => (r.rebased loc).marshalJSON env) s.recurrence
  return ⟨s.timezone, formatTime (written loc s.startTime), formatTime (written loc s.endTime),
    recurrence⟩

/-- `UnmarshalJSON`. -/
def unmarshalJSON (aux : ScheduleJSON) : Option Schedule := do
  let recurrence ← optionally (Recurrence.unmarshalJSON env) aux.recurrence
  let loc ← loadLocation aux.timezone
  let startTime ← readTime loc aux.startTime
  let endTime ← readTime loc aux.endTime
  let recurrence ← optionally (Recurrence.reparsed loc) recurrence
  return ⟨aux.timezone, startTime, endTime, recurrence⟩

end Schedule

/-! ## The same schedule -/

/-- A recurrence but for the text of its duration, which `Equal` of durations does not look at. -/
def Recurrence.withoutText (r : Recurrence) : Recurrence :=
  { r with duration := ⟨"", r.duration.value⟩ }

/-- Two schedules have the same times, set or not, and equal recurrences. -/
structure Schedule.Same (s s' : Schedule) : Prop where
  timezone : s'.timezone = s.timezone
  startTime : s'.startTime.nanos = s.startTime.nanos
  endTime : s'.endTime.nanos = s.endTime.nanos
  recurrence : s'.recurrence.map Recurrence.withoutText =
    s.recurrence.map Recurrence.withoutText

/-- What is reported for a maintenance with either schedule is the same. -/
def Schedule.ReportedAlike (s s' : Schedule) : Prop :=
  ∀ name ruleIDs now,
    (⟨name, some s', ruleIDs⟩ : GettablePlannedMaintenance).isActive loadLocation now =
        (⟨name, some s, ruleIDs⟩ : GettablePlannedMaintenance).isActive loadLocation now ∧
      (⟨name, some s', ruleIDs⟩ : GettablePlannedMaintenance).isUpcoming loadLocation now =
        (⟨name, some s, ruleIDs⟩ : GettablePlannedMaintenance).isUpcoming loadLocation now ∧
      (⟨name, some s', ruleIDs⟩ : GettablePlannedMaintenance).kind =
        (⟨name, some s, ruleIDs⟩ : GettablePlannedMaintenance).kind

/-- A schedule is written and read back as the same one. -/
def Schedule.Survives (s : Schedule) : Prop :=
  ∃ aux s', s.marshalJSON env loadLocation = some aux ∧
    Schedule.unmarshalJSON env loadLocation aux = some s' ∧ s.Same s' ∧
    s.ReportedAlike loadLocation s'

/-- The times of a schedule that are set are in its zone. -/
structure Schedule.InZone (loc : Location) (s : Schedule) : Prop where
  startTime : s.startTime.nanos ≠ 0 → s.startTime.loc = loc
  endTime : s.endTime.nanos ≠ 0 → s.endTime.loc = loc
  recurrence : ∀ r ∈ s.recurrence, r.startTime.loc = loc ∧ ∀ e ∈ r.endTime, e.loc = loc

/-- The times have whole seconds. -/
structure Schedule.WholeSeconds (s : Schedule) : Prop where
  startTime : s.startTime.nanosecond = 0
  endTime : s.endTime.nanosecond = 0
  recurrence : ∀ r ∈ s.recurrence, r.startTime.nanosecond = 0 ∧ ∀ e ∈ r.endTime, e.nanosecond = 0

/-- A year that is written with four digits. -/
def FourDigits (t : Time) : Prop := 0 ≤ t.year ∧ t.year ≤ 9999

instance (t : Time) : Decidable (FourDigits t) := inferInstanceAs (Decidable (_ ∧ _))

/-- A time that is not set is in UTC, and the years have four digits. -/
structure Schedule.Storable (loc : Location) (s : Schedule) : Prop where
  startTime : if s.startTime.nanos = 0 then loc.offset = 0 else FourDigits s.startTime
  endTime : if s.endTime.nanos = 0 then loc.offset = 0 else FourDigits s.endTime
  recurrence : ∀ r ∈ s.recurrence, FourDigits r.startTime ∧ ∀ e ∈ r.endTime, FourDigits e

/-! ## Times -/

section Times

variable {t : Time} {loc : Location}

theorem wall_rebase (t : Time) (loc : Location) : (rebase t loc).wall = t.wall :=
  t.date_fields loc

theorem rebase_eq {p : Time} (hwall : p.wall = t.wall) (hloc : t.loc = loc) :
    rebase p loc = t :=
  Time.eq_of_wall ((wall_rebase p loc).trans hwall) hloc.symm

theorem exists_parseTime (nanos : Bool) (hyear : FourDigits t) (hsec : t.nanosecond = 0) :
    ∃ p, parseTime (String.ofList (t.formatRFC3339 nanos)) = some p ∧ p.wall = t.wall := by
  rw [parseTime, String.toList_ofList]
  exact parseRFC3339_format nanos hyear hsec

theorem parseTime_formatTime_eq_none (hyear : ¬ FourDigits t) :
    parseTime (formatTime t) = none := by
  rw [formatTime, parseTime, String.toList_ofList]
  exact parseRFC3339_format_eq_none false hyear

theorem marshalTime_eq (hyear : FourDigits t) :
    marshalTime t = some (String.ofList (t.formatRFC3339 true)) := if_pos hyear

theorem marshalTime_eq_none (hyear : ¬ FourDigits t) : marshalTime t = none := if_neg hyear

theorem formatTime_ne_empty (t : Time) : formatTime t ≠ "" := by
  intro h
  have hnil := congrArg String.toList h
  rw [formatTime, String.toList_ofList, Time.formatRFC3339] at hnil
  have hlast := (List.append_eq_nil_iff.1 hnil).2
  cases hlast

/-- A time in the zone is parsed and read in the zone as itself. -/
theorem reparse_eq {p : Time} (hwall : p.wall = t.wall) (hloc : t.loc = loc)
    (hyear : FourDigits t) (hsec : t.nanosecond = 0) : reparse loc p = some t := by
  have hyear' : FourDigits p := by
    rw [FourDigits, Time.year_eq_of_wall hwall]
    exact hyear
  obtain ⟨q, hq, hqwall⟩ := exists_parseTime false hyear'
    ((Time.nanosecond_eq_of_wall hwall).trans hsec)
  rw [reparse, formatTime, hq, Option.map_some, rebase_eq (hqwall.trans hwall) hloc]

theorem readTime_formatTime (t : Time) (loc : Location) :
    readTime loc (formatTime t) = reparse loc t := by
  rw [readTime, if_neg (formatTime_ne_empty t), reparse]

/-- What is read back of a time of the schedule. A time that is not set becomes midnight in the
zone. -/
theorem readTime_written (hzone : t.nanos ≠ 0 → t.loc = loc) (hsec : t.nanosecond = 0) :
    readTime loc (formatTime (Schedule.written loc t)) =
      if t.nanos = 0 then some ⟨-loc.nanos, loc⟩
      else if FourDigits t then some t else none := by
  have hzero : t.isZero ↔ t.nanos = 0 := t.isZero_iff
  rw [readTime_formatTime, Schedule.written]
  by_cases hunset : t.nanos = 0
  · rw [if_pos (hzero.2 hunset), if_pos hunset]
    obtain ⟨p, hp, hwall⟩ := exists_parseTime (t := ⟨0, .utc⟩) false (by decide) (by decide)
    have hmidnight : (⟨-loc.nanos, loc⟩ : Time).wall = 0 := neg_add_cancel _
    have hrebase : rebase p loc = ⟨-loc.nanos, loc⟩ :=
      rebase_eq (hwall.trans hmidnight.symm) rfl
    rw [reparse, formatTime, hp, Option.map_some, hrebase]
  · rw [if_neg (fun h => hunset (hzero.1 h)), if_neg hunset]
    have hself : rebase t loc = t := rebase_eq rfl (hzone hunset)
    rw [hself]
    split
    · next hyear => exact reparse_eq rfl (hzone hunset) hyear hsec
    · next hyear => rw [reparse, parseTime_formatTime_eq_none hyear, Option.map_none]

/-- A time survives exactly when it is set to a year of four digits, or not set and in UTC. -/
theorem readTime_survives_iff (hzone : t.nanos ≠ 0 → t.loc = loc) (hsec : t.nanosecond = 0) :
    (∃ p, readTime loc (formatTime (Schedule.written loc t)) = some p ∧ p.nanos = t.nanos) ↔
      if t.nanos = 0 then loc.offset = 0 else FourDigits t := by
  rw [readTime_written hzone hsec]
  by_cases hunset : t.nanos = 0
  · rw [if_pos hunset, if_pos hunset, hunset]
    have hoffset : -loc.nanos = 0 ↔ loc.offset = 0 := by
      rw [Location.nanos]
      omega
    constructor
    · rintro ⟨_, ⟨⟩, h⟩
      exact hoffset.1 h
    · exact fun h => ⟨_, rfl, hoffset.2 h⟩
  · rw [if_neg hunset, if_neg hunset]
    split
    · next hyear => exact iff_of_true ⟨t, rfl, rfl⟩ hyear
    · next hyear => exact iff_of_false (fun ⟨_, h, _⟩ => nomatch h) hyear

end Times

/-! ## Recurrences -/

section Recurrences

variable {env : DurationText} {loc : Location} {r : Recurrence}

theorem parse_string (hparse : ∀ d, env.parse (env.string d) = some d) {d : TextDuration}
    (hd : d.WellFormed env) :
    TextDuration.parse env (d.string env) = some ⟨d.string env, d.value⟩ := by
  rw [TextDuration.parse, TextDuration.string]
  by_cases htext : d.text = ""
  · rw [if_neg (not_not.2 htext), hparse, Option.map_some]
  · rw [if_pos htext, hd.resolve_left htext, Option.map_some]

/-- The times of a recurrence are in a zone, with whole seconds. -/
structure Recurrence.InZone (loc : Location) (r : Recurrence) : Prop where
  startTime : r.startTime.loc = loc ∧ r.startTime.nanosecond = 0
  endTime : ∀ e ∈ r.endTime, e.loc = loc ∧ e.nanosecond = 0

theorem rebased_eq (hzone : r.InZone loc) : r.rebased loc = r := by
  have hend : r.endTime.map (fun e => rebase e loc) = r.endTime := by
    cases he : r.endTime with
    | none => rfl
    | some e => rw [Option.map_some, rebase_eq rfl (hzone.endTime e he).1]
  rw [Recurrence.rebased, rebase_eq rfl hzone.startTime.1, hend]

/-- A recurrence with years of four digits is read back as it is, but for the text of its
duration. -/
theorem recurrence_survives (hparse : ∀ d, env.parse (env.string d) = some d)
    (hzone : r.InZone loc) (hd : r.duration.WellFormed env)
    (hyears : FourDigits r.startTime ∧ ∀ e ∈ r.endTime, FourDigits e) :
    ∃ aux p, (r.rebased loc).marshalJSON env = some aux ∧
      Recurrence.unmarshalJSON env aux = some p ∧
      p.reparsed loc = some { r with duration := ⟨r.duration.string env, r.duration.value⟩ } := by
  obtain ⟨hstartzone, hstartsec⟩ := hzone.startTime
  obtain ⟨hstart, hends⟩ := hyears
  obtain ⟨p, hp, hpwall⟩ := exists_parseTime true hstart hstartsec
  have hduration := parse_string hparse hd
  rw [rebased_eq hzone]
  cases hend : r.endTime with
  | none =>
    refine ⟨⟨String.ofList (r.startTime.formatRFC3339 true), none, r.duration.string env,
      r.repeatType, r.repeatOn⟩, ⟨p, none, ⟨r.duration.string env, r.duration.value⟩,
      r.repeatType, r.repeatOn⟩, ?_, ?_, ?_⟩
    · rw [Recurrence.marshalJSON, marshalTime_eq hstart, hend]
      rfl
    · rw [Recurrence.unmarshalJSON, hp, hduration]
      rfl
    · rw [Recurrence.reparsed, reparse_eq hpwall hstartzone hstart hstartsec]
      rfl
  | some e =>
    obtain ⟨hendzone, hendsec⟩ := hzone.endTime e hend
    obtain ⟨q, hq, hqwall⟩ := exists_parseTime true (hends e hend) hendsec
    refine ⟨⟨String.ofList (r.startTime.formatRFC3339 true),
      some (String.ofList (e.formatRFC3339 true)), r.duration.string env, r.repeatType,
      r.repeatOn⟩, ⟨p, some q, ⟨r.duration.string env, r.duration.value⟩, r.repeatType,
      r.repeatOn⟩, ?_, ?_, ?_⟩
    · rw [Recurrence.marshalJSON, marshalTime_eq hstart, hend, optionally,
        marshalTime_eq (hends e hend)]
      rfl
    · rw [Recurrence.unmarshalJSON, hp, optionally, hq, hduration]
      rfl
    · rw [Recurrence.reparsed, reparse_eq hpwall hstartzone hstart hstartsec, optionally,
        reparse_eq hqwall hendzone (hends e hend) hendsec]
      rfl

/-- A recurrence with another year is not written. -/
theorem marshalJSON_eq_none (hzone : r.InZone loc)
    (hyears : ¬ (FourDigits r.startTime ∧ ∀ e ∈ r.endTime, FourDigits e)) :
    (r.rebased loc).marshalJSON env = none := by
  rw [rebased_eq hzone, Recurrence.marshalJSON]
  by_cases hstart : FourDigits r.startTime
  · rw [marshalTime_eq hstart]
    cases hend : r.endTime with
    | none =>
      refine absurd ⟨hstart, fun e he => ?_⟩ hyears
      rw [hend] at he
      cases he
    | some e =>
      have he : ¬ FourDigits e := fun he => hyears ⟨hstart, by rw [hend]; rintro _ ⟨⟩; exact he⟩
      rw [optionally, marshalTime_eq_none he]
      rfl
  · rw [marshalTime_eq_none hstart]
    rfl

end Recurrences

/-! ## Schedules -/

section Schedules

variable {env : DurationText} {loadLocation : String → Option Location} {loc : Location}
  {s s' : Schedule}

/-- A check does not look at the text of a duration. -/
theorem skipsRecurring_congr {r r' : Recurrence} (h : r'.withoutText = r.withoutText) (curr : Time)
    (loc : Location) : GettablePlannedMaintenance.skipsRecurring r' curr loc =
      GettablePlannedMaintenance.skipsRecurring r curr loc := by
  have hskip : ∀ r : Recurrence, GettablePlannedMaintenance.skipsRecurring r curr loc =
      GettablePlannedMaintenance.skipsRecurring r.withoutText curr loc := fun _ => rfl
  rw [hskip, h, ← hskip]

theorem Schedule.Same.reportedAlike (h : s.Same s') : s.ReportedAlike loadLocation s' := by
  intro name ruleIDs now
  obtain ⟨htimezone, hstart, hend, hrec⟩ := h
  have hstartzero : s'.startTime.isZero = s.startTime.isZero := by
    rw [Time.isZero, Time.isZero, hstart]
  have hendzero : s'.endTime.isZero = s.endTime.isZero := by
    rw [Time.isZero, Time.isZero, hend]
  have hstartin : ∀ loc, s'.startTime.inLocation loc = s.startTime.inLocation loc := by
    intro loc
    rw [Time.inLocation, Time.inLocation, hstart]
  have hendin : ∀ loc, s'.endTime.inLocation loc = s.endTime.inLocation loc := by
    intro loc
    rw [Time.inLocation, Time.inLocation, hend]
  have hbefore : ∀ t : Time, t.before s'.startTime = t.before s.startTime := by
    intro t
    rw [Time.before, Time.before, hstart]
  have hafter : s'.endTime.after s'.startTime = s.endTime.after s.startTime := by
    rw [Time.after, Time.after, hstart, hend]
  refine ⟨?_, ?_, ?_⟩
  · rw [GettablePlannedMaintenance.isActive, GettablePlannedMaintenance.isActive,
      GettablePlannedMaintenance.shouldSkip, GettablePlannedMaintenance.shouldSkip]
    dsimp only
    rw [htimezone, hstartzero, hendzero]
    simp only [hstartin, hendin]
    cases hr : s.recurrence with
    | none =>
      rw [hr, Option.map_none, Option.map_eq_none_iff] at hrec
      rw [hrec]
    | some r =>
      rw [hr, Option.map_some] at hrec
      obtain ⟨r', hr', hr''⟩ := Option.map_eq_some_iff.1 hrec
      rw [hr']
      simp only [skipsRecurring_congr hr'']
  · rw [GettablePlannedMaintenance.isUpcoming, GettablePlannedMaintenance.isUpcoming]
    dsimp only
    rw [htimezone, hstartzero, hendzero]
    simp only [hbefore]
    cases hr : s.recurrence with
    | none =>
      rw [hr, Option.map_none, Option.map_eq_none_iff] at hrec
      rw [hrec]
    | some r =>
      rw [hr, Option.map_some] at hrec
      obtain ⟨r', hr', hr''⟩ := Option.map_eq_some_iff.1 hrec
      have hstarts := congrArg Recurrence.startTime hr''
      dsimp only [Recurrence.withoutText] at hstarts
      rw [hr']
      simp only [hstarts]
  · rw [GettablePlannedMaintenance.kind, GettablePlannedMaintenance.kind]
    dsimp only
    rw [hstartzero, hendzero, hafter]

theorem inZone_of_schedule (hzone : s.InZone loc) (hsec : s.WholeSeconds) {r : Recurrence}
    (hr : r ∈ s.recurrence) : r.InZone loc where
  startTime := ⟨(hzone.recurrence r hr).1, (hsec.recurrence r hr).1⟩
  endTime e he := ⟨(hzone.recurrence r hr).2 e he, (hsec.recurrence r hr).2 e he⟩

/-- What is read back of the times of a schedule, where its recurrence is read back. -/
theorem unmarshalJSON_iff (hload : loadLocation s.timezone = some loc) (hzone : s.InZone loc)
    (hsec : s.WholeSeconds) {aux : Option RecurrenceJSON} {p q : Option Recurrence}
    (hread : optionally (Recurrence.unmarshalJSON env) aux = some p)
    (hreparse : optionally (Recurrence.reparsed loc) p = some q)
    (hsame : q.map Recurrence.withoutText = s.recurrence.map Recurrence.withoutText) :
    (∃ s', Schedule.unmarshalJSON env loadLocation ⟨s.timezone,
        formatTime (Schedule.written loc s.startTime), formatTime (Schedule.written loc s.endTime),
        aux⟩ = some s' ∧ s.Same s') ↔
      (if s.startTime.nanos = 0 then loc.offset = 0 else FourDigits s.startTime) ∧
        if s.endTime.nanos = 0 then loc.offset = 0 else FourDigits s.endTime := by
  rw [← readTime_survives_iff hzone.startTime hsec.startTime,
    ← readTime_survives_iff hzone.endTime hsec.endTime]
  simp only [Schedule.unmarshalJSON, hread, hload, Option.bind_eq_bind, Option.bind_some]
  constructor
  · rintro ⟨s', h, hsame'⟩
    obtain ⟨t, ht, h⟩ := Option.bind_eq_some_iff.1 h
    obtain ⟨u, hu, h⟩ := Option.bind_eq_some_iff.1 h
    rw [hreparse] at h
    cases h
    exact ⟨⟨t, ht, hsame'.startTime⟩, u, hu, hsame'.endTime⟩
  · rintro ⟨⟨t, ht, hstart⟩, u, hu, hend⟩
    refine ⟨⟨s.timezone, t, u, q⟩, ?_, ⟨rfl, hstart, hend, hsame⟩⟩
    rw [ht, Option.bind_some, hu, Option.bind_some, hreparse]
    rfl

/-- A schedule with recurrences of years of four digits is written, and its times decide whether it
is read back. -/
theorem exists_marshalJSON (hparse : ∀ d, env.parse (env.string d) = some d)
    (hload : loadLocation s.timezone = some loc) (hzone : s.InZone loc) (hsec : s.WholeSeconds)
    (hduration : ∀ r ∈ s.recurrence, r.duration.WellFormed env)
    (hyears : ∀ r ∈ s.recurrence, FourDigits r.startTime ∧ ∀ e ∈ r.endTime, FourDigits e) :
    ∃ aux, s.marshalJSON env loadLocation = some aux ∧
      ((∃ s', Schedule.unmarshalJSON env loadLocation aux = some s' ∧ s.Same s') ↔
        (if s.startTime.nanos = 0 then loc.offset = 0 else FourDigits s.startTime) ∧
          if s.endTime.nanos = 0 then loc.offset = 0 else FourDigits s.endTime) := by
  simp only [Schedule.marshalJSON, hload, Option.bind_eq_bind, Option.bind_some]
  cases hrec : s.recurrence with
  | none =>
    have hread : optionally (Recurrence.unmarshalJSON env) none = some none := rfl
    have hreparse : optionally (Recurrence.reparsed loc) none = some none := rfl
    exact ⟨_, rfl, unmarshalJSON_iff hload hzone hsec hread hreparse (by rw [hrec])⟩
  | some r =>
    obtain ⟨aux, p, hmarshal, hread, hreparse⟩ := recurrence_survives hparse
      (inZone_of_schedule hzone hsec hrec) (hduration r hrec) (hyears r hrec)
    have hsame : (some { r with duration := ⟨r.duration.string env, r.duration.value⟩ }).map
        Recurrence.withoutText = s.recurrence.map Recurrence.withoutText := by
      rw [hrec]
      rfl
    have hoptread : optionally (Recurrence.unmarshalJSON env) (some aux) = some (some p) := by
      rw [optionally, hread, Option.map_some]
    have hoptreparse : optionally (Recurrence.reparsed loc) (some p) =
        some (some { r with duration := ⟨r.duration.string env, r.duration.value⟩ }) := by
      rw [optionally, hreparse, Option.map_some]
    rw [optionally, hmarshal]
    exact ⟨_, rfl, unmarshalJSON_iff hload hzone hsec hoptread hoptreparse hsame⟩

theorem survives_of_storable (hparse : ∀ d, env.parse (env.string d) = some d)
    (hload : loadLocation s.timezone = some loc) (hzone : s.InZone loc) (hsec : s.WholeSeconds)
    (hduration : ∀ r ∈ s.recurrence, r.duration.WellFormed env) (h : s.Storable loc) :
    s.Survives env loadLocation := by
  obtain ⟨aux, hmarshal, hread⟩ :=
    exists_marshalJSON hparse hload hzone hsec hduration h.recurrence
  obtain ⟨s', hs', hsame⟩ := hread.2 ⟨h.startTime, h.endTime⟩
  exact ⟨aux, s', hmarshal, hs', hsame, hsame.reportedAlike⟩

theorem storable_of_survives (hparse : ∀ d, env.parse (env.string d) = some d)
    (hload : loadLocation s.timezone = some loc) (hzone : s.InZone loc) (hsec : s.WholeSeconds)
    (hduration : ∀ r ∈ s.recurrence, r.duration.WellFormed env)
    (h : s.Survives env loadLocation) : s.Storable loc := by
  obtain ⟨aux, s', hmarshal, hs', hsame, -⟩ := h
  have hyears : ∀ r ∈ s.recurrence, FourDigits r.startTime ∧ ∀ e ∈ r.endTime, FourDigits e := by
    intro r hr
    by_contra hyears
    have hrec : s.recurrence = some r := hr
    simp only [Schedule.marshalJSON, hload, Option.bind_eq_bind, Option.bind_some, hrec, optionally,
      marshalJSON_eq_none (inZone_of_schedule hzone hsec hr) hyears, Option.map_none,
      Option.bind_none] at hmarshal
    cases hmarshal
  obtain ⟨aux', hmarshal', hread⟩ := exists_marshalJSON hparse hload hzone hsec hduration hyears
  obtain rfl : aux' = aux := Option.some.inj (hmarshal'.symm.trans hmarshal)
  obtain ⟨hstart, hend⟩ := hread.1 ⟨s', hs', hsame⟩
  exact ⟨hstart, hend, hyears⟩

/-- A schedule survives its storage exactly when a time that is not set is in UTC and the years have
four digits. -/
theorem survives_iff (hparse : ∀ d, env.parse (env.string d) = some d)
    (hload : loadLocation s.timezone = some loc) (hzone : s.InZone loc) (hsec : s.WholeSeconds)
    (hduration : ∀ r ∈ s.recurrence, r.duration.WellFormed env) :
    s.Survives env loadLocation ↔ s.Storable loc :=
  ⟨storable_of_survives hparse hload hzone hsec hduration,
    survives_of_storable hparse hload hzone hsec hduration⟩

end Schedules

/-! ## Two schedules -/

/-- Durations in nanoseconds, and one that is written in hours. -/
def nanosecondText : DurationText where
  string d :=
    String.ofList ((if d < 0 then ['-'] else []) ++ Nat.toDigits 10 d.natAbs ++ ['n', 's'])
  parse s :=
    if s = "2h" then some 7200000000000
    else
      match s.toList.take (s.toList.length - 2) with
      | '-' :: ds => some (-Nat.ofDigitChars 10 ds 0)
      | ds => some (Nat.ofDigitChars 10 ds 0)

theorem nanosecondText_parse (d : ℤ) :
    nanosecondText.parse (nanosecondText.string d) = some d := by
  have hlist : (nanosecondText.string d).toList =
      ((if d < 0 then ['-'] else []) ++ Nat.toDigits 10 d.natAbs) ++ ['n', 's'] :=
    String.toList_ofList
  have hne : nanosecondText.string d ≠ "2h" := by
    intro h
    have hlast := congrArg List.getLast? (hlist.symm.trans (congrArg String.toList h))
    rw [List.getLast?_append] at hlast
    exact absurd (Option.some.inj hlast) (by decide)
  have htake : (nanosecondText.string d).toList.take
      ((nanosecondText.string d).toList.length - 2) =
      (if d < 0 then ['-'] else []) ++ Nat.toDigits 10 d.natAbs := by
    rw [hlist, List.length_append]
    exact List.take_left
  change (if nanosecondText.string d = "2h" then some 7200000000000 else _) = some d
  rw [if_neg hne, htake]
  by_cases hneg : d < 0
  · rw [if_pos hneg]
    change some (-(Nat.ofDigitChars 10 (Nat.toDigits 10 d.natAbs) 0 : ℤ)) = some d
    rw [Nat.ofDigitChars_ten_toDigits]
    exact congrArg some (by omega)
  · rw [if_neg hneg, List.nil_append]
    split
    · next ds hds =>
        have hmem : '-' ∈ Nat.toDigits 10 d.natAbs := hds ▸ List.mem_cons_self
        exact absurd (Nat.isDigit_of_mem_toDigits (by decide) (by decide) hmem) (by decide)
    · rw [Nat.ofDigitChars_ten_toDigits]
      exact congrArg some (by omega)

/-- The zone of India, by its name and with its offset. -/
def india : Location := ⟨19800, by decide⟩

def onlyIndia (name : String) : Option Location :=
  if name = "Asia/Kolkata" then some india else none

/-- A schedule in India that recurs for two hours each day. -/
def dailyInIndia (startTime endTime : Time) : Schedule :=
  ⟨"Asia/Kolkata", startTime, endTime,
    some ⟨date 2025 1 1 10 0 0 0 india, none, ⟨"2h", 7200000000000⟩, .daily, []⟩⟩

theorem dailyInIndia_wellFormed (startTime endTime : Time) :
    ∀ r ∈ (dailyInIndia startTime endTime).recurrence, r.duration.WellFormed nanosecondText := by
  rintro _ ⟨⟩
  exact .inr rfl

theorem dailyInIndia_inZone {startTime endTime : Time}
    (hstart : startTime.nanos ≠ 0 → startTime.loc = india)
    (hend : endTime.nanos ≠ 0 → endTime.loc = india) :
    (dailyInIndia startTime endTime).InZone india := by
  refine ⟨hstart, hend, ?_⟩
  rintro _ ⟨⟩
  refine ⟨rfl, fun e he => ?_⟩
  cases he

theorem dailyInIndia_wholeSeconds {startTime endTime : Time} (hstart : startTime.nanosecond = 0)
    (hend : endTime.nanosecond = 0) : (dailyInIndia startTime endTime).WholeSeconds := by
  refine ⟨hstart, hend, ?_⟩
  rintro _ ⟨⟩
  refine ⟨by decide, fun e he => ?_⟩
  cases he

theorem survives_iff_set :
    (dailyInIndia (date 2025 1 1 10 0 0 0 india) (date 2025 1 1 12 0 0 0 india)).Survives
      nanosecondText onlyIndia := by
  refine (survives_iff nanosecondText_parse rfl (dailyInIndia_inZone (fun _ => rfl) fun _ => rfl)
    (dailyInIndia_wholeSeconds (by decide) (by decide)) (dailyInIndia_wellFormed _ _)).2
    ⟨by decide, by decide, ?_⟩
  rintro _ ⟨⟩
  refine ⟨by decide, fun e he => ?_⟩
  cases he

/-- Times that are not set come back as midnight in India. -/
theorem dailyInIndia_unset :
    ¬ (dailyInIndia ⟨0, .utc⟩ ⟨0, .utc⟩).Survives nanosecondText onlyIndia := by
  intro h
  have hstorable := storable_of_survives nanosecondText_parse rfl
    (dailyInIndia_inZone (fun h => absurd rfl h) fun h => absurd rfl h)
    (dailyInIndia_wholeSeconds (by decide) (by decide)) (dailyInIndia_wellFormed _ _) h
  exact absurd hstorable.startTime (by decide)

end Signoz.Rules
