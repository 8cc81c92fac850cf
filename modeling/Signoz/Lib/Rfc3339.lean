import Signoz.Lib.GoTime

/-!
# Times as text

`Format` and `Parse` of package `time` for the layouts RFC 3339 and its variant with a fraction of
the second. `Parse` is modelled on the strict form; the forms that it takes beyond that are left
out, and `Format` writes none of them.

A time with whole seconds and a year of four digits is read back with the clock and calendar that
were written (`parseRFC3339_format`). A time with another year is not read back.
-/

namespace Lib.GoTime

open CivilDate

/-! ## Writing -/

/-- `appendInt`. -/
def appendInt (x : ℤ) (width : Nat) : List Char :=
  (if x < 0 then ['-'] else []) ++
    (List.replicate (width - (Nat.toDigits 10 x.natAbs).length) '0' ++ Nat.toDigits 10 x.natAbs)

/-- `appendNano`: the fraction of a second without trailing zeros. -/
def appendNano (nsec : ℤ) : List Char :=
  if nsec = 0 then []
  else '.' :: ((appendInt nsec 9).reverse.dropWhile fun c => c = '0').reverse

/-- The offset of a location, in hours and minutes. -/
def formatZone (loc : Location) : List Char :=
  if loc.offset = 0 then ['Z']
  else
    let zone := loc.offset.tdiv 60
    (if zone < 0 then '-' else '+') ::
      (appendInt (zone.natAbs / 60) 2 ++ ':' :: appendInt (zone.natAbs % 60) 2)

/-- `Format` with `RFC3339`, or with `RFC3339Nano`. -/
def Time.formatRFC3339 (nanos : Bool) (t : Time) : List Char :=
  appendInt t.year 4 ++ '-' :: (appendInt t.month 2 ++ '-' :: (appendInt t.day 2 ++ 'T' ::
    (appendInt t.hour 2 ++ ':' :: (appendInt t.minute 2 ++ ':' :: (appendInt t.second 2 ++
      ((if nanos then appendNano t.nanosecond else []) ++ formatZone t.loc))))))

/-! ## Reading -/

/-- A number of so many digits between two bounds. -/
def parseUint (width : Nat) (low high : ℤ) (s : List Char) : Option (ℤ × List Char) :=
  let ds := s.take width
  let x : ℤ := Nat.ofDigitChars 10 ds 0
  if ds.length = width ∧ ds.all Char.isDigit ∧ low ≤ x ∧ x ≤ high then some (x, s.drop width)
  else none

def literal (c : Char) : List Char → Option (List Char)
  | [] => none
  | d :: s => if d = c then some s else none

/-- A fraction of a second, if there is one. -/
def parseNano : List Char → ℤ × List Char
  | '.' :: c :: s =>
    if c.isDigit then
      let ds := (c :: s.takeWhile Char.isDigit).take 9
      (Nat.ofDigitChars 10 ds 0 * 10 ^ (9 - ds.length), s.dropWhile Char.isDigit)
    else (0, '.' :: c :: s)
  | s => (0, s)

/-- `FixedZone`, of less than a day. -/
def fixedZone (offset : ℤ) : Option Location :=
  if h : -86400 < offset ∧ offset < 86400 then some ⟨offset, h⟩ else none

def parseZone : List Char → Option Location
  | [] => none
  | ['Z'] => some .utc
  | sign :: s => do
    let (hr, s) ← parseUint 2 0 23 s
    let s ← literal ':' s
    let (mm, s) ← parseUint 2 0 59 s
    if s ≠ [] then none
    else if sign = '-' then fixedZone (-((hr * 60 + mm) * 60))
    else if sign = '+' then fixedZone ((hr * 60 + mm) * 60)
    else none

/-- `Parse` with `RFC3339`. -/
def parseRFC3339 (s : List Char) : Option Time := do
  let (year, s) ← parseUint 4 0 9999 s
  let s ← literal '-' s
  let (month, s) ← parseUint 2 1 12 s
  let s ← literal '-' s
  let (day, s) ← parseUint 2 1 (monthLength (12 * year + (month - 1))) s
  let s ← literal 'T' s
  let (hour, s) ← parseUint 2 0 23 s
  let s ← literal ':' s
  let (min, s) ← parseUint 2 0 59 s
  let s ← literal ':' s
  let (sec, s) ← parseUint 2 0 59 s
  let (nsec, s) := parseNano s
  let loc ← parseZone s
  return date year month day hour min sec nsec loc

/-! ## Numbers -/

theorem appendInt_spec {x : ℤ} {width : Nat} (hwidth : 0 < width) (hlow : 0 ≤ x)
    (hhigh : x < 10 ^ width) :
    (appendInt x width).length = width ∧ (appendInt x width).all Char.isDigit ∧
      (Nat.ofDigitChars 10 (appendInt x width) 0 : ℤ) = x := by
  obtain ⟨n, rfl⟩ := Int.eq_ofNat_of_zero_le hlow
  have hn : n < 10 ^ width := by exact_mod_cast hhigh
  have hlength := (Nat.length_toDigits_le_iff (by decide) hwidth).2 hn
  have happend : appendInt n width =
      List.replicate (width - (Nat.toDigits 10 n).length) '0' ++ Nat.toDigits 10 n := by
    rw [appendInt, if_neg (by omega)]
    rfl
  rw [happend]
  refine ⟨?_, ?_, ?_⟩
  · rw [List.length_append, List.length_replicate]
    omega
  · rw [List.all_eq_true]
    intro c hc
    rcases List.mem_append.1 hc with hc | hc
    · rw [List.eq_of_mem_replicate hc]
      rfl
    · exact Nat.isDigit_of_mem_toDigits (by decide) (by decide) hc
  · rw [Nat.ofDigitChars_append, Nat.ofDigitChars_replicate_zero, Nat.mul_zero,
      Nat.ofDigitChars_ten_toDigits]

/-- A number that is written is read back. -/
theorem parseUint_appendInt {x low high : ℤ} {width : Nat} (hwidth : 0 < width)
    (hx : 0 ≤ x ∧ x < 10 ^ width) (hbounds : low ≤ x ∧ x ≤ high) (s : List Char) :
    parseUint width low high (appendInt x width ++ s) = some (x, s) := by
  obtain ⟨hlength, hdigits, hvalue⟩ := appendInt_spec hwidth hx.1 hx.2
  have htake : (appendInt x width ++ s).take width = appendInt x width := List.take_left' hlength
  have hdrop : (appendInt x width ++ s).drop width = s := List.drop_left' hlength
  simp only [parseUint]
  rw [htake, hdrop, hvalue, if_pos ⟨hlength, hdigits, hbounds⟩]

theorem literal_cons (c : Char) (s : List Char) : literal c (c :: s) = some s := if_pos rfl

/-! ## Zones -/

theorem fixedZone_of_lt {offset : ℤ} (h : -86400 < offset ∧ offset < 86400) :
    fixedZone offset = some ⟨offset, h⟩ := dif_pos h

/-- An offset that is written is read back, to the minute. -/
theorem exists_parseZone (loc : Location) : ∃ loc', parseZone (formatZone loc) = some loc' := by
  by_cases hzero : loc.offset = 0
  · rw [formatZone, if_pos hzero]
    exact ⟨_, rfl⟩
  rw [formatZone, if_neg hzero]
  generalize hzone : loc.offset.tdiv 60 = zone
  obtain ⟨z, hz⟩ : ∃ z : ℤ, (zone.natAbs : ℤ) = z := ⟨_, rfl⟩
  have hlt : 0 ≤ z ∧ z < 1440 := by
    have habs : zone.natAbs = loc.offset.natAbs / 60 := by
      rw [← hzone, Int.natAbs_tdiv]
      rfl
    have hbound := loc.lt_day
    omega
  dsimp only
  rw [hz]
  have hhours : ∀ s, parseUint 2 0 23 (appendInt (z / 60) 2 ++ s) = some (z / 60, s) :=
    fun s => parseUint_appendInt (by decide) (by omega) (by omega) s
  have hminutes : parseUint 2 0 59 (appendInt (z % 60) 2 ++ []) = some (z % 60, []) :=
    parseUint_appendInt (by decide) (by omega) (by omega) []
  rw [List.append_nil] at hminutes
  have hread : ∀ sign : Char, sign ≠ 'Z' →
      parseZone (sign :: (appendInt (z / 60) 2 ++ ':' :: appendInt (z % 60) 2)) =
      if sign = '-' then fixedZone (-((z / 60 * 60 + z % 60) * 60))
      else if sign = '+' then fixedZone ((z / 60 * 60 + z % 60) * 60)
      else none := by
    intro sign hsign
    rw [parseZone]
    · simp only [hhours, literal_cons, hminutes, Option.bind_eq_bind, Option.bind_some]
      exact if_neg fun h => h rfl
    · rintro rfl
      exact absurd rfl hsign
  by_cases hneg : zone < 0
  · rw [if_pos hneg, hread '-' (by decide), if_pos rfl, fixedZone_of_lt (by omega)]
    exact ⟨_, rfl⟩
  · rw [if_neg hneg, hread '+' (by decide), if_neg (by decide), if_pos rfl,
      fixedZone_of_lt (by omega)]
    exact ⟨_, rfl⟩

/-! ## Times -/

theorem parseNano_formatZone (loc : Location) :
    parseNano (formatZone loc) = (0, formatZone loc) := by
  rw [formatZone]
  split
  · rfl
  · dsimp only
    split
    · rfl
    · rfl

/-- A time of whole seconds in a year of four digits is read back as it was written. -/
theorem parseRFC3339_format {t : Time} (nanos : Bool) (hyear : 0 ≤ t.year ∧ t.year ≤ 9999)
    (hsec : t.nanosecond = 0) :
    ∃ p, parseRFC3339 (t.formatRFC3339 nanos) = some p ∧ p.wall = t.wall := by
  obtain ⟨loc, hloc⟩ := exists_parseZone t.loc
  have hmonth := t.month_bounds
  have hday := t.day_bounds
  have hlength := monthLength_bounds t.monthNumber
  have hhour := t.hour_bounds
  have hmin := t.minute_bounds
  have hsecond := t.second_bounds
  have hnano : (if nanos then appendNano t.nanosecond else []) = [] := by
    rw [hsec]
    cases nanos <;> rfl
  have hyears : ∀ s, parseUint 4 0 9999 (appendInt t.year 4 ++ s) = some (t.year, s) :=
    parseUint_appendInt (by decide) (by omega) hyear
  have hmonths : ∀ s, parseUint 2 1 12 (appendInt t.month 2 ++ s) = some (t.month, s) :=
    parseUint_appendInt (by decide) (by omega) hmonth
  have hdays : ∀ s, parseUint 2 1 (monthLength (12 * t.year + (t.month - 1)))
      (appendInt t.day 2 ++ s) = some (t.day, s) := by
    rw [t.monthNumber_eq]
    exact parseUint_appendInt (by decide) (by omega) hday
  have hhours : ∀ s, parseUint 2 0 23 (appendInt t.hour 2 ++ s) = some (t.hour, s) :=
    parseUint_appendInt (by decide) (by omega) (by omega)
  have hmins : ∀ s, parseUint 2 0 59 (appendInt t.minute 2 ++ s) = some (t.minute, s) :=
    parseUint_appendInt (by decide) (by omega) (by omega)
  have hsecs : ∀ s, parseUint 2 0 59 (appendInt t.second 2 ++ s) = some (t.second, s) :=
    parseUint_appendInt (by decide) (by omega) (by omega)
  refine ⟨date t.year t.month t.day t.hour t.minute t.second 0 loc, ?_, ?_⟩
  · rw [parseRFC3339, Time.formatRFC3339, hnano]
    simp only [hyears, hmonths, hdays, hhours, hmins, hsecs, literal_cons, List.nil_append,
      parseNano_formatZone, hloc, Option.bind_eq_bind, Option.bind_some]
    rfl
  · rw [← hsec, Time.date_fields]

/-- Another year has a sign or more than four digits. -/
theorem literal_of_parseUint_year {x : ℤ} (hx : ¬ (0 ≤ x ∧ x ≤ 9999)) {s rest : List Char} {y : ℤ}
    (h : parseUint 4 0 9999 (appendInt x 4 ++ s) = some (y, rest)) : literal '-' rest = none := by
  simp only [parseUint] at h
  split at h
  next hread =>
    cases h
    by_cases hneg : x < 0
    · -- The sign is no digit.
      rw [appendInt, if_pos hneg] at hread
      exact absurd hread.2.1 (by simp)
    · have happend : appendInt x 4 = Nat.toDigits 10 x.natAbs := by
        have hlong : ¬ (Nat.toDigits 10 x.natAbs).length ≤ 4 := by
          rw [Nat.length_toDigits_le_iff (by decide) (by decide)]
          omega
        have hpad : 4 - (Nat.toDigits 10 x.natAbs).length = 0 := by omega
        rw [appendInt, if_neg hneg, hpad]
        rfl
      have hlong : 4 < (appendInt x 4).length := by
        rw [happend, ← not_le, Nat.length_toDigits_le_iff (by decide) (by decide)]
        omega
      rw [List.drop_append_of_le_length hlong.le]
      obtain ⟨c, cs, hcs⟩ := List.exists_cons_of_ne_nil
        (fun hnil => absurd (List.drop_eq_nil_iff.1 hnil) (not_le.2 hlong))
      rw [hcs, List.cons_append, literal]
      refine if_neg ?_
      rintro rfl
      have hmem : '-' ∈ appendInt x 4 :=
        List.mem_of_mem_drop (hcs ▸ List.mem_cons_self)
      rw [happend] at hmem
      exact absurd (Nat.isDigit_of_mem_toDigits (by decide) (by decide) hmem) (by decide)
  next => cases h

/-- A time in another year is not read back. -/
theorem parseRFC3339_format_eq_none {t : Time} (nanos : Bool)
    (hyear : ¬ (0 ≤ t.year ∧ t.year ≤ 9999)) : parseRFC3339 (t.formatRFC3339 nanos) = none := by
  rw [parseRFC3339, Time.formatRFC3339, Option.bind_eq_bind]
  cases h : parseUint 4 0 9999 (appendInt t.year 4 ++ _) with
  | none => rw [Option.bind_none]
  | some x =>
    obtain ⟨y, rest⟩ := x
    simp only [Option.bind_some, literal_of_parseUint_year hyear h, Option.bind_eq_bind,
      Option.bind_none]

end Lib.GoTime
