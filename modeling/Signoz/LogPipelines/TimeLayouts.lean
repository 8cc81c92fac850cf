import Mathlib.Data.List.GetD
import Signoz.Lib.CharLists
import Signoz.Lib.RegexSearch
import Signoz.Lib.SplitOn
import Signoz.LogPipelines.GetOperators
import Signoz.LogPipelines.TimeParser

/-!
# Which times a layout admits

The regular expression of a layout has a pattern for each of its parts. A time that is written in
the layout has a text for each of its directives. When each text is a word of its pattern, the time
matches; the patterns of some directives have no text among their words, or not every one.
-/

namespace Signoz.LogPipelines

open scoped Lib.CharLists

open Lib

/-! ## Patterns -/

/-- The sets of characters that the patterns use. -/
inductive CharClass where
  | digit
  | letter
  | sign

/-- A part of a regular expression. `any` is a lazy repetition, and `braces` are braces that are no
number of repetitions, which stand for themselves. -/
inductive Piece where
  | char (c : Char)
  | one (chars : CharClass)
  | times (chars : CharClass) (n : Nat)
  | any (chars : CharClass)
  | either (first second : List Char)
  | braces (inner : List Char)

/-- A set as the patterns write it. -/
def CharClass.text : CharClass → List Char
  | .digit => "[0-9]".toList
  | .letter => "[a-zA-Z]".toList
  | .sign => "[-+]".toList

def CharClass.has : CharClass → Char → Bool
  | .digit, c => c.isDigit
  | .letter, c => c.isAlpha
  | .sign, c => c = '-' || c = '+'

/-- The text of a part, outside of a string. -/
def Piece.text : Piece → List Char
  | .char c => if c ∈ regexSpecialChars then ['\\', c] else [c]
  | .one chars => chars.text
  | .times chars n => chars.text ++ '\x7b' :: Nat.toDigits 10 n ++ ['\x7d']
  | .any chars => chars.text ++ ['*', '?']
  | .either first second => '(' :: first ++ '|' :: second ++ [')']
  | .braces inner => '\x7b' :: inner ++ ['\x7d']

/-- What a part stands for. -/
def Piece.regex : Piece → Regex Char
  | .char c => .set fun c' => c' = c
  | .one chars => .set chars.has
  | .times chars n => .times (.set chars.has) n
  | .any chars => .star (.set chars.has)
  | .either first second => .alt (.word first) (.word second)
  | .braces inner => .word ('\x7b' :: inner ++ ['\x7d'])

/-- A pattern as it is written. -/
def patternText (pieces : List Piece) : List Char := pieces.flatMap Piece.text

/-- What a pattern matches. -/
def patternRegex (pieces : List Piece) : Regex Char := .concat (pieces.map Piece.regex)

/-- A text inside of a string of the expression language. -/
def quotedText (text : List Char) : List Char :=
  text.flatMap fun c => if c = '\\' then ['\\', '\\'] else [c]

/-- Two digits, twice or three times, with the same character between them. -/
def twoDigits : Piece := .times .digit 2

/-- `HH:MM:SS`. -/
def clockPieces : List Piece := [twoDigits, .char ':', twoDigits, .char ':', twoDigits]

/-- What the patterns of `ctimeRegex` are the text of. -/
def directivePieces : Char → List Piece
  | 'Y' => [.times .digit 4]
  | 'y' | 'm' | 'd' | 'H' | 'I' | 'M' | 'S' => [twoDigits]
  | 'o' | 'e' => [.char '_', .one .digit]
  | 'q' | 'g' => [.one .digit]
  | 'b' | 'h' | 'B' | 'a' | 'A' | 'Z' => [.any .letter]
  | 'l' => [.one .digit, .braces ['1', '-', '2']]
  | 'p' => [.either ['A', 'M'] ['P', 'M']]
  | 'P' => [.either ['a', 'm'] ['p', 'm']]
  | 'L' | 'f' | 's' => [.any .digit]
  | 'z' | 'w' | 'i' => [.one .sign, .any .digit]
  | 'j' => [.one .sign, twoDigits, .char ':', twoDigits]
  | 'k' => .one .sign :: clockPieces
  | 'D' | 'x' => [twoDigits, .char '/', twoDigits, .char '/', .times .digit 4]
  | 'F' => [.times .digit 4, .char '-', twoDigits, .char '-', twoDigits]
  | 'T' | 'X' => clockPieces
  | 'r' => clockPieces ++ [.char ' ', .either ['a', 'm'] ['p', 'm']]
  | 'R' => [twoDigits, .char ':', twoDigits]
  | 'n' => [.char '\n']
  | 't' => [.char '\t']
  | '%' => [.char '%']
  | 'c' =>
    [.times .letter 3, .char ' ', .times .letter 3, .char ' ', twoDigits, .char ' '] ++
      clockPieces ++ [.char ' ', .times .digit 4]
  | _ => []

def LayoutItem.pieces : LayoutItem → List Piece
  | .literal c => [.char c]
  | .directive d => directivePieces d

/-- The pattern of a layout. -/
def layoutPieces (layout : String) : List Piece :=
  (layoutItems layout.toList).flatMap LayoutItem.pieces

/-- The table of the source is the text of these patterns. -/
theorem ctimeRegex_pieces :
    ∀ e ∈ ctimeRegex, e.2.toList = quotedText (patternText (directivePieces e.1)) := by
  have hcut : ∀ {a b : String} {pattern : List Char} (n : Nat),
      a = String.ofList (pattern.take n) → b = String.ofList (pattern.drop n) →
      a ++ b = String.ofList pattern := by
    rintro a b pattern n rfl rfl
    rw [← String.ofList_append, List.take_append_drop]
  have hall : ∀ e ∈ ctimeRegex,
      e.2 = String.ofList (quotedText (patternText (directivePieces e.1))) := by
    simp only [ctimeRegex, List.forall_mem_cons]
    iterate 39 refine ⟨rfl, ?_⟩
    -- the pattern of `%c` is put together from two texts
    exact ⟨hcut 33 rfl rfl, fun e he => absurd he List.not_mem_nil⟩
  intro e he
  rw [hall e he, String.toList_ofList]

/-! ## Times -/

/-- An offset from UTC. -/
structure Offset where
  negative : Bool
  hours : Fin 24
  minutes : Fin 60
  seconds : Fin 60
  micros : Fin 1000000

/-- An instant, as a calendar and a clock show it. -/
structure Instant where
  year : Nat
  month : Nat
  day : Nat
  weekday : Fin 7
  hour : Fin 24
  minute : Fin 60
  second : Fin 60
  nanosecond : Fin 1000000000
  zone : List Char
  offset : Option Offset
  year_bounds : 1 ≤ year ∧ year ≤ 9999
  month_bounds : 1 ≤ month ∧ month ≤ 12
  day_bounds : 1 ≤ day ∧ day ≤ 31

/-- A number with so many characters at least. -/
def padded (pad : Char) (width n : Nat) : List Char := (Nat.toDigits 10 n).leftpad width pad

def monthNames : List String :=
  ["January", "February", "March", "April", "May", "June", "July", "August", "September",
    "October", "November", "December"]

def weekdayNames : List String :=
  ["Sunday", "Monday", "Tuesday", "Wednesday", "Thursday", "Friday", "Saturday"]

def Offset.sign (o : Offset) : Char := if o.negative then '-' else '+'

/-- `HHMM[SS[.ffffff]]`. -/
def Offset.digits (o : Offset) : List Char :=
  padded '0' 2 o.hours ++ padded '0' 2 o.minutes ++
    (if o.seconds = 0 ∧ o.micros = 0 then []
      else padded '0' 2 o.seconds ++
        (if o.micros = 0 then [] else '.' :: padded '0' 6 o.micros))

/-- `±HHMM[SS[.ffffff]]`. -/
def Offset.text (o : Offset) : List Char := o.sign :: o.digits

namespace Instant

variable (t : Instant)

def monthName : List Char := (monthNames.getD (t.month - 1) "").toList

def weekdayName : List Char := (weekdayNames.getD t.weekday "").toList

/-- The hour of the 12-hour clock. -/
def hour12 : Nat := (t.hour + 11) % 12 + 1

def clockParts (hour : Nat) : List (List Char) :=
  [padded '0' 2 hour, [':'], padded '0' 2 t.minute, [':'], padded '0' 2 t.second]

/-- Before noon or after it. -/
def half (am pm : List Char) : List Char := if (t.hour : Nat) < 12 then am else pm

/-- What a directive stands for, in the form that its comment describes, part by part. -/
def parts : Char → List (List Char)
  | 'Y' => [padded '0' 4 t.year]
  | 'y' => [padded '0' 2 (t.year % 100)]
  | 'm' => [padded '0' 2 t.month]
  | 'o' => [padded ' ' 2 t.month]
  | 'q' => [Nat.toDigits 10 t.month]
  | 'b' | 'h' => [t.monthName.take 3]
  | 'B' => [t.monthName]
  | 'd' => [padded '0' 2 t.day]
  | 'e' => [padded ' ' 2 t.day]
  | 'g' => [Nat.toDigits 10 t.day]
  | 'a' => [t.weekdayName.take 3]
  | 'A' => [t.weekdayName]
  | 'H' => [padded '0' 2 t.hour]
  | 'l' => [Nat.toDigits 10 t.hour12]
  | 'I' => [padded '0' 2 t.hour12]
  | 'p' => [t.half ['A', 'M'] ['P', 'M']]
  | 'P' => [t.half ['a', 'm'] ['p', 'm']]
  | 'M' => [padded '0' 2 t.minute]
  | 'S' => [padded '0' 2 t.second]
  | 'L' => [padded '0' 3 (t.nanosecond / 1000000)]
  | 'f' => [padded '0' 6 (t.nanosecond / 1000)]
  | 's' => [padded '0' 9 t.nanosecond]
  | 'Z' => [t.zone]
  | 'z' => (t.offset.map fun o => [o.text]).getD []
  | 'w' => [Nat.toDigits 10 t.weekday]
  | 'i' => (t.offset.map fun o => [[o.sign], padded '0' 2 o.hours]).getD []
  | 'j' =>
    (t.offset.map fun o =>
      [[o.sign], padded '0' 2 o.hours, [':'], padded '0' 2 o.minutes]).getD []
  | 'k' =>
    (t.offset.map fun o =>
      [[o.sign], padded '0' 2 o.hours, [':'], padded '0' 2 o.minutes, [':'],
        padded '0' 2 o.seconds]).getD []
  | 'D' | 'x' =>
    [padded '0' 2 t.month, ['/'], padded '0' 2 t.day, ['/'], padded '0' 2 (t.year % 100)]
  | 'F' => [padded '0' 4 t.year, ['-'], padded '0' 2 t.month, ['-'], padded '0' 2 t.day]
  | 'T' | 'X' => t.clockParts t.hour
  | 'r' => t.clockParts t.hour12 ++ [[' '], t.half ['a', 'm'] ['p', 'm']]
  | 'R' => [padded '0' 2 t.hour, [':'], padded '0' 2 t.minute]
  | 'n' => [['\n']]
  | 't' => [['\t']]
  | '%' => [['%']]
  | 'c' =>
    [t.weekdayName.take 3, [' '], t.monthName.take 3, [' '], padded '0' 2 t.day, [' ']] ++
      t.clockParts t.hour ++ [[' '], padded '0' 4 t.year]
  | _ => []

/-- A part of the layout with the directives replaced. -/
def itemText : LayoutItem → List Char
  | .literal c => [c]
  | .directive d => (t.parts d).flatten

/-- The instant in a layout. -/
def format (layout : String) : String :=
  String.ofList ((layoutItems layout.toList).flatMap t.itemText)

end Instant

/-! ## What is admitted -/

/-- The text of the directive at the instant is a word of its pattern. -/
def Fits (t : Instant) : Char → Prop
  | 'o' | 'e' | 'l' | 'w' | 'D' | 'x' => False
  | 'q' => t.month < 10
  | 'g' => t.day < 10
  | 'Z' => ∀ c ∈ t.zone, c.isAlpha = true
  | 'z' => ∃ o, t.offset = some o ∧ o.micros = 0
  | 'i' | 'j' | 'k' => t.offset.isSome
  | _ => True

/-- The part does not end a string, and is not escaped otherwise there. -/
def LayoutItem.Quotable : LayoutItem → Prop
  | .literal c => c ∉ ['"', '\\']
  | .directive _ => True

/-- The part breaks the line. -/
def LayoutItem.Breaks : LayoutItem → Prop
  | .literal c => c = '\n'
  | .directive d => d = 'n'

/-- The part can stand in a string. -/
def LayoutItem.Plain (item : LayoutItem) : Prop := item.Quotable ∧ ¬item.Breaks

/-- The directive fits, if it is one. -/
def LayoutItem.Fits (t : Instant) : LayoutItem → Prop
  | .literal _ => True
  | .directive d => LogPipelines.Fits t d

/-! ## The regular expression of a plain layout -/

theorem quotedText_append (s t : List Char) : quotedText (s ++ t) = quotedText s ++ quotedText t :=
  List.flatMap_append

theorem patternText_append (ps qs : List Piece) :
    patternText (ps ++ qs) = patternText ps ++ patternText qs :=
  List.flatMap_append

theorem mem_ctimeRegex_of_lookup {d : Char} {regex : String}
    (h : ctimeRegex.lookup d = some regex) : (d, regex) ∈ ctimeRegex := by
  obtain ⟨before, after, hsplit, -⟩ := List.lookup_eq_some_iff.mp h
  rw [hsplit]
  exact List.mem_append_right _ List.mem_cons_self

/-- A plain part of a layout becomes the text of its pattern, inside of a string. -/
theorem LayoutItem.regexText_plain {item : LayoutItem} (hplain : item.Plain)
    (hsupported : item.Supported) : item.regexText = quotedText (patternText item.pieces) := by
  cases item with
  | literal c =>
    have hslash : c ≠ '\\' := by
      rintro rfl
      exact hplain.1 (by decide)
    rw [LayoutItem.regexText, escaped, if_neg hslash, LayoutItem.pieces, patternText,
      List.flatMap_singleton, Piece.text]
    split_ifs
    · simp [quotedText, hslash]
    · simp [quotedText, hslash]
  | directive d =>
    rw [LayoutItem.Supported] at hsupported
    obtain ⟨regex, hregex⟩ := Option.isSome_iff_exists.mp hsupported
    have htext := ctimeRegex_pieces (d, regex) (mem_ctimeRegex_of_lookup hregex)
    rw [LayoutItem.regexText, hregex, Option.getD_some, LayoutItem.pieces]
    exact htext

/-- So does a plain layout. -/
theorem flatMap_regexText_plain {items : List LayoutItem} (hplain : ∀ item ∈ items, item.Plain)
    (hsupported : ∀ item ∈ items, item.Supported) :
    items.flatMap LayoutItem.regexText =
      quotedText (patternText (items.flatMap LayoutItem.pieces)) := by
  induction items with
  | nil => rfl
  | cons item items ih =>
    obtain ⟨hitem, hitems⟩ := List.forall_mem_cons.mp hplain
    obtain ⟨hone, hall⟩ := List.forall_mem_cons.mp hsupported
    rw [List.flatMap_cons, List.flatMap_cons, patternText_append, quotedText_append,
      ih hitems hall, LayoutItem.regexText_plain hitem hone]

/-- The regular expression of a plain layout is the text of its pattern, inside of a string. -/
theorem regex_of_plain {layout regex : String} (h : regexForStrptimeLayout layout = .ok regex)
    (hplain : ∀ item ∈ layoutItems layout.toList, item.Plain) :
    regex = String.ofList (quotedText (patternText (layoutPieces layout))) := by
  obtain ⟨hsupported, hregex⟩ := regexForStrptimeLayout_ok.mp h
  rw [hregex, layoutPieces, flatMap_regexText_plain hplain hsupported]

/-! ## Digits -/

variable {width n : Nat}

theorem padded_length {pad : Char} (hwidth : 0 < width) (hn : n < 10 ^ width) :
    (padded pad width n).length = width := by
  rw [padded, List.length_leftpad]
  exact Nat.max_eq_left ((Nat.length_toDigits_le_iff (by decide) hwidth).mpr hn)

theorem isDigit_of_mem_toDigits {n : Nat} {c : Char} (h : c ∈ Nat.toDigits 10 n) :
    c.isDigit = true :=
  Nat.isDigit_of_mem_toDigits (by decide) (by decide) h

theorem mem_padded {pad : Char} {c : Char} (h : c ∈ padded pad width n) :
    c = pad ∨ c.isDigit = true := by
  rw [padded, List.leftpad, List.mem_append] at h
  exact h.imp (fun hpad => (List.mem_replicate.mp hpad).2) isDigit_of_mem_toDigits

theorem isDigit_of_mem_padded {c : Char} (h : c ∈ padded '0' width n) :
    c.isDigit = true := by
  rcases mem_padded h with rfl | hdigit
  · rfl
  · exact hdigit

/-- A number with leading zeros is so many digits. -/
theorem matches_padded (hwidth : 0 < width) (hn : n < 10 ^ width) :
    (Piece.times .digit width).regex.Matches (padded '0' width n) :=
  Regex.matches_times_set.mpr ⟨padded_length hwidth hn, fun _ hc => isDigit_of_mem_padded hc⟩

theorem matches_twoDigits {n : Nat} (hn : n < 100) :
    twoDigits.regex.Matches (padded '0' 2 n) :=
  matches_padded (by decide) hn

theorem matches_anyDigits :
    (Piece.any .digit).regex.Matches (padded '0' width n) :=
  Regex.matches_star_set.mpr fun _ hc => isDigit_of_mem_padded hc

theorem matches_char (c : Char) : (Piece.char c).regex.Matches [c] :=
  Regex.matches_set.mpr ⟨c, decide_eq_true rfl, rfl⟩

theorem matches_either (first second : List Char) {w : List Char} (h : w = first ∨ w = second) :
    (Piece.either first second).regex.Matches w := by
  rw [Piece.regex, Regex.matches_alt, Regex.matches_word, Regex.matches_word]
  exact h

theorem Offset.matches_sign (o : Offset) : (Piece.one .sign).regex.Matches [o.sign] := by
  apply Regex.matches_set.mpr
  refine ⟨o.sign, ?_, rfl⟩
  rw [Offset.sign]
  split_ifs
  · rfl
  · rfl

/-- One digit is a number below ten. -/
theorem matches_oneDigit_iff {n : Nat} :
    (Piece.one .digit).regex.Matches (Nat.toDigits 10 n) ↔ n < 10 := by
  have hlength : (Nat.toDigits 10 n).length ≤ 1 ↔ n < 10 :=
    Nat.length_toDigits_le_iff (by decide) (by decide)
  rw [Piece.regex, Regex.matches_set, ← hlength]
  constructor
  · rintro ⟨c, -, hc⟩
    rw [hc]
    exact Nat.le_refl 1
  · intro hle
    have hpos : 0 < (Nat.toDigits 10 n).length := List.length_pos_iff.mpr Nat.toDigits_ne_nil
    obtain ⟨c, hc⟩ := List.length_eq_one_iff.mp (Nat.le_antisymm hle hpos)
    refine ⟨c, ?_, hc⟩
    apply isDigit_of_mem_toDigits (n := n)
    rw [hc]
    exact List.mem_singleton_self c

/-! ## Names -/

section Names

variable (t : Instant)

/-- The names are of letters, and have three of them or more. -/
theorem letters_of_names : ∀ names ∈ [monthNames, weekdayNames], ∀ name ∈ names,
    (∀ c ∈ name.toList, c.isAlpha = true) ∧ (name.toList.take 3).length = 3 := by
  decide +kernel

theorem Instant.letters_monthName :
    (∀ c ∈ t.monthName, c.isAlpha = true) ∧ (t.monthName.take 3).length = 3 := by
  have hmonth : t.month - 1 < monthNames.length := by
    have hbounds := t.month_bounds
    have hlength : monthNames.length = 12 := rfl
    omega
  rw [Instant.monthName, List.getD_eq_getElem _ _ hmonth]
  exact letters_of_names _ List.mem_cons_self _ (List.getElem_mem hmonth)

theorem Instant.letters_weekdayName :
    (∀ c ∈ t.weekdayName, c.isAlpha = true) ∧ (t.weekdayName.take 3).length = 3 := by
  have hday : (t.weekday : Nat) < weekdayNames.length := t.weekday.isLt
  rw [Instant.weekdayName, List.getD_eq_getElem _ _ hday]
  exact letters_of_names _ (List.mem_cons_of_mem _ List.mem_cons_self) _ (List.getElem_mem hday)

/-- A name, or the beginning of one. -/
theorem matches_letters {w : List Char} (h : ∀ c ∈ w, c.isAlpha = true) :
    (Piece.any .letter).regex.Matches w :=
  Regex.matches_star_set.mpr h

theorem matches_month : (Piece.times .letter 3).regex.Matches (t.monthName.take 3) := by
  obtain ⟨hletters, hlength⟩ := t.letters_monthName
  exact Regex.matches_times_set.mpr ⟨hlength, fun c hc => hletters c (List.mem_of_mem_take hc)⟩

theorem matches_weekday : (Piece.times .letter 3).regex.Matches (t.weekdayName.take 3) := by
  obtain ⟨hletters, hlength⟩ := t.letters_weekdayName
  exact Regex.matches_times_set.mpr ⟨hlength, fun c hc => hletters c (List.mem_of_mem_take hc)⟩

theorem Instant.half_cases (am pm : List Char) : t.half am pm = am ∨ t.half am pm = pm := by
  rw [Instant.half]
  split_ifs
  · exact .inl rfl
  · exact .inr rfl

theorem Instant.month_lt : t.month < 100 := by
  have := t.month_bounds
  omega

theorem Instant.day_lt : t.day < 100 := by
  have := t.day_bounds
  omega

theorem Instant.year_lt : t.year < 10 ^ 4 := by
  have := t.year_bounds
  omega

theorem Instant.hour12_lt : t.hour12 < 100 := by
  rw [Instant.hour12]
  omega

/-- The clock fits its pattern. -/
theorem matches_clock {hour : Nat} (hhour : hour < 100) :
    List.Forall₂ Regex.Matches (clockPieces.map Piece.regex) (t.clockParts hour) :=
  .cons (matches_twoDigits hhour) <| .cons (matches_char ':') <|
    .cons (matches_twoDigits (by omega)) <| .cons (matches_char ':') <|
      .cons (matches_twoDigits (by omega)) .nil

end Names

/-! ## Directives that do not fit, or not always -/

section Misfits

variable {t : Instant}

/-- The pattern of a number with a leading space asks for an underscore. -/
theorem not_matches_underscore {width n : Nat} :
    ¬(patternRegex [.char '_', .one .digit]).Matches [padded ' ' width n].flatten := by
  rw [List.flatten_singleton]
  intro h
  obtain ⟨u, v, huv, hu, -⟩ := Regex.matches_concat_cons.mp h
  obtain ⟨c, hc, rfl⟩ := Regex.matches_set.mp hu
  have hmem : c ∈ padded ' ' width n := by
    rw [huv]
    exact List.mem_cons_self
  rw [of_decide_eq_true hc] at hmem
  rcases mem_padded hmem with heq | hdigit
  · exact absurd heq (by decide)
  · exact absurd hdigit (by decide)

/-- The pattern of the hour asks for braces. -/
theorem not_matches_braces {n : Nat} (hn : n < 100) :
    ¬(patternRegex [.one .digit, .braces ['1', '-', '2']]).Matches
        [Nat.toDigits 10 n].flatten := by
  rw [List.flatten_singleton]
  intro h
  have hlength := Regex.length_of_matches h 6 (by decide)
  have hle : (Nat.toDigits 10 n).length ≤ 2 :=
    (Nat.length_toDigits_le_iff (by decide) (by decide)).mpr hn
  omega

/-- The pattern of the weekday asks for a sign. -/
theorem not_matches_sign {n : Nat} :
    ¬(patternRegex [.one .sign, .any .digit]).Matches [Nat.toDigits 10 n].flatten := by
  rw [List.flatten_singleton]
  intro h
  obtain ⟨u, v, huv, hu, -⟩ := Regex.matches_concat_cons.mp h
  obtain ⟨c, hc, rfl⟩ := Regex.matches_set.mp hu
  have hmem : c ∈ Nat.toDigits 10 n := by
    rw [huv]
    exact List.mem_cons_self
  have hdigit := isDigit_of_mem_toDigits hmem
  rw [CharClass.has, Bool.or_eq_true, decide_eq_true_eq, decide_eq_true_eq] at hc
  rcases hc with rfl | rfl
  · exact absurd hdigit (by decide)
  · exact absurd hdigit (by decide)

/-- The pattern of the short date asks for a year of four digits. -/
theorem not_matches_shortDate :
    ¬(patternRegex (directivePieces 'D')).Matches (t.parts 'D').flatten := by
  intro h
  have hlength := Regex.length_of_matches h 10 (by decide)
  have hyear : t.year % 100 < 10 ^ 2 := Nat.mod_lt _ (by decide)
  have hparts : t.parts 'D' = [padded '0' 2 t.month, ['/'], padded '0' 2 t.day, ['/'],
      padded '0' 2 (t.year % 100)] := rfl
  simp [hparts, padded_length (by decide : 0 < 2) t.month_lt,
    padded_length (by decide : 0 < 2) t.day_lt, padded_length (by decide : 0 < 2) hyear] at hlength

/-- An offset fits when it is there and has no fraction of a second. -/
theorem matches_offset :
    (patternRegex [.one .sign, .any .digit]).Matches (t.parts 'z').flatten ↔
      ∃ o, t.offset = some o ∧ o.micros = 0 := by
  have hparts : t.parts 'z' = (t.offset.map fun o => [o.text]).getD [] := rfl
  rw [hparts]
  cases t.offset with
  | none =>
    apply iff_of_false
    · intro h
      exact absurd (Regex.matches_nil_iff.mp h) (by decide)
    · rintro ⟨o, ho, -⟩
      cases ho
  | some o =>
    have htext : ((Option.map (fun o => [o.text]) (some o)).getD []).flatten = o.text :=
      List.append_nil _
    rw [htext]
    constructor
    · intro h
      refine ⟨o, rfl, ?_⟩
      by_contra hmicros
      -- a dot is no part of the pattern
      have hdot : '.' ∈ o.text := by
        rw [Offset.text, Offset.digits, if_neg fun hzero => hmicros hzero.2, if_neg hmicros]
        simp
      exact absurd (Regex.uses_of_matches h '.' hdot) (by decide)
    · rintro ⟨o', ho, hmicros⟩
      obtain rfl := Option.some.inj ho
      refine Regex.matches_concat_cons.mpr ⟨[o.sign], o.digits, rfl, o.matches_sign, ?_⟩
      refine Regex.matches_concat_singleton.mpr (Regex.matches_star_set.mpr fun c hc => ?_)
      rw [Offset.digits, List.mem_append, List.mem_append] at hc
      rcases hc with (hc | hc) | hc
      · exact isDigit_of_mem_padded hc
      · exact isDigit_of_mem_padded hc
      · split_ifs at hc with hseconds
        · exact absurd hc List.not_mem_nil
        · rw [List.append_nil] at hc
          exact isDigit_of_mem_padded hc

/-- An offset in another form fits when it is there. -/
theorem matches_offset_parts {pieces : List Piece} {parts : Offset → List (List Char)}
    (hnil : (patternRegex pieces).nullable = false)
    (hparts : ∀ o, List.Forall₂ Regex.Matches (pieces.map Piece.regex) (parts o)) :
    (patternRegex pieces).Matches ((t.offset.map parts).getD []).flatten ↔ t.offset.isSome := by
  cases t.offset with
  | none =>
    apply iff_of_false
    · intro h
      rw [Regex.matches_nil_iff.mp h] at hnil
      cases hnil
    · exact fun h => nomatch h
  | some o => exact iff_of_true (Regex.matches_concat_flatten (hparts o)) rfl

end Misfits

/-! ## Directives and their patterns -/

section Directives

variable {t : Instant}

/-- Where the parts match, the text does. -/
theorem fits_of_parts {d : Char} (hfits : Fits t d)
    (hparts : List.Forall₂ Regex.Matches ((directivePieces d).map Piece.regex) (t.parts d)) :
    (patternRegex (directivePieces d)).Matches (t.parts d).flatten ↔ Fits t d :=
  iff_of_true (Regex.matches_concat_flatten hparts) hfits

/-- A directive with one text for one pattern. -/
theorem matches_flatten_singleton {piece : Piece} {text : List Char} :
    (patternRegex [piece]).Matches [text].flatten ↔ piece.regex.Matches text := by
  rw [List.flatten_singleton]
  exact Regex.matches_concat_singleton

theorem mem_directives {d : Char} (h : (ctimeRegex.lookup d).isSome) :
    d ∈ ctimeRegex.map Prod.fst := by
  obtain ⟨regex, hregex⟩ := Option.isSome_iff_exists.mp h
  exact List.mem_map_of_mem (f := Prod.fst) (mem_ctimeRegex_of_lookup hregex)

/-- The text of a supported directive is a word of its pattern exactly when it fits. -/
theorem matches_parts_iff {d : Char} (h : (ctimeRegex.lookup d).isSome) :
    (patternRegex (directivePieces d)).Matches (t.parts d).flatten ↔ Fits t d := by
  have hday := t.day_lt
  have hmonth := t.month_lt
  have hyear : t.year % 100 < 100 := Nat.mod_lt _ (by decide)
  have hhour : (t.hour : Nat) < 100 := by omega
  have hminute : (t.minute : Nat) < 100 := by omega
  have hsecond : (t.second : Nat) < 100 := by omega
  have hmem := mem_directives h
  simp only [ctimeRegex, List.map_cons, List.map_nil, List.mem_cons, List.not_mem_nil,
    or_false] at hmem
  rcases hmem with rfl | rfl | rfl | rfl | rfl | rfl | rfl | rfl | rfl | rfl | rfl | rfl | rfl |
    rfl | rfl | rfl | rfl | rfl | rfl | rfl | rfl | rfl | rfl | rfl | rfl | rfl | rfl | rfl | rfl |
    rfl | rfl | rfl | rfl | rfl | rfl | rfl | rfl | rfl | rfl | rfl
  · -- %Y, %y, %m
    exact fits_of_parts trivial (.cons (matches_padded (by decide) t.year_lt) .nil)
  · exact fits_of_parts trivial (.cons (matches_twoDigits hyear) .nil)
  · exact fits_of_parts trivial (.cons (matches_twoDigits hmonth) .nil)
  · -- %o, %q
    exact iff_of_false not_matches_underscore id
  · exact matches_flatten_singleton.trans matches_oneDigit_iff
  · -- %b, %h, %B
    exact fits_of_parts trivial (.cons (matches_letters fun c hc =>
      t.letters_monthName.1 c (List.mem_of_mem_take hc)) .nil)
  · exact fits_of_parts trivial (.cons (matches_letters fun c hc =>
      t.letters_monthName.1 c (List.mem_of_mem_take hc)) .nil)
  · exact fits_of_parts trivial (.cons (matches_letters t.letters_monthName.1) .nil)
  · -- %d, %e, %g
    exact fits_of_parts trivial (.cons (matches_twoDigits hday) .nil)
  · exact iff_of_false not_matches_underscore id
  · exact matches_flatten_singleton.trans matches_oneDigit_iff
  · -- %a, %A
    exact fits_of_parts trivial (.cons (matches_letters fun c hc =>
      t.letters_weekdayName.1 c (List.mem_of_mem_take hc)) .nil)
  · exact fits_of_parts trivial (.cons (matches_letters t.letters_weekdayName.1) .nil)
  · -- %H, %l, %I, %p, %P
    exact fits_of_parts trivial (.cons (matches_twoDigits hhour) .nil)
  · exact iff_of_false (not_matches_braces t.hour12_lt) id
  · exact fits_of_parts trivial (.cons (matches_twoDigits t.hour12_lt) .nil)
  · exact fits_of_parts trivial (.cons (matches_either _ _ (t.half_cases _ _)) .nil)
  · exact fits_of_parts trivial (.cons (matches_either _ _ (t.half_cases _ _)) .nil)
  · -- %M, %S
    exact fits_of_parts trivial (.cons (matches_twoDigits hminute) .nil)
  · exact fits_of_parts trivial (.cons (matches_twoDigits hsecond) .nil)
  · -- %L, %f, %s
    exact fits_of_parts trivial (.cons matches_anyDigits .nil)
  · exact fits_of_parts trivial (.cons matches_anyDigits .nil)
  · exact fits_of_parts trivial (.cons matches_anyDigits .nil)
  · -- %Z, %z
    exact matches_flatten_singleton.trans Regex.matches_star_set
  · exact matches_offset
  · -- %w
    exact iff_of_false not_matches_sign id
  · -- %i, %j, %k
    exact matches_offset_parts (by decide) fun o =>
      .cons o.matches_sign (.cons matches_anyDigits .nil)
  · exact matches_offset_parts (by decide) fun o => .cons o.matches_sign <|
      .cons (matches_twoDigits (by omega)) <| .cons (matches_char ':') <|
        .cons (matches_twoDigits (by omega)) .nil
  · exact matches_offset_parts (by decide) fun o => .cons o.matches_sign <|
      .cons (matches_twoDigits (by omega)) <| .cons (matches_char ':') <|
        .cons (matches_twoDigits (by omega)) <| .cons (matches_char ':') <|
          .cons (matches_twoDigits (by omega)) .nil
  · -- %D, %x
    exact iff_of_false not_matches_shortDate id
  · exact iff_of_false not_matches_shortDate id
  · -- %F
    exact fits_of_parts trivial <| .cons (matches_padded (by decide) t.year_lt) <|
      .cons (matches_char '-') <| .cons (matches_twoDigits hmonth) <|
        .cons (matches_char '-') <| .cons (matches_twoDigits hday) .nil
  · -- %T, %X, %r, %R
    exact fits_of_parts trivial (matches_clock t hhour)
  · exact fits_of_parts trivial (matches_clock t hhour)
  · refine fits_of_parts trivial (List.rel_append (matches_clock t t.hour12_lt) ?_)
    exact .cons (matches_char ' ') (.cons (matches_either _ _ (t.half_cases _ _)) .nil)
  · exact fits_of_parts trivial <| .cons (matches_twoDigits hhour) <| .cons (matches_char ':') <|
      .cons (matches_twoDigits hminute) .nil
  · -- %n, %t, %%
    exact fits_of_parts trivial (.cons (matches_char '\n') .nil)
  · exact fits_of_parts trivial (.cons (matches_char '\t') .nil)
  · exact fits_of_parts trivial (.cons (matches_char '%') .nil)
  · -- %c
    have hdate : List.Forall₂ Regex.Matches
        ([Piece.times .letter 3, .char ' ', .times .letter 3, .char ' ', twoDigits, .char ' '].map
          Piece.regex)
        [t.weekdayName.take 3, [' '], t.monthName.take 3, [' '], padded '0' 2 t.day, [' ']] :=
      .cons (matches_weekday t) <| .cons (matches_char ' ') <| .cons (matches_month t) <|
        .cons (matches_char ' ') <| .cons (matches_twoDigits hday) <| .cons (matches_char ' ') .nil
    have hclock := List.rel_append hdate (matches_clock t hhour)
    refine fits_of_parts trivial (List.rel_append hclock ?_)
    exact .cons (matches_char ' ') (.cons (matches_padded (by decide) t.year_lt) .nil)

end Directives

/-! ## Layouts and their patterns -/

section Layouts

variable {t : Instant}

theorem patternRegex_append {ps qs : List Piece} {w : List Char} :
    (patternRegex (ps ++ qs)).Matches w ↔
      ∃ u v, w = u ++ v ∧ (patternRegex ps).Matches u ∧ (patternRegex qs).Matches v := by
  rw [patternRegex, List.map_append]
  exact Regex.matches_concat_append

variable {item : LayoutItem}

/-- A part of the layout that fits is a word of its pattern. -/
theorem LayoutItem.matches_itemText (hsupported : item.Supported) (hfits : item.Fits t) :
   (patternRegex item.pieces).Matches (t.itemText item) := by
  cases item with
  | literal c => exact Regex.matches_concat_singleton.mpr (matches_char c)
  | directive d => exact (matches_parts_iff hsupported).mpr hfits

variable {items : List LayoutItem}

/-- Where every part fits, the text of the instant is a word of the pattern. -/
theorem matches_format (hsupported : ∀ item ∈ items, item.Supported)
    (hfits : ∀ item ∈ items, item.Fits t) :
    (patternRegex (items.flatMap LayoutItem.pieces)).Matches (items.flatMap t.itemText) := by
  induction items with
  | nil => exact Regex.matches_concat_nil.mpr rfl
  | cons item items ih =>
    obtain ⟨hone, hall⟩ := List.forall_mem_cons.mp hsupported
    obtain ⟨hitem, hitems⟩ := List.forall_mem_cons.mp hfits
    rw [List.flatMap_cons, List.flatMap_cons, patternRegex_append]
    exact ⟨_, _, rfl, item.matches_itemText hone hitem, ih hall hitems⟩

/-- The directive stands between two characters that are nowhere else: in no other text, and in no
word of another pattern. -/
def Fenced (t : Instant) (items : List LayoutItem) (d fence : Char) : Prop :=
  ∃ before after,
    items = before ++ .literal fence :: .directive d :: .literal fence :: after ∧
      ∀ item ∈ .directive d :: (before ++ after),
        fence ∉ t.itemText item ∧ (patternRegex item.pieces).uses fence = false

theorem notMem_flatMap_itemText {fence : Char} (h : ∀ item ∈ items, fence ∉ t.itemText item) :
   fence ∉ items.flatMap t.itemText := by
  rw [List.mem_flatMap]
  rintro ⟨item, hitem, hmem⟩
  exact h item hitem hmem

/-- The words of the patterns do not have the fence. -/
theorem notMem_of_matches {fence : Char}
    (h : ∀ item ∈ items, (patternRegex item.pieces).uses fence = false) {w : List Char}
    (hw : (patternRegex (items.flatMap LayoutItem.pieces)).Matches w) : fence ∉ w := by
  induction items generalizing w with
  | nil =>
    rw [Regex.matches_concat_nil.mp hw]
    exact List.not_mem_nil
  | cons item items ih =>
    obtain ⟨hitem, hitems⟩ := List.forall_mem_cons.mp h
    rw [List.flatMap_cons, patternRegex_append] at hw
    obtain ⟨u, v, rfl, hu, hv⟩ := hw
    rw [List.mem_append, not_or]
    refine ⟨fun hmem => ?_, ih hitems hv⟩
    rw [Regex.uses_of_matches hu fence hmem] at hitem
    cases hitem

/-- Between its fences, a word of the pattern of a directive is its text. -/
theorem Fenced.matches {d fence : Char} (h : Fenced t items d fence)
    (hsearch : (patternRegex (items.flatMap LayoutItem.pieces)).search
      (items.flatMap t.itemText) = true) :
    (patternRegex (directivePieces d)).Matches (t.parts d).flatten := by
  obtain ⟨before, after, rfl, hunused⟩ := h
  obtain ⟨⟨hown, hownUses⟩, hothers⟩ := List.forall_mem_cons.mp hunused
  have hbefore : ∀ item ∈ before, fence ∉ t.itemText item ∧ _ := fun item hitem =>
    hothers item (List.mem_append_left _ hitem)
  have hafter : ∀ item ∈ after, fence ∉ t.itemText item ∧ _ := fun item hitem =>
    hothers item (List.mem_append_right _ hitem)
  obtain ⟨left, found, right, htext, hfound⟩ := Regex.search_iff.mp hsearch
  -- what is found is words of the patterns, with a fence before and behind that of the directive
  rw [List.flatMap_append, patternRegex_append] at hfound
  obtain ⟨u₁, rest₁, rfl, hu₁, hrest₁⟩ := hfound
  rw [List.flatMap_cons, patternRegex_append] at hrest₁
  obtain ⟨f₁, rest₂, rfl, hf₁, hrest₂⟩ := hrest₁
  rw [List.flatMap_cons, patternRegex_append] at hrest₂
  obtain ⟨w, rest₃, rfl, hw, hrest₃⟩ := hrest₂
  rw [List.flatMap_cons, patternRegex_append] at hrest₃
  obtain ⟨f₂, u₂, rfl, hf₂, hu₂⟩ := hrest₃
  obtain ⟨c₁, hc₁, rfl⟩ := Regex.matches_set.mp (Regex.matches_concat_singleton.mp hf₁)
  obtain ⟨c₂, hc₂, rfl⟩ := Regex.matches_set.mp (Regex.matches_concat_singleton.mp hf₂)
  rw [of_decide_eq_true hc₁, of_decide_eq_true hc₂] at htext
  have hu₁' := notMem_of_matches (fun item hitem => (hbefore item hitem).2) hu₁
  have hu₂' := notMem_of_matches (fun item hitem => (hafter item hitem).2) hu₂
  have hw' : fence ∉ w := by
    intro hmem
    rw [Regex.uses_of_matches hw fence hmem] at hownUses
    cases hownUses
  have htext₁ := notMem_flatMap_itemText fun item hitem => (hbefore item hitem).1
  have htext₂ := notMem_flatMap_itemText fun item hitem => (hafter item hitem).1
  have hsplit : before.flatMap t.itemText ++
      fence :: ((t.parts d).flatten ++ fence :: after.flatMap t.itemText) =
        (left ++ u₁) ++ fence :: (w ++ fence :: (u₂ ++ right)) := by
    simpa [Instant.itemText] using htext
  -- both sides have two fences, so there is none to the left of the first one
  have hcount := congrArg (List.count fence) hsplit
  have hown' : fence ∉ (t.parts d).flatten := hown
  simp only [List.count_append, List.count_cons_self, List.count_eq_zero_of_not_mem htext₁,
    List.count_eq_zero_of_not_mem htext₂, List.count_eq_zero_of_not_mem hu₁',
    List.count_eq_zero_of_not_mem hu₂', List.count_eq_zero_of_not_mem hw',
    List.count_eq_zero_of_not_mem hown'] at hcount
  have hleft : fence ∉ left := List.count_eq_zero.mp (by omega)
  have hstart : fence ∉ left ++ u₁ := by
    rw [List.mem_append, not_or]
    exact ⟨hleft, hu₁'⟩
  obtain ⟨-, hbehind⟩ := Lib.SplitOn.eq_of_append_cons_eq htext₁ hstart hsplit
  obtain ⟨hsame, -⟩ := Lib.SplitOn.eq_of_append_cons_eq hown' hw' hbehind
  rw [hsame]
  exact hw

/-- The condition on a field with the time is true for the instant in the layout. -/
def Admits (eval : String → String → Option Bool) (parseFrom layout : String) (t : Instant) :
    Prop :=
  ∀ regex, regexForStrptimeLayout layout = .ok regex →
    eval (layoutCondition parseFrom regex) (t.format layout) = some true

/-- A part that breaks the line does so in the pattern. -/
theorem lineBreak_mem_regexText (h : item.Breaks) : '\n' ∈ item.regexText := by
  cases item with
  | literal c =>
    rw [LayoutItem.regexText, (show c = '\n' from h)]
    decide
  | directive d =>
    rw [LayoutItem.regexText, (show d = 'n' from h)]
    decide

theorem quote_notMem_regexText (hsupported : item.Supported) (hquotable : item.Quotable) :
   '"' ∉ item.regexText := by
  cases item with
  | literal c =>
    have hne : '"' ≠ c := by
      rintro rfl
      exact hquotable (by decide)
    rw [LayoutItem.regexText, escaped]
    split_ifs
    · decide
    · simp [hne]
    · simp [hne]
  | directive d =>
    have hpieces : ∀ e ∈ ctimeRegex, '"' ∉ quotedText (patternText (directivePieces e.1)) := by
      decide +kernel
    have hall : ∀ e ∈ ctimeRegex, '"' ∉ e.2.toList := fun e he =>
      ctimeRegex_pieces e he ▸ hpieces e he
    rw [LayoutItem.Supported] at hsupported
    obtain ⟨regex, hregex⟩ := Option.isSome_iff_exists.mp hsupported
    rw [LayoutItem.regexText, hregex]
    exact hall (d, regex) (mem_ctimeRegex_of_lookup hregex)

/-- A layout without quotes, backslashes and line breaks admits the instants at which each of its
directives fits. A layout with a line break admits none, and none is admitted at which a directive
that stands between fences does not fit. -/
theorem regexForStrptimeLayout_admits (eval : String → String → Option Bool)
    (parseFrom layout : String) (t : Instant)
    (hreads : (∀ item ∈ layoutItems layout.toList, item.Plain) → ∀ value,
      eval (layoutCondition parseFrom
          (String.ofList (quotedText (patternText (layoutPieces layout))))) value =
        some ((patternRegex (layoutPieces layout)).search value.toList))
    (hbreaks : ∀ regex : String, '"' ∉ regex.toList → '\n' ∈ regex.toList → ∀ value,
      eval (layoutCondition parseFrom regex) value = none) :
    ((∀ item ∈ layoutItems layout.toList, item.Plain ∧ item.Fits t) →
        Admits eval parseFrom layout t) ∧
      ((∃ regex, regexForStrptimeLayout layout = .ok regex) →
        (∀ item ∈ layoutItems layout.toList, item.Quotable) → Admits eval parseFrom layout t →
          (∀ item ∈ layoutItems layout.toList, ¬item.Breaks) ∧
            ∀ d fence, Fenced t (layoutItems layout.toList) d fence → Fits t d) := by
  constructor
  · intro hitems regex hregex
    have hplain := fun item hitem => (hitems item hitem).1
    have hsupported := (regexForStrptimeLayout_ok.mp hregex).1
    have hmatches := matches_format hsupported fun item hitem => (hitems item hitem).2
    rw [regex_of_plain hregex hplain, hreads hplain, Instant.format, String.toList_ofList]
    exact congrArg some (Regex.search_of_matches hmatches)
  · rintro ⟨regex, hregex⟩ hquotable hadmits
    have heval := hadmits regex hregex
    obtain ⟨hsupported, htext⟩ := regexForStrptimeLayout_ok.mp hregex
    have hunbroken : ∀ item ∈ layoutItems layout.toList, ¬item.Breaks := by
      intro item hitem hbreak
      have hmem : '\n' ∈ regex.toList := by
        rw [htext, String.toList_ofList, List.mem_flatMap]
        exact ⟨item, hitem, lineBreak_mem_regexText hbreak⟩
      have hquote : '"' ∉ regex.toList := by
        rw [htext, String.toList_ofList, List.mem_flatMap]
        rintro ⟨item', hitem', hquote⟩
        exact quote_notMem_regexText (hsupported item' hitem') (hquotable item' hitem') hquote
      rw [hbreaks regex hquote hmem] at heval
      cases heval
    refine ⟨hunbroken, fun d fence hfenced => ?_⟩
    have hplain : ∀ item ∈ layoutItems layout.toList, item.Plain := fun item hitem =>
      ⟨hquotable item hitem, hunbroken item hitem⟩
    rw [regex_of_plain hregex hplain, hreads hplain, Instant.format, String.toList_ofList] at heval
    have hmatches := hfenced.matches (Option.some.inj heval)
    obtain ⟨before, after, hsplit, -⟩ := hfenced
    have hmem : LayoutItem.directive d ∈ layoutItems layout.toList := by
      rw [hsplit]
      simp
    exact (matches_parts_iff (hsupported _ hmem)).mp hmatches

end Layouts

/-! ## Two layouts -/

/-- An evaluator of the condition for one layout. -/
def evalLayout (parseFrom layout condition value : String) : Option Bool :=
  if condition = layoutCondition parseFrom
      (String.ofList (quotedText (patternText (layoutPieces layout)))) then
    some ((patternRegex (layoutPieces layout)).search value.toList)
  else none

theorem evalLayout_breaks {parseFrom layout regex : String}
    (hlayout : '\n' ∉ quotedText (patternText (layoutPieces layout)))
    (hregex : '\n' ∈ regex.toList) (value : String) :
    evalLayout parseFrom layout (layoutCondition parseFrom regex) value = none := by
  rw [evalLayout, if_neg]
  intro heq
  rw [layoutCondition, layoutCondition, ← String.toList_inj] at heq
  simp only [String.toList_append, List.append_cancel_right_eq, List.append_cancel_left_eq,
    String.toList_ofList] at heq
  rw [heq] at hregex
  exact hlayout hregex

/-- 26 November 2023, 12:03:28.239907, in India. -/
def november : Instant where
  year := 2023
  month := 11
  day := 26
  weekday := 0
  hour := 12
  minute := 3
  second := 28
  nanosecond := 239907000
  zone := ['I', 'S', 'T']
  offset := some ⟨false, 5, 30, 0, 0⟩
  year_bounds := by decide
  month_bounds := by decide
  day_bounds := by decide

/-- Dates with a fraction of a second and an offset are admitted. -/
theorem november_admitted :
    november.format "%Y-%m-%dT%H:%M:%S.%f%z" = "2023-11-26T12:03:28.239907+0530" ∧
      Admits (evalLayout "attributes.time" "%Y-%m-%dT%H:%M:%S.%f%z") "attributes.time"
        "%Y-%m-%dT%H:%M:%S.%f%z" november := by
  refine ⟨by decide +kernel, ?_⟩
  refine (regexForStrptimeLayout_admits _ "attributes.time" "%Y-%m-%dT%H:%M:%S.%f%z" november ?_
    ?_).1 ?_
  · intro _ value
    rw [evalLayout, if_pos rfl]
  · intro regex _ hregex value
    exact evalLayout_breaks (by decide +kernel) hregex value
  · have hitems : layoutItems "%Y-%m-%dT%H:%M:%S.%f%z".toList =
        [.directive 'Y', .literal '-', .directive 'm', .literal '-', .directive 'd', .literal 'T',
          .directive 'H', .literal ':', .directive 'M', .literal ':', .directive 'S', .literal '.',
          .directive 'f', .directive 'z'] := by decide +kernel
    have hfits : LogPipelines.Fits november 'z' := ⟨_, rfl, rfl⟩
    rw [hitems]
    simp only [List.forall_mem_cons, LayoutItem.Plain, LayoutItem.Quotable, LayoutItem.Breaks,
      LayoutItem.Fits, hfits]
    simp [LogPipelines.Fits]

/-- The pattern of an unpadded month has one digit. -/
theorem november_not_admitted :
    regexForStrptimeLayout "%d/%q/%Y" = .ok "[0-9]\x7b2\x7d/[0-9]/[0-9]\x7b4\x7d" ∧
      november.format "%d/%q/%Y" = "26/11/2023" ∧
      evalLayout "attributes.time" "%d/%q/%Y"
        "attributes.time matches \"[0-9]\x7b2\x7d/[0-9]/[0-9]\x7b4\x7d\"" "26/11/2023" =
          some false ∧
      ¬Admits (evalLayout "attributes.time" "%d/%q/%Y") "attributes.time" "%d/%q/%Y" november := by
  have hregex : regexForStrptimeLayout "%d/%q/%Y" =
      .ok "[0-9]\x7b2\x7d/[0-9]/[0-9]\x7b4\x7d" := by decide +kernel
  have hformat : november.format "%d/%q/%Y" = "26/11/2023" := by decide +kernel
  have heval : evalLayout "attributes.time" "%d/%q/%Y"
      "attributes.time matches \"[0-9]\x7b2\x7d/[0-9]/[0-9]\x7b4\x7d\"" "26/11/2023" =
        some false := by decide +kernel
  refine ⟨hregex, hformat, heval, fun hadmits => ?_⟩
  have htrue := hadmits _ hregex
  have hcondition : layoutCondition "attributes.time" "[0-9]\x7b2\x7d/[0-9]/[0-9]\x7b4\x7d" =
      "attributes.time matches \"[0-9]\x7b2\x7d/[0-9]/[0-9]\x7b4\x7d\"" := by decide +kernel
  rw [hformat, hcondition, heval] at htrue
  cases htrue

end Signoz.LogPipelines
