import Signoz.FilterQuery.Parser
import Signoz.Transition.Quoting

/-!
# The values of a v4 filter

A value is a scalar or a list of scalars. `Reads` is the meaning of a scalar: what the query builder
should read it as. `Survives` is the condition under which the text that the migration writes for it
is one token that is read so (`scan_of_survives`, `survives_of_scan`).
-/

namespace Signoz.Transition

open FilterQuery FilterQuery.Lexer Lib.MaximalMunch

variable {F : Type}

/-! ## Values -/

/-- A string, a number or a truth value. -/
inductive V4Scalar (F : Type) where
  | string (s : String)
  | number (x : F)
  | int (n : Int)
  | bool (b : Bool)

namespace V4Scalar

def any : V4Scalar F → Any F
  | string s => .string s
  | number x => .number x
  | int n => .int n
  | bool b => .bool b

end V4Scalar

/-- A scalar, or a list that is not empty. -/
inductive V4Value (F : Type) where
  | scalar (s : V4Scalar F)
  | list (first : V4Scalar F) (rest : List (V4Scalar F))

namespace V4Value

def any : V4Value F → Any F
  | scalar s => s.any
  | list first rest => .list (first.any :: rest.map V4Scalar.any)

def first : V4Value F → V4Scalar F
  | scalar s | list s _ => s

def rest : V4Value F → List (V4Scalar F)
  | scalar _ => []
  | list _ rest => rest

/-- The scalars of a value. -/
def values (v : V4Value F) : List (V4Scalar F) := v.first :: v.rest

end V4Value

variable (mc : MigrateCommon F)

/-- `formatValue` of a scalar. -/
def formatScalar (dataType : String) (s : V4Scalar F) : String := formatValue mc dataType s.any

theorem formatValues_map (dataType : String) (l : List (V4Scalar F)) :
    formatValues mc dataType (l.map V4Scalar.any) = l.map (formatScalar mc dataType) := by
  induction l with
  | nil => rfl
  | cons s l ih =>
    rw [List.map_cons, formatValues, ih]
    rfl

/-- A list of one value is written as the value. -/
theorem formatValue_of_rest_nil (dataType : String) {value : V4Value F} (h : value.rest = []) :
    formatValue mc dataType value.any = formatScalar mc dataType value.first := by
  cases value with
  | scalar s => rfl
  | list first rest =>
    obtain rfl : rest = [] := h
    rw [V4Value.any, List.map_nil, formatValue]
    rfl

theorem formatValue_of_rest_cons (dataType : String) {value : V4Value F} {s : V4Scalar F}
    {l : List (V4Scalar F)} (h : value.rest = s :: l) :
    formatValue mc dataType value.any =
      "[" ++ ", ".intercalate (value.values.map (formatScalar mc dataType)) ++ "]" := by
  cases value with
  | scalar s => cases h
  | list first rest =>
    obtain rfl : rest = s :: l := h
    rw [V4Value.any, List.map_cons, formatValue, ← List.map_cons, ← List.map_cons,
      formatValues_map]
    · rfl
    · exact nofun

/-! ## What is read -/

/-- The value of a token, with a number as its text. -/
def readValue : Value → Scalar String
  | .quotedText text => .str (trimQuotes text)
  | .number text => .num text
  | .bool text => .bool (text.toLower = "true")
  | .key text => .str text

namespace V4Scalar

/-- What a scalar may be read as. A text of a numeric type is the number that it spells. -/
def Reads (dataType : String) : V4Scalar F → Scalar String → Prop
  | string s, .str text => text = s
  | string s, .num text => isNumericType dataType ∧ text = s
  | number x, .num text => text = mc.fmt.sprintV (.number x)
  | int n, .num text => text = toString n
  | bool b, .bool c => c = b
  | _, _ => False

/-- A string is read as it was: in quotes, or as the one token that is written without them. A
parameter of a function that is a key token would be a key. -/
def Survives (dataType : String) (param : Bool) : V4Scalar F → Prop
  | string s =>
    if isNumericType dataType && mc.fmt.scansFloat s then
      IsToken .number s.toList ∨ param = false ∧ IsToken .key s.toList
    else survivesQuoting s.toList
  | _ => True

end V4Scalar

/-! ## The text of a scalar -/

/-- The numbers are written as the grammar has them. -/
def Fmt.WritesNumbers (fmt : Fmt F) : Prop :=
  ∀ x, IsToken .number (fmt.sprintV (.number x)).toList

/-- Behind spaces, a number that is scanned starts with a sign, a point, a digit or a letter. -/
def Fmt.ScansNumbers (fmt : Fmt F) : Prop :=
  ∀ s, fmt.scansFloat s → ∃ c, (s.toList.dropWhile isSpace).head? = some c ∧
    (c ∈ ['+', '-', '.'] ∨ c.isDigit ∨ c.isAlpha)

variable {mc : MigrateCommon F}

theorem formatScalar_string {dataType s : String} (hvar : isVariable s = false) :
    formatScalar mc dataType (.string s) =
      if isNumericType dataType && mc.fmt.scansFloat s then s
      else String.ofList (quote :: (escapeQuotes s.toList ++ [quote])) := by
  rw [formatScalar, V4Scalar.any, formatValue, formatString, hvar]
  rfl

/-- A scalar that survives is one token, which reads as the scalar. -/
theorem scan_of_survives (hnumber : mc.fmt.WritesNumbers) {dataType : String} {param : Bool}
    {s : V4Scalar F} (hvar : ∀ t, s = .string t → isVariable t = false)
    (h : s.Survives mc dataType param) :
    ∃ t v, t.value? = some v ∧ s.Reads mc dataType (readValue v) ∧ (param → t.type ≠ .key) ∧
      ∀ rest, (∀ c ∈ rest.head?, isValueEnd c) →
        scan ((formatScalar mc dataType s).toList ++ rest) = t :: scan rest := by
  cases s with
  | string s =>
    rw [formatScalar_string (hvar s rfl)]
    by_cases hnum : isNumericType dataType && mc.fmt.scansFloat s
    · rw [V4Scalar.Survives, if_pos hnum] at h
      rw [if_pos hnum]
      rcases h with h | ⟨hparam, h⟩
      · refine ⟨⟨.number, s⟩, .number s, rfl, ?_, fun _ => nofun, fun rest hrest => ?_⟩
        · exact ⟨(Bool.and_eq_true _ _ ▸ hnum).1, rfl⟩
        · rw [scan_value h (by decide) hrest, String.ofList_toList]
      · refine ⟨⟨.key, s⟩, .key s, rfl, rfl, fun h => ?_, fun rest hrest => ?_⟩
        · rw [hparam] at h
          cases h
        · rw [scan_value h (by decide) hrest, String.ofList_toList]
    · rw [V4Scalar.Survives, if_neg hnum] at h
      rw [if_neg hnum]
      generalize htext : String.ofList (quote :: (escapeQuotes s.toList ++ [quote])) = text
      refine ⟨⟨.quotedText, text⟩, .quotedText text, rfl, ?_, fun _ => nofun, fun rest _ => ?_⟩
      · rw [readValue, ← htext, trimQuotes_of_survives h]
        exact String.ofList_toList
      · rw [← htext, String.toList_ofList, scan_of_next (next_quoted h rest) (by decide)]
  | number x =>
    refine ⟨⟨.number, _⟩, .number _, rfl, rfl, fun _ => nofun, fun rest hrest => ?_⟩
    rw [formatScalar, V4Scalar.any, formatValue, scan_value (hnumber x) (by decide) hrest,
      String.ofList_toList]
  | int n =>
    refine ⟨⟨.number, _⟩, .number _, rfl, rfl, fun _ => nofun, fun rest hrest => ?_⟩
    rw [formatScalar, V4Scalar.any, formatValue, scan_value (isToken_int n) (by decide) hrest,
      String.ofList_toList]
  | bool b =>
    have htrue : IsToken .bool "true".toList := by decide
    have hfalse : IsToken .bool "false".toList := by decide
    cases b with
    | true =>
      have hread : decide ("true".toLower = "true") = true := by decide +kernel
      refine ⟨⟨.bool, "true"⟩, .bool "true", rfl, hread, fun _ => nofun, fun rest hrest => ?_⟩
      exact scan_value htrue (by decide) hrest
    | false =>
      have hread : decide ("false".toLower = "true") = false := by decide +kernel
      refine ⟨⟨.bool, "false"⟩, .bool "false", rfl, hread, fun _ => nofun, fun rest hrest => ?_⟩
      exact scan_value hfalse (by decide) hrest

/-- A text that a number is scanned from starts, behind blanks, with a word. -/
theorem exists_free_of_scans (hscans : mc.fmt.ScansNumbers) {s : String}
    (h : mc.fmt.scansFloat s) :
    ∃ b l, s.toList.dropWhile isBlank = b :: l ∧ isFree b := by
  have hspace : reserved.all fun a => isSpace a → isBlank a := by decide
  have hstart : reserved.all fun a => ¬ (a ∈ ['+', '-', '.'] ∨ a.isDigit ∨ a.isAlpha) := by
    decide
  have hblank : ∀ a, isBlank a → isSpace a := by
    intro a ha
    simp only [isBlank, Bool.or_eq_true, decide_eq_true_eq] at ha
    rcases ha with ((rfl | rfl) | rfl) | rfl <;> decide
  have hfree : ∀ a, a ∉ reserved → isFree a := fun a ha => decide_eq_true ha
  obtain ⟨c, hc, hfirst⟩ := hscans s h
  generalize s.toList = cs at hc
  induction cs with
  | nil => cases hc
  | cons a cs ih =>
    by_cases ha : isBlank a
    · rw [List.dropWhile_cons_of_pos ha]
      rw [List.dropWhile_cons_of_pos (hblank a ha)] at hc
      exact ih hc
    · rw [List.dropWhile_cons_of_neg ha]
      refine ⟨a, cs, rfl, hfree a fun hmem => ?_⟩
      by_cases hs : isSpace a
      · exact ha (of_decide_eq_true (List.all_eq_true.1 hspace a hmem) hs)
      · rw [List.dropWhile_cons_of_neg hs] at hc
        obtain rfl : a = c := Option.some.inj hc
        exact of_decide_eq_true (List.all_eq_true.1 hstart a hmem) hfirst

/-- A scalar that the first token reads as survives. -/
theorem survives_of_scan (hscans : mc.fmt.ScansNumbers) {dataType : String} {param : Bool}
    {s : V4Scalar F} (hvar : ∀ t, s = .string t → isVariable t = false) {rest : List Char}
    (hrest : ∀ c ∈ rest.head?, isValueEnd c) {t : Token} {ts : List Token} {v : Value}
    (hscan : scan ((formatScalar mc dataType s).toList ++ rest) = t :: ts)
    (hv : t.value? = some v) (hread : s.Reads mc dataType (readValue v))
    (hparam : param → t.type ≠ .key) : s.Survives mc dataType param := by
  cases s with
  | string s =>
    rw [formatScalar_string (hvar s rfl)] at hscan
    by_cases hnum : isNumericType dataType && mc.fmt.scansFloat s
    · rw [V4Scalar.Survives, if_pos hnum]
      rw [if_pos hnum] at hscan
      obtain ⟨b, l, hdrop, hb⟩ := exists_free_of_scans hscans (Bool.and_eq_true _ _ ▸ hnum).2
      obtain ⟨htype, htoken⟩ := isToken_of_scan hdrop hb hrest hscan
      rw [String.ofList_toList] at htoken
      -- The token is a word, and its text is the string.
      rw [Token.value?] at hv
      split at hv
      · next hquoted => exact absurd (by rw [hquoted]; decide) htype
      · next hnumber =>
          cases hv
          rw [hnumber] at htoken
          exact .inl (htoken hread.2 (by decide))
      · cases hv
        exact absurd hread id
      · next hkey =>
          cases hv
          rw [hkey] at htoken
          refine .inr ⟨?_, htoken hread (by decide)⟩
          cases param with
          | false => rfl
          | true => exact absurd hkey (hparam rfl)
      · cases hv
    · rw [V4Scalar.Survives, if_neg hnum]
      rw [if_neg hnum, String.toList_ofList, List.cons_append, List.append_assoc,
        List.singleton_append] at hscan
      cases hclose : closing quote (escapeQuotes s.toList ++ quote :: rest) with
      | none =>
        rw [scan_of_unclosed quote_is_quote hclose] at hscan
        cases hscan
      | some n =>
        have hnext := next_quote quote_is_quote (escapeQuotes s.toList ++ quote :: rest)
        rw [hclose] at hnext
        rw [scan_eq_of_next hnext (by decide)] at hscan
        obtain ⟨rfl, -⟩ := List.cons.inj hscan
        cases hv
        refine survives_of_next hnext ?_
        rw [String.ofList_toList]
        exact hread
  | _ => trivial

end Signoz.Transition
