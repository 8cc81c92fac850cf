import Signoz.Lib.CharLists
import Signoz.Lib.Regex

/-!
# The regular expression of a time layout

`RegexForStrptimeLayout` of `time_parser.go` escapes the special characters of a layout, one after
another, and replaces the directives by hand-written patterns. The result is the text of a regular
expression inside of a string of the expression language: what the regular expression escapes with
one `\`, the string has with two. The `\` of the layout itself is doubled only once.
-/

namespace Signoz.LogPipelines

open scoped Lib.CharLists

open Lib

/-! ## The source -/

/-- `ctimeRegex`, without the `%` of the keys. -/
def ctimeRegex : List (Char × String) :=
  [('Y', "[0-9]\x7b4\x7d"), ('y', "[0-9]\x7b2\x7d"), ('m', "[0-9]\x7b2\x7d"), ('o', "_[0-9]"),
    ('q', "[0-9]"), ('b', "[a-zA-Z]*?"), ('h', "[a-zA-Z]*?"), ('B', "[a-zA-Z]*?"),
    ('d', "[0-9]\x7b2\x7d"), ('e', "_[0-9]"), ('g', "[0-9]"), ('a', "[a-zA-Z]*?"),
    ('A', "[a-zA-Z]*?"), ('H', "[0-9]\x7b2\x7d"), ('l', "[0-9]\x7b1-2\x7d"),
    ('I', "[0-9]\x7b2\x7d"), ('p', "(AM|PM)"), ('P', "(am|pm)"), ('M', "[0-9]\x7b2\x7d"),
    ('S', "[0-9]\x7b2\x7d"), ('L', "[0-9]*?"), ('f', "[0-9]*?"), ('s', "[0-9]*?"),
    ('Z', "[a-zA-Z]*?"), ('z', "[-+][0-9]*?"), ('w', "[-+][0-9]*?"), ('i', "[-+][0-9]*?"),
    ('j', "[-+][0-9]\x7b2\x7d:[0-9]\x7b2\x7d"),
    ('k', "[-+][0-9]\x7b2\x7d:[0-9]\x7b2\x7d:[0-9]\x7b2\x7d"),
    ('D', "[0-9]\x7b2\x7d/[0-9]\x7b2\x7d/[0-9]\x7b4\x7d"),
    ('x', "[0-9]\x7b2\x7d/[0-9]\x7b2\x7d/[0-9]\x7b4\x7d"),
    ('F', "[0-9]\x7b4\x7d-[0-9]\x7b2\x7d-[0-9]\x7b2\x7d"),
    ('T', "[0-9]\x7b2\x7d:[0-9]\x7b2\x7d:[0-9]\x7b2\x7d"),
    ('X', "[0-9]\x7b2\x7d:[0-9]\x7b2\x7d:[0-9]\x7b2\x7d"),
    ('r', "[0-9]\x7b2\x7d:[0-9]\x7b2\x7d:[0-9]\x7b2\x7d (am|pm)"),
    ('R', "[0-9]\x7b2\x7d:[0-9]\x7b2\x7d"), ('n', "\n"), ('t', "\t"), ('%', "%"),
    ('c', "[a-zA-Z]\x7b3\x7d [a-zA-Z]\x7b3\x7d [0-9]\x7b2\x7d " ++
      "[0-9]\x7b2\x7d:[0-9]\x7b2\x7d:[0-9]\x7b2\x7d [0-9]\x7b4\x7d")]

/-- The characters that are escaped, in this order. -/
def regexSpecialChars : List Char :=
  ['.', '+', '*', '?', '^', '$', '(', ')', '[', ']', '\x7b', '\x7d', '|', '\\']

/-- Every occurrence of a character gets a `\`. -/
def escapeChar (layoutRegex : List Char) (regexSpecialChar : Char) : List Char :=
  layoutRegex.flatMap fun c => if c = regexSpecialChar then ['\\', c] else [c]

/-- The directives of an escaped layout replaced, with the directives that are not supported: `%`
and a character that is no line break, from left to right. -/
def replaceDirectives : List Char → List Char × List Char
  | '%' :: directive :: rest =>
    if directive = '\n' then
      let (text, unsupported) := replaceDirectives rest
      ('%' :: '\n' :: text, unsupported)
    else
      let (text, unsupported) := replaceDirectives rest
      match ctimeRegex.lookup directive with
      | some regex => (regex.toList ++ text, unsupported)
      | none => (text, directive :: unsupported)
  | c :: rest =>
    let (text, unsupported) := replaceDirectives rest
    (c :: text, unsupported)
  | [] => ([], [])

/-- `RegexForStrptimeLayout`. -/
def regexForStrptimeLayout (layout : String) : Except String String :=
  let layoutRegex := regexSpecialChars.foldl escapeChar layout.toList
  let (text, unsupported) := replaceDirectives layoutRegex
  if unsupported = [] then .ok (String.ofList text)
  else
    .error ("couldn't generate regex for ctime format: [" ++
      " ".intercalate (unsupported.map fun directive =>
        "unsupported ctimefmt directive: %" ++ directive.toString) ++ "]")

/-- The condition on the field that holds a time. -/
def layoutCondition (parseFrom regex : String) : String :=
  parseFrom ++ " matches \"" ++ regex ++ "\""

/-! ## Layouts -/

/-- A part of a layout. -/
inductive LayoutItem where
  | literal (c : Char)
  | directive (d : Char)
deriving DecidableEq

/-- The directives of a layout and what is between them. -/
def layoutItems : List Char → List LayoutItem
  | '%' :: d :: rest =>
    if d = '\n' then .literal '%' :: .literal '\n' :: layoutItems rest
    else .directive d :: layoutItems rest
  | c :: rest => .literal c :: layoutItems rest
  | [] => []

/-- A character of the layout after the escapes. -/
def escaped (c : Char) : List Char :=
  if c = '\\' then ['\\', '\\'] else if c ∈ regexSpecialChars then ['\\', '\\', c] else [c]

/-- What becomes of a part of the layout. -/
def LayoutItem.regexText : LayoutItem → List Char
  | .literal c => escaped c
  | .directive d => ((ctimeRegex.lookup d).getD "").toList

/-- The escapes before the last one do not see the `\` of each other. -/
theorem foldl_escapeChar (specials : List Char) (hslash : '\\' ∉ specials)
    (hnodup : specials.Nodup) (layout : List Char) :
    specials.foldl escapeChar layout =
      layout.flatMap fun c => if c ∈ specials then ['\\', c] else [c] := by
  induction specials using List.reverseRecOn with
  | nil => simp
  | append_singleton specials special ih =>
    rw [List.mem_append, not_or, List.mem_singleton] at hslash
    obtain ⟨hnodup', -, hnew⟩ := List.nodup_append.mp hnodup
    rw [List.foldl_append, List.foldl_cons, List.foldl_nil, ih hslash.1 hnodup', escapeChar,
      List.flatMap_assoc]
    apply List.flatMap_congr
    intro c _
    have hother : '\\' ≠ special := hslash.2
    by_cases hc : c ∈ specials
    · have hne : c ≠ special := hnew c hc special (List.mem_singleton_self _)
      simp [hc, hother, hne]
    · by_cases hsame : c = special
      · subst hsame
        simp [hc]
      · simp [hc, hsame]

/-- All escapes together. -/
theorem foldl_regexSpecialChars (layout : List Char) :
    regexSpecialChars.foldl escapeChar layout = layout.flatMap escaped := by
  have hsplit : regexSpecialChars =
      ['.', '+', '*', '?', '^', '$', '(', ')', '[', ']', '\x7b', '\x7d', '|'] ++ ['\\'] := rfl
  have hfirst := foldl_escapeChar ['.', '+', '*', '?', '^', '$', '(', ')', '[', ']',
    '\x7b', '\x7d', '|'] (by decide) (by decide) layout
  rw [hsplit, List.foldl_append, hfirst, List.foldl_cons, List.foldl_nil, escapeChar,
    List.flatMap_assoc]
  apply List.flatMap_congr
  intro c _
  by_cases hslash : c = '\\'
  · subst hslash
    decide
  · by_cases hc : c ∈ ['.', '+', '*', '?', '^', '$', '(', ')', '[', ']', '\x7b', '\x7d', '|']
    · have hspecial : c ∈ regexSpecialChars := by
        rw [hsplit]
        exact List.mem_append_left _ hc
      rw [if_pos hc, escaped, if_neg hslash, if_pos hspecial]
      simp [hslash]
    · have hspecial : c ∉ regexSpecialChars := by
        rw [hsplit, List.mem_append, not_or]
        exact ⟨hc, by simpa using hslash⟩
      rw [if_neg hc, escaped, if_neg hslash, if_neg hspecial]
      simp [hslash]

/-- What has no `%` is copied. -/
theorem replaceDirectives_append {plain : List Char} (h : '%' ∉ plain) (rest : List Char) :
    replaceDirectives (plain ++ rest) =
      (plain ++ (replaceDirectives rest).1, (replaceDirectives rest).2) := by
  induction plain with
  | nil => rfl
  | cons c plain ih =>
    rw [List.mem_cons, not_or] at h
    rw [List.cons_append, replaceDirectives.eq_2, ih h.2]
    · rfl
    · exact fun _ _ hc _ => h.1 hc.symm

theorem percent_notMem_escaped {c : Char} (h : c ≠ '%') : '%' ∉ escaped c := by
  rw [escaped]
  split_ifs
  · decide
  · simp [Ne.symm h]
  · simp [Ne.symm h]

/-- An escaped character begins with `\`, which is no directive, nor is the character. -/
theorem escaped_cases (c : Char) :
    escaped c = [c] ∨ (∃ rest, escaped c = '\\' :: rest) ∧ ctimeRegex.lookup c = none := by
  rw [escaped]
  split_ifs with hslash hspecial
  · exact .inr ⟨⟨_, rfl⟩, by rw [hslash]; rfl⟩
  · have hnone : ∀ c ∈ regexSpecialChars, ctimeRegex.lookup c = none := by decide
    exact .inr ⟨⟨_, rfl⟩, hnone c hspecial⟩
  · exact .inl rfl

/-- The directive of the layout is supported. -/
def LayoutItem.Supported : LayoutItem → Prop
  | .literal _ => True
  | .directive d => (ctimeRegex.lookup d).isSome

/-- The replacements part by part, as long as all directives are supported. -/
theorem replaceDirectives_escaped (layout : List Char) :
    ((replaceDirectives (layout.flatMap escaped)).2 = [] ↔
        ∀ item ∈ layoutItems layout, item.Supported) ∧
      ((replaceDirectives (layout.flatMap escaped)).2 = [] →
        (replaceDirectives (layout.flatMap escaped)).1 =
          (layoutItems layout).flatMap LayoutItem.regexText) := by
  fun_induction layoutItems layout with
  | case1 rest ih =>
    have hstep : replaceDirectives (('%' :: '\n' :: rest).flatMap escaped) =
        ('%' :: '\n' :: (replaceDirectives (rest.flatMap escaped)).1,
          (replaceDirectives (rest.flatMap escaped)).2) := rfl
    rw [hstep]
    refine ⟨?_, fun hnone => ?_⟩
    · rw [ih.1, List.forall_mem_cons, List.forall_mem_cons]
      exact ⟨fun h => ⟨trivial, trivial, h⟩, fun h => h.2.2⟩
    · rw [List.flatMap_cons, List.flatMap_cons, ← ih.2 hnone]
      rfl
  | case2 d rest hd ih =>
    rw [List.flatMap_cons, List.flatMap_cons]
    rcases escaped_cases d with hplain | ⟨⟨tail, htail⟩, hlookup⟩
    · rw [hplain]
      change ((replaceDirectives ('%' :: d :: rest.flatMap escaped)).2 = [] ↔ _) ∧
        ((replaceDirectives ('%' :: d :: rest.flatMap escaped)).2 = [] →
          (replaceDirectives ('%' :: d :: rest.flatMap escaped)).1 = _)
      rw [replaceDirectives, if_neg hd, List.forall_mem_cons, LayoutItem.Supported]
      cases hlookup : ctimeRegex.lookup d with
      | none => simp
      | some regex =>
        refine ⟨?_, fun hnone => ?_⟩
        · rw [← ih.1]
          simp
        · rw [List.flatMap_cons, ← ih.2 hnone, LayoutItem.regexText, hlookup]
          rfl
    · -- what stands behind the `%` is a `\`
      rw [htail]
      have hslash : (replaceDirectives ('%' :: '\\' :: (tail ++ rest.flatMap escaped))).2 ≠ [] :=
        fun h => nomatch h
      refine ⟨iff_of_false hslash ?_, fun hnone => absurd hnone hslash⟩
      rw [List.forall_mem_cons, LayoutItem.Supported, hlookup]
      exact fun h => nomatch h.1
  | case3 c rest hcase ih =>
    by_cases hc : c = '%'
    · subst hc
      cases rest with
      | nil => exact ⟨by simp [layoutItems, LayoutItem.Supported, replaceDirectives, escaped,
          regexSpecialChars], fun _ => rfl⟩
      | cons d rest => exact absurd rfl (hcase d rest rfl)
    · rw [List.flatMap_cons, replaceDirectives_append (percent_notMem_escaped hc)]
      refine ⟨?_, fun hnone => ?_⟩
      · rw [ih.1, List.forall_mem_cons]
        exact ⟨fun h => ⟨trivial, h⟩, fun h => h.2⟩
      · rw [List.flatMap_cons, ← ih.2 hnone]
        rfl
  | case4 => exact ⟨by simp [replaceDirectives], fun _ => rfl⟩

/-- A layout is accepted when its directives are supported. -/
theorem regexForStrptimeLayout_ok {layout regex : String} :
    regexForStrptimeLayout layout = .ok regex ↔
      (∀ item ∈ layoutItems layout.toList, item.Supported) ∧
        regex = String.ofList ((layoutItems layout.toList).flatMap LayoutItem.regexText) := by
  obtain ⟨hiff, htext⟩ := replaceDirectives_escaped layout.toList
  rw [regexForStrptimeLayout, foldl_regexSpecialChars, ← hiff]
  dsimp only
  split_ifs with hnone
  · rw [Except.ok.injEq, htext hnone, and_iff_right hnone, eq_comm]
  · exact iff_of_false (fun h => nomatch h) fun h => hnone h.1

end Signoz.LogPipelines
