import Signoz.Lib.MaximalMunch

/-!
# The tokens of filter expressions

The lexer rules of `FilterQuery.g4`. The lexer takes the longest match, and of two rules with the
same match the first. What it cannot match it drops, and the callers do not look at the errors it
reports for that.
-/

namespace Signoz.FilterQuery

open Lib Lib.MaximalMunch

inductive TokenType where
  | lparen | rparen | lbrack | rbrack | comma
  | equals | notEquals | neq | lt | le | gt | ge
  | like | ilike | between | exists | regexp | contains | in
  | not | and | or
  | hasToken | has | hasAny | hasAll
  | bool | number | quotedText | key | ws | freeText
deriving DecidableEq

structure Token where
  type : TokenType
  text : String
deriving DecidableEq

/-! ## Rules -/

namespace Lexer

/-- A literal. -/
def literal : List Char → Regex Char
  | [] => .eps
  | c :: cs => .seq (.set fun d => d = c) (literal cs)

/-- A word in any case, given in upper case. -/
def keyword : List Char → Regex Char
  | [] => .eps
  | c :: cs => .seq (.set fun d => d = c || d = c.toLower) (keyword cs)

/-- `SIGN`. -/
def sign : Regex Char := .set fun c => c = '+' || c = '-'

/-- `DIGIT`. -/
def digit : Regex Char := .set Char.isDigit

/-- `[eE] SIGN? DIGIT+`. -/
def exponent : Regex Char :=
  .seq (.set fun c => c = 'e' || c = 'E') (.seq sign.opt digit.plus)

/-- `NUMBER`. -/
def number : Regex Char :=
  .alt
    (.seq sign.opt (.seq digit.plus
      (.seq (Regex.opt (.seq (literal ['.']) (.star digit))) exponent.opt)))
    (.seq sign.opt (.seq (literal ['.']) (.seq digit.plus exponent.opt)))

/-- What follows the opening quote of a `QUOTED_TEXT`. -/
def quotedRest (q : Char) : Regex Char :=
  .seq
    (.star (.alt (.set fun c => c ≠ q && c ≠ '\\')
      (.seq (.set fun c => c = '\\') (.set fun _ => true))))
    (.set fun c => c = q)

/-- A text between two `q`. -/
def quotedBy (q : Char) : Regex Char := .seq (.set fun c => c = q) (quotedRest q)

/-- `QUOTED_TEXT`. -/
def quotedText : Regex Char := .alt (quotedBy '"') (quotedBy '\'')

/-- The first character of a `SEGMENT`. -/
def startsSegment (c : Char) : Bool := c.isAlpha || c ∈ ['$', '_', '@', '\x7b', '#']

/-- The other characters of a `SEGMENT`. -/
def inSegment (c : Char) : Bool :=
  c.isAlpha || c.isDigit || c ∈ ['$', '_', '@', '#', '\x7b', '\x7d', ':', '-', '/']

/-- `SEGMENT`. -/
def segment : Regex Char := .seq (.set startsSegment) (.star (.set inSegment))

/-- `KEY`. -/
def key : Regex Char :=
  .seq segment (.star (.alt (.seq (literal ['.']) segment) (.alt (literal ['[', ']'])
    (.alt (literal ['[', '*', ']']) (.seq (literal ['.']) digit.plus)))))

def isBlank (c : Char) : Bool := c = ' ' || c = '\t' || c = '\r' || c = '\n'

/-- The characters that a `FREETEXT` has none of. -/
def reserved : List Char :=
  [' ', '\t', '\r', '\n', '=', '(', ')', '\'', '"', '<', '>', '!', ',', '[', ']']

/-- A character of a `FREETEXT`. -/
def isFree (c : Char) : Bool := c ∉ reserved

/-- The rules up to `BOOL`. -/
def fixedRules : Rules TokenType Char :=
  [(.lparen, literal ['(']),
   (.rparen, literal [')']),
   (.lbrack, literal ['[']),
   (.rbrack, literal [']']),
   (.comma, literal [',']),
   (.equals, .alt (literal ['=']) (literal ['=', '='])),
   (.notEquals, literal ['!', '=']),
   (.neq, literal ['<', '>']),
   (.lt, literal ['<']),
   (.le, literal ['<', '=']),
   (.gt, literal ['>']),
   (.ge, literal ['>', '=']),
   (.like, keyword ['L', 'I', 'K', 'E']),
   (.ilike, keyword ['I', 'L', 'I', 'K', 'E']),
   (.between, keyword ['B', 'E', 'T', 'W', 'E', 'E', 'N']),
   (.exists, .seq (keyword ['E', 'X', 'I', 'S', 'T']) (Regex.opt (keyword ['S']))),
   (.regexp, keyword ['R', 'E', 'G', 'E', 'X', 'P']),
   (.contains, .seq (keyword ['C', 'O', 'N', 'T', 'A', 'I', 'N']) (Regex.opt (keyword ['S']))),
   (.in, keyword ['I', 'N']),
   (.not, keyword ['N', 'O', 'T']),
   (.and, keyword ['A', 'N', 'D']),
   (.or, keyword ['O', 'R']),
   (.hasToken, keyword ['H', 'A', 'S', 'T', 'O', 'K', 'E', 'N']),
   (.has, keyword ['H', 'A', 'S']),
   (.hasAny, keyword ['H', 'A', 'S', 'A', 'N', 'Y']),
   (.hasAll, keyword ['H', 'A', 'S', 'A', 'L', 'L']),
   (.bool, .alt (keyword ['T', 'R', 'U', 'E']) (keyword ['F', 'A', 'L', 'S', 'E']))]

/-- The rules of the grammar, in its order. -/
def rules : Rules TokenType Char :=
  fixedRules ++ [(.number, number), (.quotedText, quotedText), (.key, key),
    (.ws, Regex.plus (.set isBlank)), (.freeText, Regex.plus (.set isFree))]

end Lexer

open Lexer

/-- The tokens of a text of characters, without blanks. -/
def scan (cs : List Char) : List Token :=
  ((lex rules cs).filter fun token => token.1 ≠ .ws).map fun token =>
    ⟨token.1, String.ofList token.2⟩

/-- The tokens of an expression. -/
def tokens (text : String) : List Token := scan text.toList

example : scan ['k', '<', '=', '4'] = [⟨.key, "k"⟩, ⟨.le, "<="⟩, ⟨.number, "4"⟩] := by
  decide

/-! ## Words -/

namespace Lexer

/-- The types of the tokens that are not words. -/
def delimiters : List TokenType :=
  [.lparen, .rparen, .lbrack, .rbrack, .comma, .equals, .notEquals, .neq, .lt, .le, .gt, .ge,
    .quotedText, .ws]

/-- A character that ends a word. -/
def isBreak (c : Char) : Bool := c = ' ' || c = '(' || c = ')' || c = ','

variable {b : Char}

theorem not_starts_of_isFree (hb : isFree b) :
    ∀ rule ∈ rules, rule.1 ∈ delimiters → ¬ rule.2.starts b := by
  simp only [isFree, reserved, decide_eq_true_eq, List.mem_cons, not_or] at hb
  simp [rules, fixedRules, delimiters, Regex.starts, Regex.nullable, Regex.plus, literal,
    quotedText, quotedBy, isBlank, hb]

/-- The words start with the characters of free text, and nothing else does. -/
theorem isFree_iff :
    ∀ rule ∈ rules, rule.2.starts b → (isFree b ↔ rule.1 ∉ delimiters) := by
  by_cases hb : isFree b
  · intro rule hr hs
    exact iff_of_true hb fun hmem => not_starts_of_isFree hb rule hr hmem hs
  · have hreserved : ∀ rule ∈ rules,
        rule.1 ∈ delimiters ∨ reserved.all fun c => !rule.2.starts c := by decide
    have hmem : b ∈ reserved := by simpa [isFree] using hb
    intro rule hr hs
    apply iff_of_false hb (not_not_intro _)
    rcases hreserved rule hr with hdelim | hnone
    · exact hdelim
    · have hnot := List.all_eq_true.1 hnone b hmem
      rw [hs] at hnot
      cases hnot

theorem rules_of_break {c : Char} (hc : isBreak c) :
    ∀ rule ∈ rules, rule.2.uses c → rule.1 ∈ delimiters := by
  simp only [isBreak, Bool.or_eq_true, decide_eq_true_eq] at hc
  rcases hc with ((rfl | rfl) | rfl) | rfl <;> decide

/-- A word is the same token before a character that ends it. -/
theorem next_word {w rest : List Char} (hfirst : w.head? = some b) (hb : isFree b)
    (hrest : ∀ c ∈ rest.head?, isBreak c) : next rules (w ++ rest) = next rules w := by
  obtain ⟨a, ha⟩ : ∃ a, w.getLast? = some a := by
    obtain ⟨w, rfl⟩ := List.head?_eq_some_iff.1 hfirst
    exact ⟨_, List.getLast?_cons⟩
  apply next_append hfirst ha
  intro rule hr hs c hc hpair
  exact not_starts_of_isFree hb rule hr
    (rules_of_break (hrest c hc) rule hr (Regex.uses_of_pairs hpair)) hs

/-- So it is before `]`, unless that closes a bracket of a key. -/
theorem next_word_rbrack {w rest : List Char} {b a : Char} (hfirst : w.head? = some b)
    (hb : isFree b) (hlast : w.getLast? = some a) (ha : a ≠ '[' ∧ a ≠ '*') :
    next rules (w ++ ']' :: rest) = next rules w := by
  have hrules : ∀ rule ∈ rules, rule.2.uses ']' → rule.1 ∈ delimiters ∨ rule.1 = .key := by
    decide
  have hkey : ∀ rule ∈ rules, rule.1 = .key → ¬ rule.2.pairs a ']' := by
    simp [rules, fixedRules, key, segment, Regex.pairs, Regex.ends, Regex.starts, literal,
      Regex.plus, Regex.nullable, digit, ha, startsSegment, inSegment]
  apply next_append hfirst hlast
  intro rule hr hs c hc hpair
  obtain rfl : ']' = c := Option.some.inj hc
  rcases hrules rule hr (Regex.uses_of_pairs hpair) with h | h
  · exact not_starts_of_isFree hb rule hr h hs
  · exact hkey rule hr h hpair

/-- A text that is one token. -/
def IsToken (type : TokenType) (w : List Char) : Prop := next rules w = some (type, w.length)

instance (type : TokenType) (w : List Char) : Decidable (IsToken type w) :=
  inferInstanceAs (Decidable (next rules w = some (type, w.length)))

variable {type : TokenType} {w : List Char}

/-- The start and the end of a token, by the rules of its type. -/
theorem IsToken.exists_rule (h : IsToken type w) :
    ∃ rule ∈ rules, rule.1 = type ∧ rule.2.Matches w ∧ w ≠ [] := by
  obtain ⟨hpos, ⟨r, hr, hm⟩, -⟩ := next_spec h
  have hmatch := (Regex.matches_of_munch hm).2
  rw [List.take_length] at hmatch
  exact ⟨_, hr, rfl, hmatch, List.length_pos_iff.1 hpos⟩

theorem IsToken.first (h : IsToken type w) (htype : type ∉ delimiters) :
   ∃ b, w.head? = some b ∧ isFree b := by
  obtain ⟨rule, hr, rfl, hm, hne⟩ := h.exists_rule
  have hb := List.head?_eq_some_head hne
  exact ⟨_, hb, (isFree_iff rule hr (Regex.starts_of_matches hm _ hb)).2 htype⟩

/-- The value tokens that are words. -/
def wordValues : List TokenType := [.number, .bool, .key]

theorem last_of_matches {rule : TokenType × Regex Char} (hr : rule ∈ rules)
    (htype : rule.1 ∈ wordValues) (hm : rule.2.Matches w) (hne : w ≠ []) :
    ∃ a, w.getLast? = some a ∧ a ≠ '[' ∧ a ≠ '*' := by
  have hends : ∀ rule ∈ rules, rule.1 ∈ wordValues → ¬ rule.2.ends '[' ∧ ¬ rule.2.ends '*' := by
    decide
  have ha := List.getLast?_eq_some_getLast hne
  have hend := Regex.ends_of_matches hm _ ha
  refine ⟨_, ha, ?_, ?_⟩
  · rintro heq
    exact (hends rule hr htype).1 (heq ▸ hend)
  · rintro heq
    exact (hends rule hr htype).2 (heq ▸ hend)

theorem IsToken.last (h : IsToken type w) (htype : type ∈ wordValues) :
   ∃ a, w.getLast? = some a ∧ a ≠ '[' ∧ a ≠ '*' := by
  obtain ⟨rule, hr, rfl, hm, hne⟩ := h.exists_rule
  exact last_of_matches hr htype hm hne

/-- Where a value may end. -/
def isValueEnd (c : Char) : Bool := c = ' ' || c = ')' || c = ',' || c = ']'

theorem next_value {w rest : List Char} {b a : Char} (hfirst : w.head? = some b) (hb : isFree b)
    (hlast : w.getLast? = some a) (ha : a ≠ '[' ∧ a ≠ '*') (hrest : ∀ c ∈ rest.head?, isValueEnd c) :
    next rules (w ++ rest) = next rules w := by
  cases rest with
  | nil => rw [List.append_nil]
  | cons c rest =>
    have hc := hrest c rfl
    by_cases hbrack : c = ']'
    · rw [hbrack]
      exact next_word_rbrack hfirst hb hlast ha
    · apply next_word hfirst hb
      rintro _ ⟨⟩
      simp only [isValueEnd, hbrack, decide_false, Bool.or_false, Bool.or_eq_true,
        decide_eq_true_eq] at hc
      simp only [isBreak, Bool.or_eq_true, decide_eq_true_eq]
      tauto

theorem scan_of_next {w rest : List Char} (h : next rules (w ++ rest) = some (type, w.length))
    (hws : type ≠ .ws) :
    scan (w ++ rest) = ⟨type, String.ofList w⟩ :: scan rest := by
  rw [scan, lex_of_next h, List.filter_cons, if_pos (decide_eq_true hws)]
  rfl

theorem exists_next_of_isFree (hb : isFree b) (cs : List Char) :
    ∃ type n, next rules (b :: cs) = some (type, n) ∧ type ∉ delimiters := by
  have hmem : ((TokenType.freeText, Regex.plus (.set isFree)) : TokenType × Regex Char) ∈ rules := by
    simp [rules]
  have hmatch : (Regex.plus (.set isFree)).Matches [b] := .seq (u := [b]) (.set hb) .nil
  cases hnext : next rules (b :: cs) with
  | none =>
    have hprefix : [b] <+: b :: cs := ⟨cs, rfl⟩
    obtain ⟨n, hn, hle⟩ := Regex.exists_munch hprefix hmatch
    have hzero := next_eq_none_iff.1 hnext _ hmem n hn
    rw [hzero] at hle
    exact absurd hle (Nat.not_succ_le_zero 0)
  | some token =>
    obtain ⟨type, n⟩ := token
    obtain ⟨hpos, ⟨r, hr, hm⟩, -⟩ := next_spec hnext
    refine ⟨type, n, rfl, ?_⟩
    have hword := (Regex.matches_of_munch hm).2
    obtain ⟨n, rfl⟩ := Nat.exists_eq_succ_of_ne_zero hpos.ne'
    exact (isFree_iff _ hr (Regex.starts_of_matches hword b rfl)).1 hb

variable {cs : List Char}

theorem scan_eq_of_next {n : Nat} (h : next rules cs = some (type, n)) (hws : type ≠ .ws) :
    scan cs = ⟨type, String.ofList (cs.take n)⟩ :: scan (cs.drop n) := by
  obtain ⟨-, ⟨r, -, hm⟩, -⟩ := next_spec h
  have hlen : (cs.take n).length = n := by
    rw [List.length_take, Nat.min_eq_left (Regex.matches_of_munch hm).1]
  have hsplit := List.take_append_drop n cs
  have hnext : next rules (cs.take n ++ cs.drop n) = some (type, (cs.take n).length) := by
    rw [hsplit, hlen]
    exact h
  rw [← scan_of_next hnext hws, hsplit]

theorem isBlank_not_free (b : Char) (h : isBlank b) : ¬ isFree b := by
  simp only [isBlank, Bool.or_eq_true, decide_eq_true_eq] at h
  rcases h with ((rfl | rfl) | rfl) | rfl <;> decide

theorem scan_word {w rest : List Char} (h : IsToken type w) (htype : type ∉ delimiters)
    (hrest : ∀ c ∈ rest.head?, isBreak c) :
    scan (w ++ rest) = ⟨type, String.ofList w⟩ :: scan rest := by
  obtain ⟨b, hfirst, hb⟩ := h.first htype
  apply scan_of_next
  · rw [next_word hfirst hb hrest]
    exact h
  · rintro rfl
    exact htype (by decide)

theorem scan_value {w rest : List Char} (h : IsToken type w) (htype : type ∈ wordValues)
    (hrest : ∀ c ∈ rest.head?, isValueEnd c) :
    scan (w ++ rest) = ⟨type, String.ofList w⟩ :: scan rest := by
  have hword : ∀ type ∈ wordValues, type ∉ delimiters ∧ type ≠ .ws := by decide
  obtain ⟨b, hfirst, hb⟩ := h.first (hword type htype).1
  obtain ⟨a, hlast, ha⟩ := h.last htype
  apply scan_of_next
  · rw [next_value hfirst hb hlast ha hrest]
    exact h
  · exact (hword type htype).2

/-! ## Numbers -/

theorem matches_digits {ds : List Char} (h : ∀ d ∈ ds, d.isDigit) :
    (Regex.star digit).Matches ds := by
  induction ds with
  | nil => exact .nil
  | cons d ds ih =>
    obtain ⟨hd, hds⟩ := List.forall_mem_cons.1 h
    exact .cons (u := [d]) (.set hd) (ih hds)

theorem isToken_number (h : number.Matches w) : IsToken .number w := by
  have hne : w ≠ [] := by
    rintro rfl
    exact absurd (Regex.matches_nil_iff.1 h) Bool.false_ne_true
  have hstarts : ∀ rule ∈ fixedRules, ∀ b, rule.2.starts b → ¬ number.starts b := by
    simp only [fixedRules, literal, keyword, Regex.starts, Regex.nullable, List.forall_mem_cons,
      Bool.or_eq_true, Bool.false_and, Bool.or_false, decide_eq_true_eq, forall_eq_or_imp,
      forall_eq, or_self, or_assoc, List.not_mem_nil, IsEmpty.forall_iff, implies_true, and_true]
    and_intros <;> decide
  obtain ⟨b, w, rfl⟩ := List.exists_cons_of_ne_nil hne
  have hb := Regex.starts_of_matches h b rfl
  have hsplit : rules = fixedRules ++ (.number, number) :: [(.quotedText, quotedText), (.key, key),
      (.ws, Regex.plus (.set isBlank)), (.freeText, Regex.plus (.set isFree))] := rfl
  rw [IsToken, hsplit]
  apply next_of_matches hne h
  intro rule hr
  exact Regex.not_matches_of_not_starts (fun hs => hstarts rule hr b hs hb)

theorem isToken_int (n : Int) : IsToken .number (toString n).toList := by
  have hnat : ∀ (s : List Char) (m : Nat), (Regex.opt sign).Matches s →
      number.Matches (s ++ m.repr.toList) := by
    intro s m hs
    have hdigits : ∀ d ∈ m.repr.toList, d.isDigit := by
      rw [Nat.repr_eq_ofList_toDigits, String.toList_ofList]
      exact fun d hd => Nat.isDigit_of_mem_toDigits (by decide) (by decide) hd
    have hne : m.repr.toList ≠ [] := by
      rw [Nat.repr_eq_ofList_toDigits, String.toList_ofList]
      exact Nat.toDigits_ne_nil
    obtain ⟨d, ds, hds⟩ := List.exists_cons_of_ne_nil hne
    rw [hds] at hdigits ⊢
    obtain ⟨hd, hrest⟩ := List.forall_mem_cons.1 hdigits
    have hplus : digit.plus.Matches (d :: ds) := .seq (u := [d]) (.set hd) (matches_digits hrest)
    have hempty : ∀ r : Regex Char, r.opt.Matches [] := fun r => Regex.matches_opt.2 (.inl rfl)
    have hbody := Regex.Matches.seq hplus (.seq (hempty (.seq (literal ['.']) (.star digit))) (hempty exponent))
    rw [List.append_nil, List.append_nil] at hbody
    exact .left (.seq hs hbody)
  apply isToken_number
  rw [Int.toString_eq_repr, Int.repr_eq_if]
  split
  · exact hnat [] _ (Regex.matches_opt.2 (.inl rfl))
  · rw [String.toList_append]
    exact hnat ['-'] _ (Regex.matches_opt.2 (.inr (.set rfl)))

/-! ## Blanks -/

theorem rule_of_isBlank (hb : isBlank b) :
    ∀ rule ∈ rules, rule.2.starts b → rule.1 = .ws := by
  simp only [isBlank, Bool.or_eq_true, decide_eq_true_eq] at hb
  rcases hb with ((rfl | rfl) | rfl) | rfl <;> decide

theorem next_blanks (h : ∀ c ∈ b :: w, isBlank c) :
    next rules (b :: w) = some (.ws, (b :: w).length) := by
  have hstar : ∀ w : List Char, (∀ c ∈ w, isBlank c) →
      (Regex.star (.set isBlank)).Matches w := by
    intro w hw
    induction w with
    | nil => exact .nil
    | cons c w ih =>
      obtain ⟨hc, hw⟩ := List.forall_mem_cons.1 hw
      exact .cons (u := [c]) (.set hc) (ih hw)
  obtain ⟨hb, hw⟩ := List.forall_mem_cons.1 h
  have hmatch : (Regex.plus (.set isBlank)).Matches (b :: w) :=
    .seq (u := [b]) (.set hb) (hstar w hw)
  have hbefore : ∀ rule ∈ fixedRules ++ [(TokenType.number, number), (.quotedText, quotedText),
      (.key, key)], rule.1 ≠ .ws := by decide
  have hsplit : rules = (fixedRules ++ [(.number, number), (.quotedText, quotedText),
      (.key, key)]) ++ (.ws, Regex.plus (.set isBlank)) :: [(.freeText, .plus (.set isFree))] := rfl
  rw [hsplit]
  apply next_of_matches (List.cons_ne_nil b w) hmatch
  intro rule hr
  apply Regex.not_matches_of_not_starts
  intro hs
  apply hbefore rule hr
  exact rule_of_isBlank hb rule (hsplit ▸ List.mem_append_left _ hr) hs

theorem scan_blanks {w rest : List Char} (hw : ∀ c ∈ w, isBlank c)
    (hrest : ∀ c ∈ rest.head?, ¬ isBlank c) : scan (w ++ rest) = scan rest := by
  cases w with
  | nil => rfl
  | cons b w =>
    have hb := (List.forall_mem_cons.1 hw).1
    have hpairs : ∀ rule ∈ rules, rule.1 = .ws → ∀ a c, rule.2.pairs a c → isBlank c := by
      simp [rules, fixedRules, Regex.pairs, Regex.plus, Regex.starts, Regex.ends]
    have hnext : next rules (b :: w ++ rest) = some (.ws, (b :: w).length) := by
      rw [← next_blanks hw]
      apply next_append rfl List.getLast?_cons
      intro rule hr hs c hc hpair
      exact hrest c hc (hpairs rule hr (rule_of_isBlank hb rule hr hs) _ c hpair)
    rw [scan, lex_of_next hnext]
    rfl

theorem scan_dropWhile (cs : List Char) : scan (cs.dropWhile isBlank) = scan cs := by
  have hhead : ∀ c ∈ (cs.dropWhile isBlank).head?, ¬ isBlank c := by
    intro c hc
    have hnot := List.head?_dropWhile_not isBlank cs
    rw [hc] at hnot
    simpa using hnot
  have hscan := scan_blanks (w := cs.takeWhile isBlank) (List.all_eq_true.1 List.all_takeWhile) hhead
  rw [List.takeWhile_append_dropWhile] at hscan
  exact hscan.symm

/-- A blank is skipped. -/
theorem scan_blank (rest : List Char) : scan (' ' :: rest) = scan rest := by
  rw [← scan_dropWhile (' ' :: rest), List.dropWhile_cons_of_pos rfl, scan_dropWhile]

/-- The first token of a text that starts, behind blanks, with a word: what it is when it is read as
the whole text. -/
theorem isToken_of_scan {w l rest : List Char} (hdrop : w.dropWhile isBlank = b :: l)
    (hb : isFree b) (hrest : ∀ c ∈ rest.head?, isValueEnd c) {t : Token} {ts : List Token}
    (hscan : scan (w ++ rest) = t :: ts) :
    t.type ∉ delimiters ∧
      (t.text = String.ofList w → t.type ∈ wordValues → IsToken t.type w) := by
  have happend : (w ++ rest).dropWhile isBlank = b :: (l ++ rest) := by
    rw [List.dropWhile_append, hdrop]
    rfl
  obtain ⟨type, n, hnext, htype⟩ := exists_next_of_isFree hb (l ++ rest)
  rw [← scan_dropWhile, happend, scan_eq_of_next hnext fun h => htype (by rw [h]; decide)] at hscan
  obtain ⟨rfl, -⟩ := List.cons.inj hscan
  refine ⟨htype, fun htext hword => ?_⟩
  obtain ⟨hpos, ⟨r, hr, hm⟩, -⟩ := next_spec hnext
  obtain ⟨hle, hmatch⟩ := Regex.matches_of_munch hm
  have htake : (b :: (l ++ rest)).take n = w := String.ofList_injective htext
  -- The text starts with the token's first character, which is no blank.
  have hw : w = b :: l := by
    obtain ⟨n, rfl⟩ := Nat.exists_eq_succ_of_ne_zero hpos.ne'
    rw [← hdrop, ← htake, List.take_succ_cons, List.dropWhile_cons_of_neg]
    intro hblank
    exact absurd hb ((isBlank_not_free b) hblank)
  have hlen : n = w.length := by
    rw [← htake, List.length_take, Nat.min_eq_left hle]
  have hfirst : w.head? = some b := by
    rw [hw]
    rfl
  rw [htake] at hmatch
  obtain ⟨a, hlast, ha⟩ := last_of_matches hr hword hmatch (by rw [hw]; exact List.cons_ne_nil b l)
  rw [← List.cons_append, ← hw, next_value hfirst hb hlast ha hrest, hlen] at hnext
  exact hnext

/-! ## Punctuation -/

/-- The tokens of one character that no token goes on with. -/
def punctuation : List (TokenType × Char) :=
  [(.lparen, '('), (.rparen, ')'), (.lbrack, '['), (.rbrack, ']'), (.comma, ',')]

theorem scan_punctuation {p : Char} (h : (type, p) ∈ punctuation) (rest : List Char) :
   scan (p :: rest) = ⟨type, String.ofList [p]⟩ :: scan rest := by
  have htype : ∀ t ∈ punctuation, ∀ rule ∈ rules, rule.2.starts t.2 → rule.1 = t.1 := by decide
  have hone : ∀ t ∈ punctuation, next rules [t.2] = some (t.1, 1) ∧ t.1 ≠ .ws := by decide
  have hpairs : ∀ t ∈ punctuation, ∀ rule ∈ rules, rule.1 = t.1 → ∀ a c, ¬ rule.2.pairs a c := by
    simp [punctuation, rules, fixedRules, Regex.pairs, Regex.starts, literal]
  have hnext : next rules ([p] ++ rest) = some (type, 1) := by
    rw [← (hone _ h).1]
    apply next_append rfl rfl
    intro rule hr hs c _
    exact hpairs _ h rule hr (htype _ h rule hr hs) p c
  exact scan_of_next hnext (hone _ h).2

/-- The comparison signs, before a blank. -/
def signs : List (TokenType × List Char) :=
  [(.equals, ['=']), (.notEquals, ['!', '=']), (.lt, ['<']), (.le, ['<', '=']), (.gt, ['>']),
    (.ge, ['>', '='])]

theorem scan_sign (h : (type, w) ∈ signs) (rest : List Char) :
    scan (w ++ ' ' :: rest) = ⟨type, String.ofList w⟩ :: scan rest := by
  have hone : ∀ t ∈ signs, next rules t.2 = some (t.1, t.2.length) ∧ t.1 ≠ .ws := by decide
  have hends : ∀ t ∈ signs, ∀ rule ∈ rules,
      t.2.head?.any rule.2.starts → ¬ t.2.getLast?.any fun a => rule.2.pairs a ' ' := by decide
  have hne : ∀ t ∈ signs, t.2 ≠ [] := by decide
  have hb := List.head?_eq_some_head (hne _ h)
  have ha := List.getLast?_eq_some_getLast (hne _ h)
  have hnext : next rules (w ++ ' ' :: rest) = some (type, w.length) := by
    rw [← (hone _ h).1]
    apply next_append hb ha
    intro rule hr hs c hc
    obtain rfl : ' ' = c := Option.some.inj hc
    have hend := hends _ h rule hr
    simp only [hb, ha, Option.any_some] at hend
    exact hend hs
  rw [scan_of_next hnext (hone _ h).2, scan_blank]

/-! ## Quoted texts -/

/-- Where the quote that closes a text is, counted from behind the one that opens it. -/
def closing (q : Char) : List Char → Option Nat
  | [] | ['\\'] => none
  | '\\' :: _ :: cs => (closing q cs).map (· + 2)
  | c :: cs => if c = q then some 1 else (closing q cs).map (· + 1)

attribute [local simp] closing

attribute [elab_as_elim] closing.induct

theorem closing_cons {q c : Char} (hc : c ≠ '\\') (cs : List Char) :
    closing q (c :: cs) = if c = q then some 1 else (closing q cs).map (· + 1) := by
  rw [closing]
  · rintro rfl
    exact absurd rfl hc
  · rintro _ _ rfl
    exact absurd rfl hc

variable {q : Char}

/-- The quote that closes a text is there. -/
theorem exists_of_closing {n : Nat} (h : closing q cs = some n) :
    ∃ body rest, cs = body ++ q :: rest ∧ n = body.length + 1 := by
  induction cs using closing.induct q generalizing n with
  | case1 => cases h
  | case2 => cases h
  | case3 c cs ih =>
    rw [closing] at h
    obtain ⟨m, hm, rfl⟩ := Option.map_eq_some_iff.1 h
    obtain ⟨body, rest, rfl, rfl⟩ := ih hm
    exact ⟨'\\' :: c :: body, rest, rfl, rfl⟩
  | case4 cs hone hpair =>
    rw [closing, if_pos rfl] at h
    · cases h
      exact ⟨[], cs, rfl, rfl⟩
    · exact hone
    · exact hpair
  | case5 c cs hone hpair hc ih =>
    rw [closing, if_neg hc] at h
    · obtain ⟨m, hm, rfl⟩ := Option.map_eq_some_iff.1 h
      obtain ⟨body, rest, rfl, rfl⟩ := ih hm
      exact ⟨c :: body, rest, rfl, rfl⟩
    · exact hone
    · exact hpair

theorem matches_quotedRest {q c : Char} :
    (quotedRest q).Matches (c :: w) ↔
      c = q ∧ w = [] ∨ (c ≠ q ∧ c ≠ '\\') ∧ (quotedRest q).Matches w ∨
        c = '\\' ∧ ∃ d v, w = d :: v ∧ (quotedRest q).Matches v := by
  rw [quotedRest, Regex.matches_star_seq_cons, Regex.matches_set]
  constructor
  · rintro (⟨d, hd, hw⟩ | ⟨u, v, rfl, hu, hv⟩)
    · obtain ⟨rfl, rfl⟩ := List.cons.inj hw
      exact .inl ⟨of_decide_eq_true hd, rfl⟩
    · rcases Regex.matches_alt.1 hu with hu | hu
      · obtain ⟨d, hd, hcu⟩ := Regex.matches_set.1 hu
        obtain ⟨rfl, rfl⟩ := List.cons.inj hcu
        simp only [Bool.and_eq_true, decide_eq_true_eq] at hd
        exact .inr (.inl ⟨hd, hv⟩)
      · obtain ⟨x, y, hxy, hx, hy⟩ := Regex.matches_seq.1 hu
        obtain ⟨d, hd, rfl⟩ := Regex.matches_set.1 hx
        obtain ⟨e, -, rfl⟩ := Regex.matches_set.1 hy
        obtain ⟨rfl, rfl⟩ := List.cons.inj hxy
        exact .inr (.inr ⟨of_decide_eq_true hd, e, v, rfl, hv⟩)
  · rintro (⟨rfl, rfl⟩ | ⟨hc, hw⟩ | ⟨rfl, d, v, rfl, hv⟩)
    · exact .inl ⟨c, decide_eq_true rfl, rfl⟩
    · refine .inr ⟨[], w, rfl, .left (.set ?_), hw⟩
      simpa using hc
    · exact .inr ⟨[d], v, rfl, .right (.seq (u := ['\\']) (.set rfl) (.set rfl)), hv⟩

/-- A text that no quote closes may still be closed. -/
theorem exists_matches_of_closing_none (h : closing q cs = none) :
    ∃ v, (quotedRest q).Matches (cs ++ v) := by
  induction cs using closing.induct q with
  | case1 => exact ⟨[q], matches_quotedRest.2 (.inl ⟨rfl, rfl⟩)⟩
  | case2 =>
    have hclosed : (quotedRest q).Matches [q] := matches_quotedRest.2 (.inl ⟨rfl, rfl⟩)
    exact ⟨[q, q], matches_quotedRest.2 (.inr (.inr ⟨rfl, q, [q], rfl, hclosed⟩))⟩
  | case3 c cs ih =>
    rw [closing, Option.map_eq_none_iff] at h
    obtain ⟨v, hv⟩ := ih h
    exact ⟨v, matches_quotedRest.2 (.inr (.inr ⟨rfl, c, cs ++ v, rfl, hv⟩))⟩
  | case4 cs hone hpair =>
    rw [closing, if_pos rfl] at h
    · cases h
    · exact hone
    · exact hpair
  | case5 c cs hone hpair hc ih =>
    rw [closing, if_neg hc, Option.map_eq_none_iff] at h
    · obtain ⟨v, hv⟩ := ih h
      have hcs : c ≠ '\\' := by
        rintro rfl
        cases cs with
        | nil => exact hone rfl rfl
        | cons d cs => exact hpair d cs rfl rfl
      exact ⟨v, matches_quotedRest.2 (.inr (.inl ⟨⟨hc, hcs⟩, hv⟩))⟩
    · exact hone
    · exact hpair

theorem nullable_deriv_quotedRest {q c : Char} (hc : c ≠ q) :
    ((quotedRest q).deriv c).nullable = false := by
  rw [← Bool.not_eq_true, ← Regex.matches_nil_iff, Regex.matches_deriv, matches_quotedRest]
  rintro (⟨h, -⟩ | ⟨-, h⟩ | ⟨-, d, v, h, -⟩)
  · exact hc h
  · exact absurd (Regex.matches_nil_iff.1 h) Bool.false_ne_true
  · cases h

theorem munch_quotedRest (hq : q ≠ '\\') (cs : List Char) :
    (quotedRest q).munch cs = closing q cs := by
  have hnil : (quotedRest q).nullable = false := rfl
  induction cs using closing.induct q with
  | case1 => rfl
  | case2 =>
    rw [Regex.munch_cons hnil, Regex.munch, nullable_deriv_quotedRest hq.symm]
    rfl
  | case3 d cs ih =>
    -- The backslash takes the next character with it.
    have hwords : ∀ w, (((quotedRest q).deriv '\\').deriv d).Matches w ↔
        (quotedRest q).Matches w := by
      intro w
      rw [Regex.matches_deriv, Regex.matches_deriv, matches_quotedRest]
      simp [hq.symm]
    rw [Regex.munch_cons hnil, Regex.munch_cons (nullable_deriv_quotedRest hq.symm),
      Regex.munch_congr hwords, ih, closing, Option.map_map]
    rfl
  | case4 cs hone hpair =>
    have hwords : ∀ w, ((quotedRest q).deriv q).Matches w ↔ Regex.eps.Matches w := by
      intro w
      rw [Regex.matches_deriv, matches_quotedRest, Regex.matches_eps]
      simp [hq]
    have heps : Regex.eps.munch cs = some 0 :=
      Regex.munch_eq_some_iff.2 ⟨Nat.zero_le _, .eps, fun u _ hu => by
        rw [Regex.matches_eps.1 hu]
        exact Nat.le_refl 0⟩
    rw [Regex.munch_cons hnil, Regex.munch_congr hwords, heps, closing_cons hq, if_pos rfl]
    rfl
  | case5 c cs hone hpair hc ih =>
    have hslash : c ≠ '\\' := by
      rintro rfl
      cases cs with
      | nil => exact hone rfl rfl
      | cons d cs => exact hpair d cs rfl rfl
    have hwords : ∀ w, ((quotedRest q).deriv c).Matches w ↔ (quotedRest q).Matches w := by
      intro w
      rw [Regex.matches_deriv, matches_quotedRest]
      simp [hc, hslash]
    rw [Regex.munch_cons hnil, Regex.munch_congr hwords, ih, closing_cons hslash, if_neg hc]

theorem matches_quotedBy {p c : Char} :
    (quotedBy p).Matches (c :: w) ↔ c = p ∧ (quotedRest p).Matches w := by
  rw [quotedBy, Regex.matches_seq]
  constructor
  · rintro ⟨u, v, h, hu, hv⟩
    obtain ⟨d, hd, rfl⟩ := Regex.matches_set.1 hu
    obtain ⟨rfl, rfl⟩ := List.cons.inj h
    exact ⟨of_decide_eq_true hd, hv⟩
  · rintro ⟨rfl, hw⟩
    exact ⟨[c], w, rfl, .set (decide_eq_true rfl), hw⟩

/-- A text that starts with a quote is a quoted text up to the quote that closes it. -/
theorem next_quote (hq : q = '"' ∨ q = '\'') (cs : List Char) :
    next rules (q :: cs) = (closing q cs).map fun n => (.quotedText, n + 1) := by
  have hslash : q ≠ '\\' := by
    rcases hq with rfl | rfl <;> decide
  have hwords : ∀ w, (quotedText.deriv q).Matches w ↔ (quotedRest q).Matches w := by
    intro w
    rw [Regex.matches_deriv, quotedText, Regex.matches_alt, matches_quotedBy, matches_quotedBy]
    rcases hq with rfl | rfl <;> simp
  have hmunch : quotedText.munch (q :: cs) = (closing q cs).map (· + 1) := by
    rw [Regex.munch_cons rfl, Regex.munch_congr hwords, munch_quotedRest hslash]
  have hothers : ∀ rule ∈ (fixedRules ++ [(.number, number)]) ++ [(.key, key),
      (.ws, .plus (.set isBlank)), (.freeText, .plus (.set isFree))],
      ¬ rule.2.starts q ∧ rule.2.nullable = false := by
    rcases hq with rfl | rfl <;> decide
  have hsplit : rules = (fixedRules ++ [(.number, number)]) ++ (.quotedText, quotedText) ::
      [(.key, key), (.ws, .plus (.set isBlank)), (.freeText, .plus (.set isFree))] := rfl
  rw [hsplit, next_of_only, hmunch]
  · cases closing q cs <;> rfl
  · intro rule hr
    exact Regex.munch_cons_of_not_starts (hothers rule hr).1 (hothers rule hr).2

/-- What a text holds from a quote on that is not closed is dropped. -/
theorem scan_of_unclosed (hq : q = '"' ∨ q = '\'') (h : closing q cs = none) :
   scan (q :: cs) = [] := by
  have hnext : next rules (q :: cs) = none := by
    rw [next_quote hq, h]
    rfl
  obtain ⟨v, hv⟩ := exists_matches_of_closing_none h
  have hmatch : quotedText.Matches (q :: cs ++ v) := by
    rw [quotedText, List.cons_append, Regex.matches_alt, matches_quotedBy, matches_quotedBy]
    rcases hq with rfl | rfl
    · exact .inl ⟨rfl, hv⟩
    · exact .inr ⟨rfl, hv⟩
  have hmem : ((TokenType.quotedText, quotedText) : TokenType × Regex Char) ∈ rules := by
    simp [rules]
  rw [scan, lex_of_unfinished hmem hmatch hnext]
  rfl

end Lexer

end Signoz.FilterQuery
