import Signoz.FilterQuery.QuotedText
import Signoz.Transition.MigrateCommon

/-!
# Quoted strings written and read back

A string of a v4 filter is written between single quotes with its quotes escaped (`escapeQuotes`).
The lexer ends the text at the first quote that no backslash stands before, and `trimQuotes` then
replaces two backslashes by one before it replaces an escaped quote. The string is read back exactly
when each backslash of it stands before a character that is neither a backslash nor a quote
(`survivesQuoting`).
-/

namespace Signoz.Transition

open FilterQuery FilterQuery.Lexer Lib.MaximalMunch

/-- Each backslash stands before a character that is neither a backslash nor a quote. -/
def survivesQuoting : List Char → Bool
  | [] => true
  | ['\\'] => false
  | '\\' :: c :: cs => c ≠ '\\' && c ≠ quote && survivesQuoting cs
  | _ :: cs => survivesQuoting cs

/-- What `trimQuotes` makes of the characters between the quotes. -/
def unescape (cs : List Char) : List Char :=
  replacePair '\\' quote quote (replacePair '\\' '\\' '\\' cs)

/-- What is read back of a string, in one pass over it. -/
def readBack : List Char → List Char
  | [] => []
  | '\\' :: c :: cs => if c = '\\' ∨ c = quote then c :: readBack cs else '\\' :: c :: readBack cs
  | c :: cs => c :: readBack cs

/-! ## What is read back -/

@[simp] theorem escapeQuotes_nil : escapeQuotes [] = [] := rfl

attribute [local simp] readBack survivesQuoting

theorem escapeQuotes_quote (s : List Char) :
    escapeQuotes (quote :: s) = '\\' :: quote :: escapeQuotes s := rfl

theorem escapeQuotes_cons {c : Char} (hc : c ≠ quote) (s : List Char) :
    escapeQuotes (c :: s) = c :: escapeQuotes s := by
  rw [escapeQuotes, List.flatMap_cons, if_neg hc]
  rfl

/-- An escaped string does not start with a quote. -/
theorem head?_escapeQuotes (s : List Char) : (escapeQuotes s).head? ≠ some quote := by
  cases s with
  | nil => nofun
  | cons c s =>
    by_cases hc : c = quote
    · rw [hc, escapeQuotes_quote]
      exact fun h => absurd (Option.some.inj h) (by decide)
    · rw [escapeQuotes_cons hc]
      exact fun h => hc (Option.some.inj h)

theorem unescape_cons {c : Char} (hc : c ≠ '\\') (cs : List Char) :
    unescape (c :: cs) = c :: unescape cs := by
  rw [unescape, replacePair_cons fun h => hc h.1, replacePair_cons fun h => hc h.1, unescape]

theorem unescape_escapeQuotes (s : List Char) : unescape (escapeQuotes s) = readBack s := by
  have hslash : '\\' ≠ quote := by decide
  have hquote : quote ≠ '\\' := hslash.symm
  induction s using readBack.induct with
  | case1 => rfl
  | case2 c cs hc ih =>
    rw [readBack, if_pos hc, ← ih]
    rcases hc with rfl | rfl
    · -- Two backslashes are one, and what is escaped does not go on with a quote.
      rw [escapeQuotes_cons hslash, escapeQuotes_cons hslash, unescape, replacePair_pair,
        replacePair_cons, unescape]
      rintro ⟨-, hhead⟩
      rw [head?_replacePair] at hhead
      exact head?_escapeQuotes cs hhead
    · rw [escapeQuotes_cons hslash, escapeQuotes_quote, unescape, replacePair_pair,
        replacePair_cons fun h => hquote h.1, replacePair_pair, unescape]
  | case3 c cs hc ih =>
    rw [not_or] at hc
    rw [readBack, if_neg (not_or.2 hc), ← ih, escapeQuotes_cons hslash, escapeQuotes_cons hc.2,
      unescape, replacePair_cons, replacePair_cons fun h => hc.1 h.1, replacePair_cons,
      replacePair_cons fun h => hc.1 h.1, unescape]
    · rintro ⟨-, h⟩
      exact hc.2 (Option.some.inj h)
    · rintro ⟨-, h⟩
      exact hc.1 (Option.some.inj h)
  | case4 c cs hpair ih =>
    by_cases hcq : c = quote
    · rw [hcq, escapeQuotes_quote, unescape, replacePair_cons, replacePair_cons fun h => hquote h.1,
        replacePair_pair, ← unescape, ih, readBack]
      · exact fun _ _ h => absurd h hquote
      · exact fun h => hquote (Option.some.inj h.2)
    · by_cases hcs : c = '\\'
      · -- A backslash with nothing behind it.
        cases cs with
        | nil =>
          rw [hcs]
          rfl
        | cons d cs => exact absurd rfl (hpair d cs hcs)
      · rw [escapeQuotes_cons hcq, unescape_cons hcs, ih, readBack]
        exact fun _ _ h => absurd h hcs

/-! ## Where the quoted text ends -/

theorem count_replacePair {a b : Char} (ha : a ≠ quote) (cs : List Char) :
    (replacePair a b b cs).count quote = cs.count quote := by
  induction cs using replacePair.induct a b with
  | case1 x y rest hxy ih =>
    obtain ⟨rfl, rfl⟩ := hxy
    rw [replacePair_pair, List.count_cons_of_ne ha, List.count_cons, ih, List.count_cons]
  | case2 x y rest hxy ih =>
    have hnot : ¬ (x = a ∧ (y :: rest).head? = some b) :=
      fun h => hxy ⟨h.1, Option.some.inj h.2⟩
    rw [replacePair_cons hnot, List.count_cons, ih]
    exact List.count_cons.symm
  | case3 cs hcs => rw [replacePair.eq_2 a b b cs hcs]

/-- No quote is lost in the reading. -/
theorem count_unescape (cs : List Char) : (unescape cs).count quote = cs.count quote := by
  rw [unescape, count_replacePair (by decide), count_replacePair (by decide)]

theorem count_escapeQuotes (s : List Char) : (escapeQuotes s).count quote = s.count quote := by
  induction s with
  | nil => rfl
  | cons c s ih =>
    by_cases hc : c = quote
    · rw [hc, escapeQuotes_quote, List.count_cons_of_ne (by decide), List.count_cons_self,
        List.count_cons_self, ih]
    · rw [escapeQuotes_cons hc, List.count_cons_of_ne hc, List.count_cons_of_ne hc, ih]

theorem closing_of_survives {s : List Char} (h : survivesQuoting s) (rest : List Char) :
    closing quote (escapeQuotes s ++ quote :: rest) = some ((escapeQuotes s).length + 1) := by
  have hslash : '\\' ≠ quote := by decide
  induction s using survivesQuoting.induct with
  | case1 => rfl
  | case2 => cases h
  | case3 c cs ih =>
    simp only [survivesQuoting, Bool.and_eq_true, decide_eq_true_eq] at h
    rw [escapeQuotes_cons hslash, escapeQuotes_cons h.1.2, List.cons_append, List.cons_append,
      closing, ih h.2]
    rfl
  | case4 c cs hone hpair ih =>
    rw [survivesQuoting] at h
    · by_cases hc : c = quote
      · rw [hc, escapeQuotes_quote, List.cons_append, List.cons_append, closing, ih h]
        rfl
      · have hcs : c ≠ '\\' := by
          rintro rfl
          cases cs with
          | nil => exact hone rfl rfl
          | cons d cs => exact hpair d cs rfl rfl
        rw [escapeQuotes_cons hc, List.cons_append, closing_cons hcs, if_neg hc, ih h]
        rfl
    · exact hone
    · exact hpair

theorem readBack_of_survives {s : List Char} (h : survivesQuoting s) : readBack s = s := by
  induction s using survivesQuoting.induct with
  | case1 => rfl
  | case2 => cases h
  | case3 c cs ih =>
    simp only [survivesQuoting, Bool.and_eq_true, decide_eq_true_eq] at h
    rw [readBack, if_neg (not_or.2 h.1), ih h.2]
  | case4 c cs hone hpair ih =>
    rw [survivesQuoting] at h
    · rw [readBack, ih h]
      exact hpair
    · exact hone
    · exact hpair

theorem length_readBack_le (s : List Char) : (readBack s).length ≤ s.length := by
  induction s using readBack.induct with
  | case1 => exact Nat.le_refl 0
  | case2 c cs hc ih =>
    rw [readBack, if_pos hc]
    simp only [List.length_cons]
    omega
  | case3 c cs hc ih =>
    rw [readBack, if_neg hc]
    simp only [List.length_cons]
    omega
  | case4 c cs hpair ih =>
    rw [readBack]
    · exact Nat.succ_le_succ ih
    · exact hpair

/-- A string that is read back as it was, from a text that ends where it should. -/
theorem survives_of_readBack {s rest : List Char} (hread : readBack s = s)
    (hclose : closing quote (escapeQuotes s ++ quote :: rest) =
      some ((escapeQuotes s).length + 1)) : survivesQuoting s := by
  have hslash : '\\' ≠ quote := by decide
  induction s using survivesQuoting.induct with
  | case1 => rfl
  | case2 =>
    -- The backslash at the end takes the closing quote with it.
    rw [escapeQuotes_cons hslash, escapeQuotes_nil, List.cons_append, List.nil_append,
      closing] at hclose
    obtain ⟨n, hn, hlen⟩ := Option.map_eq_some_iff.1 hclose
    obtain ⟨body, rest', -, rfl⟩ := exists_of_closing hn
    simp only [List.length_cons, List.length_nil] at hlen
    omega
  | case3 c cs ih =>
    by_cases hc : c = '\\' ∨ c = quote
    · -- One of the two characters is lost.
      have hlen := length_readBack_le cs
      rw [readBack, if_pos hc] at hread
      have hread := congrArg List.length hread
      simp only [List.length_cons] at hread
      omega
    · rw [readBack, if_neg hc] at hread
      rw [not_or] at hc
      rw [escapeQuotes_cons hslash, escapeQuotes_cons hc.2, List.cons_append, List.cons_append,
        closing] at hclose
      obtain ⟨n, hn, hlen⟩ := Option.map_eq_some_iff.1 hclose
      have hcs : survivesQuoting cs := by
        apply ih (List.cons.inj (List.cons.inj hread).2).2
        rw [hn]
        simp only [List.length_cons] at hlen
        congr 1
        omega
      simp only [survivesQuoting, hcs, hc.1, hc.2, decide_true, Bool.and_true, ne_eq,
        not_false_eq_true]
  | case4 c cs hone hpair ih =>
    rw [readBack] at hread
    · rw [survivesQuoting]
      · apply ih (List.cons.inj hread).2
        by_cases hc : c = quote
        · rw [hc, escapeQuotes_quote, List.cons_append, List.cons_append, closing] at hclose
          obtain ⟨n, hn, hlen⟩ := Option.map_eq_some_iff.1 hclose
          rw [hn]
          simp only [List.length_cons] at hlen
          congr 1
          omega
        · have hcs : c ≠ '\\' := by
            rintro rfl
            cases cs with
            | nil => exact hone rfl rfl
            | cons d cs => exact hpair d cs rfl rfl
          rw [escapeQuotes_cons hc, List.cons_append, closing_cons hcs, if_neg hc] at hclose
          obtain ⟨n, hn, hlen⟩ := Option.map_eq_some_iff.1 hclose
          rw [hn]
          simp only [List.length_cons] at hlen
          congr 1
          omega
      · exact hone
      · exact hpair
    · exact hpair

/-! ## The round trip -/

theorem trimQuotes_quoted (cs : List Char) :
    trimQuotes (String.ofList (quote :: (cs ++ [quote]))) = String.ofList (unescape cs) := by
  have hlast : (quote :: (cs ++ [quote])).getLast? = some quote := by
    rw [← List.cons_append, List.getLast?_concat]
  have hlen : 2 ≤ (quote :: (cs ++ [quote])).length := by simp
  have hquoted : (2 ≤ (quote :: (cs ++ [quote])).length &&
      (quote :: (cs ++ [quote])).head? = some '\'' &&
      (quote :: (cs ++ [quote])).getLast? = some '\'') = true := by
    rw [hlast, decide_eq_true hlen]
    rfl
  simp only [trimQuotes, String.toList_ofList]
  rw [if_pos (by rw [hquoted, Bool.or_true]), List.tail_cons, List.dropLast_concat]
  rfl

theorem quote_is_quote : quote = '"' ∨ quote = '\'' := .inr rfl

/-- A string that survives the quoting is one token, and is read back. -/
theorem next_quoted {s : List Char} (h : survivesQuoting s) (rest : List Char) :
    next rules (quote :: (escapeQuotes s ++ [quote]) ++ rest) =
      some (.quotedText, (quote :: (escapeQuotes s ++ [quote])).length) := by
  rw [List.cons_append, List.append_assoc, List.singleton_append, next_quote quote_is_quote,
    closing_of_survives h]
  simp

theorem trimQuotes_of_survives {s : List Char} (h : survivesQuoting s) :
    trimQuotes (String.ofList (quote :: (escapeQuotes s ++ [quote]))) = String.ofList s := by
  rw [trimQuotes_quoted, unescape_escapeQuotes, readBack_of_survives h]

/-- A quoted text that starts where a string was written, and is read back as the string, ends where
it should. -/
theorem survives_of_next {s rest : List Char} {n : Nat}
    (hnext : next rules (quote :: (escapeQuotes s ++ quote :: rest)) = some (.quotedText, n))
    (hread : trimQuotes (String.ofList ((quote :: (escapeQuotes s ++ quote :: rest)).take n)) =
      String.ofList s) : survivesQuoting s := by
  rw [next_quote quote_is_quote] at hnext
  obtain ⟨m, hclose, hm⟩ := Option.map_eq_some_iff.1 hnext
  cases hm
  obtain ⟨body, rest', hsplit, rfl⟩ := exists_of_closing hclose
  have hbody : unescape body = s := by
    have htake : (quote :: (body ++ quote :: rest')).take (body.length + 1 + 1) =
        quote :: (body ++ [quote]) := by
      rw [List.take_succ_cons, List.take_length_add_append]
      rfl
    rw [hsplit, htake, trimQuotes_quoted] at hread
    exact String.ofList_injective hread
  have hcount := count_unescape body
  rw [hbody, ← count_escapeQuotes] at hcount
  -- With another quote in it, or one less, it would not be the same string.
  have hwhole : body = escapeQuotes s := by
    rcases List.append_eq_append_iff.1 hsplit with ⟨as, rfl, has⟩ | ⟨bs, hbs, has⟩
    · cases as with
      | nil => exact List.append_nil _
      | cons a as =>
        obtain ⟨rfl, -⟩ := List.cons.inj has
        rw [List.count_append, List.count_cons_self] at hcount
        omega
    · cases bs with
      | nil => rw [hbs, List.append_nil]
      | cons b bs =>
        obtain ⟨rfl, -⟩ := List.cons.inj has
        rw [hbs, List.count_append, List.count_cons_self] at hcount
        omega
  subst hwhole
  apply survives_of_readBack _ hclose
  rw [← unescape_escapeQuotes, hbody]

end Signoz.Transition
