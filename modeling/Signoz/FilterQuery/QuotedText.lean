import Signoz.FilterQuery.Lexer
import Signoz.FilterQuery.WhereClause

/-!
# What is read back of a quoted text

A `QUOTED_TEXT` token may hold any text when a backslash is put before each backslash and each quote
of its own kind (`writeQuoted`). `trimQuotes` takes the quotes off, makes one
backslash of two and then `'` of `\'`, whichever quotes the token has. So every text comes back from
single quotes, and one comes back from double quotes exactly when it has neither a double quote nor
a backslash before a single quote in it (`trimQuotes_writeQuoted_iff`).
-/

namespace Signoz.FilterQuery

open Lexer Lib.MaximalMunch

/-- A backslash before each character that needs one. -/
def escapeWhere (special : Char → Bool) (s : List Char) : List Char :=
  s.flatMap fun c => if special c then ['\\', c] else [c]

/-- A text as a `QUOTED_TEXT` token between two `q`. -/
def writeQuoted (q : Char) (s : String) : String :=
  String.ofList (q :: (escapeWhere (fun c => c = '\\' || c = q) s.toList ++ [q]))

section

variable {special : Char → Bool} {c : Char}

theorem escapeWhere_special (h : special c = true) (s : List Char) :
    escapeWhere special (c :: s) = '\\' :: c :: escapeWhere special s := by
  rw [escapeWhere, List.flatMap_cons, if_pos h]
  rfl

theorem escapeWhere_plain (h : special c = false) (s : List Char) :
    escapeWhere special (c :: s) = c :: escapeWhere special s := by
  rw [escapeWhere, List.flatMap_cons, h]
  rfl

/-- What is escaped starts with a character that needs no backslash, or with a backslash. -/
theorem head?_escapeWhere (hc : c ≠ '\\') (s : List Char) :
    (escapeWhere special s).head? = some c ↔ special c = false ∧ s.head? = some c := by
  cases s with
  | nil => simp [escapeWhere]
  | cons d s =>
    cases hd : special d with
    | true =>
      rw [escapeWhere_special hd, List.head?_cons, List.head?_cons]
      constructor
      · exact fun h => absurd (Option.some.inj h).symm hc
      · rintro ⟨hplain, h⟩
        rw [Option.some.inj h, hplain] at hd
        cases hd
    | false =>
      rw [escapeWhere_plain hd, List.head?_cons, List.head?_cons]
      constructor
      · intro h
        exact ⟨Option.some.inj h ▸ hd, h⟩
      · exact And.right

end

/-! ## The loops of `trimQuotes` -/

theorem replacePair_cons {a b c x : Char} {ys : List Char} (h : ¬ (x = a ∧ ys.head? = some b)) :
    replacePair a b c (x :: ys) = x :: replacePair a b c ys := by
  cases ys with
  | nil => rfl
  | cons y ys => exact if_neg fun hxy => h ⟨hxy.1, congrArg some hxy.2⟩

theorem replacePair_pair (a b c : Char) (ys : List Char) :
    replacePair a b c (a :: b :: ys) = c :: replacePair a b c ys :=
  if_pos ⟨rfl, rfl⟩

theorem head?_replacePair (a : Char) (cs : List Char) :
    (replacePair a a a cs).head? = cs.head? := by
  cases cs with
  | nil => rfl
  | cons x ys =>
    by_cases h : x = a ∧ ys.head? = some a
    · obtain ⟨rfl, hys⟩ := h
      obtain ⟨ys, rfl⟩ := List.head?_eq_some_iff.1 hys
      rw [replacePair_pair]
      rfl
    · rw [replacePair_cons h]
      rfl

/-- The first loop leaves the backslashes before the quotes. -/
theorem replacePair_escapeWhere {q : Char} (hq : q ≠ '\\') (s : List Char) :
    replacePair '\\' '\\' '\\' (escapeWhere (fun c => c = '\\' || c = q) s) =
      escapeWhere (fun c => c = q) s := by
  induction s with
  | nil => rfl
  | cons c s ih =>
    by_cases hslash : c = '\\'
    · subst hslash
      rw [escapeWhere_special (by simp), escapeWhere_plain (by simpa using hq.symm),
        replacePair_pair, ih]
    · have hpair : ∀ cs : List Char, ¬ (c = '\\' ∧ cs.head? = some '\\') :=
        fun cs h => hslash h.1
      by_cases hquote : c = q
      · rw [escapeWhere_special (by simp [hquote]), escapeWhere_special (by simp [hquote]),
          replacePair_cons (by simp [hslash]), replacePair_cons (hpair _), ih]
      · rw [escapeWhere_plain (by simp [hslash, hquote]), escapeWhere_plain (by simp [hquote]),
          replacePair_cons (hpair _), ih]

/-- The second loop takes the backslashes before single quotes away again. -/
theorem replacePair_single (s : List Char) :
    replacePair '\\' '\'' '\'' (escapeWhere (fun c => c = '\'') s) = s := by
  induction s with
  | nil => rfl
  | cons c s ih =>
    by_cases hquote : c = '\''
    · subst hquote
      rw [escapeWhere_special (by simp), replacePair_pair, ih]
    · have hhead : (escapeWhere (fun c => c = '\'') s).head? ≠ some '\'' := by
        rw [Ne, head?_escapeWhere (by decide)]
        simp
      rw [escapeWhere_plain (by simp [hquote]), replacePair_cons fun h => hhead h.2, ih]

/-- What the second loop cannot read back from double quotes: a double quote, or a backslash before
a single quote. -/
def misreadInDoubleQuotes (s : List Char) : Prop := '"' ∈ s ∨ ['\\', '\''] <:+: s

theorem misread_cons {c : Char} {s : List Char} : misreadInDoubleQuotes (c :: s) ↔
    c = '"' ∨ c = '\\' ∧ s.head? = some '\'' ∨ misreadInDoubleQuotes s := by
  have hprefix : ['\\', '\''] <+: c :: s ↔ c = '\\' ∧ s.head? = some '\'' := by
    cases s with
    | nil => simp
    | cons d s => simp [eq_comm]
  rw [misreadInDoubleQuotes, misreadInDoubleQuotes, List.mem_cons, List.infix_cons_iff, hprefix,
    eq_comm]
  tauto

/-- The second loop knows nothing of double quotes, and takes a backslash of the text itself for one
that was put before a single quote. -/
theorem replacePair_double_iff (s : List Char) :
    replacePair '\\' '\'' '\'' (escapeWhere (fun c => c = '"') s) = s ↔
      ¬ misreadInDoubleQuotes s := by
  induction s with
  | nil => simp [escapeWhere, replacePair, misreadInDoubleQuotes]
  | cons c s ih =>
    rw [misread_cons]
    by_cases hquote : c = '"'
    · subst hquote
      rw [escapeWhere_special (by simp), replacePair_cons (by simp)]
      simp
    · rw [escapeWhere_plain (by simp [hquote])]
      by_cases hpair : c = '\\' ∧ s.head? = some '\''
      · obtain ⟨rfl, hhead⟩ := hpair
        obtain ⟨s', rfl⟩ := List.head?_eq_some_iff.1 hhead
        rw [escapeWhere_plain (by simp), replacePair_pair]
        simp
      · have hhead : ¬ (c = '\\' ∧ (escapeWhere (fun c => c = '"') s).head? = some '\'') := by
          rintro ⟨hc, h⟩
          exact hpair ⟨hc, ((head?_escapeWhere (by decide) s).1 h).2⟩
        rw [replacePair_cons hhead, List.cons.injEq, ih]
        simp [hquote, hpair]

/-! ## The token -/

/-- `trimQuotes` on a text between two quotes of one kind. -/
theorem trimQuotes_between {q : Char} (hq : q = '"' ∨ q = '\'') (cs : List Char) :
    trimQuotes (String.ofList (q :: (cs ++ [q]))) =
      String.ofList (replacePair '\\' '\'' '\'' (replacePair '\\' '\\' '\\' cs)) := by
  have hlen : 2 ≤ (q :: (cs ++ [q])).length := by simp
  have hlast : (q :: (cs ++ [q])).getLast? = some q := by
    rw [← List.cons_append, List.getLast?_concat]
  simp only [trimQuotes, String.toList_ofList, hlast, List.head?_cons, decide_eq_true hlen]
  rw [if_pos (by rcases hq with rfl | rfl <;> rfl), List.tail_cons, List.dropLast_concat]

/-- Unquoting undoes quoting: always in single quotes, and in double quotes exactly for the texts
that have neither a double quote nor a backslash before a single quote in them. -/
theorem trimQuotes_writeQuoted_iff (s : String) :
    trimQuotes (writeQuoted '\'' s) = s ∧
      (trimQuotes (writeQuoted '"' s) = s ↔ ¬ misreadInDoubleQuotes s.toList) := by
  constructor
  · rw [writeQuoted, trimQuotes_between (.inr rfl), replacePair_escapeWhere (by decide),
      replacePair_single, String.ofList_toList]
  · rw [writeQuoted, trimQuotes_between (.inl rfl), replacePair_escapeWhere (by decide),
      ← replacePair_double_iff, String.ext_iff, String.toList_ofList]

/-- A double quote in double quotes keeps its backslash. -/
theorem trimQuotes_double_quote :
    writeQuoted '"' "\"" = "\"\\\"\"" ∧ trimQuotes (writeQuoted '"' "\"") = "\\\"" ∧
      ¬ ∀ q, q = '"' ∨ q = '\'' → ∀ s, trimQuotes (writeQuoted q s) = s := by
  refine ⟨by decide, by decide, fun h => ?_⟩
  exact absurd (h '"' (.inl rfl) "\"") (by decide)

end Signoz.FilterQuery
