import Signoz.Lib.CharLists
import Signoz.Lib.MaximalMunch

/-!
# Conditions of SQL

A condition as SQL reads it: its tokens, where two minus signs start a comment that goes on to the
end of the line, and the expression that the tokens stand for. `OR` binds weakest, then `AND`,
`NOT`, comparisons and `IN`, sums, products and signs; sums and products associate to the left.

`Reads level ts e rest` says that the tokens `ts` start with an expression of the level, up to
`rest`. No number or column is read twice or left out (`Reads.atoms`).
-/

namespace Lib.SqlExpression

open scoped Lib.CharLists

open MaximalMunch

/-! ## Tokens -/

/-- The kinds of words. -/
inductive TokenKind where
  | lparen | rparen | comma | comparison
  | plus | minus | star | slash | percent
  | not | and | or | in
  | number | name | blank | comment
deriving DecidableEq

/-- A word and its kind. -/
structure Token where
  kind : TokenKind
  text : String

/-- The one word `cs`. -/
def literal : List Char → Regex Char
  | [] => .eps
  | c :: cs => .seq (.set fun d => d = c) (literal cs)

/-- The word `cs`, given in upper case, in any case. -/
def keyword : List Char → Regex Char
  | [] => .eps
  | c :: cs => .seq (.set fun d => d = c || d = c.toLower) (keyword cs)

def digit : Regex Char := .set Char.isDigit

/-- `e`, a sign or none, and digits. -/
def exponent : Regex Char :=
  .seq (.set fun c => c = 'e' || c = 'E')
    (.seq (Regex.opt (.set fun c => c = '+' || c = '-')) digit.plus)

/-- A number without a sign. -/
def number : Regex Char :=
  .alt
    (.seq digit.plus (.seq (Regex.opt (.seq (literal ['.']) (.star digit))) exponent.opt))
    (.seq (literal ['.']) (.seq digit.plus exponent.opt))

def startsName (c : Char) : Bool := c.isAlpha || c = '_'

def inName (c : Char) : Bool := c.isAlphanum || c = '_'

/-- A letter or `_`, and letters, digits and `_`. -/
def name : Regex Char := .seq (.set startsName) (.star (.set inName))

def isBlank (c : Char) : Bool := c = ' ' || c = '\t' || c = '\r' || c = '\n'

/-- Two minus signs and the rest of the line. -/
def comment : Regex Char := .seq (literal ['-', '-']) (.star (.set fun c => c ≠ '\n'))

/-- `=`, `==`, `!=`, `<`, `<=`, `<>`, `>`, `>=`. -/
def comparison : Regex Char :=
  .alt (.seq (literal ['=']) (Regex.opt (literal ['='])))
    (.alt (literal ['!', '='])
      (.alt (.seq (literal ['<']) (Regex.opt (.alt (literal ['=']) (literal ['>']))))
        (.seq (literal ['>']) (Regex.opt (literal ['='])))))

/-- Keywords come before names. -/
def rules : Rules TokenKind Char :=
  [(.lparen, literal ['(']),
   (.rparen, literal [')']),
   (.comma, literal [',']),
   (.comparison, comparison),
   (.plus, literal ['+']),
   (.minus, literal ['-']),
   (.star, literal ['*']),
   (.slash, literal ['/']),
   (.percent, literal ['%']),
   (.not, keyword ['N', 'O', 'T']),
   (.and, keyword ['A', 'N', 'D']),
   (.or, keyword ['O', 'R']),
   (.in, keyword ['I', 'N']),
   (.number, number),
   (.name, name),
   (.blank, Regex.plus (.set isBlank)),
   (.comment, comment)]

/-- The tokens that an expression is read from. -/
def isRead (kind : TokenKind) : Bool := kind ≠ .blank && kind ≠ .comment

/-- The tokens of a text, without blanks and comments. -/
def tokens (cs : List Char) : List Token :=
  ((lex rules cs).filter fun token => isRead token.1).map fun token =>
    ⟨token.1, String.ofList token.2⟩

/-! ## Expressions -/

inductive Sign where
  | plus | minus

def Sign.kind : Sign → TokenKind
  | plus => .plus
  | minus => .minus

/-- The operators between numbers. -/
inductive ArithOp where
  | add | sub | mul | div | mod

def ArithOp.kind : ArithOp → TokenKind
  | add => .plus
  | sub => .minus
  | mul => .star
  | div => .slash
  | mod => .percent

/-- How tightly an expression binds, the weakest first. -/
inductive Level where
  | or | and | not | comparison | sum | product | unary

/-- Products bind tighter than sums. -/
def ArithOp.level : ArithOp → Level
  | add | sub => .sum
  | mul | div | mod => .product

/-- A number of an `IN` list. -/
structure Value where
  sign : Option Sign
  number : String

/-- An expression of SQL. -/
inductive Expr where
  | number (text : String)
  | column (name : String)
  | sign (s : Sign) (e : Expr)
  | arith (op : ArithOp) (l r : Expr)
  | compare (op : String) (l r : Expr)
  | inList (e : Expr) (negated : Bool) (values : List Value)
  | not (e : Expr)
  | and (l r : Expr)
  | or (l r : Expr)

/-! ## Reading -/

/-- The first token is of none of the kinds. -/
def HeadNot (kinds : List TokenKind) (ts : List Token) : Prop :=
  ∀ t ∈ ts.head?, t.kind ∉ kinds

/-- A number of an `IN` list. -/
inductive ReadsValue : List Token → Value → List Token → Prop
  | number {t : Token} {rest : List Token} (ht : t.kind = .number) :
      ReadsValue (t :: rest) ⟨none, t.text⟩ rest
  | signed {s : Sign} {t u : Token} {rest : List Token} (ht : t.kind = s.kind)
      (hu : u.kind = .number) : ReadsValue (t :: u :: rest) ⟨some s, u.text⟩ rest

/-- The numbers of an `IN` list and the bracket behind them. -/
inductive ReadsValues : List Token → List Value → List Token → Prop
  | last {t : Token} {ts rest : List Token} {v : Value} (hv : ReadsValue ts v (t :: rest))
      (ht : t.kind = .rparen) : ReadsValues ts [v] rest
  | cons {t : Token} {ts ts' rest : List Token} {v : Value} {vs : List Value}
      (hv : ReadsValue ts v (t :: ts')) (ht : t.kind = .comma) (hvs : ReadsValues ts' vs rest) :
      ReadsValues ts (v :: vs) rest

/-- `IN (` or `NOT IN (`. -/
inductive ReadsIn : List Token → Bool → List Token → Prop
  | plain {t u : Token} {rest : List Token} (ht : t.kind = .in) (hu : u.kind = .lparen) :
      ReadsIn (t :: u :: rest) false rest
  | negated {n t u : Token} {rest : List Token} (hn : n.kind = .not) (ht : t.kind = .in)
      (hu : u.kind = .lparen) : ReadsIn (n :: t :: u :: rest) true rest

mutual

/-- The tokens start with an expression of the level, up to the rest. -/
inductive Reads : Level → List Token → Expr → List Token → Prop
  | or {t : Token} {ts ts' rest : List Token} {e f : Expr} (he : Reads .and ts e (t :: ts'))
      (ht : t.kind = .or) (hf : Reads .or ts' f rest) : Reads .or ts (.or e f) rest
  | orEnd {ts rest : List Token} {e : Expr} (he : Reads .and ts e rest)
      (hrest : HeadNot [.or] rest) : Reads .or ts e rest
  | and {t : Token} {ts ts' rest : List Token} {e f : Expr} (he : Reads .not ts e (t :: ts'))
      (ht : t.kind = .and) (hf : Reads .and ts' f rest) : Reads .and ts (.and e f) rest
  | andEnd {ts rest : List Token} {e : Expr} (he : Reads .not ts e rest)
      (hrest : HeadNot [.and] rest) : Reads .and ts e rest
  | not {t : Token} {ts rest : List Token} {e : Expr} (ht : t.kind = .not)
      (he : Reads .not ts e rest) : Reads .not (t :: ts) (.not e) rest
  | notEnd {ts rest : List Token} {e : Expr} (hts : HeadNot [.not] ts)
      (he : Reads .comparison ts e rest) : Reads .not ts e rest
  | compare {t : Token} {ts ts' rest : List Token} {l r : Expr} (hl : Reads .sum ts l (t :: ts'))
      (ht : t.kind = .comparison) (hr : Reads .sum ts' r rest) :
      Reads .comparison ts (.compare t.text l r) rest
  | inList {ts ts' ts'' rest : List Token} {l : Expr} {negated : Bool} {values : List Value}
      (hl : Reads .sum ts l ts') (hin : ReadsIn ts' negated ts'')
      (hvalues : ReadsValues ts'' values rest) :
      Reads .comparison ts (.inList l negated values) rest
  | comparisonEnd {ts rest : List Token} {e : Expr} (he : Reads .sum ts e rest)
      (hrest : HeadNot [.comparison, .in, .not] rest) : Reads .comparison ts e rest
  | sum {ts ts' rest : List Token} {e e' : Expr} (he : Reads .product ts e ts')
      (hgo : GoesOn .sum e ts' e' rest) : Reads .sum ts e' rest
  | product {ts ts' rest : List Token} {e e' : Expr} (he : Reads .unary ts e ts')
      (hgo : GoesOn .product e ts' e' rest) : Reads .product ts e' rest
  | sign {s : Sign} {t : Token} {ts rest : List Token} {e : Expr} (ht : t.kind = s.kind)
      (he : Reads .unary ts e rest) : Reads .unary (t :: ts) (.sign s e) rest
  | group {t u : Token} {ts rest : List Token} {e : Expr} (ht : t.kind = .lparen)
      (he : Reads .or ts e (u :: rest)) (hu : u.kind = .rparen) :
      Reads .unary (t :: ts) e rest
  | number {t : Token} {rest : List Token} (ht : t.kind = .number) :
      Reads .unary (t :: rest) (.number t.text) rest
  | column {t : Token} {rest : List Token} (ht : t.kind = .name) :
      Reads .unary (t :: rest) (.column t.text) rest

/-- The operators of the level that follow an expression, with their second operands. -/
inductive GoesOn : Level → Expr → List Token → Expr → List Token → Prop
  | sum {op : ArithOp} {t : Token} {ts ts' rest : List Token} {e f e' : Expr}
      (ht : t.kind = op.kind) (hop : op.level = .sum) (hf : Reads .product ts f ts')
      (hgo : GoesOn .sum (.arith op e f) ts' e' rest) : GoesOn .sum e (t :: ts) e' rest
  | sumEnd {ts : List Token} {e : Expr} (hts : HeadNot [.plus, .minus] ts) :
      GoesOn .sum e ts e ts
  | product {op : ArithOp} {t : Token} {ts ts' rest : List Token} {e f e' : Expr}
      (ht : t.kind = op.kind) (hop : op.level = .product) (hf : Reads .unary ts f ts')
      (hgo : GoesOn .product (.arith op e f) ts' e' rest) : GoesOn .product e (t :: ts) e' rest
  | productEnd {ts : List Token} {e : Expr} (hts : HeadNot [.star, .slash, .percent] ts) :
      GoesOn .product e ts e ts

end

/-- The text is a condition that stands for the expression. -/
def ReadsAs (text : String) (e : Expr) : Prop := Reads .or (tokens text.toList) e []

/-! ## What may follow -/

theorem HeadNot.mono {kinds kinds' : List TokenKind} {ts : List Token} (h : HeadNot kinds ts)
    (hsub : kinds' ⊆ kinds) : HeadNot kinds' ts :=
  fun t ht hmem => h t ht (hsub hmem)

theorem headNot_cons {kinds : List TokenKind} {t : Token} (h : t.kind ∉ kinds) (ts : List Token) :
    HeadNot kinds (t :: ts) := by
  rintro u ⟨⟩
  exact h

/-! ## Numbers and columns -/

/-- A number or a name. -/
def TokenKind.isAtom (kind : TokenKind) : Bool := kind = .number || kind = .name

/-- How many of the tokens are numbers and names. -/
def atoms (ts : List Token) : Nat := ts.countP fun t => t.kind.isAtom

/-- How many numbers and columns an expression has. -/
def Expr.atoms : Expr → Nat
  | number _ | column _ => 1
  | sign _ e | not e => e.atoms
  | arith _ l r | compare _ l r | and l r | or l r => l.atoms + r.atoms
  | inList e _ values => e.atoms + values.length

/-- Every expression has an atom. -/
theorem Expr.atoms_pos (e : Expr) : 0 < e.atoms := by
  induction e with
  | number _ => exact Nat.one_pos
  | column _ => exact Nat.one_pos
  | sign _ _ ih => exact ih
  | not _ ih => exact ih
  | inList _ _ _ ih => exact Nat.add_pos_left ih _
  | arith _ _ _ ih _ => exact Nat.add_pos_left ih _
  | compare _ _ _ ih _ => exact Nat.add_pos_left ih _
  | and _ _ ih _ => exact Nat.add_pos_left ih _
  | or _ _ ih _ => exact Nat.add_pos_left ih _

variable {kind : TokenKind}

theorem atoms_skip {t : Token} (ht : t.kind = kind) (h : kind.isAtom = false) (ts : List Token) :
    SqlExpression.atoms (t :: ts) = SqlExpression.atoms ts := by
  apply List.countP_cons_of_neg
  rw [ht, h]
  exact Bool.false_ne_true

theorem atoms_take {t : Token} (ht : t.kind = kind) (h : kind.isAtom) (ts : List Token) :
   SqlExpression.atoms (t :: ts) = 1 + SqlExpression.atoms ts := by
  rw [Nat.add_comm]
  apply List.countP_cons_of_pos
  rw [ht, h]

theorem ArithOp.not_isAtom (op : ArithOp) : op.kind.isAtom = false := by
  cases op <;> rfl

theorem Sign.not_isAtom (s : Sign) : s.kind.isAtom = false := by
  cases s <;> rfl

variable {ts rest : List Token}

theorem ReadsValue.atoms {v : Value} (h : ReadsValue ts v rest) :
    SqlExpression.atoms ts = 1 + SqlExpression.atoms rest := by
  cases h with
  | number ht => exact atoms_take ht rfl rest
  | @signed s _ _ _ ht hu => rw [atoms_skip ht s.not_isAtom, atoms_take hu rfl]

theorem ReadsValues.atoms {vs : List Value} (h : ReadsValues ts vs rest) :
    SqlExpression.atoms ts = vs.length + SqlExpression.atoms rest := by
  induction h with
  | last hv ht =>
    rw [hv.atoms, atoms_skip ht rfl]
    rfl
  | cons hv ht _ ih =>
    rw [hv.atoms, atoms_skip ht rfl, ih, List.length_cons]
    omega

theorem ReadsIn.atoms {b : Bool} (h : ReadsIn ts b rest) :
    SqlExpression.atoms ts = SqlExpression.atoms rest := by
  cases h with
  | plain ht hu => rw [atoms_skip ht rfl, atoms_skip hu rfl]
  | negated hn ht hu => rw [atoms_skip hn rfl, atoms_skip ht rfl, atoms_skip hu rfl]

mutual

/-- What is read has the numbers and columns of the tokens. -/
theorem Reads.atoms {level : Level} {ts rest : List Token} {e : Expr} :
    Reads level ts e rest → SqlExpression.atoms ts = e.atoms + SqlExpression.atoms rest
  | .or he ht hf => by
    rw [he.atoms, atoms_skip ht rfl, hf.atoms, Expr.atoms, Nat.add_assoc]
  | .orEnd he _ => he.atoms
  | .and he ht hf => by
    rw [he.atoms, atoms_skip ht rfl, hf.atoms, Expr.atoms, Nat.add_assoc]
  | .andEnd he _ => he.atoms
  | .not ht he => by
    rw [atoms_skip ht rfl, he.atoms, Expr.atoms]
  | .notEnd _ he => he.atoms
  | .compare hl ht hr => by
    rw [hl.atoms, atoms_skip ht rfl, hr.atoms, Expr.atoms, Nat.add_assoc]
  | .inList hl hin hvalues => by
    rw [hl.atoms, hin.atoms, hvalues.atoms, Expr.atoms, Nat.add_assoc]
  | .comparisonEnd he _ => he.atoms
  | .sum he hgo => he.atoms.trans hgo.atoms
  | .product he hgo => he.atoms.trans hgo.atoms
  | .sign ht he => by
    rw [atoms_skip ht (Sign.not_isAtom _), he.atoms, Expr.atoms]
  | .group ht he hu => by
    rw [atoms_skip ht rfl, he.atoms, atoms_skip hu rfl]
  | .number ht => atoms_take ht rfl _
  | .column ht => atoms_take ht rfl _

theorem GoesOn.atoms {level : Level} {ts rest : List Token} {e₀ e : Expr} :
    GoesOn level e₀ ts e rest →
      e₀.atoms + SqlExpression.atoms ts = e.atoms + SqlExpression.atoms rest
  | .sum ht _ hf hgo => by
    rw [atoms_skip ht (ArithOp.not_isAtom _), hf.atoms, ← hgo.atoms, Expr.atoms, Nat.add_assoc]
  | .sumEnd _ => rfl
  | .product ht _ hf hgo => by
    rw [atoms_skip ht (ArithOp.not_isAtom _), hf.atoms, ← hgo.atoms, Expr.atoms, Nat.add_assoc]
  | .productEnd _ => rfl

end

/-! ## The tokens of a text -/

/-- The first token of a text, when it is one that is read. -/
theorem tokens_cons {w rest : List Char} (h : next rules (w ++ rest) = some (kind, w.length))
    (hkind : isRead kind) :
    tokens (w ++ rest) = ⟨kind, String.ofList w⟩ :: tokens rest := by
  rw [tokens, lex_of_next h, List.filter_cons, if_pos hkind]
  rfl

/-- Blanks and comments leave no token. -/
theorem tokens_skip {w rest : List Char} (h : next rules (w ++ rest) = some (kind, w.length))
    (hkind : ¬isRead kind) :
    tokens (w ++ rest) = tokens rest := by
  rw [tokens, lex_of_next h, List.filter_cons, if_neg hkind]
  rfl

/-- One blank. -/
theorem tokens_blank {rest : List Char} (hrest : ∀ c ∈ rest.head?, ¬isBlank c) :
    tokens (' ' :: rest) = tokens rest := by
  have hnext : next rules ([' '] ++ rest) = next rules [' '] := by
    apply next_append rfl rfl
    intro rule hrule hstarts c hc
    have hkind : ∀ rule ∈ rules, rule.2.starts ' ' → rule.1 = .blank := by decide
    have hblank : ∀ rule ∈ rules, rule.1 = .blank → ¬rule.2.pairs ' ' c := by
      simp [rules, Regex.plus, Regex.pairs, Regex.starts, hrest c hc]
    exact hblank rule hrule (hkind rule hrule hstarts)
  exact @tokens_skip .blank [' '] rest (hnext.trans (by decide)) (by decide)

/-- The tokens that no token goes on over. -/
def alone : List (TokenKind × Char) :=
  [(.lparen, '('), (.rparen, ')'), (.comma, ','), (.plus, '+'), (.star, '*'), (.slash, '/'),
    (.percent, '%')]

theorem tokens_alone {a : Char} (h : (kind, a) ∈ alone) (rest : List Char) :
    tokens (a :: rest) = ⟨kind, String.ofList [a]⟩ :: tokens rest := by
  have hkind : ∀ p ∈ alone, ∀ rule ∈ rules, rule.2.starts p.2 → rule.1 = p.1 := by decide
  have hpairs : ∀ p ∈ alone, ∀ rule ∈ rules, rule.1 = p.1 → ∀ b c, ¬rule.2.pairs b c := by
    simp [alone, rules, literal, Regex.pairs, Regex.ends, Regex.starts]
  have hself : ∀ p ∈ alone, next rules [p.2] = some (p.1, 1) ∧ isRead p.1 := by decide
  have hnext : next rules ([a] ++ rest) = next rules [a] := by
    apply next_append rfl rfl
    intro rule hrule hstarts c _
    exact hpairs _ h rule hrule (hkind _ h rule hrule hstarts) a c
  exact tokens_cons (w := [a]) (hnext.trans (hself _ h).1) (hself _ h).2

/-- The words that are followed by a blank. -/
def spaced : List (TokenKind × List Char) :=
  [(.not, ['N', 'O', 'T']), (.and, ['A', 'N', 'D']), (.or, ['O', 'R']), (.in, ['I', 'N']),
    (.comparison, ['=']), (.comparison, ['=', '=']), (.comparison, ['!', '=']),
    (.comparison, ['<', '>']), (.comparison, ['<']), (.comparison, ['<', '=']),
    (.comparison, ['>']), (.comparison, ['>', '='])]

variable {w : List Char}

theorem tokens_spaced (h : (kind, w) ∈ spaced) (rest : List Char) :
    tokens (w ++ ' ' :: rest) = ⟨kind, String.ofList w⟩ :: tokens (' ' :: rest) := by
  have hends : ∀ p ∈ spaced, ∀ rule ∈ rules, ∀ a ∈ p.2.getLast?, ∀ b ∈ p.2.head?,
      rule.2.starts b → ¬rule.2.pairs a ' ' := by decide
  have hself : ∀ p ∈ spaced, p.2 ≠ [] ∧ next rules p.2 = some (p.1, p.2.length) ∧ isRead p.1 := by
    decide
  obtain ⟨hne, hnext, hread⟩ := hself _ h
  have hfirst := List.head?_eq_some_head hne
  have hlast := List.getLast?_eq_some_getLast hne
  refine tokens_cons ?_ hread
  rw [next_append hfirst hlast, hnext]
  rintro rule hrule hstarts c ⟨⟩
  exact hends _ h rule hrule _ hlast _ hfirst hstarts

/-- The characters that end a number and a name. -/
def isBreak (c : Char) : Bool := c = ' ' || c = ')' || c = ','

theorem matches_literal {cs w : List Char} : (literal cs).Matches w ↔ w = cs := by
  induction cs generalizing w with
  | nil => exact Regex.matches_eps
  | cons c cs ih =>
    rw [literal, Regex.matches_seq]
    constructor
    · rintro ⟨u, v, rfl, hu, hv⟩
      obtain ⟨a, ha, rfl⟩ := Regex.matches_set.1 hu
      rw [ih.1 hv, of_decide_eq_true ha]
      rfl
    · rintro rfl
      exact ⟨[c], cs, rfl, Regex.matches_set.2 ⟨c, decide_eq_true rfl, rfl⟩, ih.2 rfl⟩

/-- A minus sign that no other one follows. -/
theorem tokens_minus {rest : List Char} (hrest : rest.head? ≠ some '-') :
    tokens ('-' :: rest) = ⟨.minus, String.ofList ['-']⟩ :: tokens rest := by
  have hkind : ∀ rule ∈ rules, rule.2.starts '-' → rule.1 = .minus ∨ rule.1 = .comment := by
    decide
  have hrules : ∀ rule ∈ rules, (rule.1 = .minus → rule.2 = literal ['-']) ∧
      (rule.1 = .comment → rule.2 = comment) := by
    simp [rules]
  have hnext : next rules (['-'] ++ rest) = next rules ['-'] := by
    refine next_congr fun rule hrule => Regex.munch_append fun u hne hu hmatch => ?_
    by_cases hstarts : rule.2.starts '-'
    · rcases hkind rule hrule hstarts with hminus | hcomment
      · rw [(hrules rule hrule).1 hminus, matches_literal] at hmatch
        exact hne (List.cons.inj hmatch).2
      · rw [(hrules rule hrule).2 hcomment, comment, Regex.matches_seq] at hmatch
        obtain ⟨v, v', heq, hv, _⟩ := hmatch
        rw [matches_literal] at hv
        subst hv
        obtain ⟨t, rfl⟩ := hu
        have hu : u = '-' :: v' := (List.cons.inj heq).2
        rw [hu] at hrest
        exact hrest rfl
    · exact Regex.not_matches_of_not_starts hstarts hmatch
  exact @tokens_cons .minus ['-'] rest (hnext.trans (by decide)) (by decide)

/-- Two minus signs. -/
theorem tokens_comment {rest : List Char} (hrest : '\n' ∉ rest) :
    tokens ('-' :: '-' :: rest) = [] := by
  have hline : ∀ cs : List Char, '\n' ∉ cs → (Regex.star (.set fun c => c ≠ '\n')).Matches cs := by
    intro cs hcs
    induction cs with
    | nil => exact .nil
    | cons c cs ih =>
      rw [List.mem_cons, not_or] at hcs
      exact .cons (u := [c]) (.set (decide_eq_true (Ne.symm hcs.1))) (ih hcs.2)
  have hmatch : comment.Matches ('-' :: '-' :: rest) :=
    .seq (u := ['-', '-']) (matches_literal.2 rfl) (hline rest hrest)
  have hnext : next rules ('-' :: '-' :: rest) = some (.comment, ('-' :: '-' :: rest).length) := by
    have hbefore : ∀ rule ∈ rules.dropLast, ¬rule.2.Matches ('-' :: '-' :: rest) := by
      have hkind : ∀ rule ∈ rules.dropLast, rule.2.starts '-' → rule.1 = .minus := by decide
      have hrules : ∀ rule ∈ rules, rule.1 = .minus → rule.2 = literal ['-'] := by
        simp [rules]
      intro rule hrule hm
      have hminus := hkind rule hrule (Regex.starts_of_matches hm '-' rfl)
      rw [hrules rule (List.dropLast_subset _ hrule) hminus, matches_literal] at hm
      cases hm
    exact next_of_matches (List.cons_ne_nil _ _) hmatch hbefore
  have htokens := @tokens_skip .comment ('-' :: '-' :: rest) [] (by rw [List.append_nil, hnext])
    (by decide)
  rwa [List.append_nil] at htokens

/-! ## Numbers and names -/

/-- A text that is one number or name. -/
def IsAtom (kind : TokenKind) (w : List Char) : Prop :=
  kind.isAtom ∧ next rules w = some (kind, w.length)

theorem isAtom_number (h : number.Matches w) : IsAtom .number w := by
  have hstarts : ∀ rule ∈ rules.take 13, ∀ b, rule.2.starts b → ¬number.starts b := by
    simp only [rules, List.take, literal, keyword, comparison, Regex.starts, Regex.nullable,
      List.forall_mem_cons, Bool.or_eq_true, Bool.false_and, Bool.or_false, decide_eq_true_eq,
      forall_eq_or_imp, forall_eq, List.not_mem_nil, IsEmpty.forall_iff, implies_true, and_true]
    and_intros <;> decide
  have hne : w ≠ [] := by
    rintro rfl
    exact absurd (Regex.matches_nil_iff.1 h) Bool.false_ne_true
  have hbefore : ∀ rule ∈ rules.take 13, ¬rule.2.Matches w := by
    obtain ⟨b, w, rfl⟩ := List.exists_cons_of_ne_nil hne
    intro rule hrule
    exact Regex.not_matches_of_not_starts fun hs =>
      hstarts rule hrule b hs (Regex.starts_of_matches h b rfl)
  exact ⟨rfl, next_of_matches hne h hbefore⟩

/-- A name that starts like no keyword. -/
theorem isAtom_name {c : Char} {cs : List Char} (hc : startsName c) (hcs : ∀ d ∈ cs, inName d)
    (hkeyword : ∀ rule ∈ rules.take 14, ¬rule.2.starts c) : IsAtom .name (c :: cs) := by
  have hstar : (Regex.star (.set inName)).Matches cs := by
    induction cs with
    | nil => exact .nil
    | cons d cs ih =>
      obtain ⟨hd, hcs⟩ := List.forall_mem_cons.1 hcs
      exact .cons (u := [d]) (.set hd) (ih hcs)
  have hmatch : name.Matches (c :: cs) := .seq (u := [c]) (.set hc) hstar
  have hbefore : ∀ rule ∈ rules.take 14, ¬rule.2.Matches (c :: cs) := fun rule hrule =>
    Regex.not_matches_of_not_starts (hkeyword rule hrule)
  exact ⟨rfl, next_of_matches (List.cons_ne_nil c cs) hmatch hbefore⟩

theorem IsAtom.exists_rule (h : IsAtom kind w) :
    ∃ rule ∈ rules, rule.1.isAtom ∧ rule.2.Matches w ∧ w ≠ [] := by
  obtain ⟨hkind, hnext⟩ := h
  obtain ⟨hpos, ⟨r, hr, hmunch⟩, _⟩ := next_spec hnext
  have hmatch := (Regex.matches_of_munch hmunch).2
  rw [List.take_length] at hmatch
  exact ⟨_, hr, hkind, hmatch, List.length_pos_iff.1 hpos⟩

/-- A number and a name start with neither a minus sign nor a blank, and are on one line. -/
theorem IsAtom.first (h : IsAtom kind w) :
    ∃ c cs, w = c :: cs ∧ c ≠ '-' ∧ ¬isBlank c := by
  obtain ⟨rule, hrule, hkind, hmatch, hne⟩ := h.exists_rule
  obtain ⟨c, cs, rfl⟩ := List.exists_cons_of_ne_nil hne
  have hstarts := Regex.starts_of_matches hmatch c rfl
  have hnot : ∀ rule ∈ rules, rule.1.isAtom →
      ∀ b ∈ ['-', ' ', '\t', '\r', '\n'], ¬rule.2.starts b := by decide
  refine ⟨c, cs, rfl, ?_, ?_⟩
  · rintro rfl
    exact hnot rule hrule hkind '-' (by decide) hstarts
  · intro hblank
    apply hnot rule hrule hkind c _ hstarts
    simp only [isBlank, Bool.or_eq_true, decide_eq_true_eq, or_assoc] at hblank
    simp [hblank]

theorem IsAtom.line (h : IsAtom kind w) : '\n' ∉ w := by
  obtain ⟨rule, hrule, hkind, hmatch, _⟩ := h.exists_rule
  have hnot : ∀ rule ∈ rules, rule.1.isAtom → ¬rule.2.uses '\n' := by decide
  exact fun hmem => hnot rule hrule hkind (Regex.uses_of_matches hmatch _ hmem)

/-- A number or a name before such a character. -/
theorem IsAtom.tokens {w rest : List Char} (h : IsAtom kind w) (hrest : ∀ c ∈ rest.head?, isBreak c) :
    SqlExpression.tokens (w ++ rest) = ⟨kind, String.ofList w⟩ :: SqlExpression.tokens rest := by
  have hbreak : ∀ rule ∈ rules, rule.2.uses ' ' || rule.2.uses ')' || rule.2.uses ',' →
      rule.1 ∈ [TokenKind.rparen, .comma, .blank, .comment] := by decide
  have hstarts : ∀ rule ∈ rules, rule.1 ∈ [TokenKind.rparen, .comma, .blank, .comment] →
      ∀ b, rule.2.starts b → b ∈ [')', ',', '-', ' ', '\t', '\r', '\n'] := by
    simp [rules, literal, comment, isBlank, Regex.plus, Regex.starts, Regex.nullable, or_assoc]
  have hatom : ∀ rule ∈ rules, rule.1.isAtom →
      ∀ b ∈ [')', ',', '-', ' ', '\t', '\r', '\n'], ¬rule.2.starts b := by decide
  obtain ⟨rule', hrule', hkind', hmatch, hne⟩ := h.exists_rule
  obtain ⟨hkind, hnext⟩ := h
  have hfirst := List.head?_eq_some_head hne
  have hlast := List.getLast?_eq_some_getLast hne
  have hread : isRead kind := by
    cases kind <;> first | rfl | cases hkind
  refine tokens_cons ?_ hread
  rw [next_append hfirst hlast, hnext]
  intro rule hrule hstart c hc hpair
  have huses : rule.2.uses ' ' || rule.2.uses ')' || rule.2.uses ',' := by
    have hbreaks := hrest c hc
    simp only [isBreak, Bool.or_eq_true, decide_eq_true_eq] at hbreaks ⊢
    have hc' := Regex.uses_of_pairs hpair
    rcases hbreaks with (rfl | rfl) | rfl
    · exact Or.inl (Or.inl hc')
    · exact Or.inl (Or.inr hc')
    · exact Or.inr hc'
  exact hatom _ hrule' hkind' _ (hstarts rule hrule (hbreak rule hrule huses) _ hstart)
    (Regex.starts_of_matches hmatch _ hfirst)

end Lib.SqlExpression
