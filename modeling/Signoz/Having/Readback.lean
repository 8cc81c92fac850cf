import Signoz.Having.Rewrite
import Signoz.Lib.CharLists

/-!
# What a rewritten `HAVING` expression is read as

The rewritten text is read by SQL. Spaces keep the operators apart, and the brackets keep the
precedence of the parse tree, but a sign is written right before what it is applied to: two minus
signs in a row start a comment, and the rest of the condition is lost.

The tokens of a text are given by functions over the tree (`orTokens`), with nothing behind a
comment. Each function of the visitor prints them (`prints_visitOr`).
-/

namespace Signoz.Having

open scoped Lib.CharLists

open Lib.SqlExpression

/-! ## The expression of a tree -/

/-- The sign of an operator, read before its factor. -/
def SignOp.sign : SignOp → Sign
  | plus => .plus
  | minus => .minus

def SignOp.arithOp : SignOp → ArithOp
  | plus => .add
  | minus => .sub

def TermOp.arithOp : TermOp → ArithOp
  | star => .mul
  | slash => .div
  | percent => .mod

def SignedNumber.value (number : SignedNumber) : Value :=
  ⟨number.sign.map SignOp.sign, number.number.text⟩

section Meaning

variable (columnMap : ColumnMap)

/-- A column, or a number. -/
def atomExpr (atom : Atom) : Expr :=
  match resolve columnMap atom with
  | some column => .column column
  | none => .number atom.text

mutual

/-- Sums, to the left. -/
def operandExpr : Operand → Expr
  | .sum operand op term => .arith op.arithOp (operandExpr operand) (termExpr term)
  | .term term => termExpr term

/-- Products, to the left. -/
def termExpr : Term → Expr
  | .product term op factor => .arith op.arithOp (termExpr term) (factorExpr factor)
  | .factor factor => factorExpr factor

/-- Brackets leave no trace. -/
def factorExpr : Factor → Expr
  | .signed op factor => .sign op.sign (factorExpr factor)
  | .group operand => operandExpr operand
  | .atom atom => atomExpr columnMap atom

end

/-- A comparison, or an `IN` list. -/
def comparisonExpr : Comparison → Expr
  | .compare left op right =>
    .compare op.text (operandExpr columnMap left) (operandExpr columnMap right)
  | .inList operand negated first rest =>
    .inList (operandExpr columnMap operand) negated ((first :: rest).map SignedNumber.value)

/-- `NOT e`, or `e`. -/
def negate (negated : Bool) (e : Expr) : Expr := if negated then .not e else e

mutual

/-- The boolean and arithmetic tree, with columns for the references. -/
def orExpr : OrExpression → Expr
  | .last expr => andExpr expr
  | .or expr rest => .or (andExpr expr) (orExpr rest)

def andExpr : AndExpression → Expr
  | .last primary => primaryExpr primary
  | .and primary rest => .and (primaryExpr primary) (andExpr rest)

/-- Brackets, or a comparison, after an optional `NOT`. -/
def primaryExpr : Primary → Expr
  | .group negated expr => negate negated (orExpr expr)
  | .comparison negated comparison => negate negated (comparisonExpr columnMap comparison)

end

/-! ## The tokens of the text -/

def SignOp.token : SignOp → Token
  | plus => ⟨.plus, "+"⟩
  | minus => ⟨.minus, "-"⟩

/-- The token of `*`, `/` or `%`. -/
def TermOp.token : TermOp → Token
  | star => ⟨.star, "*"⟩
  | slash => ⟨.slash, "/"⟩
  | percent => ⟨.percent, "%"⟩

def lparen : Token := ⟨.lparen, "("⟩

def rparen : Token := ⟨.rparen, ")"⟩

/-- The column of a reference, or the number. -/
def atomToken (atom : Atom) : Token :=
  match resolve columnMap atom with
  | some column => ⟨.name, column⟩
  | none => ⟨.number, atom.text⟩

/-- The factor starts with a minus. -/
def Factor.startsWithMinus : Factor → Bool
  | .signed .minus _ => true
  | _ => false

/-- A minus that is applied to a minus. -/
def isDoubleMinus (op : SignOp) (factor : Factor) : Bool := op = .minus && factor.startsWithMinus

mutual

/-- The tokens of an operand that others follow. -/
def operandTokens : Operand → List Token → List Token
  | .sum operand op term, rest => operandTokens operand (op.token :: termTokens term rest)
  | .term term, rest => termTokens term rest

def termTokens : Term → List Token → List Token
  | .product term op factor, rest => termTokens term (op.token :: factorTokens factor rest)
  | .factor factor, rest => factorTokens factor rest

/-- Two minus signs are a comment, with all that follows. -/
def factorTokens : Factor → List Token → List Token
  | .signed op factor, rest =>
    if isDoubleMinus op factor then [] else op.token :: factorTokens factor rest
  | .group operand, rest => lparen :: operandTokens operand (rparen :: rest)
  | .atom atom, rest => atomToken columnMap atom :: rest

end

/-- A number with its sign. -/
def SignedNumber.tokens (number : SignedNumber) (rest : List Token) : List Token :=
  (number.sign.map SignOp.token).toList ++ ⟨.number, number.number.text⟩ :: rest

/-- The numbers of a list, and the bracket behind them. -/
def valuesTokens : SignedNumber → List SignedNumber → List Token → List Token
  | first, [], rest => first.tokens (rparen :: rest)
  | first, second :: others, rest =>
    first.tokens (⟨.comma, ","⟩ :: valuesTokens second others rest)

def notToken : Token := ⟨.not, "NOT"⟩

/-- The tokens of a comparison or of an `IN` list. -/
def comparisonTokens : Comparison → List Token → List Token
  | .compare left op right, rest =>
    operandTokens columnMap left (⟨.comparison, op.text⟩ :: operandTokens columnMap right rest)
  | .inList operand negated first others, rest =>
    operandTokens columnMap operand ((if negated then [notToken] else []) ++
      ⟨.in, "IN"⟩ :: lparen :: valuesTokens first others rest)

mutual

/-- A disjunction is in brackets, unless it has one part. -/
def orTokens : OrExpression → List Token → List Token
  | .last expr, rest => andTokens expr rest
  | .or expr others, rest =>
    lparen :: andTokens expr (⟨.or, "OR"⟩ :: orRestTokens others (rparen :: rest))

/-- The parts of a disjunction. -/
def orRestTokens : OrExpression → List Token → List Token
  | .last expr, rest => andTokens expr rest
  | .or expr others, rest => andTokens expr (⟨.or, "OR"⟩ :: orRestTokens others rest)

/-- A conjunction is in brackets, unless it has one part. -/
def andTokens : AndExpression → List Token → List Token
  | .last primary, rest => primaryTokens primary rest
  | .and primary others, rest =>
    lparen :: primaryTokens primary (⟨.and, "AND"⟩ :: andRestTokens others (rparen :: rest))

/-- The parts of a conjunction. -/
def andRestTokens : AndExpression → List Token → List Token
  | .last primary, rest => primaryTokens primary rest
  | .and primary others, rest => primaryTokens primary (⟨.and, "AND"⟩ :: andRestTokens others rest)

/-- A `NOT` takes the place of the brackets of a group. -/
def primaryTokens : Primary → List Token → List Token
  | .group negated expr, rest =>
    if negated then notToken :: orTokens expr rest
    else lparen :: orTokens expr (rparen :: rest)
  | .comparison negated comparison, rest =>
    (if negated then [notToken] else []) ++ comparisonTokens columnMap comparison rest

end

end Meaning

/-! ## Words -/

/-- The names that a reference is resolved to are words. -/
theorem isAtom_column {column : String} (h : IsColumn column) : IsAtom .name column.toList := by
  rcases h with rfl | ⟨idx, rfl⟩
  · exact isAtom_name (c := 'v') (by decide) (by decide) (by decide)
  · have hdigits : ∀ d ∈ idx.repr.toList, inName d := by
      rw [Nat.repr_eq_ofList_toDigits, String.toList_ofList]
      intro d hd
      have hdigit := Nat.isDigit_of_mem_toDigits (by decide) (by decide) hd
      simp [inName, Char.isAlphanum, hdigit]
    have hsplit : ("__result_" ++ toString idx).toList =
        '_' :: ("_result_".toList ++ idx.repr.toList) := by
      rw [String.toList_append]
      rfl
    rw [hsplit]
    refine isAtom_name (by decide) (fun d hd => ?_) (by decide)
    cases List.mem_append.1 hd with
    | inl hd => exact (by decide : ∀ d ∈ "_result_".toList, inName d) d hd
    | inr hd => exact hdigits d hd

/-- The text of an atom that is no error. -/
def IsResolved (columnMap : ColumnMap) (atom : Atom) : Prop :=
  (resolve columnMap atom).isSome ∨ ∃ number, atom = .number number

section Printed

variable {columnMap : ColumnMap}

/-- The text of an atom is the text of its token. -/
theorem isAtom_visitAtom (hplain : Plain columnMap) {atom : Atom}
    (h : IsResolved columnMap atom) :
    (atomToken columnMap atom).text = visitAtom columnMap atom ∧
      IsAtom (atomToken columnMap atom).kind (visitAtom columnMap atom).toList := by
  rw [atomToken, visitAtom]
  cases hresolve : resolve columnMap atom with
  | some column => exact ⟨rfl, isAtom_column (isColumn_of_resolve hplain hresolve)⟩
  | none =>
    rcases h with h | ⟨number, rfl⟩
    · rw [hresolve] at h
      cases h
    · exact ⟨rfl, isAtom_number number.matches_number⟩

/-- Every atom is resolved. -/
def AllResolved (columnMap : ColumnMap) (atoms : List Atom) : Prop :=
  ∀ atom ∈ atoms, IsResolved columnMap atom

theorem AllResolved.left {atoms others : List Atom} (h : AllResolved columnMap (atoms ++ others)) :
    AllResolved columnMap atoms :=
  fun atom hatom => h atom (List.mem_append_left _ hatom)

theorem AllResolved.right {atoms others : List Atom} (h : AllResolved columnMap (atoms ++ others)) :
    AllResolved columnMap others :=
  fun atom hatom => h atom (List.mem_append_right _ hatom)

/-! ## Printed texts -/

/-- Where a number, a name or a bracket may end. -/
def Breaks (rest : List Char) : Prop := ∀ c ∈ rest.head?, isBreak c

/-- A text of one line that starts with no blank, and the tokens that it puts before others. -/
structure Prints (cs : List Char) (read : List Token → List Token) : Prop where
  begins : ∀ rest, ∀ c ∈ (cs ++ rest).head?, ¬isBlank c
  line : '\n' ∉ cs
  reads : ∀ rest, '\n' ∉ rest → Breaks rest → tokens (cs ++ rest) = read (tokens rest)

theorem breaks_cons {c : Char} (h : isBreak c) (rest : List Char) : Breaks (c :: rest) := by
  rintro d ⟨⟩
  exact h

theorem line_append {cs cs' : List Char} : '\n' ∉ cs ++ cs' ↔ '\n' ∉ cs ∧ '\n' ∉ cs' := by
  rw [List.mem_append, not_or]

variable {cs : List Char}

theorem line_cons {c : Char} (h : c ≠ '\n') : '\n' ∉ c :: cs ↔ '\n' ∉ cs := by
  rw [List.mem_cons, not_or, and_iff_right (Ne.symm h)]

theorem tokens_lparen (rest : List Char) : tokens ('(' :: rest) = lparen :: tokens rest :=
  tokens_alone (by decide) rest

theorem tokens_rparen (rest : List Char) : tokens (')' :: rest) = rparen :: tokens rest :=
  tokens_alone (by decide) rest

variable {read : List Token → List Token}

theorem Prints.space (h : Prints cs read) (rest : List Char) :
   tokens (' ' :: (cs ++ rest)) = tokens (cs ++ rest) :=
  tokens_blank (h.begins rest)

/-- A word that a space follows. -/
structure Word (word : List Char) (token : Token) : Prop where
  begins : ∃ c cs, word = c :: cs ∧ ¬isBlank c
  line : '\n' ∉ word
  reads : ∀ rest, tokens (word ++ ' ' :: rest) = token :: tokens (' ' :: rest)

theorem word_spaced {kind : TokenKind} {w : List Char} (h : (kind, w) ∈ spaced) :
    Word w ⟨kind, String.ofList w⟩ := by
  have hspaced : ∀ p ∈ spaced, p.2 ≠ [] ∧ (∀ c ∈ p.2.head?, ¬isBlank c) ∧ '\n' ∉ p.2 := by decide
  obtain ⟨hne, hblank, hline⟩ := hspaced _ h
  obtain ⟨c, cs, rfl⟩ := List.exists_cons_of_ne_nil hne
  exact ⟨⟨c, cs, rfl, hblank c rfl⟩, hline, fun rest => tokens_spaced h rest⟩

theorem word_signOp (op : SignOp) : Word op.text.toList op.token := by
  cases op with
  | plus => exact ⟨⟨'+', [], rfl, by decide⟩, by decide, fun rest => tokens_alone (by decide) _⟩
  | minus =>
    refine ⟨⟨'-', [], rfl, by decide⟩, by decide, fun rest => tokens_minus ?_⟩
    intro h
    cases h

theorem word_termOp (op : TermOp) : Word op.text.toList op.token := by
  cases op with
  | star => exact ⟨⟨'*', [], rfl, by decide⟩, by decide, fun rest => tokens_alone (by decide) _⟩
  | slash => exact ⟨⟨'/', [], rfl, by decide⟩, by decide, fun rest => tokens_alone (by decide) _⟩
  | percent => exact ⟨⟨'%', [], rfl, by decide⟩, by decide, fun rest => tokens_alone (by decide) _⟩

theorem word_compOp (op : CompOp) : Word op.text.toList ⟨.comparison, op.text⟩ := by
  cases op <;> exact word_spaced (by decide)

/-- A word and a space before a text. -/
theorem Prints.word {word cs : List Char} {token : Token} (hword : Word word token)
    (h : Prints cs read) :
    Prints (word ++ ' ' :: cs) fun ts => token :: read ts := by
  refine ⟨fun rest => ?_, ?_, fun rest hline hbreaks => ?_⟩
  · obtain ⟨c, word, rfl, hblank⟩ := hword.begins
    rintro d ⟨⟩
    exact hblank
  · rw [line_append, line_cons (by decide)]
    exact ⟨hword.line, h.line⟩
  · rw [List.append_assoc, List.cons_append, hword.reads, h.space, h.reads rest hline hbreaks]

/-- An operator between two texts. -/
theorem Prints.operator {left right word : List Char} {token : Token}
    {read read' : List Token → List Token} (hleft : Prints left read) (hword : Word word token)
    (hright : Prints right read') :
    Prints (left ++ ' ' :: (word ++ ' ' :: right)) fun ts => read (token :: read' ts) := by
  have hrest := Prints.word hword hright
  refine ⟨fun rest => ?_, ?_, fun rest hline hbreaks => ?_⟩
  · rw [List.append_assoc]
    exact hleft.begins _
  · rw [line_append, line_cons (by decide)]
    exact ⟨hleft.line, hrest.line⟩
  · have hline' : '\n' ∉ ' ' :: ((word ++ ' ' :: right) ++ rest) := by
      rw [line_cons (by decide), line_append]
      exact ⟨hrest.line, hline⟩
    rw [List.append_assoc, List.cons_append, hleft.reads _ hline' (breaks_cons rfl _),
      hrest.space, hrest.reads rest hline hbreaks]

/-- A text between a bracket that is open and the one that closes it. -/
theorem Prints.closed (h : Prints cs read) :
    Prints (cs ++ [')']) fun ts => read (rparen :: ts) := by
  refine ⟨fun rest => ?_, ?_, fun rest hline _ => ?_⟩
  · rw [List.append_assoc]
    exact h.begins _
  · rw [line_append]
    exact ⟨h.line, by decide⟩
  · have hline' : '\n' ∉ ')' :: rest := (line_cons (by decide)).2 hline
    rw [List.append_assoc, List.singleton_append, h.reads _ hline' (breaks_cons rfl _),
      tokens_rparen]

/-- An open bracket is a token of its own. -/
theorem Prints.opened (h : Prints cs read) :
    Prints ('(' :: cs) fun ts => lparen :: read ts := by
  refine ⟨fun rest => ?_, ?_, fun rest hline hbreaks => ?_⟩
  · rintro d ⟨⟩
    decide
  · exact (line_cons (by decide)).2 h.line
  · rw [List.cons_append, tokens_lparen, h.reads rest hline hbreaks]

/-- A text in brackets. -/
theorem Prints.group (h : Prints cs read) :
    Prints ('(' :: (cs ++ [')'])) fun ts => lparen :: read (rparen :: ts) :=
  h.closed.opened

/-- A comma between two texts. -/
theorem Prints.comma {left right : List Char} {read read' : List Token → List Token}
    (hleft : Prints left read) (hright : Prints right read') :
    Prints (left ++ ',' :: ' ' :: right) fun ts => read (⟨.comma, ","⟩ :: read' ts) := by
  refine ⟨fun rest => ?_, ?_, fun rest hline hbreaks => ?_⟩
  · rw [List.append_assoc]
    exact hleft.begins _
  · rw [line_append, line_cons (by decide), line_cons (by decide)]
    exact ⟨hleft.line, hright.line⟩
  · have hline' : '\n' ∉ ',' :: ' ' :: (right ++ rest) := by
      rw [line_cons (by decide), line_cons (by decide), line_append]
      exact ⟨hright.line, hline⟩
    have hcomma : tokens (',' :: ' ' :: (right ++ rest)) =
        ⟨.comma, ","⟩ :: tokens (' ' :: (right ++ rest)) := tokens_alone (by decide) _
    rw [List.append_assoc, List.cons_append, List.cons_append,
      hleft.reads _ hline' (breaks_cons rfl _), hcomma, hright.space,
      hright.reads rest hline hbreaks]

theorem prints_atom {kind : TokenKind} (h : IsAtom kind cs) :
    Prints cs fun ts => ⟨kind, String.ofList cs⟩ :: ts := by
  refine ⟨?_, h.line, fun rest _ hbreaks => h.tokens hbreaks⟩
  obtain ⟨c, cs, rfl, _, hblank⟩ := h.first
  rintro rest d ⟨⟩
  exact hblank

/-- A sign right before a text that does not start with a minus sign. -/
theorem Prints.signed (h : Prints cs read) (op : SignOp)
    (hminus : op = .minus → ∀ rest, (cs ++ rest).head? ≠ some '-') :
    Prints (op.text.toList ++ cs) fun ts => op.token :: read ts := by
  refine ⟨fun rest => ?_, ?_, fun rest hline hbreaks => ?_⟩
  · cases op <;> rintro d ⟨⟩ <;> decide
  · rw [line_append]
    exact ⟨(word_signOp op).line, h.line⟩
  · rw [List.append_assoc, ← h.reads rest hline hbreaks]
    cases op with
    | plus => exact tokens_alone (by decide) _
    | minus => exact tokens_minus (hminus rfl rest)

/-- A minus sign right before another one. -/
theorem Prints.comment (h : Prints cs read) (hminus : ∃ cs', cs = '-' :: cs') :
   Prints (SignOp.minus.text.toList ++ cs) fun _ => [] := by
  obtain ⟨cs', rfl⟩ := hminus
  refine ⟨fun rest => ?_, ?_, fun rest hline _ => ?_⟩
  · rintro d ⟨⟩
    decide
  · rw [line_append]
    exact ⟨by decide, h.line⟩
  · apply tokens_comment
    have hcs := h.line
    rw [line_cons (by decide)] at hcs
    exact line_append.2 ⟨hcs, hline⟩

/-! ## The visitor -/

/-- An atom prints its token. -/
theorem prints_visitAtom (hplain : Plain columnMap) {atom : Atom}
    (h : IsResolved columnMap atom) :
    Prints (visitAtom columnMap atom).toList fun ts => atomToken columnMap atom :: ts := by
  obtain ⟨htext, hatom⟩ := isAtom_visitAtom hplain h
  have htoken : atomToken columnMap atom =
      ⟨(atomToken columnMap atom).kind, String.ofList (visitAtom columnMap atom).toList⟩ := by
    rw [String.ofList_toList, ← htext]
  rw [htoken]
  exact prints_atom hatom

/-- The first character of a factor is a minus sign for a negative factor only. -/
theorem head_visitFactor (hplain : Plain columnMap) (factor : Factor)
    (h : AllResolved columnMap factor.atoms) :
    ∃ c cs, (visitFactor columnMap factor).toList = c :: cs ∧
      (c = '-' ↔ factor.startsWithMinus) := by
  cases factor with
  | signed op factor =>
    rw [visitFactor, String.toList_append]
    cases op with
    | plus => exact ⟨'+', _, rfl, by simp [Factor.startsWithMinus]⟩
    | minus => exact ⟨'-', _, rfl, by simp [Factor.startsWithMinus]⟩
  | group operand =>
    rw [visitFactor, sbAnd, sbJoin, String.toList_append, String.toList_append]
    exact ⟨'(', _, rfl, by simp [Factor.startsWithMinus]⟩
  | atom atom =>
    obtain ⟨c, cs, hcs, hne, _⟩ :=
      (isAtom_visitAtom hplain (h atom List.mem_cons_self)).2.first
    exact ⟨c, cs, hcs, iff_of_false hne Bool.false_ne_true⟩

/-- A sign and the factor right behind it. -/
theorem prints_signed (hplain : Plain columnMap) (op : SignOp) {factor : Factor}
    (h : AllResolved columnMap factor.atoms)
    (hprints : Prints (visitFactor columnMap factor).toList (factorTokens columnMap factor)) :
    Prints (visitFactor columnMap (.signed op factor)).toList
      (factorTokens columnMap (.signed op factor)) := by
  obtain ⟨c, cs, hcs, hminus⟩ := head_visitFactor hplain factor h
  have htokens : factorTokens columnMap (.signed op factor) = fun ts =>
      if isDoubleMinus op factor then [] else op.token :: factorTokens columnMap factor ts := by
    funext ts
    rw [factorTokens]
  rw [visitFactor, String.toList_append, htokens]
  by_cases hdouble : isDoubleMinus op factor
  · simp only [hdouble, if_true]
    rw [isDoubleMinus, Bool.and_eq_true, decide_eq_true_eq] at hdouble
    rw [hdouble.1]
    exact hprints.comment ⟨cs, by rw [hcs, hminus.2 hdouble.2]⟩
  · simp only [hdouble, Bool.false_eq_true, if_false]
    apply hprints.signed
    rintro rfl rest
    rw [hcs]
    rintro ⟨⟩
    exact hdouble (by rw [isDoubleMinus, hminus.1 rfl]; rfl)

mutual

/-- A sum prints its tokens, by induction on the tree. -/
theorem prints_visitOperand (hplain : Plain columnMap) : ∀ operand : Operand,
    AllResolved columnMap operand.atoms →
      Prints (visitOperand columnMap operand).toList (operandTokens columnMap operand)
  | .sum operand op term, h => by
    have hprints := (prints_visitOperand hplain operand h.left).operator (word_signOp op)
      (prints_visitTerm hplain term h.right)
    simpa [visitOperand, operandTokens] using hprints
  | .term term, h => prints_visitTerm hplain term h

/-- A product prints its tokens. -/
theorem prints_visitTerm (hplain : Plain columnMap) : ∀ term : Term,
    AllResolved columnMap term.atoms →
      Prints (visitTerm columnMap term).toList (termTokens columnMap term)
  | .product term op factor, h => by
    have hprints := (prints_visitTerm hplain term h.left).operator (word_termOp op)
      (prints_visitFactor hplain factor h.right)
    simpa [visitTerm, termTokens] using hprints
  | .factor factor, h => prints_visitFactor hplain factor h

/-- A factor prints its tokens, or starts a comment. -/
theorem prints_visitFactor (hplain : Plain columnMap) : ∀ factor : Factor,
    AllResolved columnMap factor.atoms →
      Prints (visitFactor columnMap factor).toList (factorTokens columnMap factor)
  | .signed op factor, h => prints_signed hplain op h (prints_visitFactor hplain factor h)
  | .group operand, h => by
    have hprints := (prints_visitOperand hplain operand h).group
    simpa [visitFactor, sbAnd, sbJoin, joinWith, factorTokens] using hprints
  | .atom atom, h => prints_visitAtom hplain (h atom List.mem_cons_self)

end

theorem prints_signedNumber (number : SignedNumber) :
    Prints number.text.toList number.tokens := by
  have hatom := isAtom_number number.number.matches_number
  have hnumber : Prints number.number.text.toList
      fun ts => ⟨.number, number.number.text⟩ :: ts := by
    have hprints := prints_atom hatom
    rwa [String.ofList_toList] at hprints
  obtain ⟨sign, digits⟩ := number
  cases sign with
  | none =>
    have hprints : Prints _ (SignedNumber.tokens ⟨none, digits⟩) := hnumber
    simpa [SignedNumber.text] using hprints
  | some op =>
    obtain ⟨c, cs, hcs, hne, _⟩ := hatom.first
    have hhead : op = .minus → ∀ rest, (digits.text.toList ++ rest).head? ≠ some '-' := by
      intro _ rest
      rw [hcs]
      rintro ⟨⟩
      exact hne rfl
    have hprints : Prints _ (SignedNumber.tokens ⟨some op, digits⟩) := hnumber.signed op hhead
    simpa [SignedNumber.text] using hprints

/-- The numbers of a list and the bracket behind them. -/
theorem prints_values (first : SignedNumber) (others : List SignedNumber) :
    Prints ((joinWith ", " ((first :: others).map SignedNumber.text)).toList ++ [')'])
      (valuesTokens first others) := by
  induction others generalizing first with
  | nil => exact (prints_signedNumber first).closed
  | cons second others ih =>
    have hprints : Prints _ (valuesTokens first (second :: others)) :=
      (prints_signedNumber first).comma (ih second)
    simpa [joinWith] using hprints

/-- A comparison prints its tokens. -/
theorem prints_visitComparison (hplain : Plain columnMap) (comparison : Comparison)
    (h : AllResolved columnMap comparison.atoms) :
    Prints (visitComparison columnMap comparison).toList
      (comparisonTokens columnMap comparison) := by
  cases comparison with
  | compare left op right =>
    have hprints : Prints _ (comparisonTokens columnMap (.compare left op right)) :=
      (prints_visitOperand hplain left h.left).operator (word_compOp op)
        (prints_visitOperand hplain right h.right)
    simpa [visitComparison] using hprints
  | inList operand negated first others =>
    have hlist := (prints_values first others).opened
    have hoperand := prints_visitOperand hplain operand h
    have hin : Word ['I', 'N'] ⟨.in, "IN"⟩ := word_spaced (by decide)
    have hnot : Word ['N', 'O', 'T'] notToken := word_spaced (by decide)
    cases negated with
    | false =>
      have hprints : Prints _ (comparisonTokens columnMap (.inList operand false first others)) :=
        hoperand.operator hin hlist
      simpa [visitComparison] using hprints
    | true =>
      have hprints : Prints _ (comparisonTokens columnMap (.inList operand true first others)) :=
        hoperand.operator hnot (Prints.word hin hlist)
      simpa [visitComparison] using hprints

theorem joinWith_cons (separator part : String) {parts : List String} (h : parts ≠ []) :
    joinWith separator (part :: parts) = part ++ separator ++ joinWith separator parts := by
  obtain ⟨next, parts, rfl⟩ := List.exists_cons_of_ne_nil h
  rfl

theorem orParts_ne_nil (expr : OrExpression) : orParts columnMap expr ≠ [] := by
  cases expr <;> exact List.cons_ne_nil _ _

theorem andParts_ne_nil (expr : AndExpression) : andParts columnMap expr ≠ [] := by
  cases expr <;> exact List.cons_ne_nil _ _

/-- A `NOT` prints one token more. -/
theorem prints_not (h : Prints cs read) :
    Prints ("NOT ".toList ++ cs) fun ts => notToken :: read ts :=
  Prints.word (word_spaced (w := ['N', 'O', 'T']) (by decide)) h

/-- The parts of a conjunction, put in brackets unless there is one only. -/
theorem prints_visitAnd {expr : AndExpression}
    (h : Prints (joinWith " AND " (andParts columnMap expr)).toList
      (andRestTokens columnMap expr)) :
    Prints (visitAndExpression columnMap expr).toList (andTokens columnMap expr) := by
  cases expr with
  | last primary => simpa [visitAndExpression, visitParts, andParts, joinWith, andRestTokens,
      andTokens] using h
  | and primary others =>
    obtain ⟨next, parts, hparts⟩ :=
      List.exists_cons_of_ne_nil (@andParts_ne_nil columnMap others)
    have hgroup := h.group
    simpa [visitAndExpression, visitParts, andParts, hparts, sbAnd, sbJoin, andTokens,
      andRestTokens] using hgroup

/-- The parts of a disjunction, put in brackets unless there is one only. -/
theorem prints_visitOr {expr : OrExpression}
    (h : Prints (joinWith " OR " (orParts columnMap expr)).toList (orRestTokens columnMap expr)) :
    Prints (visitOrExpression columnMap expr).toList (orTokens columnMap expr) := by
  cases expr with
  | last expr => simpa [visitOrExpression, visitParts, orParts, joinWith, orRestTokens,
      orTokens] using h
  | or expr others =>
    obtain ⟨next, parts, hparts⟩ :=
      List.exists_cons_of_ne_nil (@orParts_ne_nil columnMap others)
    have hgroup := h.group
    simpa [visitOrExpression, visitParts, orParts, hparts, sbOr, sbJoin, orTokens,
      orRestTokens] using hgroup

mutual

/-- The parts of a disjunction print their tokens. -/
theorem prints_orParts (hplain : Plain columnMap) : ∀ expr : OrExpression,
    AllResolved columnMap expr.atoms →
      Prints (joinWith " OR " (orParts columnMap expr)).toList (orRestTokens columnMap expr)
  | .last expr, h => prints_visitAnd (prints_andParts hplain expr h)
  | .or expr others, h => by
    have hor : Word ['O', 'R'] ⟨.or, "OR"⟩ := word_spaced (by decide)
    have hprints := (prints_visitAnd (prints_andParts hplain expr h.left)).operator hor
      (prints_orParts hplain others h.right)
    rw [orParts, joinWith_cons _ _ (orParts_ne_nil others)]
    simpa [visitAndExpression, orRestTokens] using hprints

/-- The parts of a conjunction print their tokens. -/
theorem prints_andParts (hplain : Plain columnMap) : ∀ expr : AndExpression,
    AllResolved columnMap expr.atoms →
      Prints (joinWith " AND " (andParts columnMap expr)).toList (andRestTokens columnMap expr)
  | .last primary, h => prints_visitPrimary hplain primary h
  | .and primary others, h => by
    have hand : Word ['A', 'N', 'D'] ⟨.and, "AND"⟩ := word_spaced (by decide)
    have hprints := (prints_visitPrimary hplain primary h.left).operator hand
      (prints_andParts hplain others h.right)
    rw [andParts, joinWith_cons _ _ (andParts_ne_nil others)]
    simpa [andRestTokens] using hprints

/-- A primary prints its tokens, after a `NOT` that it may have. -/
theorem prints_visitPrimary (hplain : Plain columnMap) : ∀ primary : Primary,
    AllResolved columnMap primary.atoms →
      Prints (visitPrimary columnMap primary).toList (primaryTokens columnMap primary)
  | .group negated expr, h => by
    have hinner := prints_visitOr (prints_orParts hplain expr h)
    cases negated with
    | false =>
      have hprints := hinner.group
      simpa [visitPrimary, visitOrExpression, sbAnd, sbJoin, joinWith, primaryTokens] using hprints
    | true =>
      have hprints := prints_not hinner
      simpa [visitPrimary, visitOrExpression, sbNot, primaryTokens] using hprints
  | .comparison negated comparison, h => by
    have hinner := prints_visitComparison hplain comparison h
    cases negated with
    | false => simpa [visitPrimary, primaryTokens] using hinner
    | true =>
      have hprints := prints_not hinner
      simpa [visitPrimary, sbNot, primaryTokens] using hprints

end

end Printed

end Signoz.Having
