import Signoz.Having.Readback
import Mathlib.Data.List.Dedup

/-!
# Which rewritten expressions are read back

Without a minus on a minus the tokens of a rewritten expression are read as its tree, level by level
(`reads_or`). Otherwise they lack what is behind the comment, at least one number or column
(`counts_or`), so that they are read as another expression or not at all.
-/

namespace Signoz.Having

open Lib.SqlExpression

/-! ## Minus signs in a row -/

mutual

/-- A minus is applied to a minus somewhere in the operand. -/
def Operand.hasDoubleMinus : Operand → Bool
  | .sum operand _ term => operand.hasDoubleMinus || term.hasDoubleMinus
  | .term term => term.hasDoubleMinus

def Term.hasDoubleMinus : Term → Bool
  | .product term _ factor => term.hasDoubleMinus || factor.hasDoubleMinus
  | .factor factor => factor.hasDoubleMinus

def Factor.hasDoubleMinus : Factor → Bool
  | .signed op factor => isDoubleMinus op factor || factor.hasDoubleMinus
  | .group operand => operand.hasDoubleMinus
  | .atom _ => false

end

def Comparison.hasDoubleMinus : Comparison → Bool
  | .compare left _ right => left.hasDoubleMinus || right.hasDoubleMinus
  | .inList operand _ _ _ => operand.hasDoubleMinus

mutual

def OrExpression.hasDoubleMinus : OrExpression → Bool
  | .last expr => expr.hasDoubleMinus
  | .or expr rest => expr.hasDoubleMinus || rest.hasDoubleMinus

def AndExpression.hasDoubleMinus : AndExpression → Bool
  | .last primary => primary.hasDoubleMinus
  | .and primary rest => primary.hasDoubleMinus || rest.hasDoubleMinus

def Primary.hasDoubleMinus : Primary → Bool
  | .group _ expr => expr.hasDoubleMinus
  | .comparison _ comparison => comparison.hasDoubleMinus

end

variable {columnMap : ColumnMap}

/-! ## Without them -/

/-- What may follow an expression that a comparison or a sign does not go on over. -/
def Closes (rest : List Token) : Prop :=
  HeadNot [.comparison, .in, .not, .plus, .minus, .star, .slash, .percent] rest

variable {ts rest : List Token} {e : Expr}

theorem reads_not_of_sum (h : Reads .sum ts e rest) (hts : HeadNot [.not] ts)
    (hrest : HeadNot [.comparison, .in, .not] rest) :
    Reads .not ts e rest :=
  .notEnd hts (.comparisonEnd h hrest)

theorem reads_not_of_unary (h : Reads .unary ts e rest) (hts : HeadNot [.not] ts)
    (hrest : Closes rest) : Reads .not ts e rest :=
  reads_not_of_sum
    (.sum (.product h (.productEnd (hrest.mono (by decide)))) (.sumEnd (hrest.mono (by decide))))
    hts (hrest.mono (by decide))

/-- A condition in brackets. -/
theorem reads_group (h : Reads .or ts e (rparen :: rest)) :
    Reads .unary (lparen :: ts) e rest :=
  .group rfl h rfl

theorem SignOp.kind_token (op : SignOp) : op.token.kind = op.sign.kind := by
  cases op <;> rfl

theorem SignOp.kind_arithOp (op : SignOp) : op.token.kind = op.arithOp.kind := by
  cases op <;> rfl

theorem TermOp.kind_arithOp (op : TermOp) : op.token.kind = op.arithOp.kind := by
  cases op <;> rfl

theorem SignOp.level_arithOp (op : SignOp) : op.arithOp.level = .sum := by
  cases op <;> rfl

theorem TermOp.level_arithOp (op : TermOp) : op.arithOp.level = .product := by
  cases op <;> rfl

theorem kind_atomToken (atom : Atom) : (atomToken columnMap atom).kind ≠ .not := by
  rw [atomToken]
  split <;> exact TokenKind.noConfusion

mutual

/-- The tokens of an operand do not start with `NOT`. -/
theorem headNot_operand : ∀ (operand : Operand) (rest : List Token),
    HeadNot [.not] (operandTokens columnMap operand rest)
  | .sum operand _ _, _ => headNot_operand operand _
  | .term term, _ => headNot_term term _

theorem headNot_term : ∀ (term : Term) (rest : List Token),
    HeadNot [.not] (termTokens columnMap term rest)
  | .product term _ _, _ => headNot_term term _
  | .factor factor, _ => headNot_factor factor _

theorem headNot_factor : ∀ (factor : Factor) (rest : List Token),
    HeadNot [.not] (factorTokens columnMap factor rest)
  | .signed op factor, rest => by
    rw [factorTokens]
    split
    · nofun
    · exact headNot_cons (by cases op <;> decide) _
  | .group _, _ => headNot_cons (by decide) _
  | .atom atom, _ => headNot_cons (by simpa using kind_atomToken atom) _

end

theorem reads_atom (atom : Atom) (rest : List Token) :
    Reads .unary (atomToken columnMap atom :: rest) (atomExpr columnMap atom) rest := by
  rw [atomToken, atomExpr]
  split
  · exact .column rfl
  · exact .number rfl

mutual

/-- The tokens of an operand are read as its tree, and then what goes on from there. -/
theorem reads_operand : ∀ operand : Operand, operand.hasDoubleMinus = false →
    ∀ {rest : List Token} {e : Expr} {rest' : List Token},
      HeadNot [.star, .slash, .percent] rest →
      GoesOn .sum (operandExpr columnMap operand) rest e rest' →
      Reads .sum (operandTokens columnMap operand rest) e rest'
  | .sum operand op term, h, _, _, _, hrest, hgo => by
    rw [Operand.hasDoubleMinus, Bool.or_eq_false_iff] at h
    apply reads_operand operand h.1
    · exact headNot_cons (by cases op <;> decide) _
    · exact .sum op.kind_arithOp op.level_arithOp (reads_term term h.2 (.productEnd hrest)) hgo
  | .term term, h, _, _, _, hrest, hgo => .sum (reads_term term h (.productEnd hrest)) hgo

theorem reads_term : ∀ term : Term, term.hasDoubleMinus = false →
    ∀ {rest : List Token} {e : Expr} {rest' : List Token},
      GoesOn .product (termExpr columnMap term) rest e rest' →
      Reads .product (termTokens columnMap term rest) e rest'
  | .product term op factor, h, _, _, _, hgo => by
    rw [Term.hasDoubleMinus, Bool.or_eq_false_iff] at h
    apply reads_term term h.1
    exact .product op.kind_arithOp op.level_arithOp (reads_factor factor h.2 _) hgo
  | .factor factor, h, _, _, _, hgo => .product (reads_factor factor h _) hgo

theorem reads_factor : ∀ factor : Factor, factor.hasDoubleMinus = false → ∀ rest : List Token,
    Reads .unary (factorTokens columnMap factor rest) (factorExpr columnMap factor) rest
  | .signed op factor, h, rest => by
    rw [Factor.hasDoubleMinus, Bool.or_eq_false_iff] at h
    rw [factorTokens, h.1, if_neg Bool.false_ne_true, factorExpr]
    exact .sign op.kind_token (reads_factor factor h.2 rest)
  | .group operand, h, rest => by
    apply reads_group
    refine .orEnd (.andEnd (reads_not_of_sum (reads_operand operand h ?_ (.sumEnd ?_))
      (headNot_operand operand _) ?_) ?_) ?_
    all_goals exact headNot_cons (by decide) _
  | .atom atom, _, rest => reads_atom atom rest

end

/-- An operand before what no operator goes on with. -/
theorem reads_wholeOperand (operand : Operand) (h : operand.hasDoubleMinus = false)
    {rest : List Token} (hrest : HeadNot [.plus, .minus, .star, .slash, .percent] rest) :
    Reads .sum (operandTokens columnMap operand rest) (operandExpr columnMap operand) rest :=
  reads_operand operand h (hrest.mono (by decide)) (.sumEnd (hrest.mono (by decide)))

theorem reads_signedNumber (number : SignedNumber) (rest : List Token) :
    ReadsValue (number.tokens rest) number.value rest := by
  obtain ⟨sign, digits⟩ := number
  cases sign with
  | none => exact .number rfl
  | some op => exact .signed op.kind_token rfl

theorem reads_values (first : SignedNumber) (others : List SignedNumber) (rest : List Token) :
    ReadsValues (valuesTokens first others rest) ((first :: others).map SignedNumber.value)
      rest := by
  induction others generalizing first with
  | nil => exact .last (reads_signedNumber first _) rfl
  | cons second others ih => exact .cons (reads_signedNumber first _) rfl (ih second)

theorem reads_comparison (comparison : Comparison) (h : comparison.hasDoubleMinus = false)
    {rest : List Token} (hrest : Closes rest) :
    Reads .comparison (comparisonTokens columnMap comparison rest)
      (comparisonExpr columnMap comparison) rest := by
  cases comparison with
  | compare left op right =>
    rw [Comparison.hasDoubleMinus, Bool.or_eq_false_iff] at h
    have hright : Reads .sum (operandTokens columnMap right rest) (operandExpr columnMap right)
        rest := reads_wholeOperand right h.2 (hrest.mono (by decide))
    have hop : HeadNot [.plus, .minus, .star, .slash, .percent]
        (⟨.comparison, op.text⟩ :: operandTokens columnMap right rest) := by
      rintro t ⟨⟩
      simp
    exact .compare (t := ⟨.comparison, op.text⟩) (reads_wholeOperand left h.1 hop) rfl hright
  | inList operand negated first others =>
    have hvalues := reads_values first others rest
    cases negated with
    | false =>
      refine .inList (reads_wholeOperand operand h ?_) (.plain rfl rfl) hvalues
      exact headNot_cons (by decide) _
    | true =>
      refine .inList (reads_wholeOperand operand h ?_) (.negated rfl rfl rfl) hvalues
      exact headNot_cons (by decide) _

theorem headNot_comparison (comparison : Comparison) (rest : List Token) :
    HeadNot [.not] (comparisonTokens columnMap comparison rest) := by
  cases comparison with
  | compare left _ _ => exact headNot_operand left _
  | inList operand _ _ _ => exact headNot_operand operand _

/-- The tokens of an expression by itself, and of its parts in brackets. -/
structure ReadsParts (level : Level) (whole parts : List Token → List Token) (e : Expr) :
    Prop where
  whole : ∀ rest, Closes rest → Reads .not (whole rest) e rest
  parts : ∀ rest, Closes rest → HeadNot [.and, .or] rest → Reads level (parts rest) e rest

/-- Several parts are put in brackets. -/
theorem reads_group_not (h : Reads .or ts e (rparen :: rest)) (hrest : Closes rest) :
   Reads .not (lparen :: ts) e rest :=
  reads_not_of_unary (reads_group h) (headNot_cons (by decide) _) hrest

theorem closes_cons {t : Token} (h : t.kind ∈ [TokenKind.and, .or, .rparen]) (ts : List Token) :
    Closes (t :: ts) := by
  have hkinds : ∀ kind ∈ [TokenKind.and, .or, .rparen],
      kind ∉ [TokenKind.comparison, .in, .not, .plus, .minus, .star, .slash, .percent] := by
    decide
  exact headNot_cons (hkinds _ h) ts

mutual

theorem reads_or : ∀ expr : OrExpression, expr.hasDoubleMinus = false →
    ReadsParts .or (orTokens columnMap expr) (orRestTokens columnMap expr)
      (orExpr columnMap expr)
  | .last expr, h => by
    have hexpr := reads_and expr h
    refine ⟨hexpr.whole, fun rest hrest hend => ?_⟩
    exact .orEnd (.andEnd (hexpr.whole rest hrest) (hend.mono (by decide)))
      (hend.mono (by decide))
  | .or expr others, h => by
    rw [OrExpression.hasDoubleMinus, Bool.or_eq_false_iff] at h
    have hexpr := reads_and expr h.1
    have hothers := reads_or others h.2
    have hparts : ∀ rest, Closes rest → HeadNot [.and, .or] rest →
        Reads .or (orRestTokens columnMap (.or expr others) rest)
          (orExpr columnMap (.or expr others)) rest := by
      intro rest hrest hend
      have hfirst := hexpr.whole (⟨.or, "OR"⟩ :: orRestTokens columnMap others rest)
        (closes_cons (by decide) _)
      exact .or (.andEnd hfirst (headNot_cons (by decide) _)) rfl (hothers.parts rest hrest hend)
    refine ⟨fun rest hrest => ?_, hparts⟩
    exact reads_group_not
      (hparts (rparen :: rest) (closes_cons (by decide) _) (headNot_cons (by decide) _)) hrest

theorem reads_and : ∀ expr : AndExpression, expr.hasDoubleMinus = false →
    ReadsParts .and (andTokens columnMap expr) (andRestTokens columnMap expr)
      (andExpr columnMap expr)
  | .last primary, h => by
    have hprimary := reads_primary primary h
    refine ⟨hprimary, fun rest hrest hend => ?_⟩
    exact .andEnd (hprimary rest hrest) (hend.mono (by decide))
  | .and primary others, h => by
    rw [AndExpression.hasDoubleMinus, Bool.or_eq_false_iff] at h
    have hprimary := reads_primary primary h.1
    have hothers := reads_and others h.2
    have hparts : ∀ rest, Closes rest → HeadNot [.and, .or] rest →
        Reads .and (andRestTokens columnMap (.and primary others) rest)
          (andExpr columnMap (.and primary others)) rest := by
      intro rest hrest hend
      exact .and (hprimary _ (closes_cons (by decide) _)) rfl (hothers.parts rest hrest hend)
    refine ⟨fun rest hrest => ?_, hparts⟩
    have hinner := hparts (rparen :: rest) (closes_cons (by decide) _)
      (headNot_cons (by decide) _)
    exact reads_group_not (.orEnd hinner (headNot_cons (by decide) _)) hrest

theorem reads_primary : ∀ primary : Primary, primary.hasDoubleMinus = false →
    ∀ rest, Closes rest → Reads .not (primaryTokens columnMap primary rest)
      (primaryExpr columnMap primary) rest
  | .group negated expr, h, rest, hrest => by
    have hexpr := reads_or expr h
    cases negated with
    | true => exact .not rfl (hexpr.whole rest hrest)
    | false =>
      have hinner := hexpr.whole (rparen :: rest) (closes_cons (by decide) _)
      refine reads_group_not (.orEnd (.andEnd hinner ?_) ?_) hrest
      all_goals exact headNot_cons (by decide) _
  | .comparison negated comparison, h, rest, hrest => by
    have hplain : Reads .not (comparisonTokens columnMap comparison rest)
        (comparisonExpr columnMap comparison) rest :=
      .notEnd (headNot_comparison comparison rest) (reads_comparison comparison h hrest)
    cases negated with
    | false => exact hplain
    | true => exact .not rfl hplain

end

/-! ## With them -/

/-- What is put before other tokens has so many numbers and columns, or fewer, and nothing is
behind it, when some are lost. -/
def Counts (read : List Token → List Token) (lost : Bool) (n : Nat) : Prop :=
  ∀ rest, if lost then atoms (read rest) < n else atoms (read rest) = n + atoms rest

section Counts

variable {read read' : List Token → List Token} {lost lost' : Bool} {n n' : Nat}

theorem Counts.cons (h : Counts read lost n) {t : Token} (ht : t.kind.isAtom = false) :
    Counts (fun ts => t :: read ts) lost n := by
  intro rest
  rw [atoms_skip rfl ht]
  exact h rest

theorem Counts.snoc (h : Counts read lost n) {t : Token} (ht : t.kind.isAtom = false) :
    Counts (fun ts => read (t :: ts)) lost n := by
  intro rest
  rw [← atoms_skip rfl ht rest]
  exact h (t :: rest)

theorem Counts.comp (h : Counts read lost n) (h' : Counts read' lost' n') :
    Counts (fun ts => read (read' ts)) (lost || lost') (n + n') := by
  intro rest
  have hread := h (read' rest)
  have hread' := h' rest
  cases lost <;> cases lost' <;> simp only [Bool.or_false, Bool.or_true, Bool.false_eq_true,
    if_true, if_false] at hread hread' ⊢ <;> omega

theorem Counts.of_atom {t : Token} (ht : t.kind.isAtom) : Counts (fun ts => t :: ts) false 1 :=
  atoms_take rfl ht

end Counts

theorem SignOp.not_isAtom (op : SignOp) : op.token.kind.isAtom = false := by
  cases op <;> rfl

theorem TermOp.not_isAtom (op : TermOp) : op.token.kind.isAtom = false := by
  cases op <;> rfl

theorem counts_atom (atom : Atom) :
    Counts (fun ts => atomToken columnMap atom :: ts) false (atomExpr columnMap atom).atoms := by
  rw [atomToken, atomExpr]
  split <;> exact Counts.of_atom rfl

mutual

theorem counts_operand : ∀ operand : Operand, Counts (operandTokens columnMap operand)
    operand.hasDoubleMinus (operandExpr columnMap operand).atoms
  | .sum operand op term => (counts_operand operand).comp ((counts_term term).cons op.not_isAtom)
  | .term term => counts_term term

theorem counts_term : ∀ term : Term, Counts (termTokens columnMap term) term.hasDoubleMinus
    (termExpr columnMap term).atoms
  | .product term op factor => (counts_term term).comp ((counts_factor factor).cons op.not_isAtom)
  | .factor factor => counts_factor factor

theorem counts_factor : ∀ factor : Factor, Counts (factorTokens columnMap factor)
    factor.hasDoubleMinus (factorExpr columnMap factor).atoms
  | .signed op factor => by
    intro rest
    rw [factorTokens, Factor.hasDoubleMinus, factorExpr, Expr.atoms]
    by_cases hdouble : isDoubleMinus op factor
    · -- Nothing of the factor is left, and it has a number or a column.
      simpa [hdouble, atoms] using (factorExpr columnMap factor).atoms_pos
    · simpa [hdouble] using (counts_factor factor).cons op.not_isAtom rest
  | .group operand => ((counts_operand operand).snoc rfl).cons rfl
  | .atom atom => counts_atom atom

end

theorem counts_signedNumber (number : SignedNumber) : Counts number.tokens false 1 := by
  obtain ⟨sign, digits⟩ := number
  have hdigits : Counts (fun ts => ⟨.number, digits.text⟩ :: ts) false 1 := .of_atom rfl
  cases sign with
  | none => exact hdigits
  | some op => exact hdigits.cons op.not_isAtom

theorem counts_values (first : SignedNumber) (others : List SignedNumber) :
    Counts (valuesTokens first others) false ((first :: others).map SignedNumber.value).length := by
  rw [List.length_map]
  induction others generalizing first with
  | nil => exact (counts_signedNumber first).snoc rfl
  | cons second others ih =>
    rw [List.length_cons, Nat.add_comm]
    exact (counts_signedNumber first).comp ((ih second).cons rfl)

theorem counts_comparison (comparison : Comparison) :
    Counts (comparisonTokens columnMap comparison) comparison.hasDoubleMinus
      (comparisonExpr columnMap comparison).atoms := by
  cases comparison with
  | compare left op right => exact (counts_operand left).comp ((counts_operand right).cons rfl)
  | inList operand negated first others =>
    have hlist := ((counts_values first others).cons (t := lparen) rfl).cons
      (t := ⟨.in, "IN"⟩) rfl
    rw [Comparison.hasDoubleMinus, ← Bool.or_false operand.hasDoubleMinus]
    cases negated with
    | false => exact (counts_operand operand).comp hlist
    | true => exact (counts_operand operand).comp (hlist.cons (t := notToken) rfl)

theorem atoms_negate (negated : Bool) (e : Expr) : (negate negated e).atoms = e.atoms := by
  cases negated <;> rfl

/-- The brackets around several parts have no numbers and no columns. -/
theorem Counts.group {read : List Token → List Token} {lost : Bool} {n : Nat}
    (h : Counts read lost n) : Counts (fun ts => lparen :: read (rparen :: ts)) lost n :=
  (h.snoc rfl).cons rfl

mutual

theorem counts_or : ∀ expr : OrExpression, Counts (orTokens columnMap expr) expr.hasDoubleMinus
    (orExpr columnMap expr).atoms
  | .last expr => counts_and expr
  | .or expr others => ((counts_and expr).comp ((counts_orRest others).cons rfl)).group

theorem counts_orRest : ∀ expr : OrExpression, Counts (orRestTokens columnMap expr)
    expr.hasDoubleMinus (orExpr columnMap expr).atoms
  | .last expr => counts_and expr
  | .or expr others => (counts_and expr).comp ((counts_orRest others).cons rfl)

theorem counts_and : ∀ expr : AndExpression, Counts (andTokens columnMap expr)
    expr.hasDoubleMinus (andExpr columnMap expr).atoms
  | .last primary => counts_primary primary
  | .and primary others => ((counts_primary primary).comp ((counts_andRest others).cons rfl)).group

theorem counts_andRest : ∀ expr : AndExpression, Counts (andRestTokens columnMap expr)
    expr.hasDoubleMinus (andExpr columnMap expr).atoms
  | .last primary => counts_primary primary
  | .and primary others => (counts_primary primary).comp ((counts_andRest others).cons rfl)

theorem counts_primary : ∀ primary : Primary, Counts (primaryTokens columnMap primary)
    primary.hasDoubleMinus (primaryExpr columnMap primary).atoms
  | .group negated expr => by
    rw [primaryExpr, atoms_negate]
    cases negated with
    | false => exact (counts_or expr).group
    | true => exact (counts_or expr).cons rfl
  | .comparison negated comparison => by
    rw [primaryExpr, atoms_negate]
    cases negated with
    | false => exact counts_comparison comparison
    | true => exact (counts_comparison comparison).cons rfl

end

/-! ## Accepted expressions -/

theorem invalidOf_eq_nil {atom : Atom} (hstring : atom.isString = false)
    (h : invalidOf columnMap atom = []) : IsResolved columnMap atom := by
  cases atom with
  | number number => exact Or.inr ⟨number, rfl⟩
  | string _ => cases hstring
  | functionCall name args =>
    left
    cases hresolve : resolve columnMap (.functionCall name args) with
    | some _ => rfl
    | none => simp [invalidOf, hresolve] at h
  | identifier name =>
    left
    cases hresolve : resolve columnMap (.identifier name) with
    | some _ => rfl
    | none => simp [invalidOf, hresolve] at h

/-- An expression that is accepted has numbers and references that are resolved, and nothing
else. -/
theorem rewriteAndValidate_ok {query : OrExpression} {text : String}
    (h : rewriteAndValidate columnMap query = .ok text) :
    AllResolved columnMap query.atoms ∧ text = visitOrExpression columnMap query := by
  rw [rewriteAndValidate] at h
  split at h
  · cases h
  · next hstring =>
    split at h
    · cases h
    · next hinvalid =>
      cases h
      refine ⟨fun atom hatom => ?_, rfl⟩
      have hnil := List.flatMap_eq_nil_iff.1 ((List.dedup_eq_nil _).1 (not_not.1 hinvalid))
      apply invalidOf_eq_nil _ (hnil atom hatom)
      rw [Bool.not_eq_true, List.any_eq_false] at hstring
      exact Bool.not_eq_true _ ▸ hstring atom hatom

/-- The tokens of the text of an accepted expression. -/
theorem tokens_visitOrExpression (hplain : Plain columnMap) {query : OrExpression}
    (h : AllResolved columnMap query.atoms) :
    tokens (visitOrExpression columnMap query).toList = orTokens columnMap query [] := by
  have hprints := (prints_visitOr (prints_orParts hplain query h)).reads []
    List.not_mem_nil (by rintro c ⟨⟩)
  rw [List.append_nil] at hprints
  exact hprints

/-- The text of an expression that is accepted stands for its tree unless a minus is applied to a
minus. -/
theorem rewriteAndValidate_readsAs_iff (aggregations : Aggregations) (query : OrExpression)
    (text : String) (h : rewriteAndValidate aggregations.columnMap query = .ok text) :
    ReadsAs text (orExpr aggregations.columnMap query) ↔ query.hasDoubleMinus = false := by
  obtain ⟨hresolved, rfl⟩ := rewriteAndValidate_ok h
  rw [ReadsAs, tokens_visitOrExpression aggregations.plain hresolved]
  constructor
  · intro hreads
    cases hdouble : query.hasDoubleMinus with
    | false => rfl
    | true =>
      have hcounts : Counts (orTokens aggregations.columnMap query) _ _ := counts_or query
      have hfewer := hcounts []
      rw [hdouble, if_pos rfl, hreads.atoms] at hfewer
      exact absurd hfewer (Nat.not_lt.2 (Nat.le_add_right _ _))
  · intro hdouble
    have hend : ∀ kinds, HeadNot kinds [] := fun _ _ => nofun
    exact .orEnd (.andEnd ((reads_or query hdouble).whole [] (hend _)) (hend _)) (hend _)

/-- The number `1`. -/
def one : NumberToken where
  text := "1"
  matches_number := by
    have hmunch : number.munch "1".toList = some 1 := by decide
    exact (Lib.Regex.matches_of_munch hmunch).2

/-- `count()` -/
def countCall : Factor := .atom (.functionCall "count" "")

/-- The condition that a factor is above one. -/
def aboveOne (factor : Factor) : OrExpression :=
  .last (.last (.comparison false
    (.compare (.term (.factor factor)) .gt (.term (.factor (.atom (.number one)))))))

def countLogs : Aggregations := .logs [⟨"count()", ""⟩]

theorem negativeCount_readsAs :
    rewriteAndValidate countLogs.columnMap (aboveOne (.signed .minus countCall)) =
        .ok "-__result_0 > 1" ∧
      (ReadsAs "-__result_0 > 1"
          (orExpr countLogs.columnMap (aboveOne (.signed .minus countCall))) ↔
        (aboveOne (.signed .minus countCall)).hasDoubleMinus = false) :=
  ⟨rfl, rewriteAndValidate_readsAs_iff countLogs _ _ rfl⟩

/-- A negated negative count is a comment, and no condition at all. -/
theorem negatedNegativeCount_not_readsAs :
    rewriteAndValidate countLogs.columnMap
        (aboveOne (.signed .minus (.signed .minus countCall))) = .ok "--__result_0 > 1" ∧
      ∀ e, ¬ ReadsAs "--__result_0 > 1" e := by
  refine ⟨rfl, fun e h => ?_⟩
  have htokens : tokens "--__result_0 > 1".toList = [] := tokens_comment (by decide)
  rw [ReadsAs, htokens] at h
  exact absurd h.atoms (Nat.ne_of_lt (Nat.add_pos_left e.atoms_pos _))

end Signoz.Having
