import Mathlib.Data.List.Basic

/-!
# Trace operator expressions

The expression of `trace_operator.go`: the tree `TraceOperand`, its parser and the queries it
refers to. A `nil` pointer is a constructor of its own, so a tree has exactly the shapes the
source's type has.

Text is a list of characters. The source walks bytes; every operator and bracket is one byte, and
a byte of a longer character is none of them, so both walks find the same places. The parser
recurses on parts of its input; `parseTraceExpression` gives it enough fuel, and `parseExpression`
accepts trees of the shape `Parsed` within the limit (`parseExpression_accepts`).
-/

namespace Signoz.TraceOperator

/-- `TraceOperatorNot` and `TraceOperatorExclude` are the same value of the source's type. -/
inductive TraceOperatorType where
  | directDescendant
  | indirectDescendant
  | and
  | or
  | not
deriving DecidableEq

/-- `StringValue`: `valuer.NewString` lowers the case of what it is given. -/
def TraceOperatorType.stringValue : TraceOperatorType → String
  | .directDescendant => "=>"
  | .indirectDescendant => "->"
  | .and => "&&"
  | .or => "||"
  | .not => "not"

/-- `*TraceOperand`. The unary `NOT` has no right operand. -/
inductive TraceOperand where
  | nil
  | queryRef (name : String)
  | operation (operator : TraceOperatorType) (left right : TraceOperand)
deriving DecidableEq

/-! ## Parsing -/

/-- `unicode.IsSpace`. -/
def isSpace (c : Char) : Bool :=
  (9 ≤ c.toNat && c.toNat ≤ 13) || (0x2000 ≤ c.toNat && c.toNat ≤ 0x200a) ||
    [0x20, 0x85, 0xa0, 0x1680, 0x2028, 0x2029, 0x202f, 0x205f, 0x3000].contains c.toNat

/-- `strings.TrimSpace`. -/
def trimSpace (expr : List Char) : List Char :=
  ((expr.dropWhile isSpace).reverse.dropWhile isSpace).reverse

/-- `isBalancedParentheses`, with the depth reached so far. -/
def isBalancedFrom : Nat → List Char → Bool
  | depth, [] => depth == 0
  | depth, '(' :: cs => isBalancedFrom (depth + 1) cs
  | 0, ')' :: _ => false
  | depth + 1, ')' :: cs => isBalancedFrom depth cs
  | depth, _ :: cs => isBalancedFrom depth cs

def isBalancedParentheses (expr : List Char) : Bool := isBalancedFrom 0 expr

/-- The depth after one more character on a scan from the right. -/
def depthAfter (c : Char) (depth : Int) : Int :=
  match c with
  | ')' => depth + 1
  | '(' => depth - 1
  | _ => depth

/-- The scan of `findOperatorPosition`: `before` is the text left of the scan, last character
first, and `after` the text it has passed. -/
def findOperatorFrom (op : List Char) : (before after : List Char) → Int → Option Nat
  | [], _, _ => none
  | c :: before, after, depth =>
    let here := c :: after
    -- the binary NOT needs text on both sides of its spaces
    if depthAfter c depth = 0 ∧ op.isPrefixOf here = true ∧
        (op = " NOT ".toList → before ≠ [] ∧ op.length < here.length) then
      some before.length
    else findOperatorFrom op before here (depthAfter c depth)

/-- `findOperatorPosition`: the last place of `op` outside all parentheses. -/
def findOperatorPosition (expr op : List Char) : Option Nat :=
  findOperatorFrom op expr.reverse [] 0

/-- The binary operators in the order in which the parser looks for them. -/
def operators : List (List Char × TraceOperatorType) :=
  [("->".toList, .indirectDescendant), ("=>".toList, .directDescendant), ("&&".toList, .and),
    ("||".toList, .or), (" NOT ".toList, .not)]

/-- The first operator of the list that occurs, with its position. -/
def firstOperator (expr : List Char) :
    List (List Char × TraceOperatorType) → Option (List Char × TraceOperatorType × Nat)
  | [] => none
  | (op, opType) :: rest =>
    match findOperatorPosition expr op with
    | some pos => some (op, opType, pos)
    | none => firstOperator expr rest

/-- `^[A-Za-z][A-Za-z0-9_]*$`. -/
def isQueryName : List Char → Bool
  | [] => false
  | c :: cs => c.isAlpha && cs.all fun d => d.isAlphanum || d == '_'

inductive ParseError where
  | emptyExpression
  | invalidQueryReference (expr : String)
  | tooManyOperators (count : Nat)
  | outOfFuel
deriving DecidableEq

def ParseError.message : ParseError → String
  | .emptyExpression => "expression cannot be empty"
  | .invalidQueryReference expr => "invalid query reference '" ++ expr ++ "'"
  | .tooManyOperators count => "expression contains " ++ toString count ++
      " operators, which exceeds the maximum allowed 10 operators"
  | .outOfFuel => ""

/-- `expr[1 : len(expr)-1]`. -/
def unwrap (expr : List Char) : List Char := (expr.drop 1).dropLast

/-- `parseTraceExpression`: the tree and the number of its operators. -/
def parseWithFuel : Nat → List Char → Except ParseError (TraceOperand × Nat)
  | 0, _ => .error .outOfFuel
  | fuel + 1, input =>
    let expr := trimSpace input
    if "(".toList.isPrefixOf expr && ")".toList.isSuffixOf expr &&
        isBalancedParentheses (unwrap expr) then
      parseWithFuel fuel (unwrap expr)
    else if "NOT ".toList.isPrefixOf expr then do
      let (operand, count) ← parseWithFuel fuel (expr.drop 4)
      return (.operation .not operand .nil, count + 1)
    else match firstOperator expr operators with
      | some (op, opType, pos) => do
        let (left, leftCount) ← parseWithFuel fuel (trimSpace (expr.take pos))
        let (right, rightCount) ← parseWithFuel fuel (trimSpace (expr.drop (pos + op.length)))
        return (.operation opType left right, leftCount + rightCount + 1)
      | none =>
        if isQueryName expr then return (.queryRef (String.ofList expr), 0)
        else .error (.invalidQueryReference (String.ofList expr))

def parseTraceExpression (expr : String) : Except ParseError (TraceOperand × Nat) :=
  parseWithFuel (expr.length + 1) expr.toList

def maxTraceOperators : Nat := 10

/-- `ParseExpression`. -/
def parseExpression (expression : String) : Except ParseError TraceOperand := do
  if expression = "" then .error .emptyExpression
  let (parsed, operatorCount) ← parseTraceExpression expression
  if operatorCount > maxTraceOperators then .error (.tooManyOperators operatorCount)
  return parsed

/-! ## The queries of an expression -/

/-- `CollectReferencedQueries`. -/
def collectReferencedQueries : TraceOperand → List String
  | .nil => []
  | .queryRef name => [name]
  | .operation _ left right =>
    (collectReferencedQueries left ++ collectReferencedQueries right).eraseDups

theorem mem_collectReferencedQueries_operation {name : String} {op : TraceOperatorType}
    {left right : TraceOperand} :
    name ∈ collectReferencedQueries (.operation op left right) ↔
      name ∈ collectReferencedQueries left ∨ name ∈ collectReferencedQueries right := by
  simp [collectReferencedQueries]

/-! ## What the parser returns -/

/-- The trees the parser builds: every operand is there, but for the right one of a `NOT`. -/
inductive Parsed : TraceOperand → Prop
  | queryRef {name : String} (valid : isQueryName name.toList = true) : Parsed (.queryRef name)
  | unaryNot {operand : TraceOperand} : Parsed operand → Parsed (.operation .not operand .nil)
  | binary (op : TraceOperatorType) {left right : TraceOperand} :
      Parsed left → Parsed right → Parsed (.operation op left right)

/-- The name of all spans is one that a query may have. -/
theorem isQueryName_reserved : isQueryName "all_spans".toList = true := by
  decide +kernel

theorem Parsed.ne_nil {expr : TraceOperand} (h : Parsed expr) : expr ≠ .nil := by
  cases h <;> simp

/-- The number of operators of a tree. -/
def TraceOperand.operators : TraceOperand → Nat
  | .nil => 0
  | .queryRef _ => 0
  | .operation _ left right => left.operators + right.operators + 1

theorem Parsed.isQueryName {expr : TraceOperand} (h : Parsed expr) :
    ∀ name ∈ collectReferencedQueries expr, isQueryName name.toList = true := by
  intro name hname
  induction h with
  | queryRef valid =>
    obtain rfl := List.mem_singleton.1 hname
    exact valid
  | unaryNot _ ih =>
    apply ih
    rcases mem_collectReferencedQueries_operation.1 hname with hname | hname
    · exact hname
    · cases hname
  | binary op _ _ ihLeft ihRight =>
    rcases mem_collectReferencedQueries_operation.1 hname with hname | hname
    · exact ihLeft hname
    · exact ihRight hname

/-- The parser counts the operators of the tree it builds. -/
theorem parseWithFuel_parsed {fuel : Nat} {input : List Char} {parsed : TraceOperand}
    {count : Nat} (h : parseWithFuel fuel input = .ok (parsed, count)) :
    Parsed parsed ∧ parsed.operators = count := by
  induction fuel generalizing input parsed count with
  | zero => simp [parseWithFuel] at h
  | succ fuel ih =>
    simp only [parseWithFuel] at h
    split at h
    · exact ih h
    · split at h
      · cases hsub : parseWithFuel fuel ((trimSpace input).drop 4) with
        | error e => simp [hsub, bind, Except.bind] at h
        | ok res =>
          obtain ⟨operand, n⟩ := res
          simp only [hsub, bind, Except.bind, pure, Except.pure, Except.ok.injEq,
            Prod.mk.injEq] at h
          obtain ⟨hparsed, hcount⟩ := ih hsub
          rw [← h.1, ← h.2, ← hcount]
          exact ⟨.unaryNot hparsed, rfl⟩
      · split at h
        · next op opType pos _ =>
            cases hl : parseWithFuel fuel (trimSpace ((trimSpace input).take pos)) with
            | error e => simp [hl, bind, Except.bind] at h
            | ok left =>
              cases hr : parseWithFuel fuel
                  (trimSpace ((trimSpace input).drop (pos + op.length))) with
              | error e => simp [hl, hr, bind, Except.bind] at h
              | ok right =>
                simp only [hl, hr, bind, Except.bind, pure, Except.pure, Except.ok.injEq,
                  Prod.mk.injEq] at h
                obtain ⟨hleft, hcountLeft⟩ := ih hl
                obtain ⟨hright, hcountRight⟩ := ih hr
                rw [← h.1, ← h.2, ← hcountLeft, ← hcountRight]
                exact ⟨.binary opType hleft hright, rfl⟩
        · split at h
          · next hname =>
              simp only [pure, Except.pure, Except.ok.injEq, Prod.mk.injEq] at h
              rw [← h.1, ← h.2]
              exact ⟨.queryRef (by simpa using hname), rfl⟩
          · simp at h

/-! ### The fuel suffices -/

theorem trimSpace_length_le (expr : List Char) : (trimSpace expr).length ≤ expr.length := by
  simp only [trimSpace, List.length_reverse]
  have h1 := (List.dropWhile_suffix isSpace (l := (expr.dropWhile isSpace).reverse)).length_le
  have h2 := (List.dropWhile_suffix isSpace (l := expr)).length_le
  rw [List.length_reverse] at h1
  omega

theorem findOperatorFrom_le {op before after : List Char} {depth : Int} {pos : Nat}
    (h : findOperatorFrom op before after depth = some pos) :
    pos + op.length ≤ before.length + after.length ∧ pos < before.length := by
  induction before generalizing after depth with
  | nil => simp [findOperatorFrom] at h
  | cons c before ih =>
    simp only [findOperatorFrom] at h
    split at h
    · next hfound =>
        have hlen := (List.isPrefixOf_iff_prefix.mp hfound.2.1).length_le
        simp only [Option.some.injEq] at h
        simp only [List.length_cons] at hlen ⊢
        omega
    · have := ih h
      simp only [List.length_cons] at this ⊢
      omega

theorem firstOperator_mem {expr op : List Char} {opType : TraceOperatorType} {pos : Nat}
    {ops : List (List Char × TraceOperatorType)}
    (h : firstOperator expr ops = some (op, opType, pos)) :
    (op, opType) ∈ ops ∧ findOperatorPosition expr op = some pos := by
  induction ops with
  | nil => simp [firstOperator] at h
  | cons o ops ih =>
    obtain ⟨op', opType'⟩ := o
    simp only [firstOperator] at h
    split at h
    · next hpos =>
        simp only [Option.some.injEq, Prod.mk.injEq] at h
        obtain ⟨rfl, rfl, rfl⟩ := h
        exact ⟨List.mem_cons_self, hpos⟩
    · have := ih h
      exact ⟨List.mem_cons_of_mem _ this.1, this.2⟩

/-! The parser calls itself on shorter texts. -/

theorem unwrap_length_lt {input : List Char}
    (h : "(".toList.isPrefixOf (trimSpace input) = true) :
    (unwrap (trimSpace input)).length < input.length := by
  have htrim := trimSpace_length_le input
  have hlen := (List.isPrefixOf_iff_prefix.mp h).length_le
  simp only [unwrap, List.length_dropLast, List.length_drop]
  simp only [String.reduceToList, List.length_cons, List.length_nil] at hlen
  omega

theorem drop_not_length_lt {input : List Char}
    (h : "NOT ".toList.isPrefixOf (trimSpace input) = true) :
    ((trimSpace input).drop 4).length < input.length := by
  have htrim := trimSpace_length_le input
  have hlen := (List.isPrefixOf_iff_prefix.mp h).length_le
  simp only [List.length_drop]
  simp only [String.reduceToList, List.length_cons, List.length_nil] at hlen
  omega

theorem operand_length_lt {input op : List Char} {opType : TraceOperatorType} {pos : Nat}
    (h : firstOperator (trimSpace input) operators = some (op, opType, pos)) :
    (trimSpace ((trimSpace input).take pos)).length < input.length ∧
      (trimSpace ((trimSpace input).drop (pos + op.length))).length < input.length := by
  have htrim := trimSpace_length_le input
  obtain ⟨hmem, hfind⟩ := firstOperator_mem h
  have hpos := findOperatorFrom_le hfind
  simp only [List.length_reverse, List.length_nil, Nat.add_zero] at hpos
  have hne : 0 < op.length := by
    simp only [operators, List.mem_cons, Prod.mk.injEq, List.not_mem_nil, or_false] at hmem
    rcases hmem with h | h | h | h | h <;> simp [h.1]
  have hleft := trimSpace_length_le ((trimSpace input).take pos)
  have hright := trimSpace_length_le ((trimSpace input).drop (pos + op.length))
  simp only [List.length_take, List.length_drop] at hleft hright
  omega

/-- One unit of fuel a character is enough. -/
theorem parseWithFuel_ne_outOfFuel {fuel : Nat} {input : List Char}
    (h : input.length < fuel) : parseWithFuel fuel input ≠ .error .outOfFuel := by
  induction fuel generalizing input with
  | zero => simp at h
  | succ fuel ih =>
    simp only [parseWithFuel]
    split
    · next hparen =>
        simp only [Bool.and_eq_true] at hparen
        have hlen := unwrap_length_lt hparen.1.1
        exact ih (by omega)
    · split
      · next hnot =>
          have hlen := drop_not_length_lt hnot
          have hsub := @ih ((trimSpace input).drop 4) (by omega)
          cases hres : parseWithFuel fuel ((trimSpace input).drop 4) with
          | error e =>
            simp only [bind, Except.bind]
            rw [hres] at hsub
            exact hsub
          | ok res => simp [bind, Except.bind, pure, Except.pure]
      · split
        · next op opType pos hop =>
            obtain ⟨hlenLeft, hlenRight⟩ := operand_length_lt hop
            have hl := @ih (trimSpace ((trimSpace input).take pos)) (by omega)
            have hr := @ih (trimSpace ((trimSpace input).drop (pos + op.length))) (by omega)
            cases hleft : parseWithFuel fuel (trimSpace ((trimSpace input).take pos)) with
            | error e =>
              simp only [bind, Except.bind]
              rw [hleft] at hl
              exact hl
            | ok left =>
              cases hright : parseWithFuel fuel
                  (trimSpace ((trimSpace input).drop (pos + op.length))) with
              | error e =>
                simp only [bind, Except.bind]
                rw [hright] at hr
                exact hr
              | ok right => simp [bind, Except.bind, pure, Except.pure]
        · split <;> simp [pure, Except.pure]

/-- The parser never stops for lack of fuel. -/
theorem parseTraceExpression_ne_outOfFuel (expr : String) :
    parseTraceExpression expr ≠ .error .outOfFuel :=
  parseWithFuel_ne_outOfFuel (by rw [String.length_toList]; omega)

/-- Every text is decided, and the counter of a parsed text is the number of its operators. What is
accepted has the shape the statement builder works on, at most ten operators, and refers to queries
by names a query may have. -/
theorem parseExpression_accepts (expression : String) :
    parseExpression expression ≠ .error .outOfFuel ∧
      (∀ tree count, parseTraceExpression expression = .ok (tree, count) →
        tree.operators = count) ∧
      ∀ parsed, parseExpression expression = .ok parsed →
        Parsed parsed ∧ parsed.operators ≤ maxTraceOperators ∧
          ∀ name ∈ collectReferencedQueries parsed, isQueryName name.toList = true := by
  have hfuel := parseTraceExpression_ne_outOfFuel expression
  have hcounter : ∀ tree count, parseTraceExpression expression = .ok (tree, count) →
      tree.operators = count := fun tree count h => (parseWithFuel_parsed h).2
  unfold parseExpression
  by_cases hempty : expression = ""
  · exact ⟨by simp [hempty, bind, Except.bind], hcounter,
      by simp [hempty, bind, Except.bind]⟩
  cases hparse : parseTraceExpression expression with
  | error e =>
    rw [hparse] at hfuel
    simpa [hempty, bind, Except.bind] using hfuel
  | ok res =>
    obtain ⟨tree, count⟩ := res
    obtain ⟨hparsed, hcount⟩ := parseWithFuel_parsed hparse
    by_cases hmany : count > maxTraceOperators
    · simp [hempty, hmany, bind, Except.bind, hcount]
    · have hle : count ≤ maxTraceOperators := by omega
      simpa [hempty, hmany, bind, Except.bind, pure, Except.pure, hcount] using
        ⟨hparsed, hle, hparsed.isQueryName⟩

example : parseExpression "NOT (A => B)" = .ok
    (.operation .not (.operation .directDescendant (.queryRef "A") (.queryRef "B")) .nil) := by
  decide +kernel

end Signoz.TraceOperator
