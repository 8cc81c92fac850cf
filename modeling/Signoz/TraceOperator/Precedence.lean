import Mathlib.Data.List.Induction
import Signoz.TraceOperator.Expression

/-!
# The precedence of trace operators

`parseTraceExpression` documents that `NOT` binds tightest, then `||`, then `&&`, then `=>`.
`printAt` writes a tree of these operators with the parentheses that this order requires. The
parser reads back those trees where no text with a binary operator begins with `NOT`: the prefix is
taken off before any operator is looked for, so that `NOT A && B` is read as `NOT (A && B)`.

A text made of bracketed parts (`Bracketed`) does not change the depth of a scan, and the scan for an
operator passes over every text whose operators bind tighter (`skips_printAt`).
-/

namespace Signoz.TraceOperator

/-! ## Trees and their texts -/

/-- The text of a query reference. -/
structure QueryName where
  text : List Char
  valid : isQueryName text = true

/-- The binary operators of the documented order. -/
inductive BinaryOperator where
  | directDescendant
  | and
  | or

/-- How tight an operator binds: `NOT` has level 4, and a name level 5. -/
def BinaryOperator.level : BinaryOperator → Nat
  | .directDescendant => 1
  | .and => 2
  | .or => 3

def BinaryOperator.symbol : BinaryOperator → List Char
  | .directDescendant => "=>".toList
  | .and => "&&".toList
  | .or => "||".toList

def BinaryOperator.operatorType : BinaryOperator → TraceOperatorType
  | .directDescendant => .directDescendant
  | .and => .and
  | .or => .or

inductive OperatorTree where
  | name (query : QueryName)
  | not (operand : OperatorTree)
  | binary (op : BinaryOperator) (left right : OperatorTree)

namespace OperatorTree

def toOperand : OperatorTree → TraceOperand
  | .name query => .queryRef (String.ofList query.text)
  | .not operand => .operation .not operand.toOperand .nil
  | .binary op left right => .operation op.operatorType left.toOperand right.toOperand

def operatorCount : OperatorTree → Nat
  | .name _ => 0
  | .not operand => operand.operatorCount + 1
  | .binary _ left right => left.operatorCount + right.operatorCount + 1

def parenthesize (needed : Bool) (text : List Char) : List Char :=
  if needed then '(' :: text ++ [')'] else text

/-- The text of a tree where an operand of some level is expected: an operator that binds less gets
parentheses. Operators of one level associate to the left. -/
def printAt : OperatorTree → Nat → List Char
  | .name query, _ => query.text
  | .not operand, level => parenthesize (4 < level) ("NOT ".toList ++ operand.printAt 4)
  | .binary op left right, level => parenthesize (op.level < level)
      (left.printAt op.level ++ ' ' :: op.symbol ++ ' ' :: right.printAt (op.level + 1))

/-- The text of a tree. -/
def print (tree : OperatorTree) : String := String.ofList (tree.printAt 0)

/-- The text at a level begins with `NOT`, as the operator or as the name of a query. -/
def beginsWithNot : OperatorTree → Nat → Bool
  | .name query, _ => query.text = "NOT".toList
  | .not _, level => level ≤ 4
  | .binary op left _, level => level ≤ op.level && left.beginsWithNot op.level

/-- No text with a binary operator begins with `NOT`. -/
def NotBehind : OperatorTree → Prop
  | .name _ => True
  | .not operand => operand.NotBehind
  | .binary op left right =>
    left.beginsWithNot op.level = false ∧ left.NotBehind ∧ right.NotBehind

end OperatorTree

attribute [local simp] isBalancedFrom findOperatorFrom

/-! ## Parsing without fuel -/

/-- One call of `parseTraceExpression`, from what its recursive calls return. -/
def parseStep (rec : List Char → Except ParseError (TraceOperand × Nat)) (input : List Char) :
    Except ParseError (TraceOperand × Nat) :=
  let expr := trimSpace input
  if "(".toList.isPrefixOf expr && ")".toList.isSuffixOf expr &&
      isBalancedParentheses (unwrap expr) then
    rec (unwrap expr)
  else if "NOT ".toList.isPrefixOf expr then do
    let (operand, count) ← rec (expr.drop 4)
    return (.operation .not operand .nil, count + 1)
  else match firstOperator expr operators with
    | some (op, opType, pos) => do
      let (left, leftCount) ← rec (trimSpace (expr.take pos))
      let (right, rightCount) ← rec (trimSpace (expr.drop (pos + op.length)))
      return (.operation opType left right, leftCount + rightCount + 1)
    | none =>
      if isQueryName expr then return (.queryRef (String.ofList expr), 0)
      else .error (.invalidQueryReference (String.ofList expr))

theorem parseWithFuel_succ (fuel : Nat) (input : List Char) :
    parseWithFuel (fuel + 1) input = parseStep (parseWithFuel fuel) input := rfl

theorem parseStep_congr {rec rec' : List Char → Except ParseError (TraceOperand × Nat)}
    {input : List Char} (h : ∀ text : List Char, text.length < input.length → rec text = rec' text) :
    parseStep rec input = parseStep rec' input := by
  simp only [parseStep]
  split
  · next hparen =>
      rw [Bool.and_eq_true, Bool.and_eq_true] at hparen
      exact h _ (unwrap_length_lt hparen.1.1)
  · split
    · next hnot => rw [h _ (drop_not_length_lt hnot)]
    · split
      · next op opType pos hop =>
          obtain ⟨hleft, hright⟩ := operand_length_lt hop
          rw [h _ hleft, h _ hright]
      · rfl

/-- `parseTraceExpression` on characters. -/
def parse (input : List Char) : Except ParseError (TraceOperand × Nat) :=
  parseWithFuel (input.length + 1) input

theorem parseWithFuel_eq {fuel : Nat} : ∀ {fuel' : Nat} {input : List Char},
    input.length < fuel → input.length < fuel' →
      parseWithFuel fuel input = parseWithFuel fuel' input := by
  induction fuel with
  | zero => intro _ _ h; cases h
  | succ fuel ih =>
    intro fuel' input h h'
    cases fuel' with
    | zero => cases h'
    | succ fuel' =>
      rw [parseWithFuel_succ, parseWithFuel_succ]
      exact parseStep_congr fun text htext => ih (by omega) (by omega)

theorem parse_eq (input : List Char) : parse input = parseStep parse input := by
  rw [parse, parseWithFuel_succ]
  exact parseStep_congr fun text htext => parseWithFuel_eq htext (Nat.lt_succ_self _)

/-! ## Bracketed texts -/

/-- A text whose parentheses match. -/
inductive Bracketed : List Char → Prop
  | plain {text : List Char} (h : ∀ c ∈ text, c ≠ '(' ∧ c ≠ ')') : Bracketed text
  | parens {text : List Char} : Bracketed text → Bracketed ('(' :: text ++ [')'])
  | append {text text' : List Char} : Bracketed text → Bracketed text' → Bracketed (text ++ text')

variable {text : List Char}

theorem plain_of_all (h : (text.all fun c => c != '(' && c != ')') = true) :
    ∀ c ∈ text, c ≠ '(' ∧ c ≠ ')' :=
  fun c hc => by simpa using List.all_eq_true.1 h c hc

variable {c : Char}

theorem isBalancedFrom_plain {depth : Nat} {cs : List Char} (h : c ≠ '(' ∧ c ≠ ')') :
    isBalancedFrom depth (c :: cs) = isBalancedFrom depth cs := by
  rw [isBalancedFrom]
  · exact h.1
  · exact fun _ hc => h.2 hc
  · exact fun _ _ hc => h.2 hc

/-- A bracketed text leaves the depth as it is. -/
theorem Bracketed.isBalancedFrom_append (h : Bracketed text) :
    ∀ (depth : Nat) (rest : List Char),
      isBalancedFrom depth (text ++ rest) = isBalancedFrom depth rest := by
  induction h with
  | @plain text h =>
    intro depth rest
    induction text with
    | nil => rfl
    | cons c text ih =>
      rw [List.cons_append, isBalancedFrom_plain (h c List.mem_cons_self)]
      exact ih fun d hd => h d (List.mem_cons_of_mem _ hd)
  | parens _ ih =>
    intro depth rest
    rw [List.append_assoc, List.cons_append, isBalancedFrom, ih]
    rfl
  | append _ _ ih ih' =>
    intro depth rest
    rw [List.append_assoc, ih, ih']

theorem Bracketed.isBalanced (h : Bracketed text) :
    isBalancedParentheses text = true := by
  have hrest := h.isBalancedFrom_append 0 []
  rw [List.append_nil] at hrest
  exact hrest

/-- Text that closes one more parenthesis than it opens is not balanced by itself. -/
theorem not_balanced_of_succ {text rest : List Char} : ∀ {depth : Nat},
    isBalancedFrom (depth + 1) text = true → isBalancedFrom depth (text ++ rest) = false := by
  induction text with
  | nil => intro depth h; cases h
  | cons c text ih =>
    intro depth h
    rw [List.cons_append]
    by_cases hopen : c = '('
    · subst hopen
      rw [isBalancedFrom] at h ⊢
      exact ih h
    · by_cases hclose : c = ')'
      · subst hclose
        rw [isBalancedFrom] at h
        cases depth with
        | zero => rfl
        | succ depth =>
          rw [isBalancedFrom]
          exact ih h
      · rw [isBalancedFrom_plain ⟨hopen, hclose⟩] at h ⊢
        exact ih h

/-! ## The scan for an operator -/

/-- Inside parentheses a scan finds nothing and comes out at the same depth. -/
theorem Bracketed.scan_inside (h : Bracketed text) (op : List Char) :
    ∀ (before after : List Char) {depth : Int}, 1 ≤ depth →
      findOperatorFrom op (text.reverse ++ before) after depth =
        findOperatorFrom op before (text ++ after) depth := by
  induction h with
  | @plain text h =>
    intro before after depth hdepth
    induction text using List.reverseRecOn generalizing after with
    | nil => rfl
    | append_singleton text c ih =>
      have hc := h c (by simp)
      have hsame : depthAfter c depth = depth := by
        unfold depthAfter
        split
        · exact absurd rfl hc.2
        · exact absurd rfl hc.1
        · rfl
      rw [List.reverse_append, List.reverse_singleton, List.singleton_append, List.cons_append,
        findOperatorFrom, hsame, if_neg (by omega),
        ih (fun d hd => h d (List.mem_append_left _ hd))]
      simp
  | @parens text _ ih =>
    intro before after depth hdepth
    have hreverse : ('(' :: text ++ [')']).reverse ++ before =
        ')' :: (text.reverse ++ '(' :: before) := by simp
    have hin : depthAfter ')' depth = depth + 1 := rfl
    have hout : depthAfter '(' (depth + 1) = depth := by
      change depth + 1 - 1 = depth
      omega
    rw [hreverse, findOperatorFrom, hin, if_neg (by omega), ih _ _ (by omega), findOperatorFrom,
      hout, if_neg (by omega)]
    simp
  | append _ _ ih ih' =>
    intro before after depth hdepth
    rw [List.reverse_append, List.append_assoc, ih' _ _ hdepth, ih _ _ hdepth, List.append_assoc]

/-- Outside parentheses the scan for an operator finds nothing in a text. -/
def Skips (op text : List Char) : Prop :=
  ∀ before after, findOperatorFrom op (text.reverse ++ before) after 0 =
    findOperatorFrom op before (text ++ after) 0

theorem Skips.append {op text text' : List Char} (h : Skips op text) (h' : Skips op text') :
    Skips op (text ++ text') := by
  intro before after
  rw [List.reverse_append, List.append_assoc, h', h, List.append_assoc]

theorem isPrefixOf_cons_false {op : List Char} {rest : List Char} (hne : op ≠ [])
    (h : op.head? ≠ some c) : op.isPrefixOf (c :: rest) = false := by
  cases op with
  | nil => exact absurd rfl hne
  | cons f op =>
    have hfc : f ≠ c := fun heq => h (congrArg some heq)
    simp [List.isPrefixOf, hfc]

/-- A text without parentheses and without the first character of the operator. -/
theorem skips_plain {op text : List Char} (hne : op ≠ [])
    (h : ∀ c ∈ text, c ≠ '(' ∧ c ≠ ')' ∧ op.head? ≠ some c) : Skips op text := by
  intro before after
  induction text using List.reverseRecOn generalizing after with
  | nil => rfl
  | append_singleton text c ih =>
    obtain ⟨-, -, hc⟩ := h c (by simp)
    have hmatch : ¬ (depthAfter c 0 = 0 ∧ op.isPrefixOf (c :: after) = true ∧
        (op = " NOT ".toList → text.reverse ++ before ≠ [] ∧
          op.length < (c :: after).length)) := by
      rw [isPrefixOf_cons_false hne hc]
      simp
    have hsame : depthAfter c 0 = 0 := by
      obtain ⟨hopen, hclose, -⟩ := h c (by simp)
      unfold depthAfter
      split
      · exact absurd rfl hclose
      · exact absurd rfl hopen
      · rfl
    rw [List.reverse_append, List.reverse_singleton, List.singleton_append, List.cons_append,
      findOperatorFrom, if_neg hmatch, hsame, ih fun d hd => h d (List.mem_append_left _ hd)]
    simp

/-- A text in parentheses. -/
theorem skips_parens {op text : List Char} (hne : op ≠ []) (hopen : op.head? ≠ some '(')
    (h : Bracketed text) : Skips op ('(' :: text ++ [')']) := by
  intro before after
  have hreverse : ('(' :: text ++ [')']).reverse ++ before =
      ')' :: (text.reverse ++ '(' :: before) := by simp
  have hin : depthAfter ')' 0 = 1 := rfl
  have hout : depthAfter '(' 1 = 0 := rfl
  have hmatch : ¬ ((0 : Int) = 0 ∧ op.isPrefixOf ('(' :: (text ++ ')' :: after)) = true ∧
      (op = " NOT ".toList → before ≠ [] ∧
        op.length < ('(' :: (text ++ ')' :: after)).length)) := by
    rw [isPrefixOf_cons_false hne hopen]
    simp
  rw [hreverse, findOperatorFrom, hin, if_neg (by omega), h.scan_inside op _ _ (Int.le_refl 1),
    findOperatorFrom, hout, if_neg hmatch]
  simp

/-- A text that is skipped has no operator outside its parentheses. -/
theorem Skips.position {op text : List Char} (h : Skips op text) :
    findOperatorPosition text op = none := by
  have := h [] []
  rw [List.append_nil] at this
  rw [findOperatorPosition, this, findOperatorFrom]

/-- The last operator between two texts is the one in front of a text that is skipped. -/
theorem position_of_skips {op : BinaryOperator} {left right : List Char}
    (h : Skips op.symbol right) :
    findOperatorPosition (left ++ ' ' :: op.symbol ++ ' ' :: right) op.symbol =
      some (left.length + 1) := by
  have hreverse : (left ++ ' ' :: op.symbol ++ ' ' :: right).reverse =
      right.reverse ++ (' ' :: op.symbol.reverse ++ ' ' :: left.reverse) := by simp
  rw [findOperatorPosition, hreverse, h]
  cases op <;> simp [BinaryOperator.symbol, findOperatorFrom, depthAfter, List.isPrefixOf]

/-! ## Printed texts -/

/-- A character of a query name. -/
def IsNameChar (c : Char) : Prop := c.isAlphanum = true ∨ c = '_'

theorem QueryName.chars (query : QueryName) : ∀ c ∈ query.text, IsNameChar c := by
  obtain ⟨text, hvalid⟩ := query
  intro c hc
  cases text with
  | nil => cases hc
  | cons d text =>
    rw [isQueryName, Bool.and_eq_true, List.all_eq_true] at hvalid
    rcases List.mem_cons.1 hc with rfl | hc
    · exact .inl (by rw [Char.isAlphanum, hvalid.1, Bool.true_or])
    · simpa [IsNameChar] using hvalid.2 c hc

theorem QueryName.ne_nil (query : QueryName) : query.text ≠ [] := by
  intro h
  have hvalid := query.valid
  rw [h] at hvalid
  cases hvalid

/-- A name character is none of some characters that are not. -/
theorem IsNameChar.ne {c d : Char} (h : IsNameChar c)
    (hd : d.isAlphanum = false ∧ d ≠ '_') : c ≠ d := by
  rintro rfl
  rcases h with h | h
  · rw [hd.1] at h
    cases h
  · exact hd.2 h

theorem IsNameChar.not_space (h : IsNameChar c) : isSpace c = false := by
  have hnat : 48 ≤ c.toNat ∧ c.toNat ≤ 122 := by
    rcases h with h | rfl
    · have hbounds : ('A'.val.toNat ≤ c.val.toNat ∧ c.val.toNat ≤ 'Z'.val.toNat ∨
          'a'.val.toNat ≤ c.val.toNat ∧ c.val.toNat ≤ 'z'.val.toNat) ∨
          '0'.val.toNat ≤ c.val.toNat ∧ c.val.toNat ≤ '9'.val.toNat := by
        have hclasses : (decide ('A'.val ≤ c.val ∧ c.val ≤ 'Z'.val) ||
          ('a'.val ≤ c.val && c.val ≤ 'z'.val) || ('0'.val ≤ c.val && c.val ≤ '9'.val)) = true := h
        simpa only [Bool.or_eq_true, Bool.and_eq_true, decide_eq_true_eq,
          UInt32.le_iff_toNat_le] using hclasses
      have hcodes : 'A'.val.toNat = 65 ∧ 'Z'.val.toNat = 90 ∧ 'a'.val.toNat = 97 ∧
          'z'.val.toNat = 122 ∧ '0'.val.toNat = 48 ∧ '9'.val.toNat = 57 := by decide
      rw [Char.toNat]
      omega
    · decide
  simp only [isSpace, List.contains_eq_mem, List.mem_cons, List.not_mem_nil, or_false,
    Bool.or_eq_false_iff, Bool.and_eq_false_iff, decide_eq_false_iff_not, not_or]
  omega

/-- A text that begins and ends with a character that is no space. -/
structure Solid (text : List Char) : Prop where
  first : ∃ c rest, text = c :: rest ∧ isSpace c = false
  last : ∃ rest c, text = rest ++ [c] ∧ isSpace c = false

theorem Solid.append {text text' : List Char} (h : Solid text) (mid : List Char)
    (h' : Solid text') : Solid (text ++ mid ++ text') := by
  obtain ⟨c, rest, hfirst, hc⟩ := h.first
  obtain ⟨rest', d, hlast, hd⟩ := h'.last
  exact ⟨⟨c, rest ++ mid ++ text', by simp [hfirst], hc⟩,
    ⟨text ++ mid ++ rest', d, by simp [hlast], hd⟩⟩

theorem Solid.parens (text : List Char) : Solid ('(' :: text ++ [')']) :=
  ⟨⟨'(', _, rfl, by decide⟩, ⟨'(' :: text, ')', rfl, by decide⟩⟩

theorem QueryName.solid (query : QueryName) : Solid query.text := by
  constructor
  · obtain ⟨c, rest, hc⟩ := List.exists_cons_of_ne_nil query.ne_nil
    exact ⟨c, rest, hc, (query.chars c (by simp [hc])).not_space⟩
  · refine ⟨query.text.dropLast, query.text.getLast query.ne_nil,
      (List.dropLast_concat_getLast query.ne_nil).symm, ?_⟩
    exact (query.chars _ (List.getLast_mem query.ne_nil)).not_space

theorem dropWhile_space {rest : List Char} (h : isSpace c = false) :
    (c :: rest).dropWhile isSpace = c :: rest := by
  rw [List.dropWhile_cons_of_neg (by simp [h])]

/-- Spaces around a solid text are trimmed, and nothing else. -/
theorem Solid.trim (h : Solid text) :
    trimSpace text = text ∧ trimSpace (' ' :: text) = text ∧ trimSpace (text ++ [' ']) = text := by
  obtain ⟨c, rest, hc, hspace⟩ := h.first
  obtain ⟨rest', d, hd, hspace'⟩ := h.last
  have hfirst : ∀ more, (text ++ more).dropWhile isSpace = text ++ more := by
    intro more
    rw [hc]
    exact dropWhile_space hspace
  have hlast : text.reverse.dropWhile isSpace = text.reverse := by
    rw [hd, List.reverse_append]
    exact dropWhile_space hspace'
  have hblank : ∀ more, (' ' :: more).dropWhile isSpace = more.dropWhile isSpace :=
    fun more => List.dropWhile_cons_of_pos (by decide)
  have hfirst' := hfirst []
  rw [List.append_nil] at hfirst'
  refine ⟨?_, ?_, ?_⟩
  · rw [trimSpace, hfirst', hlast, List.reverse_reverse]
  · rw [trimSpace, hblank, hfirst', hlast, List.reverse_reverse]
  · rw [trimSpace, hfirst, List.reverse_append, List.reverse_singleton, List.singleton_append,
      hblank, hlast, List.reverse_reverse]

namespace OperatorTree

/-- At a higher level a text is the same, or in parentheses. -/
theorem printAt_eq (tree : OperatorTree) (level : Nat) :
    tree.printAt level = tree.printAt 0 ∨ tree.printAt level = '(' :: tree.printAt 0 ++ [')'] := by
  cases tree with
  | name query => exact .inl rfl
  | not operand =>
    rw [printAt, printAt, parenthesize]
    by_cases h : (4 < level) <;> simp [h, parenthesize]
  | binary op left right =>
    rw [printAt, printAt, parenthesize]
    by_cases h : (op.level < level) <;> simp [h, parenthesize]

theorem bracketed_printAt (tree : OperatorTree) : ∀ level, Bracketed (tree.printAt level) := by
  have hlift : ∀ {tree : OperatorTree}, Bracketed (tree.printAt 0) →
      ∀ level, Bracketed (tree.printAt level) := by
    intro tree h level
    rcases tree.printAt_eq level with heq | heq
    · exact heq ▸ h
    · exact heq ▸ h.parens
  induction tree with
  | name query =>
    intro level
    refine .plain fun c hc => ⟨?_, ?_⟩ <;>
      exact (query.chars c hc).ne (by decide)
  | not operand ih =>
    exact hlift (Bracketed.append (.plain (plain_of_all (by decide))) (ih 4))
  | binary op left right ihl ihr =>
    refine hlift ?_
    have hmid : Bracketed (' ' :: op.symbol ++ [' ']) := by
      refine .plain (plain_of_all ?_)
      cases op <;> decide
    have htext : (OperatorTree.binary op left right).printAt 0 = left.printAt op.level ++
        (' ' :: op.symbol ++ [' ']) ++ right.printAt (op.level + 1) := by
      simp [printAt, parenthesize]
    rw [htext]
    exact ((ihl op.level).append hmid).append (ihr (op.level + 1))

theorem solid_printAt (tree : OperatorTree) : ∀ level, Solid (tree.printAt level) := by
  have hlift : ∀ {tree : OperatorTree}, Solid (tree.printAt 0) →
      ∀ level, Solid (tree.printAt level) := by
    intro tree h level
    rcases tree.printAt_eq level with heq | heq
    · exact heq ▸ h
    · exact heq ▸ Solid.parens _
  induction tree with
  | name query => exact fun _ => query.solid
  | not operand ih =>
    have hnot : Solid "NOT".toList :=
      ⟨⟨'N', _, rfl, by decide⟩, ⟨"NO".toList, 'T', rfl, by decide⟩⟩
    exact hlift (hnot.append [' '] (ih 4))
  | binary op left right ihl ihr =>
    refine hlift ?_
    have := (ihl op.level).append (' ' :: op.symbol ++ [' ']) (ihr (op.level + 1))
    simpa [printAt, parenthesize] using this

/-- The scan for an operator skips every text in which the operators outside parentheses bind
tighter. -/
theorem skips_printAt {op : List Char} {level₀ : Nat} (hne : op ≠ []) (hlevel : level₀ ≤ 3)
    (hname : ∀ c, op.head? = some c → c.isAlphanum = false ∧ c ≠ '_')
    (hother : ∀ c, op.head? = some c → c ≠ '(' ∧ c ≠ ')' ∧ c ≠ ' ')
    (hsymbol : ∀ q : BinaryOperator, level₀ < q.level → ∀ c ∈ q.symbol, op.head? ≠ some c) :
    ∀ (tree : OperatorTree) {level : Nat}, level₀ < level → Skips op (tree.printAt level) := by
  have hparen : op.head? ≠ some '(' := fun h => (hother _ h).1 rfl
  have hparens : ∀ (tree : OperatorTree), Skips op ('(' :: tree.printAt 0 ++ [')']) :=
    fun tree => skips_parens hne hparen (tree.bracketed_printAt 0)
  intro tree
  induction tree with
  | name query =>
    intro level _
    refine skips_plain hne fun c hc => ⟨?_, ?_, fun h => ?_⟩
    · exact (query.chars c hc).ne (by decide)
    · exact (query.chars c hc).ne (by decide)
    · exact (query.chars c hc).ne (hname c h) rfl
  | not operand ih =>
    intro level _
    rcases printAt_eq (.not operand) level with heq | heq
    · rw [heq]
      refine Skips.append (skips_plain hne fun c hc => ?_) (ih (by omega))
      have hc' : c = 'N' ∨ c = 'O' ∨ c = 'T' ∨ c = ' ' := by simpa using hc
      rcases hc' with rfl | rfl | rfl | rfl
      · exact ⟨by decide, by decide, fun h => absurd (hname _ h).1 (by decide)⟩
      · exact ⟨by decide, by decide, fun h => absurd (hname _ h).1 (by decide)⟩
      · exact ⟨by decide, by decide, fun h => absurd (hname _ h).1 (by decide)⟩
      · exact ⟨by decide, by decide, fun h => (hother _ h).2.2 rfl⟩
    · rw [heq]
      exact hparens _
  | binary q left right ihl ihr =>
    intro level hlt
    by_cases hq : q.level < level
    · have heq : (OperatorTree.binary q left right).printAt level =
          '(' :: (OperatorTree.binary q left right).printAt 0 ++ [')'] := by
        simp [printAt, parenthesize, hq]
      rw [heq]
      exact hparens _
    · have heq : (OperatorTree.binary q left right).printAt level = left.printAt q.level ++
          (' ' :: q.symbol ++ [' ']) ++ right.printAt (q.level + 1) := by
        simp [printAt, parenthesize, hq]
      rw [heq]
      have hmid : Skips op (' ' :: q.symbol ++ [' ']) := by
        refine skips_plain hne fun c hc => ?_
        have hplain : c ≠ '(' ∧ c ≠ ')' := by
          refine plain_of_all ?_ c hc
          cases q <;> decide
        refine ⟨hplain.1, hplain.2, fun h => ?_⟩
        have hc' : c = ' ' ∨ c ∈ q.symbol := by simpa [or_comm, or_assoc] using hc
        rcases hc' with rfl | hc'
        · exact (hother _ h).2.2 rfl
        · exact hsymbol q (by omega) c hc' h
      exact ((ihl (by omega)).append hmid).append (ihr (by omega))

/-! ## Parsing printed texts -/

/-- Whether a text with a printed operand in front begins with `NOT`. -/
theorem isPrefixOf_printAt (rest : List Char) : ∀ (tree : OperatorTree) (level : Nat),
    "NOT ".toList.isPrefixOf (tree.printAt level ++ ' ' :: rest) = tree.beginsWithNot level := by
  intro tree
  induction tree generalizing rest with
  | name query =>
    intro level
    rw [printAt, beginsWithNot, Bool.eq_iff_iff, List.isPrefixOf_iff_prefix, decide_eq_true_iff]
    constructor
    · rintro ⟨more, hmore⟩
      -- both sides up to the first space
      have htake : (query.text ++ ' ' :: rest).takeWhile (fun c => c ≠ ' ') = query.text := by
        rw [List.takeWhile_append_of_pos fun c hc => by
          simpa using (query.chars c hc).ne (by decide)]
        simp
      rw [← htake, ← hmore]
      simp
    · intro h
      rw [h]
      exact ⟨rest, by simp⟩
  | not operand _ =>
    intro level
    rw [printAt, beginsWithNot, parenthesize]
    by_cases h : 4 < level
    · simp [h, Nat.not_le.2 h, List.isPrefixOf]
    · simp [h, Nat.not_lt.1 h, List.isPrefixOf]
  | binary op left right ihl _ =>
    intro level
    rw [printAt, beginsWithNot, parenthesize]
    by_cases h : op.level < level
    · simp [h, Nat.not_le.2 h, List.isPrefixOf]
    · have htext : left.printAt op.level ++ ' ' :: op.symbol ++
          ' ' :: right.printAt (op.level + 1) ++ ' ' :: rest = left.printAt op.level ++
            ' ' :: (op.symbol ++ ' ' :: right.printAt (op.level + 1) ++ ' ' :: rest) := by simp
      rw [if_neg (by simpa using h), htext, ihl]
      simp [Nat.not_lt.1 h]

/-- Parentheses around a text are taken off. -/
theorem parse_parens {text : List Char} (h : Bracketed text) :
    parse ('(' :: text ++ [')']) = parse text := by
  have hunwrap : unwrap ('(' :: text ++ [')']) = text := by simp [unwrap]
  have hparen : ("(".toList.isPrefixOf ('(' :: text ++ [')']) &&
      ")".toList.isSuffixOf ('(' :: text ++ [')']) && isBalancedParentheses text) = true := by
    rw [h.isBalanced]
    simp [List.isSuffixOf]
  rw [parse_eq, parseStep]
  simp only [(Solid.parens text).trim.1, hunwrap, hparen, if_true]

/-- The level of a text does not matter to the parser. -/
theorem parse_printAt (tree : OperatorTree) (level : Nat) :
    parse (tree.printAt level) = parse (tree.printAt 0) := by
  rcases tree.printAt_eq level with heq | heq
  · rw [heq]
  · rw [heq, parse_parens (tree.bracketed_printAt 0)]

theorem parse_name (query : QueryName) :
    parse query.text = .ok (.queryRef (String.ofList query.text), 0) := by
  have hparen : "(".toList.isPrefixOf query.text = false := by
    rw [Bool.eq_false_iff]
    intro h
    obtain ⟨more, hmore⟩ := List.isPrefixOf_iff_prefix.1 h
    exact (query.chars '(' (by simp [← hmore])).ne (by decide) rfl
  have hnot : "NOT ".toList.isPrefixOf query.text = false := by
    rw [Bool.eq_false_iff]
    intro h
    obtain ⟨more, hmore⟩ := List.isPrefixOf_iff_prefix.1 h
    exact (query.chars ' ' (by simp [← hmore])).ne (by decide) rfl
  have hscan : ∀ op : List Char, op ≠ [] →
      (∀ d, op.head? = some d → d.isAlphanum = false ∧ d ≠ '_') →
        findOperatorPosition query.text op = none := by
    intro op hne hop
    refine Skips.position (skips_plain hne fun c hc => ⟨?_, ?_, fun h => ?_⟩)
    · exact (query.chars c hc).ne (by decide)
    · exact (query.chars c hc).ne (by decide)
    · exact (query.chars c hc).ne (hop c h) rfl
  have hnone : firstOperator query.text operators = none := by
    simp only [operators, firstOperator]
    rw [hscan _ (by decide) (by simp), hscan _ (by decide) (by simp),
      hscan _ (by decide) (by simp), hscan _ (by decide) (by simp), hscan _ (by decide) (by simp)]
  rw [parse_eq, parseStep]
  simp only [query.solid.trim.1, hparen, hnot, hnone, query.valid, Bool.false_and,
    Bool.false_eq_true, if_false, if_true]
  rfl

theorem parse_not (operand : OperatorTree) : parse ((OperatorTree.not operand).printAt 0) =
    (parse (operand.printAt 0)).map fun p => (.operation .not p.1 .nil, p.2 + 1) := by
  have htext : (OperatorTree.not operand).printAt 0 = "NOT ".toList ++ operand.printAt 4 := rfl
  have hsolid := (OperatorTree.not operand).solid_printAt 0
  rw [htext] at hsolid ⊢
  have hparen : "(".toList.isPrefixOf ("NOT ".toList ++ operand.printAt 4) = false := by
    simp [List.isPrefixOf]
  have hnot : "NOT ".toList.isPrefixOf ("NOT ".toList ++ operand.printAt 4) = true := by
    simp [List.isPrefixOf]
  have hdrop : ("NOT ".toList ++ operand.printAt 4).drop 4 = operand.printAt 4 := by simp
  rw [parse_eq, parseStep]
  simp only [hsolid.trim.1, hparen, hnot, hdrop, Bool.false_and, Bool.false_eq_true, if_false,
    if_true, parse_printAt operand 4]
  cases parse (operand.printAt 0) <;> rfl

/-- The text of a binary operator. -/
theorem printAt_binary (op : BinaryOperator) (left right : OperatorTree) :
    (OperatorTree.binary op left right).printAt 0 =
      left.printAt op.level ++ ' ' :: op.symbol ++ ' ' :: right.printAt (op.level + 1) := by
  simp [printAt, parenthesize]

/-- Parentheses at both ends of such a text do not belong together. -/
theorem not_wrapped (op : BinaryOperator) (left right : OperatorTree) :
    ("(".toList.isPrefixOf ((OperatorTree.binary op left right).printAt 0) &&
      ")".toList.isSuffixOf ((OperatorTree.binary op left right).printAt 0) &&
        isBalancedParentheses (unwrap ((OperatorTree.binary op left right).printAt 0))) = false := by
  rw [Bool.and_eq_false_iff, Bool.and_eq_false_iff, printAt_binary]
  by_cases hopen : ∃ text, left.printAt op.level = '(' :: text
  · obtain ⟨text, htext⟩ := hopen
    right
    have hbalanced := (left.bracketed_printAt op.level).isBalanced
    rw [htext, isBalancedParentheses, isBalancedFrom] at hbalanced
    have hunwrap : unwrap ('(' :: text ++ ' ' :: op.symbol ++ ' ' :: right.printAt (op.level + 1)) =
        text ++ (' ' :: op.symbol ++ ' ' :: right.printAt (op.level + 1)).dropLast := by
      rw [unwrap, ← List.dropLast_append_of_ne_nil (by simp)]
      simp
    rw [htext, hunwrap, isBalancedParentheses]
    exact not_balanced_of_succ hbalanced
  · left
    left
    obtain ⟨c, rest, hc, -⟩ := (left.solid_printAt op.level).first
    have hne : c ≠ '(' := fun h => hopen ⟨rest, by rw [hc, h]⟩
    rw [hc]
    simp [List.isPrefixOf, Ne.symm hne]

/-- An operator that binds less than the one of a text is not found in it. -/
theorem position_lower (op : BinaryOperator) (left right : OperatorTree) {other : List Char}
    {level₀ : Nat} (hne : other ≠ []) (hlevel : level₀ < op.level)
    (hname : ∀ c, other.head? = some c → c.isAlphanum = false ∧ c ≠ '_')
    (hother : ∀ c, other.head? = some c → c ≠ '(' ∧ c ≠ ')' ∧ c ≠ ' ')
    (hsymbol : ∀ q : BinaryOperator, level₀ < q.level → ∀ c ∈ q.symbol, other.head? ≠ some c) :
    findOperatorPosition ((OperatorTree.binary op left right).printAt 0) other = none := by
  have hop : op.level ≤ 3 := by cases op <;> decide
  have heq : (OperatorTree.binary op left right).printAt 0 =
      (OperatorTree.binary op left right).printAt op.level := by
    simp [printAt, parenthesize]
  rw [heq]
  exact Skips.position (skips_printAt hne (by omega) hname hother hsymbol _ hlevel)

/-- The operator of a text is the first one that the parser finds. -/
theorem firstOperator_printAt (op : BinaryOperator) (left right : OperatorTree) :
    firstOperator ((OperatorTree.binary op left right).printAt 0) operators =
      some (op.symbol, op.operatorType, (left.printAt op.level).length + 1) := by
  have hsymbol : ∀ q : BinaryOperator, q.symbol ≠ [] ∧
      (∀ c, q.symbol.head? = some c → c.isAlphanum = false ∧ c ≠ '_') ∧
      (∀ c, q.symbol.head? = some c → c ≠ '(' ∧ c ≠ ')' ∧ c ≠ ' ') ∧
      ∀ q' : BinaryOperator, q.level < q'.level → ∀ c ∈ q'.symbol, q.symbol.head? ≠ some c := by
    intro q
    refine ⟨?_, ?_, ?_, fun q' => ?_⟩
    · cases q <;> decide
    · cases q <;> simp [BinaryOperator.symbol]
    · cases q <;> simp [BinaryOperator.symbol]
    · cases q <;> cases q' <;> simp [BinaryOperator.symbol, BinaryOperator.level]
  have hfound : findOperatorPosition ((OperatorTree.binary op left right).printAt 0) op.symbol =
      some ((left.printAt op.level).length + 1) := by
    obtain ⟨hne, hname, hother, hhigher⟩ := hsymbol op
    rw [printAt_binary]
    refine position_of_skips (skips_printAt hne ?_ hname hother hhigher right (Nat.lt_succ_self _))
    cases op <;> decide
  have hlower : ∀ q : BinaryOperator, q.level < op.level →
      findOperatorPosition ((OperatorTree.binary op left right).printAt 0) q.symbol = none := by
    intro q hq
    obtain ⟨hne, hname, hother, hhigher⟩ := hsymbol q
    exact position_lower op left right hne hq hname hother hhigher
  have harrow : findOperatorPosition ((OperatorTree.binary op left right).printAt 0)
      "->".toList = none := by
    refine position_lower op left right (by decide) (show 0 < op.level by cases op <;> decide) ?_ ?_ ?_
    · simp
    · simp
    · intro q
      cases q <;> simp [BinaryOperator.symbol]
  rw [operators, firstOperator, harrow]
  cases op with
  | directDescendant =>
    have hdesc : findOperatorPosition _ "=>".toList = _ := hfound
    simp only [firstOperator, hdesc]
    rfl
  | and =>
    have hdesc : findOperatorPosition _ "=>".toList = _ := hlower .directDescendant (by decide)
    have hand : findOperatorPosition _ "&&".toList = _ := hfound
    simp only [firstOperator, hdesc, hand]
    rfl
  | or =>
    have hdesc : findOperatorPosition _ "=>".toList = _ := hlower .directDescendant (by decide)
    have hand : findOperatorPosition _ "&&".toList = _ := hlower .and (by decide)
    have hor : findOperatorPosition _ "||".toList = _ := hfound
    simp only [firstOperator, hdesc, hand, hor]
    rfl

/-- A text with a binary operator that begins with `NOT` is read as a negation. -/
theorem parse_binary_of_begins {op : BinaryOperator} {left right : OperatorTree}
    (h : left.beginsWithNot op.level = true) :
    ∃ text, parse ((OperatorTree.binary op left right).printAt 0) =
      (parse text).map fun p => (.operation .not p.1 .nil, p.2 + 1) := by
  have hsolid := (OperatorTree.binary op left right).solid_printAt 0
  have hnot : "NOT ".toList.isPrefixOf ((OperatorTree.binary op left right).printAt 0) = true := by
    rw [printAt_binary, List.append_assoc, List.cons_append, isPrefixOf_printAt, h]
  refine ⟨((OperatorTree.binary op left right).printAt 0).drop 4, ?_⟩
  rw [parse_eq, parseStep]
  simp only [hsolid.trim.1, not_wrapped, hnot, Bool.false_eq_true, if_false, if_true]
  cases parse (((OperatorTree.binary op left right).printAt 0).drop 4) <;> rfl

/-- Another text with a binary operator is split at this operator. -/
theorem parse_binary {op : BinaryOperator} {left right : OperatorTree}
    (h : left.beginsWithNot op.level = false) :
    parse ((OperatorTree.binary op left right).printAt 0) =
      (parse (left.printAt 0)).bind fun p => (parse (right.printAt 0)).map fun q =>
        (.operation op.operatorType p.1 q.1, p.2 + q.2 + 1) := by
  have hsolid := (OperatorTree.binary op left right).solid_printAt 0
  have hnot : "NOT ".toList.isPrefixOf ((OperatorTree.binary op left right).printAt 0) = false := by
    rw [printAt_binary, List.append_assoc, List.cons_append, isPrefixOf_printAt, h]
  have htake : ((OperatorTree.binary op left right).printAt 0).take
      ((left.printAt op.level).length + 1) = left.printAt op.level ++ [' '] := by
    rw [printAt_binary]
    simp [List.take_append, List.take_of_length_le]
  have hdrop : ((OperatorTree.binary op left right).printAt 0).drop
      ((left.printAt op.level).length + 1 + op.symbol.length) =
        ' ' :: right.printAt (op.level + 1) := by
    have htext : (OperatorTree.binary op left right).printAt 0 =
        (left.printAt op.level ++ ' ' :: op.symbol) ++ ' ' :: right.printAt (op.level + 1) :=
      printAt_binary op left right
    rw [htext]
    refine List.drop_left' ?_
    rw [List.length_append, List.length_cons]
    omega
  rw [parse_eq, parseStep]
  simp only [hsolid.trim.1, not_wrapped, hnot, firstOperator_printAt, htake, hdrop,
    (left.solid_printAt op.level).trim.2.2, (right.solid_printAt (op.level + 1)).trim.2.1,
    parse_printAt left op.level, parse_printAt right (op.level + 1), Bool.false_eq_true, if_false]
  cases parse (left.printAt 0) with
  | error e => rfl
  | ok p => cases parse (right.printAt 0) <;> rfl

theorem operators_toOperand (tree : OperatorTree) :
    tree.toOperand.operators = tree.operatorCount := by
  induction tree with
  | name query => rfl
  | not operand ih => rw [toOperand, TraceOperand.operators, ih]; rfl
  | binary op left right ihl ihr => rw [toOperand, TraceOperand.operators, ihl, ihr]; rfl

/-- A text is read back as soon as its tree is. -/
theorem parse_eq_ok_iff {text : List Char} {tree : OperatorTree} :
    parse text = .ok (tree.toOperand, tree.operatorCount) ↔
      ∃ p, parse text = .ok p ∧ p.1 = tree.toOperand := by
  constructor
  · intro h
    exact ⟨_, h, rfl⟩
  · rintro ⟨⟨parsed, count⟩, h, rfl⟩
    rw [h, ← (parseWithFuel_parsed h).2, operators_toOperand]

/-- The parser reads a printed tree back exactly when no text with a binary operator in it begins
with `NOT`. -/
theorem parse_printAt_iff (tree : OperatorTree) :
    parse (tree.printAt 0) = .ok (tree.toOperand, tree.operatorCount) ↔ tree.NotBehind := by
  induction tree with
  | name query => exact iff_of_true (parse_name query) trivial
  | not operand ih =>
    rw [NotBehind, ← ih, parse_eq_ok_iff, parse_eq_ok_iff, parse_not]
    cases parse (operand.printAt 0) with
    | error e => simp [Except.map]
    | ok p => simp [Except.map, toOperand]
  | binary op left right ihl ihr =>
    rw [NotBehind, ← ihl, ← ihr, parse_eq_ok_iff, parse_eq_ok_iff, parse_eq_ok_iff]
    cases hbegins : left.beginsWithNot op.level with
    | true =>
      obtain ⟨text, htext⟩ := @parse_binary_of_begins op left right hbegins
      have hop : op.operatorType ≠ .not := by cases op <;> decide
      rw [htext]
      cases parse text with
      | error e => simp [Except.map]
      | ok p => simp [Except.map, toOperand, Ne.symm hop]
    | false =>
      rw [parse_binary hbegins]
      cases parse (left.printAt 0) with
      | error e => simp [Except.bind]
      | ok p =>
        cases parse (right.printAt 0) with
        | error e => simp [Except.bind, Except.map]
        | ok q => simp [Except.bind, Except.map, toOperand]

/-- The same for the texts that users write. -/
theorem parseTraceExpression_print_iff (tree : OperatorTree) :
    parseTraceExpression tree.print = .ok (tree.toOperand, tree.operatorCount) ↔
      tree.NotBehind := by
  rw [← parse_printAt_iff, parseTraceExpression, print, String.toList_ofList, parse,
    String.length_ofList]

end OperatorTree

/-- The negation of one query, and another query. -/
def negationAndQuery : OperatorTree :=
  .binary .and (.not (.name ⟨"A".toList, by decide⟩)) (.name ⟨"B".toList, by decide⟩)

/-- Their text `NOT A && B` is read as the negation of both. -/
theorem negationAndQuery_misread : parseTraceExpression negationAndQuery.print ≠
    .ok (negationAndQuery.toOperand, negationAndQuery.operatorCount) := by
  have hread : parseTraceExpression negationAndQuery.print = .ok
      (.operation .not (.operation .and (.queryRef "A") (.queryRef "B")) .nil, 2) := by
    decide +kernel
  rw [hread]
  decide

end Signoz.TraceOperator
