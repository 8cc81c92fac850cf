import Signoz.Lib.SqlExpression
import Mathlib.Data.String.Basic
import Mathlib.Data.List.Sort

/-!
# Rewriting of `HAVING` expressions

The parse trees of `HavingExpression.g4`, the columns that the references of an expression stand
for, and the visitor that prints a tree with the columns in their place. Of a parse that has errors
nothing is modelled: the expressions are those of the grammar.

The texts that `go-sqlbuilder` puts together (`sbAnd`, `sbOr`, `sbNot` and the text of `IN`) stand
for that library, whose code is not part of the repository.

The columns are plain names, whatever the aggregations are called (`isColumn_of_resolve`).
-/

namespace Signoz.Having

open Lib (Regex)
open Lib.SqlExpression (Sign ArithOp)

/-! ## Expressions -/

/-- A `NUMBER` of the grammar, which is a number of SQL. -/
structure NumberToken where
  text : String
  matches_number : Lib.SqlExpression.number.Matches text.toList

/-- `compOp` -/
inductive CompOp where
  | equals | doubleEquals | notEquals | neq | lt | le | gt | ge

def CompOp.text : CompOp → String
  | equals => "="
  | doubleEquals => "=="
  | notEquals => "!="
  | neq => "<>"
  | lt => "<"
  | le => "<="
  | gt => ">"
  | ge => ">="

/-- `atom`. Of the arguments of a call the visitor reads the text without blanks. -/
inductive Atom where
  | functionCall (name : String) (args : String)
  | identifier (name : String)
  | number (number : NumberToken)
  | string (text : String)

/-- The operators of a `term`. -/
inductive TermOp where
  | star | slash | percent

/-- The signs of an `operand` and of a `factor`. -/
inductive SignOp where
  | plus | minus
deriving DecidableEq

mutual

/-- `operand` -/
inductive Operand where
  | sum (operand : Operand) (op : SignOp) (term : Term)
  | term (term : Term)

/-- `term` -/
inductive Term where
  | product (term : Term) (op : TermOp) (factor : Factor)
  | factor (factor : Factor)

/-- `factor` -/
inductive Factor where
  | signed (op : SignOp) (factor : Factor)
  | group (operand : Operand)
  | atom (atom : Atom)

end

/-- `signedNumber` -/
structure SignedNumber where
  sign : Option SignOp
  number : NumberToken

/-- `comparison`. An `inList` has one number and more; round and square brackets are the same. -/
inductive Comparison where
  | compare (left : Operand) (op : CompOp) (right : Operand)
  | inList (operand : Operand) (negated : Bool) (first : SignedNumber) (rest : List SignedNumber)

mutual

/-- `orExpression` -/
inductive OrExpression where
  | last (expr : AndExpression)
  | or (expr : AndExpression) (rest : OrExpression)

/-- `andExpression`, with `AND` and without a word between two expressions. -/
inductive AndExpression where
  | last (primary : Primary)
  | and (primary : Primary) (rest : AndExpression)

/-- `primary` -/
inductive Primary where
  | group (negated : Bool) (expr : OrExpression)
  | comparison (negated : Bool) (comparison : Comparison)

end

/-! ## Columns -/

/-- `columnMap`, the last entry first. -/
abbrev ColumnMap := List (String × String)

/-- `columnMap[name] = column` -/
def ColumnMap.set (columnMap : ColumnMap) (name column : String) : ColumnMap :=
  (name, column) :: columnMap.filter fun entry => entry.1 ≠ name

/-- `validColumns[name]` -/
def ColumnMap.hasColumn (columnMap : ColumnMap) (name : String) : Bool :=
  columnMap.any fun entry => entry.2 = name

/-- `TraceAggregation` and `LogAggregation`. -/
structure Aggregation where
  expression : String
  aliasName : String

/-- `MetricAggregation`, with the texts of the aggregations, which are empty for none. -/
structure MetricAggregation where
  metricName : String
  timeAggregation : String
  spaceAggregation : String

/-- `strings.ReplaceAll(expression, " ", "")` -/
def withoutSpaces (expression : String) : String :=
  String.ofList (expression.toList.filter fun c => c ≠ ' ')

/-- One pass of the loop of `buildTraceColumnMap` and `buildLogColumnMap`. -/
def addAggregation (total : Nat) (columnMap : ColumnMap) (idx : Nat) (agg : Aggregation) :
    ColumnMap :=
  let sqlColumn := "__result_" ++ toString idx
  let columnMap := if agg.aliasName ≠ "" then columnMap.set agg.aliasName sqlColumn else columnMap
  let columnMap := columnMap.set agg.expression sqlColumn
  let normalized := withoutSpaces agg.expression
  let columnMap :=
    if normalized ≠ agg.expression then columnMap.set normalized sqlColumn else columnMap
  let columnMap := columnMap.set ("__result" ++ toString idx) sqlColumn
  if total = 1 then columnMap.set "__result" sqlColumn else columnMap

/-- `buildTraceColumnMap` and `buildLogColumnMap`. -/
def buildColumnMap (aggregations : List Aggregation) : ColumnMap :=
  aggregations.zipIdx.foldl
    (fun columnMap entry => addAggregation aggregations.length columnMap entry.2 entry.1) []

/-- One pass of the loop of `buildMetricColumnMap`. -/
def addMetricAggregation (columnMap : ColumnMap) (idx : Nat) (agg : MetricAggregation) :
    ColumnMap :=
  let sqlColumn := "value"
  let space := agg.spaceAggregation
  let time := agg.timeAggregation
  let call := fun (function argument : String) => function ++ "(" ++ argument ++ ")"
  let columnMap :=
    if space ≠ "" then columnMap.set (call space agg.metricName) sqlColumn else columnMap
  let columnMap :=
    if time ≠ "" then columnMap.set (call time agg.metricName) sqlColumn else columnMap
  let columnMap :=
    if time ≠ "" ∧ space ≠ "" then columnMap.set (call space (call time agg.metricName)) sqlColumn
    else columnMap
  let columnMap :=
    if time = "" ∧ space = "" then columnMap.set agg.metricName sqlColumn else columnMap
  let columnMap := columnMap.set "__result" sqlColumn
  columnMap.set ("__result" ++ toString idx) sqlColumn

/-- `buildMetricColumnMap` -/
def buildMetricColumnMap (aggregations : List MetricAggregation) : ColumnMap :=
  aggregations.zipIdx.foldl
    (fun columnMap entry => addMetricAggregation columnMap entry.2 entry.1) []

/-- The aggregations of a query. -/
inductive Aggregations where
  | traces (aggregations : List Aggregation)
  | logs (aggregations : List Aggregation)
  | metrics (aggregations : List MetricAggregation)

def Aggregations.columnMap : Aggregations → ColumnMap
  | traces aggregations | logs aggregations => buildColumnMap aggregations
  | metrics aggregations => buildMetricColumnMap aggregations

/-! ## The visitor -/

/-- The texts of a list with a text between them. -/
def joinWith (separator : String) : List String → String
  | [] => ""
  | [part] => part
  | part :: parts => part ++ separator ++ joinWith separator parts

/-- `sb.And` and `sb.Or` of `go-sqlbuilder`, a library outside the repository, on conditions that
are not empty: all of them in parentheses, with the word between. -/
def sbJoin (separator : String) (parts : List String) : String :=
  "(" ++ joinWith separator parts ++ ")"

def sbAnd : List String → String := sbJoin " AND "

def sbOr : List String → String := sbJoin " OR "

/-- `sb.Not` of `go-sqlbuilder`. -/
def sbNot (condition : String) : String := "NOT " ++ condition

section Visitor

variable (columnMap : ColumnMap)

/-- `visitFunctionCall` and `visitIdentifier`: the column of a reference, if it has one. -/
def resolve : Atom → Option String
  | .functionCall name args => columnMap.lookup (name ++ "(" ++ args ++ ")")
  | .identifier name =>
    (columnMap.lookup name).or (if columnMap.hasColumn name then some name else none)
  | _ => none

/-- `GetText` of an atom. -/
def Atom.text : Atom → String
  | .functionCall name args => name ++ "(" ++ args ++ ")"
  | .identifier name => name
  | .number n => n.text
  | .string text => text

/-- `visitAtom` -/
def visitAtom (atom : Atom) : String := (resolve columnMap atom).getD atom.text

/-- The reference that is added to `invalid`. -/
def invalidOf (atom : Atom) : List String :=
  match atom, resolve columnMap atom with
  | .functionCall name _, none => [name]
  | .identifier name, none => [name]
  | _, _ => []

def SignOp.text : SignOp → String
  | plus => "+"
  | minus => "-"

def TermOp.text : TermOp → String
  | star => "*"
  | slash => "/"
  | percent => "%"

mutual

/-- `visitOperand` -/
def visitOperand : Operand → String
  | .sum operand op term => visitOperand operand ++ " " ++ op.text ++ " " ++ visitTerm term
  | .term term => visitTerm term

/-- `visitTerm` -/
def visitTerm : Term → String
  | .product term op factor => visitTerm term ++ " " ++ op.text ++ " " ++ visitFactor factor
  | .factor factor => visitFactor factor

/-- `visitFactor` -/
def visitFactor : Factor → String
  | .signed op factor => op.text ++ visitFactor factor
  | .group operand => sbAnd [visitOperand operand]
  | .atom atom => visitAtom columnMap atom

end

/-- `GetText` of a number of an `IN` list. -/
def SignedNumber.text (number : SignedNumber) : String :=
  (number.sign.map SignOp.text).getD "" ++ number.number.text

/-- `visitComparison`. The text of `IN` is what `sb.In` and `sb.NotIn` of `go-sqlbuilder` give for
numbers, after `CompileWithFlavor` has put them in. -/
def visitComparison : Comparison → String
  | .compare left op right =>
    visitOperand columnMap left ++ " " ++ op.text ++ " " ++ visitOperand columnMap right
  | .inList operand negated first rest =>
    visitOperand columnMap operand ++ (if negated then " NOT IN (" else " IN (") ++
      joinWith ", " ((first :: rest).map SignedNumber.text) ++ ")"

/-- The one part, or all of them put together. -/
def visitParts (join : List String → String) : List String → String
  | [part] => part
  | parts => join parts

mutual

/-- The parts of `visitOrExpression`. -/
def orParts : OrExpression → List String
  | .last expr => [visitParts sbAnd (andParts expr)]
  | .or expr rest => visitParts sbAnd (andParts expr) :: orParts rest

/-- The parts of `visitAndExpression`. -/
def andParts : AndExpression → List String
  | .last primary => [visitPrimary primary]
  | .and primary rest => visitPrimary primary :: andParts rest

/-- `visitPrimary` -/
def visitPrimary : Primary → String
  | .group negated expr =>
    let inner := visitParts sbOr (orParts expr)
    if negated then sbNot inner else sbAnd [inner]
  | .comparison negated comparison =>
    let inner := visitComparison columnMap comparison
    if negated then sbNot inner else inner

end

/-- `visitAndExpression` -/
def visitAndExpression (expr : AndExpression) : String := visitParts sbAnd (andParts columnMap expr)

/-- `visitOrExpression` -/
def visitOrExpression (expr : OrExpression) : String := visitParts sbOr (orParts columnMap expr)

end Visitor

/-! ## What the visitor collects -/

mutual

/-- The atoms in the order in which they are visited. -/
def Operand.atoms : Operand → List Atom
  | .sum operand _ term => operand.atoms ++ term.atoms
  | .term term => term.atoms

def Term.atoms : Term → List Atom
  | .product term _ factor => term.atoms ++ factor.atoms
  | .factor factor => factor.atoms

def Factor.atoms : Factor → List Atom
  | .signed _ factor => factor.atoms
  | .group operand => operand.atoms
  | .atom atom => [atom]

end

def Comparison.atoms : Comparison → List Atom
  | .compare left _ right => left.atoms ++ right.atoms
  | .inList operand _ _ _ => operand.atoms

mutual

def OrExpression.atoms : OrExpression → List Atom
  | .last expr => expr.atoms
  | .or expr rest => expr.atoms ++ rest.atoms

def AndExpression.atoms : AndExpression → List Atom
  | .last primary => primary.atoms
  | .and primary rest => primary.atoms ++ rest.atoms

def Primary.atoms : Primary → List Atom
  | .group _ expr => expr.atoms
  | .comparison _ comparison => comparison.atoms

end

def Atom.isString : Atom → Bool
  | .string _ => true
  | _ => false

/-- The message of an error and what it adds, without suggestions. -/
structure HavingError where
  message : String
  additional : List String

def sortStrings (names : List String) : List String := names.insertionSort (· ≤ ·)

/-- `rewriteAndValidate` of an expression that was parsed without errors. -/
def rewriteAndValidate (columnMap : ColumnMap) (query : OrExpression) :
    Except HavingError String :=
  let invalid := (query.atoms.flatMap (invalidOf columnMap)).dedup
  if query.atoms.any Atom.isString then
    .error ⟨"`Having` expression contains string literals", ["Aggregator results are numeric"]⟩
  else if invalid ≠ [] then
    .error ⟨"Invalid references in `Having` expression: [" ++
        joinWith ", " (sortStrings invalid) ++ "]",
      ["Valid references are: [" ++ joinWith ", " (sortStrings (columnMap.map Prod.fst)) ++ "]"]⟩
  else .ok (visitOrExpression columnMap query)

/-! ## Plain columns -/

/-- A name of a result column. -/
def IsColumn (name : String) : Prop :=
  name = "value" ∨ ∃ idx : Nat, name = "__result_" ++ toString idx

/-- Every entry has a result column. -/
def Plain (columnMap : ColumnMap) : Prop := ∀ entry ∈ columnMap, IsColumn entry.2

variable {columnMap : ColumnMap}

theorem Plain.set (h : Plain columnMap) (name : String) {column : String}
    (hcolumn : IsColumn column) : Plain (columnMap.set name column) := by
  intro entry hentry
  cases List.mem_cons.1 hentry with
  | inl heq => exact heq ▸ hcolumn
  | inr hmem => exact h entry (List.mem_of_mem_filter hmem)

theorem Plain.addAggregation (h : Plain columnMap) (total idx : Nat) (agg : Aggregation) :
   Plain (addAggregation total columnMap idx agg) := by
  have hcolumn : IsColumn ("__result_" ++ toString idx) := Or.inr ⟨idx, rfl⟩
  have hset : ∀ {columnMap : ColumnMap}, Plain columnMap → ∀ (p : Prop) [Decidable p] name,
      Plain (if p then columnMap.set name ("__result_" ++ toString idx) else columnMap) := by
    intro columnMap h p _ name
    split
    · exact h.set name hcolumn
    · exact h
  exact hset ((hset ((hset h _ _).set _ hcolumn) _ _).set _ hcolumn) _ _

theorem Plain.addMetricAggregation (h : Plain columnMap) (idx : Nat) (agg : MetricAggregation) :
   Plain (addMetricAggregation columnMap idx agg) := by
  have hcolumn : IsColumn "value" := Or.inl rfl
  have hset : ∀ {columnMap : ColumnMap}, Plain columnMap → ∀ (p : Prop) [Decidable p] name,
      Plain (if p then columnMap.set name "value" else columnMap) := by
    intro columnMap h p _ name
    split
    · exact h.set name hcolumn
    · exact h
  exact ((hset (hset (hset (hset h _ _) _ _) _ _) _ _).set _ hcolumn).set _ hcolumn

theorem plain_foldl {α : Type} {add : ColumnMap → α → ColumnMap}
    (hadd : ∀ columnMap a, Plain columnMap → Plain (add columnMap a)) (l : List α)
    (h : Plain columnMap) : Plain (l.foldl add columnMap) := by
  induction l generalizing columnMap with
  | nil => exact h
  | cons a l ih => exact ih (hadd columnMap a h)

/-- The columns of the aggregations of a query are plain. -/
theorem Aggregations.plain (aggregations : Aggregations) : Plain aggregations.columnMap := by
  have hnil : Plain [] := fun _ hentry => nomatch hentry
  cases aggregations with
  | traces l => exact plain_foldl (fun _ _ h => h.addAggregation _ _ _) _ hnil
  | logs l => exact plain_foldl (fun _ _ h => h.addAggregation _ _ _) _ hnil
  | metrics l => exact plain_foldl (fun _ _ h => h.addMetricAggregation _ _) _ hnil

theorem mem_of_lookup {name column : String} (h : columnMap.lookup name = some column) :
   (name, column) ∈ columnMap := by
  induction columnMap with
  | nil => cases h
  | cons entry columnMap ih =>
    obtain ⟨key, value⟩ := entry
    rw [List.lookup_cons] at h
    split at h
    · next heq =>
      rw [Option.some.inj h, eq_of_beq heq]
      exact List.mem_cons_self
    · exact List.mem_cons_of_mem _ (ih h)

/-- A reference is resolved to a result column. -/
theorem isColumn_of_resolve (h : Plain columnMap) {atom : Atom} {column : String}
    (hresolve : resolve columnMap atom = some column) : IsColumn column := by
  have hlookup : ∀ {name}, columnMap.lookup name = some column → IsColumn column :=
    fun hlookup => h _ (mem_of_lookup hlookup)
  cases atom with
  | functionCall name args => exact hlookup hresolve
  | identifier name =>
    rw [resolve, Option.or_eq_some_iff] at hresolve
    rcases hresolve with hname | ⟨_, hself⟩
    · exact hlookup hname
    · split at hself
      · next hmem =>
        obtain ⟨entry, hentry, heq⟩ := List.any_eq_true.1 hmem
        rw [← Option.some.inj hself, ← of_decide_eq_true heq]
        exact h entry hentry
      · cases hself
  | number _ => cases hresolve
  | string _ => cases hresolve

end Signoz.Having
