import Mathlib.Data.List.Basic

/-!
# Filter expressions

The parse trees of `FilterQuery.g4`. A token is its text. Alternatives of the grammar that are
told apart by punctuation alone are one: round and square brackets of a list, `!=` and `<>`, `AND`
and no word between two expressions.
-/

namespace Signoz.FilterQuery

/-- `value`. -/
inductive Value where
  | quotedText (text : String)
  | number (text : String)
  | bool (text : String)
  | key (text : String)

/-- `valueList`: one value and more. -/
structure ValueList where
  first : Value
  rest : List Value

/-- `AllValue`. -/
def ValueList.allValue (l : ValueList) : List Value := l.first :: l.rest

/-- What follows `IN`. -/
inductive InClause where
  | list (values : ValueList)
  | single (value : Value)

/-- What follows the key of a comparison; `negated` is for `NOT` before the operator. -/
inductive Operation where
  | equals (value : Value)
  | notEquals (value : Value)
  | lt (value : Value)
  | le (value : Value)
  | gt (value : Value)
  | ge (value : Value)
  | like (negated : Bool) (value : Value)
  | ilike (negated : Bool) (value : Value)
  | between (negated : Bool) (low high : Value)
  | inClause (clause : InClause)
  | notInClause (clause : InClause)
  | exists (negated : Bool)
  | regexp (negated : Bool) (value : Value)
  | contains (negated : Bool) (value : Value)

/-- `comparison`. -/
structure Comparison where
  key : String
  operation : Operation

/-- `functionParam`. -/
inductive FunctionParam where
  | key (text : String)
  | value (value : Value)
  | array (values : ValueList)

/-- The functions of `functionCall`. -/
inductive FunctionName where
  | hasToken
  | has
  | hasAny
  | hasAll
deriving DecidableEq

/-- `functionCall`, with one parameter and more. -/
structure FunctionCall where
  name : FunctionName
  first : FunctionParam
  rest : List FunctionParam

/-- `fullText`. -/
inductive FullText where
  | quotedText (text : String)
  | freeText (text : String)

mutual

/-- `orExpression`. -/
inductive OrExpression where
  | last (expr : AndExpression)
  | or (expr : AndExpression) (rest : OrExpression)

/-- `andExpression`. -/
inductive AndExpression where
  | last (expr : UnaryExpression)
  | and (expr : UnaryExpression) (rest : AndExpression)

/-- `unaryExpression`. -/
inductive UnaryExpression where
  | plain (primary : Primary)
  | not (primary : Primary)

/-- `primary`. -/
inductive Primary where
  | group (expr : OrExpression)
  | comparison (comparison : Comparison)
  | functionCall (call : FunctionCall)
  | fullText (text : FullText)
  | key (text : String)
  | value (value : Value)

end

mutual

/-- A token of the expression is `OR`. -/
def OrExpression.hasOr : OrExpression → Bool
  | .last expr => expr.hasOr
  | .or _ _ => true

def AndExpression.hasOr : AndExpression → Bool
  | .last expr => expr.hasOr
  | .and expr rest => expr.hasOr || rest.hasOr

def UnaryExpression.hasOr : UnaryExpression → Bool
  | .plain primary => primary.hasOr
  | .not primary => primary.hasOr

def Primary.hasOr : Primary → Bool
  | .group expr => expr.hasOr
  | _ => false

end

end Signoz.FilterQuery
