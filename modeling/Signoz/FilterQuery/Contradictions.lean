import Signoz.FilterQuery.Lexer
import Signoz.FilterQuery.WhereClause
import Signoz.Lib.Binary64

/-!
# The detection of contradictions

`never_true.go`: the comparisons of a filter become constraints, turned around under a `NOT`, and
the constraints of each field are checked by rules. Branches of an `OR` are checked one by one.

A map of constraints by field is the list of all of them. Its fields are taken in the order of the
list, where the source takes any order. Of the texts in quotes only those of the rule `NUMBER` are
numbers here, not those of the other forms that `ParseFloat` reads.
-/

namespace Signoz.FilterQuery

open Lib.Binary64 (toBinary64)

/-! ## Numbers -/

/-- The number that digits write. -/
def digitsValue (digits : List Char) : Nat :=
  digits.foldl (fun n c => 10 * n + (c.toNat - '0'.toNat)) 0

/-- An optional sign and what follows it. -/
def readSign : List Char → Int × List Char
  | '-' :: cs => (-1, cs)
  | '+' :: cs => (1, cs)
  | cs => (1, cs)

/-- The digits after a point and what follows them. -/
def readFraction : List Char → List Char × List Char
  | '.' :: cs => (cs.takeWhile Char.isDigit, cs.dropWhile Char.isDigit)
  | cs => ([], cs)

def readExponent : List Char → Int
  | [] => 0
  | _ :: cs => (readSign cs).1 * digitsValue (readSign cs).2

/-- The number that a text of the rule `NUMBER` writes. -/
def numeralValue (text : String) : ℚ :=
  let (sign, cs) := readSign text.toList
  let whole := cs.takeWhile Char.isDigit
  let (fraction, cs) := readFraction (cs.dropWhile Char.isDigit)
  sign * digitsValue (whole ++ fraction) * 10 ^ (readExponent cs - fraction.length)

/-- A text of the rule `NUMBER`. -/
def isNumeral (text : String) : Bool := Lexer.number.munch text.toList = some text.toList.length

/-- `parseNumericValue` of a text. -/
def parseNumericValue (text : String) : Option ℚ :=
  if isNumeral text then toBinary64 (numeralValue text) else none

/-! ## Constraints -/

/-- `FieldConstraint`. -/
structure FieldConstraint where
  field : String
  operator : FilterOperator
  value : String
  values : List String

/-- `negateOperator`. -/
def negateOperator : FilterOperator → FilterOperator
  | .equal => .notEqual
  | .notEqual => .equal
  | .lessThan => .greaterThanOrEq
  | .lessThanOrEq => .greaterThan
  | .greaterThan => .lessThanOrEq
  | .greaterThanOrEq => .lessThan
  | .in => .notIn
  | .notIn => .in
  | .exists => .notExists
  | .notExists => .exists
  | .like => .notLike
  | .notLike => .like
  | .iLike => .notILike
  | .notILike => .iLike
  | .between => .notBetween
  | .notBetween => .between
  | .regexp => .notRegexp
  | .notRegexp => .regexp
  | .contains => .notContains
  | .notContains => .contains

/-- `isRangeOperator`. -/
def isRangeOperator : FilterOperator → Bool
  | .lessThan | .lessThanOrEq | .greaterThan | .greaterThanOrEq => true
  | _ => false

/-- `isNegativeOperator`. -/
def isNegativeOperator : FilterOperator → Bool
  | .notEqual | .notIn | .notExists | .notLike | .notILike | .notBetween | .notRegexp
  | .notContains => true
  | _ => false

/-- An operator that a value has to be there for. -/
def impliesExistence (operator : FilterOperator) : Bool :=
  operator.addDefaultExistsFilter && !isNegativeOperator operator

/-- The constraints of an operator. -/
def ofOperator (constraints : List FieldConstraint) (operator : FilterOperator) :
    List FieldConstraint :=
  constraints.filter fun c => c.operator = operator

/-! ## Ranges -/

structure Bound where
  value : ℚ
  inclusive : Bool

/-- The bounds of numbers that the two operators give. -/
def boundsOf (exclusive inclusive : FilterOperator) (constraints : List FieldConstraint) :
    List Bound :=
  constraints.filterMap fun c =>
    match parseNumericValue c.value with
    | none => none
    | some val =>
      if c.operator = exclusive then some ⟨val, false⟩
      else if c.operator = inclusive then some ⟨val, true⟩
      else none

/-- The most restrictive bound. -/
def effectiveBound (stricter : ℚ → ℚ → Bool) (bounds : List Bound) : Option Bound :=
  bounds.foldl
    (fun effective bound =>
      match effective with
      | none => some bound
      | some e =>
        if stricter bound.value e.value ||
            (bound.value = e.value && !bound.inclusive && e.inclusive)
        then some bound else some e)
    none

def effectiveLower (constraints : List FieldConstraint) : Option Bound :=
  effectiveBound (fun x y => y < x) (boundsOf .greaterThan .greaterThanOrEq constraints)

def effectiveUpper (constraints : List FieldConstraint) : Option Bound :=
  effectiveBound (fun x y => x < y) (boundsOf .lessThan .lessThanOrEq constraints)

/-- `checkRangeContradictions`. -/
def checkRangeContradictions (constraints : List FieldConstraint) : Bool :=
  match effectiveLower constraints, effectiveUpper constraints with
  | some lower, some upper =>
    upper.value < lower.value ||
      (lower.value = upper.value && (!lower.inclusive || !upper.inclusive))
  | _, _ => false

/-- The comparison of a number with the number of a range constraint. -/
def satisfiesRange (operator : FilterOperator) (val cVal : ℚ) : Bool :=
  match operator with
  | .greaterThan => !(val ≤ cVal)
  | .greaterThanOrEq => !(val < cVal)
  | .lessThan => !(cVal ≤ val)
  | .lessThanOrEq => !(cVal < val)
  | _ => true

/-- `valuesSatisfyRanges`. -/
def valuesSatisfyRanges (value : String) (constraints : List FieldConstraint) : Bool :=
  match parseNumericValue value with
  | none => true
  | some val => constraints.all fun c =>
    match parseNumericValue c.value with
    | none => true
    | some cVal => satisfiesRange c.operator val cVal

/-- The two numbers of a `BETWEEN`. -/
def rangeOf (between : FieldConstraint) : Option (ℚ × ℚ) :=
  match between.values with
  | [low, high] =>
    match parseNumericValue low, parseNumericValue high with
    | some min, some max => some (min, max)
    | _, _ => none
  | _ => none

/-- One pass of the loop of `hasCommonIntersection`. -/
def intersect (intersection : Option (ℚ × ℚ)) (between : FieldConstraint) : Option (ℚ × ℚ) :=
  match rangeOf between with
  | none => intersection
  | some (min, max) =>
    match intersection with
    | none => some (min, max)
    | some (low, high) =>
      some (if low < min then min else low, if max < high then max else high)

/-- `hasCommonIntersection`. -/
def hasCommonIntersection (betweens : List FieldConstraint) : Bool :=
  match betweens.foldl intersect none with
  | none => true
  | some (low, high) => low ≤ high

/-- `valueSatisfiesBetween` of a number, `none` if it is infinite. -/
def numberSatisfiesBetween (val : Option ℚ) (between : FieldConstraint) : Bool :=
  match between.values with
  | [_, _] =>
    match rangeOf between with
    | none => true
    | some (min, max) => val.any fun x => min ≤ x && x ≤ max
  | _ => false

/-- `valueSatisfiesBetween` of a text. -/
def valueSatisfiesBetween (value : String) (between : FieldConstraint) : Bool :=
  match between.values with
  | [_, _] =>
    match parseNumericValue value with
    | none => true
    | some val => numberSatisfiesBetween (some val) between
  | _ => false

/-- `(bMin + bMax) / 2` of floats, `none` if the sum is infinite. -/
def midpoint (min max : ℚ) : Option ℚ :=
  (toBinary64 (min + max)).bind fun sum => toBinary64 (sum / 2)

/-- `testValues`. -/
def testValues (min max : ℚ) : List (Option ℚ) := [some min, some max, midpoint min max]

/-- No test value of the range is left by the `NOT BETWEEN`s. -/
def excludesAll (min max : ℚ) (notBetweens : List FieldConstraint) : Bool :=
  (testValues min max).all fun val => notBetweens.any (numberSatisfiesBetween val)

/-! ## Patterns -/

/-- `matchesLikePattern`. The slice of the pattern `%` panics. -/
def matchesLikePattern (value pattern : String) : Option Bool :=
  let value := value.toList
  let pattern := pattern.toList
  if pattern.head? = some '%' then
    if pattern.getLast? = some '%' then
      if pattern.length < 2 then none else some (pattern.tail.dropLast <:+: value)
    else some (pattern.tail <:+ value)
  else if pattern.getLast? = some '%' then some (pattern.dropLast <+: value)
  else some (value = pattern)

/-! ## Rules -/

/-- Different equalities. -/
def equalsContradictions (field : String) (constraints : List FieldConstraint) : List String :=
  let values := ((ofOperator constraints .equal).map FieldConstraint.value).dedup
  if 1 < values.length then ["Field '" ++ field ++ "' cannot equal multiple different values"]
  else []

/-- Equality and not-equality. -/
def notEqualContradictions (field : String) (constraints : List FieldConstraint) : List String :=
  (ofOperator constraints .equal).flatMap fun eq =>
    (ofOperator constraints .notEqual).flatMap fun neq =>
      if eq.value = neq.value then
        ["Field '" ++ field ++ "' cannot both equal and not equal '" ++ eq.value ++ "'"]
      else []

/-- Equality and `IN`, `NOT IN`. -/
def equalInContradictions (field : String) (constraints : List FieldConstraint) : List String :=
  (ofOperator constraints .equal).flatMap fun eq =>
    ((ofOperator constraints .notIn).flatMap fun notIn =>
      notIn.values.flatMap fun v =>
        if eq.value = v then
          ["Field '" ++ field ++ "' equals '" ++ eq.value ++ "' but is in NOT IN list"]
        else []) ++
    (ofOperator constraints .in).flatMap fun c =>
      if eq.value ∈ c.values then []
      else ["Field '" ++ field ++ "' equals '" ++ eq.value ++ "' but is not in IN list"]

/-- `IN` and `NOT IN`. -/
def inContradictions (field : String) (constraints : List FieldConstraint) : List String :=
  (ofOperator constraints .in).flatMap fun c =>
    (ofOperator constraints .notIn).flatMap fun notIn =>
      let overlap := c.values.flatMap fun v => notIn.values.filter fun v' => v = v'
      if overlap ≠ [] then
        ["Field '" ++ field ++ "' has overlapping IN and NOT IN values: [" ++
          String.intercalate " " overlap ++ "]"]
      else []

/-- Range constraints. -/
def rangeContradictions (field : String) (constraints : List FieldConstraint) : List String :=
  let ranges := constraints.filter fun c => isRangeOperator c.operator
  if checkRangeContradictions ranges then
    ["Field '" ++ field ++ "' has contradictory range constraints"]
  else []

/-- Equality and range constraints. -/
def equalRangeContradictions (field : String) (constraints : List FieldConstraint) :
    List String :=
  let ranges := constraints.filter fun c => isRangeOperator c.operator
  (ofOperator constraints .equal).flatMap fun eq =>
    if valuesSatisfyRanges eq.value ranges then []
    else ["Field '" ++ field ++ "' equals '" ++ eq.value ++ "' which violates range constraints"]

/-- `EXISTS` and `NOT EXISTS`, and operators that imply existence. -/
def existsContradictions (field : String) (constraints : List FieldConstraint) : List String :=
  if ofOperator constraints .notExists = [] then []
  else
    (if ofOperator constraints .exists ≠ [] then
      ["Field '" ++ field ++ "' cannot both exist and not exist"] else []) ++
    match constraints.find? fun c => impliesExistence c.operator with
    | none => []
    | some c =>
      ["Field '" ++ field ++ "' has NOT EXISTS but also has " ++
        toString (c.operator.ctorIdx + 1) ++ " which implies existence"]

/-- Two `BETWEEN`s and more. -/
def betweenContradictions (field : String) (constraints : List FieldConstraint) : List String :=
  let betweens := ofOperator constraints .between
  if 2 ≤ betweens.length ∧ ¬hasCommonIntersection betweens then
    ["Field '" ++ field ++ "' has non-overlapping BETWEEN ranges"]
  else []

/-- Equality and `BETWEEN`. -/
def equalBetweenContradictions (field : String) (constraints : List FieldConstraint) :
    List String :=
  let betweens := ofOperator constraints .between
  (ofOperator constraints .equal).flatMap fun eq =>
    if betweens ≠ [] ∧ ¬betweens.any (valueSatisfiesBetween eq.value) then
      ["Field '" ++ field ++ "' equals '" ++ eq.value ++ "' which is outside BETWEEN range(s)"]
    else []

/-- Equality and `NOT BETWEEN`. -/
def equalNotBetweenContradictions (field : String) (constraints : List FieldConstraint) :
    List String :=
  (ofOperator constraints .equal).flatMap fun eq =>
    (ofOperator constraints .notBetween).flatMap fun notBetween =>
      if valueSatisfiesBetween eq.value notBetween then
        ["Field '" ++ field ++ "' equals '" ++ eq.value ++
          "' which is excluded by NOT BETWEEN range"]
      else []

/-- `BETWEEN` and `NOT BETWEEN`. -/
def excludedContradictions (field : String) (constraints : List FieldConstraint) : List String :=
  let notBetweens := ofOperator constraints .notBetween
  if notBetweens = [] then []
  else
    (ofOperator constraints .between).flatMap fun between =>
      match rangeOf between with
      | none => []
      | some (bMin, bMax) =>
        if excludesAll bMin bMax notBetweens then
          ["Field '" ++ field ++ "' has BETWEEN and NOT BETWEEN ranges that exclude all values"]
        else []

/-- The contradiction of an equality and a pattern. -/
def likeContradiction (field : String) (eq like : FieldConstraint) : Option (List String) :=
  (matchesLikePattern eq.value like.value).map fun ok =>
    if ok then []
    else ["Field '" ++ field ++ "' equals '" ++ eq.value ++
      "' which doesn't match LIKE pattern '" ++ like.value ++ "'"]

/-- Equality and `LIKE`, `ILIKE`. -/
def likeContradictions (field : String) (constraints : List FieldConstraint) :
    Option (List String) :=
  let likes := constraints.filter fun c => c.operator = .like || c.operator = .iLike
  let pairs := (ofOperator constraints .equal).flatMap fun eq => likes.map fun like => (eq, like)
  (pairs.mapM fun pair => likeContradiction field pair.1 pair.2).map List.flatten

/-- `findContradictionsInConstraints`, `none` for a panic. -/
def findContradictionsInConstraints (field : String) (constraints : List FieldConstraint) :
    Option (List String) :=
  (likeContradictions field constraints).map fun likes =>
    equalsContradictions field constraints ++ notEqualContradictions field constraints ++
      equalInContradictions field constraints ++ inContradictions field constraints ++
      rangeContradictions field constraints ++ equalRangeContradictions field constraints ++
      existsContradictions field constraints ++ betweenContradictions field constraints ++
      equalBetweenContradictions field constraints ++
      equalNotBetweenContradictions field constraints ++
      excludedContradictions field constraints ++ likes

/-! ## The detector -/

def constraintsOf (constraints : List FieldConstraint) (field : String) : List FieldConstraint :=
  constraints.filter fun c => c.field = field

/-- `checkContradictions`. -/
def checkContradictions (constraints : List FieldConstraint) : Option (List String) :=
  let fields := (constraints.map FieldConstraint.field).dedup
  (fields.mapM fun field =>
    if (constraintsOf constraints field).length < 2 then some []
    else findContradictionsInConstraints field (constraintsOf constraints field)).map List.flatten

/-- The constraints so far, and the sets of constraints that were checked. -/
structure LogicalContradictionDetector where
  constraints : List FieldConstraint
  checked : List (List FieldConstraint)

/-- `extractValue`. -/
def extractValue : Value → String
  | .quotedText text =>
    if 2 ≤ text.length then String.ofList text.toList.tail.dropLast else text
  | .number text | .bool text | .key text => text

/-- `extractValueList`, of no list for a single value. -/
def extractValueList : InClause → List String
  | .list values => values.allValue.map extractValue
  | .single _ => []

/-- The constraint of a comparison. -/
def constraintOf (notContext : Bool) (c : Comparison) : FieldConstraint :=
  let context := fun operator => if notContext then negateOperator operator else operator
  match c.operation with
  | .exists negated => ⟨c.key, context (if negated then .notExists else .exists), "", []⟩
  | .inClause clause => ⟨c.key, context .in, "", extractValueList clause⟩
  | .notInClause clause => ⟨c.key, context .notIn, "", extractValueList clause⟩
  | .between negated low high =>
    ⟨c.key, context (if negated then .notBetween else .between), "",
      [extractValue low, extractValue high]⟩
  | .equals value => ⟨c.key, context .equal, extractValue value, []⟩
  | .notEquals value => ⟨c.key, context .notEqual, extractValue value, []⟩
  | .lt value => ⟨c.key, context .lessThan, extractValue value, []⟩
  | .le value => ⟨c.key, context .lessThanOrEq, extractValue value, []⟩
  | .gt value => ⟨c.key, context .greaterThan, extractValue value, []⟩
  | .ge value => ⟨c.key, context .greaterThanOrEq, extractValue value, []⟩
  | .like negated value =>
    ⟨c.key, context (if negated then .notLike else .like), extractValue value, []⟩
  | .ilike negated value =>
    ⟨c.key, context (if negated then .notILike else .iLike), extractValue value, []⟩
  | .regexp negated value =>
    ⟨c.key, context (if negated then .notRegexp else .regexp), extractValue value, []⟩
  | .contains negated value =>
    ⟨c.key, context (if negated then .notContains else .contains), extractValue value, []⟩

/-- A comparison after which the constraints are checked. -/
def checksAfter : Operation → Bool
  | .exists _ | .inClause _ | .notInClause _ | .between _ _ _ => false
  | _ => true

namespace LogicalContradictionDetector

/-- `addConstraint`. -/
def addConstraint (d : LogicalContradictionDetector)
    (constraint : FieldConstraint) : LogicalContradictionDetector :=
  let implicit :=
    if impliesExistence constraint.operator then [⟨constraint.field, .exists, "", []⟩] else []
  { d with constraints := d.constraints ++ implicit ++ [constraint] }

/-- `checkContradictions` of the constraints so far. -/
def check (d : LogicalContradictionDetector) :
    LogicalContradictionDetector :=
  { d with checked := d.checked ++ [d.constraints] }

/-- `VisitComparison`. -/
def visitComparison (d : LogicalContradictionDetector) (notContext : Bool) (c : Comparison) :
    LogicalContradictionDetector :=
  let d := d.addConstraint (constraintOf notContext c)
  if checksAfter c.operation then d.check else d

mutual

/-- `VisitOrExpression`. -/
def visitOrExpression (d : LogicalContradictionDetector) (notContext : Bool) :
    OrExpression → LogicalContradictionDetector
  | .last expr => d.visitAndExpression notContext expr
  | .or expr rest =>
    visitBranches { d.visitAndExpression notContext expr with constraints := d.constraints }
      notContext rest

/-- The branches of an `OR`, each with the constraints from before it. -/
def visitBranches (d : LogicalContradictionDetector) (notContext : Bool) :
    OrExpression → LogicalContradictionDetector
  | .last expr => { d.visitAndExpression notContext expr with constraints := d.constraints }
  | .or expr rest =>
    visitBranches { d.visitAndExpression notContext expr with constraints := d.constraints }
      notContext rest

/-- `VisitAndExpression`. -/
def visitAndExpression (d : LogicalContradictionDetector) (notContext : Bool) :
    AndExpression → LogicalContradictionDetector
  | .last expr => d.visitUnaryExpression notContext expr
  | .and expr rest => (d.visitUnaryExpression notContext expr).visitAndExpression notContext rest

/-- `VisitUnaryExpression`. -/
def visitUnaryExpression (d : LogicalContradictionDetector) (notContext : Bool) :
    UnaryExpression → LogicalContradictionDetector
  | .plain primary => d.visitPrimary notContext primary
  | .not primary => d.visitPrimary (!notContext) primary

/-- `VisitPrimary`. -/
def visitPrimary (d : LogicalContradictionDetector) (notContext : Bool) :
    Primary → LogicalContradictionDetector
  | .group expr => d.visitOrExpression notContext expr
  | .comparison comparison => d.visitComparison notContext comparison
  | _ => d

end

/-- `VisitQuery`. -/
def visitQuery (d : LogicalContradictionDetector) (tree : OrExpression) :
    LogicalContradictionDetector :=
  (d.visitOrExpression false tree).check

end LogicalContradictionDetector

/-- The sets of constraints that are checked for a query. -/
def checkedSets (tree : OrExpression) : List (List FieldConstraint) :=
  (LogicalContradictionDetector.visitQuery ⟨[], []⟩ tree).checked

/-- `DetectContradictions` of a query without syntax errors, `none` for a panic. -/
def detectContradictions (tree : OrExpression) : Option (List String) :=
  ((checkedSets tree).mapM checkContradictions).map fun contradictions =>
    contradictions.flatten.eraseDups

/-- `NOT (a < 5 AND a > 3)` -/
example : detectContradictions
    (.last (.last (.not (.group (.last (.and (.plain (.comparison ⟨"a", .lt (.number "5")⟩))
      (.last (.plain (.comparison ⟨"a", .gt (.number "3")⟩))))))))) =
      some ["Field 'a' has contradictory range constraints"] := by
  decide +kernel

end Signoz.FilterQuery
