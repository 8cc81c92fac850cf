import Mathlib.Data.Char
import Mathlib.Data.List.Lex
import Mathlib.Data.List.Nodup
import Signoz.Lib.JsonText
import Signoz.Lib.Like

/-!
# Conditions on the resource table

`ConditionFor` of `telemetryresourcefilter/condition_builder.go`: the SQL condition that a filter
on a resource attribute becomes, with its `LIKE` filters on the whole `labels` column that let the
table use its index. Conditions are built with `sbAnd` and `sbOr`, which stand for the calls of
`go-sqlbuilder`, a library outside the repository, and leave out empty parts as it does. They are
evaluated on a resource (`SqlCond.holds`), whose column `labels` holds the JSON text of its labels.

Values are the texts that `FormatValueForContains` makes of them.
-/

namespace Signoz.ResourceFilter

open Lib.JsonText Lib.Like

abbrev Text := List Char

/-! ## SQL -/

/-- What the database does with texts: how it writes JSON strings, how `ILIKE` folds case and
what `match` does. -/
structure Engine where
  json : EscapeTable
  lower : Char → Char
  regexMatch : Text → Text → Bool
  lower_percent : lower '%' = '%'
  lower_backslash : ∀ c, lower c = '\\' → c = '\\'

/-- A row of the resource table: labels with distinct names. -/
structure Resource where
  labels : List (Text × Text)
  nodup : (labels.map Prod.fst).Nodup

/-- The column `labels`. -/
def Resource.labelsText (r : Resource) (db : Engine) : Text := objectText db.json r.labels

/-- `simpleJSONHas(labels, key)`. -/
def Resource.has (r : Resource) (key : Text) : Bool := (r.labels.lookup key).isSome

/-- `simpleJSONExtractString(labels, key)`: the value, or the empty text. -/
def Resource.extract (r : Resource) (key : Text) : Text := (r.labels.lookup key).getD []

inductive CompareOp where
  | eq
  | ne
  | gt
  | ge
  | lt
  | le
deriving DecidableEq

def CompareOp.holds (op : CompareOp) (a b : Text) : Bool :=
  match op with
  | .eq => a = b
  | .ne => a ≠ b
  | .gt => b < a
  | .ge => b ≤ a
  | .lt => a < b
  | .le => a ≤ b

/-- What a `LIKE` is applied to: the column, or the value of a key. -/
inductive Operand where
  | labels
  | extracted (key : Text)
deriving DecidableEq

/-- A condition as the builder makes it; `empty` is the empty string. -/
inductive SqlCond where
  | empty
  | compare (op : CompareOp) (key value : Text)
  | between (key low high : Text)
  | notBetween (key low high : Text)
  | like (operand : Operand) (pattern : Text)
  | notLike (operand : Operand) (pattern : Text)
  | iLike (operand : Operand) (pattern : Text)
  | notILike (operand : Operand) (pattern : Text)
  | has (key : Text) (expected : Bool)
  | regex (key pattern : Text) (expected : Bool)
  | and (a b : SqlCond)
  | or (a b : SqlCond)
deriving DecidableEq

/-- `sb.And` of `go-sqlbuilder`: what is not empty, with `AND` between. -/
def sbAnd (conds : List SqlCond) : SqlCond :=
  match conds.filter (· ≠ .empty) with
  | [] => .empty
  | c :: cs => cs.foldl .and c

/-- `sb.Or` of `go-sqlbuilder`, likewise with `OR`. -/
def sbOr (conds : List SqlCond) : SqlCond :=
  match conds.filter (· ≠ .empty) with
  | [] => .empty
  | c :: cs => cs.foldl .or c

def Operand.value (db : Engine) (r : Resource) : Operand → Text
  | .labels => r.labelsText db
  | .extracted key => r.extract key

/-- `text ILIKE pattern`. -/
def Engine.iLike (db : Engine) (text pattern : Text) : Bool :=
  Lib.Like.like (text.map db.lower) (pattern.map db.lower)

/-- Evaluation on a row. The empty condition adds nothing to a `WHERE`. -/
def SqlCond.holds (db : Engine) (r : Resource) : SqlCond → Bool
  | .empty => true
  | .compare op key value => op.holds (r.extract key) value
  | .between key low high => low ≤ r.extract key && r.extract key ≤ high
  | .notBetween key low high => !(low ≤ r.extract key && r.extract key ≤ high)
  | .like operand pattern => Lib.Like.like (operand.value db r) pattern
  | .notLike operand pattern => !Lib.Like.like (operand.value db r) pattern
  | .iLike operand pattern => db.iLike (operand.value db r) pattern
  | .notILike operand pattern => !db.iLike (operand.value db r) pattern
  | .has key expected => r.has key = expected
  | .regex key pattern expected => db.regexMatch (r.extract key) pattern = expected
  | .and a b => a.holds db r && b.holds db r
  | .or a b => a.holds db r || b.holds db r

/-! ## The condition builder -/

/-- A filter operator with its value. `LIKE` and `ILIKE` are built alike. -/
inductive Filter where
  | equal (v : Text)
  | notEqual (v : Text)
  | greaterThan (v : Text)
  | greaterThanOrEq (v : Text)
  | lessThan (v : Text)
  | lessThanOrEq (v : Text)
  | like (v : Text)
  | notLike (v : Text)
  | between (low high : Text)
  | notBetween (low high : Text)
  | inList (vs : List Text)
  | notInList (vs : List Text)
  | isPresent
  | isAbsent
  | regexp (v : Text)
  | notRegexp (v : Text)
  | contains (v : Text)
  | notContains (v : Text)
deriving DecidableEq

/-- `keyIndexFilter`. -/
def keyIndexFilter (key : Text) : Text := '%' :: key ++ ['%']

/-- `valueForIndexFilter` for equality and for the values of a list. -/
def equalIndexFilter (key value : Text) : Text :=
  '%' :: (key ++ '"' :: ':' :: '"' :: value) ++ ['%']

/-- `valueForIndexFilter` for the other operators. -/
def containsIndexFilter (key value : Text) : Text := '%' :: (key ++ '%' :: value) ++ ['%']

/-- `%value%`. -/
def around (value : Text) : Text := '%' :: value ++ ['%']

/-- `ConditionFor`, for a key of the resource context. -/
def conditionFor (key : Text) : Filter → SqlCond
  | .equal v => sbAnd [.compare .eq key v, .like .labels (keyIndexFilter key),
      .like .labels (equalIndexFilter key v)]
  | .notEqual v => sbAnd [.compare .ne key v, .notLike .labels (equalIndexFilter key v)]
  | .greaterThan v => sbAnd [.compare .gt key v, .like .labels (keyIndexFilter key)]
  | .greaterThanOrEq v => sbAnd [.compare .ge key v, .like .labels (keyIndexFilter key)]
  | .lessThan v => sbAnd [.compare .lt key v, .like .labels (keyIndexFilter key)]
  | .lessThanOrEq v => sbAnd [.compare .le key v, .like .labels (keyIndexFilter key)]
  | .like v => sbAnd [.iLike (.extracted key) v, .like .labels (keyIndexFilter key),
      .iLike .labels (containsIndexFilter key v)]
  | .notLike v => sbAnd [.notILike (.extracted key) v]
  | .between low high => sbAnd [.like .labels (keyIndexFilter key), .between key low high]
  | .notBetween low high => sbAnd [.notBetween key low high]
  | .inList vs =>
    sbAnd [sbOr (vs.map fun v => .compare .eq key v), .like .labels (keyIndexFilter key),
      sbOr (vs.map fun v => .like .labels (equalIndexFilter key v))]
  | .notInList vs =>
    sbAnd [sbAnd (vs.map fun v => .compare .ne key v),
      sbAnd (vs.map fun v => .notLike .labels (equalIndexFilter key v))]
  | .isPresent => sbAnd [.has key true, .like .labels (keyIndexFilter key)]
  | .isAbsent => sbAnd [.has key false]
  | .regexp v => sbAnd [.regex key v true, .like .labels (keyIndexFilter key)]
  | .notRegexp v => sbAnd [.regex key v false]
  | .contains v => sbAnd [.iLike (.extracted key) (around v), .like .labels (keyIndexFilter key),
      .iLike .labels (containsIndexFilter key v)]
  | .notContains v => sbAnd [.notILike (.extracted key) (around v)]

/-! ## Evaluating what the builder makes -/

theorem holds_foldl_and (db : Engine) (r : Resource) (cs : List SqlCond) :
    ∀ c : SqlCond, (cs.foldl .and c).holds db r = (c.holds db r && cs.all (·.holds db r)) := by
  induction cs with
  | nil => simp
  | cons d cs ih => exact fun c => by simp [ih, SqlCond.holds, Bool.and_assoc]

theorem holds_foldl_or (db : Engine) (r : Resource) (cs : List SqlCond) :
    ∀ c : SqlCond, (cs.foldl .or c).holds db r = (c.holds db r || cs.any (·.holds db r)) := by
  induction cs with
  | nil => simp
  | cons d cs ih => exact fun c => by simp [ih, SqlCond.holds, Bool.or_assoc]

/-- A conjunction holds when all its parts do; an empty part holds anyway. -/
theorem holds_sbAnd (db : Engine) (r : Resource) (conds : List SqlCond) :
    (sbAnd conds).holds db r = conds.all (·.holds db r) := by
  have hfilter : conds.all (·.holds db r) =
      (conds.filter (· ≠ .empty)).all (·.holds db r) := by
    induction conds with
    | nil => rfl
    | cons c cs ih =>
      by_cases hc : c = .empty
      · simpa [hc, SqlCond.holds] using ih
      · simp [hc, ih]
  rw [hfilter, sbAnd]
  cases conds.filter (· ≠ .empty) with
  | nil => rfl
  | cons c cs => exact holds_foldl_and db r cs c

/-- A disjunction of parts that are not empty holds when one of them does; without parts it is
empty. -/
theorem holds_sbOr (db : Engine) (r : Resource) {conds : List SqlCond}
    (h : ∀ c ∈ conds, c ≠ .empty) :
    (sbOr conds).holds db r = (conds.isEmpty || conds.any (·.holds db r)) := by
  have hfilter : conds.filter (· ≠ .empty) = conds :=
    List.filter_eq_self.2 fun c hc => by simpa using h c hc
  rw [sbOr, hfilter]
  cases conds with
  | nil => rfl
  | cons c cs => simpa using holds_foldl_or db r cs c

end Signoz.ResourceFilter
