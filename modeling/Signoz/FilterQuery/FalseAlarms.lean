import Signoz.FilterQuery.ContradictionRules

/-!
# When a contradiction is a false alarm

Conjunctive filters on numbers: comparisons of fields with numerals, `AND`, `NOT` and brackets. The
detector reads such a filter flatly: all comparisons under one `AND`, each negated if it is under an
odd number of `NOT`s. So `NOT (A AND B)` is read as `NOT A AND NOT B`, and a filter with solutions
may have a flat reading without one.

If the flat reading has a solution, as it has when no `AND` is negated, and the numerals of a field
are written alike when they are one float, what remains of false alarms comes from the test values
of `BETWEEN`. In general a filter with solutions is reported unless the comparisons of its flat
reading are compatible, field by field and each time that they are checked.
-/

namespace Signoz.FilterQuery

open Lib.Binary64

/-! ## Filters on numbers -/

/-- A numeral. -/
def Value.isNumber : Value → Bool
  | .number text => isNumeral text
  | _ => false

/-- A comparison with numerals. -/
def Operation.isNumeric : Operation → Bool
  | .equals value | .notEquals value | .lt value | .le value | .gt value | .ge value =>
    value.isNumber
  | .between _ low high => low.isNumber && high.isNumber
  | _ => false

mutual

/-- Comparisons with numerals under `AND`, `NOT` and brackets. -/
def OrExpression.isNumeric : OrExpression → Bool
  | .last expr => expr.isNumeric
  | .or _ _ => false

/-- Every part of the conjunction is. -/
def AndExpression.isNumeric : AndExpression → Bool
  | .last expr => expr.isNumeric
  | .and expr rest => expr.isNumeric && rest.isNumeric

def UnaryExpression.isNumeric : UnaryExpression → Bool
  | .plain primary => primary.isNumeric
  | .not primary => primary.isNumeric

/-- A group, or one comparison with numerals. -/
def Primary.isNumeric : Primary → Bool
  | .group expr => expr.isNumeric
  | .comparison comparison => comparison.operation.isNumeric
  | _ => false

end

/-- The number of a numeral, not rounded. -/
def Value.numeral (value : Value) : ℚ := numeralValue (extractValue value)

/-- The comparison of a number with numerals. -/
def Operation.Holds (x : ℚ) : Operation → Prop
  | .equals value => x = value.numeral
  | .notEquals value => x ≠ value.numeral
  | .lt value => x < value.numeral
  | .le value => x ≤ value.numeral
  | .gt value => value.numeral < x
  | .ge value => value.numeral ≤ x
  | .between negated low high =>
    if negated then ¬(low.numeral ≤ x ∧ x ≤ high.numeral) else low.numeral ≤ x ∧ x ≤ high.numeral
  | _ => False

/-- Numbers for the fields. -/
abbrev Assignment := String → ℚ

mutual

/-- The filter holds of the numbers. -/
def OrExpression.Holds (σ : Assignment) : OrExpression → Prop
  | .last expr => expr.Holds σ
  | .or expr rest => expr.Holds σ ∨ rest.Holds σ

/-- All parts hold. -/
def AndExpression.Holds (σ : Assignment) : AndExpression → Prop
  | .last expr => expr.Holds σ
  | .and expr rest => expr.Holds σ ∧ rest.Holds σ

/-- `NOT` denies what follows. -/
def UnaryExpression.Holds (σ : Assignment) : UnaryExpression → Prop
  | .plain primary => primary.Holds σ
  | .not primary => ¬primary.Holds σ

/-- A comparison reads the number of its key. -/
def Primary.Holds (σ : Assignment) : Primary → Prop
  | .group expr => expr.Holds σ
  | .comparison comparison => comparison.operation.Holds (σ comparison.key)
  | _ => False

end

/-- Some numbers meet the filter. -/
def Satisfiable (tree : OrExpression) : Prop := ∃ σ : Assignment, tree.Holds σ

/-- A filter in which a contradiction is found has no solution. -/
def NoFalseAlarm (tree : OrExpression) : Prop :=
  ∀ contradictions, detectContradictions tree = some contradictions → contradictions ≠ [] →
    ∀ σ : Assignment, ¬tree.Holds σ

/-! ## The flat reading -/

mutual

/-- The comparisons of a filter, each with the `NOT` context that it is visited in: whether it is
under an odd number of `NOT`s. -/
def OrExpression.visited (notContext : Bool) : OrExpression → List (Bool × Comparison)
  | .last expr => expr.visited notContext
  | .or expr rest => expr.visited notContext ++ rest.visited notContext

def AndExpression.visited (notContext : Bool) : AndExpression → List (Bool × Comparison)
  | .last expr => expr.visited notContext
  | .and expr rest => expr.visited notContext ++ rest.visited notContext

/-- A `NOT` turns the context over. -/
def UnaryExpression.visited (notContext : Bool) : UnaryExpression → List (Bool × Comparison)
  | .plain primary => primary.visited notContext
  | .not primary => primary.visited (!notContext)

def Primary.visited (notContext : Bool) : Primary → List (Bool × Comparison)
  | .group expr => expr.visited notContext
  | .comparison comparison => [(notContext, comparison)]
  | _ => []

end

/-- The part of the flat reading that is checked after its last comparison: after every comparison
but the two forms of `BETWEEN`, and at the end. -/
def OrExpression.ChecksPart (tree : OrExpression) (part : List (Bool × Comparison)) : Prop :=
  part <+: tree.visited false ∧
    (part = tree.visited false ∨ ∃ p ∈ part.getLast?, checksAfter p.2.operation)

/-- The comparisons of a field, turned around in a `NOT` context. -/
def readingOf (part : List (Bool × Comparison)) (field : String) : List FieldConstraint :=
  constraintsOf (part.map fun p => constraintOf p.1 p.2) field

variable {part : List (Bool × Comparison)}

/-- The constraints of one field in a part. -/
theorem mem_readingOf {field : String} {c : FieldConstraint} :
    c ∈ readingOf part field ↔
      ∃ p ∈ part, constraintOf p.1 p.2 = c ∧ c.field = field := by
  simp only [readingOf, constraintsOf, List.mem_filter, List.mem_map, decide_eq_true_eq]
  constructor
  · rintro ⟨⟨p, hp, rfl⟩, hfield⟩
    exact ⟨p, hp, rfl, hfield⟩
  · rintro ⟨p, hp, rfl, hfield⟩
    exact ⟨⟨p, hp, rfl⟩, hfield⟩

/-- The constraints that a comparison adds. -/
def addedConstraints (p : Bool × Comparison) : List FieldConstraint :=
  let constraint := constraintOf p.1 p.2
  (if impliesExistence constraint.operator then [⟨constraint.field, .exists, "", []⟩] else []) ++
    [constraint]

namespace LogicalContradictionDetector

/-- The visit of comparisons one after the other. -/
def visitAll (d : LogicalContradictionDetector) (l : List (Bool × Comparison)) :
    LogicalContradictionDetector :=
  l.foldl (fun d p => d.visitComparison p.1 p.2) d

theorem visitAll_append (d : LogicalContradictionDetector) (l l' : List (Bool × Comparison)) :
    d.visitAll (l ++ l') = (d.visitAll l).visitAll l' :=
  List.foldl_append

mutual

/-- The visitor goes through the flat reading. -/
theorem visitOrExpression_eq (d : LogicalContradictionDetector) (notContext : Bool) :
    ∀ expr : OrExpression, expr.isNumeric →
      d.visitOrExpression notContext expr = d.visitAll (expr.visited notContext)
  | .last expr, h => visitAndExpression_eq d notContext expr h
  | .or _ _, h => nomatch h

theorem visitAndExpression_eq (d : LogicalContradictionDetector) (notContext : Bool) :
    ∀ expr : AndExpression, expr.isNumeric →
      d.visitAndExpression notContext expr = d.visitAll (expr.visited notContext)
  | .last expr, h => visitUnaryExpression_eq d notContext expr h
  | .and expr rest, h => by
    rw [AndExpression.isNumeric, Bool.and_eq_true] at h
    rw [visitAndExpression, AndExpression.visited, visitAll_append,
      ← visitUnaryExpression_eq d notContext expr h.1]
    exact visitAndExpression_eq _ notContext rest h.2

theorem visitUnaryExpression_eq (d : LogicalContradictionDetector) (notContext : Bool) :
    ∀ expr : UnaryExpression, expr.isNumeric →
      d.visitUnaryExpression notContext expr = d.visitAll (expr.visited notContext)
  | .plain primary, h => visitPrimary_eq d notContext primary h
  | .not primary, h => visitPrimary_eq d (!notContext) primary h

theorem visitPrimary_eq (d : LogicalContradictionDetector) (notContext : Bool) :
    ∀ primary : Primary, primary.isNumeric →
      d.visitPrimary notContext primary = d.visitAll (primary.visited notContext)
  | .group expr, h => visitOrExpression_eq d notContext expr h
  | .comparison _, _ => rfl
  | .functionCall _, h => nomatch h
  | .fullText _, h => nomatch h
  | .key _, h => nomatch h
  | .value _, h => nomatch h

end

/-- A comparison adds its constraints. -/
theorem visitComparison_constraints (d : LogicalContradictionDetector) (p : Bool × Comparison) :
    (d.visitComparison p.1 p.2).constraints = d.constraints ++ addedConstraints p := by
  have hadd : (d.addConstraint (constraintOf p.1 p.2)).constraints =
      d.constraints ++ addedConstraints p := List.append_assoc _ _ _
  rw [visitComparison]
  split <;> exact hadd

/-- What has been added is checked after it, but for the two forms of `BETWEEN`. -/
theorem visitComparison_checked (d : LogicalContradictionDetector) (p : Bool × Comparison) :
    (d.visitComparison p.1 p.2).checked =
      if checksAfter p.2.operation then
        d.checked ++ [d.constraints ++ addedConstraints p] else d.checked := by
  rw [← visitComparison_constraints, visitComparison]
  split <;> rfl

/-- A visit adds constraints, and checks the parts of them that end in a comparison to check after.
-/
theorem visitAll_spec (l : List (Bool × Comparison)) (d : LogicalContradictionDetector) :
    (d.visitAll l).constraints = d.constraints ++ l.flatMap addedConstraints ∧
      ∀ set, set ∈ (d.visitAll l).checked ↔ set ∈ d.checked ∨
        ∃ part, part <+: l ∧ (∃ p ∈ part.getLast?, checksAfter p.2.operation) ∧
          set = d.constraints ++ part.flatMap addedConstraints := by
  induction l using List.reverseRecOn with
  | nil =>
    refine ⟨(List.append_nil _).symm, fun set => ⟨Or.inl, ?_⟩⟩
    rintro (hset | ⟨part, hpart, ⟨p, hp, _⟩, _⟩)
    · exact hset
    · rw [List.prefix_nil.1 hpart] at hp
      cases hp
  | append_singleton l p ih =>
    obtain ⟨hconstraints, hchecked⟩ := ih
    have hstep : d.visitAll (l ++ [p]) = (d.visitAll l).visitComparison p.1 p.2 :=
      visitAll_append d l [p]
    rw [hstep, visitComparison_constraints, visitComparison_checked, hconstraints]
    have hall : d.constraints ++ l.flatMap addedConstraints ++ addedConstraints p =
        d.constraints ++ (l ++ [p]).flatMap addedConstraints := by
      simp
    rw [hall]
    refine ⟨rfl, fun set => ?_⟩
    -- The only new part is the whole list.
    have hpart : (∃ part, part <+: l ++ [p] ∧ (∃ q ∈ part.getLast?, checksAfter q.2.operation) ∧
          set = d.constraints ++ part.flatMap addedConstraints) ↔
        (∃ part, part <+: l ∧ (∃ q ∈ part.getLast?, checksAfter q.2.operation) ∧
            set = d.constraints ++ part.flatMap addedConstraints) ∨
          checksAfter p.2.operation ∧
            set = d.constraints ++ (l ++ [p]).flatMap addedConstraints := by
      simp only [List.prefix_concat_iff, or_and_right, exists_or, exists_eq_left,
        List.getLast?_concat, Option.mem_some_iff, exists_eq_left']
      exact or_comm
    rw [hpart, ← or_assoc, ← hchecked]
    split
    · next hcheck => simp [hcheck]
    · next hcheck => simp [hcheck]

end LogicalContradictionDetector

variable {tree : OrExpression}

/-- The parts of the flat reading are what is checked. -/
theorem mem_checkedSets (h : tree.isNumeric) {set : List FieldConstraint} :
    set ∈ checkedSets tree ↔
      ∃ part, tree.ChecksPart part ∧ set = part.flatMap addedConstraints := by
  obtain ⟨hconstraints, hchecked⟩ :=
    LogicalContradictionDetector.visitAll_spec (tree.visited false) ⟨[], []⟩
  rw [← LogicalContradictionDetector.visitOrExpression_eq _ _ _ h, List.nil_append] at hconstraints
  rw [← LogicalContradictionDetector.visitOrExpression_eq _ _ _ h] at hchecked
  have hsets : checkedSets tree = (LogicalContradictionDetector.visitOrExpression ⟨[], []⟩ false
      tree).checked ++ [(tree.visited false).flatMap addedConstraints] := by
    rw [checkedSets, ← hconstraints]
    rfl
  rw [hsets, List.mem_append, List.mem_singleton, hchecked]
  constructor
  · rintro ((hnone | ⟨part, hpart, hlast, hset⟩) | hset)
    · cases hnone
    · exact ⟨part, ⟨hpart, Or.inr hlast⟩, hset⟩
    · exact ⟨_, ⟨List.prefix_rfl, Or.inl rfl⟩, hset⟩
  · rintro ⟨part, ⟨hpart, rfl | hlast⟩, hset⟩
    · exact Or.inr hset
    · exact Or.inl (Or.inr ⟨part, hpart, hlast, hset⟩)

/-! ## Constraints of numbers -/

/-- The texts that a constraint compares with. -/
def FieldConstraint.texts (c : FieldConstraint) : List String :=
  match c.operator with
  | .exists => []
  | .between | .notBetween => c.values
  | _ => [c.value]

/-- The numerals of a comparison. -/
def Operation.numerals : Operation → List String
  | .equals value | .notEquals value | .lt value | .le value | .gt value | .ge value =>
    [extractValue value]
  | .between _ low high => [extractValue low, extractValue high]
  | _ => []

/-- What a constraint says about a number, with numerals that are not rounded. -/
def FieldConstraint.Holds (x : ℚ) (c : FieldConstraint) : Prop :=
  match c.operator, c.values with
  | .equal, _ => x = numeralValue c.value
  | .notEqual, _ => x ≠ numeralValue c.value
  | .lessThan, _ => x < numeralValue c.value
  | .lessThanOrEq, _ => x ≤ numeralValue c.value
  | .greaterThan, _ => numeralValue c.value < x
  | .greaterThanOrEq, _ => numeralValue c.value ≤ x
  | .between, [low, high] => numeralValue low ≤ x ∧ x ≤ numeralValue high
  | .notBetween, [low, high] => ¬(numeralValue low ≤ x ∧ x ≤ numeralValue high)
  | _, _ => True

/-- What holds in a `NOT` context. -/
def InContext (notContext : Bool) (p : Prop) : Prop := if notContext then ¬p else p

/-- The constraint of a numeric comparison is about the same field, numerals and numbers. -/
structure Represents (p : Bool × Comparison) (c : FieldConstraint) : Prop where
  isNumeric : c.IsNumeric
  field : c.field = p.2.key
  texts : c.texts = p.2.operation.numerals
  holds : ∀ x, InContext p.1 (p.2.operation.Holds x) → c.Holds x

/-- The constraint of a comparison says what the comparison says. -/
theorem constraintOf_represents (p : Bool × Comparison) (h : p.2.operation.isNumeric) :
    Represents p (constraintOf p.1 p.2) := by
  obtain ⟨notContext, key, operation⟩ := p
  cases operation with
  | between negated low high =>
    refine ⟨⟨?_, fun _ => ⟨_, _, rfl⟩⟩, rfl, ?_, fun x hx => ?_⟩
    · cases notContext <;> cases negated <;>
        simp [constraintOf, negateOperator, numericOperators]
    · cases notContext <;> cases negated <;> rfl
    · cases notContext <;> cases negated <;>
        simpa [InContext, Operation.Holds, FieldConstraint.Holds, constraintOf, negateOperator,
          Value.numeral] using hx
  | like negated value => cases h
  | ilike negated value => cases h
  | inClause clause => cases h
  | notInClause clause => cases h
  | «exists» negated => cases h
  | regexp negated value => cases h
  | contains negated value => cases h
  | _ value =>
    refine ⟨⟨?_, ?_⟩, rfl, ?_, fun x hx => ?_⟩
    · cases notContext <;> simp [constraintOf, negateOperator, numericOperators]
    · cases notContext <;> simp [constraintOf, negateOperator]
    · cases notContext <;> rfl
    · cases notContext <;>
        simpa [InContext, Operation.Holds, FieldConstraint.Holds, constraintOf, negateOperator,
          Value.numeral] using hx

mutual

theorem isNumeric_visited_or (notContext : Bool) : ∀ expr : OrExpression, expr.isNumeric →
    ∀ p ∈ expr.visited notContext, p.2.operation.isNumeric
  | .last expr, h => isNumeric_visited_and notContext expr h
  | .or _ _, h => nomatch h

theorem isNumeric_visited_and (notContext : Bool) : ∀ expr : AndExpression, expr.isNumeric →
    ∀ p ∈ expr.visited notContext, p.2.operation.isNumeric
  | .last expr, h => isNumeric_visited_unary notContext expr h
  | .and expr rest, h => by
    rw [AndExpression.isNumeric, Bool.and_eq_true] at h
    intro p hp
    rcases List.mem_append.1 hp with hp | hp
    · exact isNumeric_visited_unary notContext expr h.1 p hp
    · exact isNumeric_visited_and notContext rest h.2 p hp

theorem isNumeric_visited_unary (notContext : Bool) : ∀ expr : UnaryExpression, expr.isNumeric →
    ∀ p ∈ expr.visited notContext, p.2.operation.isNumeric
  | .plain primary, h => isNumeric_visited_primary notContext primary h
  | .not primary, h => isNumeric_visited_primary (!notContext) primary h

theorem isNumeric_visited_primary (notContext : Bool) : ∀ primary : Primary, primary.isNumeric →
    ∀ p ∈ primary.visited notContext, p.2.operation.isNumeric
  | .group expr, h => isNumeric_visited_or notContext expr h
  | .comparison comparison, h => by
    intro p hp
    rw [List.mem_singleton.1 hp]
    exact h
  | .functionCall _, h => nomatch h
  | .fullText _, h => nomatch h
  | .key _, h => nomatch h
  | .value _, h => nomatch h

end

/-! ## Filters whose constraints stand for them -/

mutual

/-- An `AND` is under an odd number of `NOT`s, with the context that the filter is in. -/
def OrExpression.negatesAnd (notContext : Bool) : OrExpression → Bool
  | .last expr => expr.negatesAnd notContext
  | .or expr rest => expr.negatesAnd notContext || rest.negatesAnd notContext

/-- An `AND` in a negated context, or inside of a part. -/
def AndExpression.negatesAnd (notContext : Bool) : AndExpression → Bool
  | .last expr => expr.negatesAnd notContext
  | .and expr rest => notContext || expr.negatesAnd notContext || rest.negatesAnd notContext

/-- A `NOT` turns the context over. -/
def UnaryExpression.negatesAnd (notContext : Bool) : UnaryExpression → Bool
  | .plain primary => primary.negatesAnd notContext
  | .not primary => primary.negatesAnd !notContext

def Primary.negatesAnd (notContext : Bool) : Primary → Bool
  | .group expr => expr.negatesAnd notContext
  | _ => false

end

mutual

variable {σ : Assignment}

/-- A solution of the filter, in its context, satisfies each comparison in its own. -/
theorem holds_visited_or (notContext : Bool) : ∀ expr : OrExpression,
    expr.isNumeric → expr.negatesAnd notContext = false → InContext notContext (expr.Holds σ) →
      ∀ p ∈ expr.visited notContext, InContext p.1 (p.2.operation.Holds (σ p.2.key))
  | .last expr, h, hand, hholds => holds_visited_and notContext expr h hand hholds
  | .or _ _, h, _, _ => nomatch h

theorem holds_visited_and (notContext : Bool) : ∀ expr : AndExpression,
    expr.isNumeric → expr.negatesAnd notContext = false → InContext notContext (expr.Holds σ) →
      ∀ p ∈ expr.visited notContext, InContext p.1 (p.2.operation.Holds (σ p.2.key))
  | .last expr, h, hand, hholds => holds_visited_unary notContext expr h hand hholds
  | .and expr rest, h, hand, hholds => by
    rw [AndExpression.isNumeric, Bool.and_eq_true] at h
    rw [AndExpression.negatesAnd, Bool.or_eq_false_iff, Bool.or_eq_false_iff] at hand
    obtain ⟨⟨rfl, hexpr⟩, hrest⟩ := hand
    obtain ⟨hholds, hholds'⟩ : expr.Holds σ ∧ rest.Holds σ := by
      simpa [InContext, AndExpression.Holds] using hholds
    intro p hp
    rcases List.mem_append.1 hp with hp | hp
    · exact holds_visited_unary false expr h.1 hexpr hholds p hp
    · exact holds_visited_and false rest h.2 hrest hholds' p hp

theorem holds_visited_unary (notContext : Bool) : ∀ expr : UnaryExpression,
    expr.isNumeric → expr.negatesAnd notContext = false → InContext notContext (expr.Holds σ) →
      ∀ p ∈ expr.visited notContext, InContext p.1 (p.2.operation.Holds (σ p.2.key))
  | .plain primary, h, hand, hholds => holds_visited_primary notContext primary h hand hholds
  | .not primary, h, hand, hholds => by
    apply holds_visited_primary (!notContext) primary h hand
    cases notContext <;> simpa [InContext, UnaryExpression.Holds] using hholds

theorem holds_visited_primary (notContext : Bool) : ∀ primary : Primary,
    primary.isNumeric → primary.negatesAnd notContext = false →
      InContext notContext (primary.Holds σ) →
      ∀ p ∈ primary.visited notContext, InContext p.1 (p.2.operation.Holds (σ p.2.key))
  | .group expr, h, hand, hholds => holds_visited_or notContext expr h hand hholds
  | .comparison comparison, _, _, hholds => by
    intro p hp
    rw [List.mem_singleton.1 hp]
    exact hholds
  | .functionCall _, h, _, _ => nomatch h
  | .fullText _, h, _, _ => nomatch h
  | .key _, h, _, _ => nomatch h
  | .value _, h, _, _ => nomatch h

end

/-! ## Numerals that are floats of their own -/

/-- The numerals are in the range of floats, and one float is written in one way. -/
def DistinctFloats (numerals : List String) : Prop :=
  ∀ t ∈ numerals, parseNumericValue t ≠ none ∧
    ∀ t' ∈ numerals, parseNumericValue t = parseNumericValue t' → t = t'

/-- What is parsed is the nearest float. -/
theorem toBinary64_of_parse {t : String} {val : ℚ} (h : parseNumericValue t = some val) :
    toBinary64 (numeralValue t) = some val := by
  rw [parseNumericValue] at h
  split at h
  · exact h
  · cases h

/-- The floats keep the order of the numerals. -/
theorem parse_mono {t t' : String} {val val' : ℚ} (h : parseNumericValue t = some val)
    (h' : parseNumericValue t' = some val') (hle : numeralValue t ≤ numeralValue t') :
    val ≤ val' :=
  toBinary64_mono (toBinary64_of_parse h) (toBinary64_of_parse h') hle

section Distinct

variable {numerals : List String} (hdistinct : DistinctFloats numerals) {t t' : String}
  (ht : t ∈ numerals) (ht' : t' ∈ numerals)

include hdistinct ht

theorem DistinctFloats.exists_parse : ∃ val, parseNumericValue t = some val :=
  Option.ne_none_iff_exists'.1 (hdistinct t ht).1

include ht'

/-- Floats are in the order of their numerals. -/
theorem DistinctFloats.le_iff {val val' : ℚ} (h : parseNumericValue t = some val)
    (h' : parseNumericValue t' = some val') :
    val ≤ val' ↔ numeralValue t ≤ numeralValue t' := by
  refine ⟨fun hle => ?_, parse_mono h h'⟩
  by_contra hlt
  have heq : val = val' := le_antisymm hle (parse_mono h' h (not_le.1 hlt).le)
  have hsame := (hdistinct t ht).2 t' ht' (by rw [h, h', heq])
  exact hlt (hsame ▸ le_rfl)

theorem DistinctFloats.lt_iff {val val' : ℚ} (h : parseNumericValue t = some val)
    (h' : parseNumericValue t' = some val') :
    val < val' ↔ numeralValue t < numeralValue t' := by
  rw [← not_le, ← not_le, hdistinct.le_iff ht' ht h' h]

theorem DistinctFloats.eq_of_numeralValue (h : numeralValue t = numeralValue t') : t = t' := by
  obtain ⟨val, hval⟩ := hdistinct.exists_parse ht
  obtain ⟨val', hval'⟩ := hdistinct.exists_parse ht'
  apply (hdistinct t ht).2 t' ht'
  rw [hval, hval', le_antisymm (parse_mono hval hval' h.le) (parse_mono hval' hval h.ge)]

end Distinct

/-! ## Constraints with a solution -/

/-- Constraints that the number satisfies, and their numerals. -/
structure Solved (x : ℚ) (numerals : List String) (constraints : List FieldConstraint) : Prop where
  numeric : ∀ c ∈ constraints, c.IsNumeric
  texts : ∀ c ∈ constraints, ∀ t ∈ c.texts, t ∈ numerals
  holds : ∀ c ∈ constraints, c.Holds x

section Solved

variable {x : ℚ} {numerals : List String} {constraints : List FieldConstraint} {c : FieldConstraint}

/-- An equality has the number. -/
theorem Solved.equal (h : Solved x numerals constraints) (hc : c ∈ ofOperator constraints .equal) :
   c.value ∈ numerals ∧ x = numeralValue c.value := by
  obtain ⟨hmem, hop⟩ := mem_ofOperator.1 hc
  have htexts := h.texts c hmem
  have hholds := h.holds c hmem
  rw [FieldConstraint.texts, hop] at htexts
  rw [FieldConstraint.Holds, hop] at hholds
  exact ⟨htexts _ List.mem_cons_self, hholds⟩

theorem Solved.notEqual (h : Solved x numerals constraints)
    (hc : c ∈ ofOperator constraints .notEqual) : x ≠ numeralValue c.value := by
  obtain ⟨hmem, hop⟩ := mem_ofOperator.1 hc
  have hholds := h.holds c hmem
  rwa [FieldConstraint.Holds, hop] at hholds

/-- A range constraint compares the number with its numeral. -/
theorem Solved.satisfiesRange (h : Solved x numerals constraints) (hc : c ∈ constraints) :
   satisfiesRange c.operator x (numeralValue c.value) := by
  have hholds := h.holds c hc
  rw [FieldConstraint.Holds] at hholds
  cases heq : c.operator <;> rw [heq] at hholds <;> first
    | rfl
    | simpa [FilterQuery.satisfiesRange] using hholds

theorem Solved.mem_of_isRangeOperator (h : Solved x numerals constraints) (hc : c ∈ constraints)
    (hop : isRangeOperator c.operator) : c.value ∈ numerals := by
  have htexts := h.texts c hc
  rw [FieldConstraint.texts] at htexts
  cases heq : c.operator <;> rw [heq] at hop htexts <;> first
    | exact htexts _ List.mem_cons_self
    | cases hop

/-- The range of a `BETWEEN`, and of a `NOT BETWEEN`. -/
theorem Solved.between (h : Solved x numerals constraints) {operator : FilterOperator}
    (hop : operator = .between ∨ operator = .notBetween) (hc : c ∈ ofOperator constraints operator) :
    ∃ low ∈ numerals, ∃ high ∈ numerals, c.values = [low, high] ∧
      (operator = .between ↔ numeralValue low ≤ x ∧ x ≤ numeralValue high) := by
  obtain ⟨hmem, rfl⟩ := mem_ofOperator.1 hc
  obtain ⟨low, high, hvalues⟩ := (h.numeric c hmem).values hop
  have htexts := h.texts c hmem
  have hholds := h.holds c hmem
  rw [FieldConstraint.Holds, hvalues] at hholds
  rw [FieldConstraint.texts, hvalues] at htexts
  rcases hop with hop | hop <;> rw [hop] at htexts hholds
  · exact ⟨low, htexts _ (by simp), high, htexts _ (by simp), hvalues, by simpa [hop] using hholds⟩
  · exact ⟨low, htexts _ (by simp), high, htexts _ (by simp), hvalues, by simpa [hop] using hholds⟩

/-- The floats of the numerals satisfy what the numerals do. -/
theorem DistinctFloats.satisfiesRange_iff (h : DistinctFloats numerals) {t t' : String}
    (ht : t ∈ numerals) (ht' : t' ∈ numerals) {val val' : ℚ}
    (hval : parseNumericValue t = some val) (hval' : parseNumericValue t' = some val')
    (operator : FilterOperator) :
    satisfiesRange operator val val' ↔
      satisfiesRange operator (numeralValue t) (numeralValue t') := by
  cases operator <;>
    simp [satisfiesRange, h.le_iff ht ht' hval hval', h.le_iff ht' ht hval' hval,
      h.lt_iff ht ht' hval hval', h.lt_iff ht' ht hval' hval]

/-- A lower bound is not above an upper one, and below it if one of them is exclusive. -/
theorem Solved.bounds (h : Solved x numerals constraints) (hdistinct : DistinctFloats numerals)
    {lower upper : Bound}
    (hlower : lower ∈ boundsOf .greaterThan .greaterThanOrEq constraints)
    (hupper : upper ∈ boundsOf .lessThan .lessThanOrEq constraints) :
    lower.value ≤ upper.value ∧
      (lower.inclusive = false ∨ upper.inclusive = false → lower.value < upper.value) := by
  obtain ⟨c, hc, hval, hop⟩ := mem_boundsOf.1 hlower
  obtain ⟨c', hc', hval', hop'⟩ := mem_boundsOf.1 hupper
  have hrange : isRangeOperator c.operator := by
    rcases hop with ⟨hop, _⟩ | ⟨_, hop, _⟩ <;> rw [hop] <;> rfl
  have hrange' : isRangeOperator c'.operator := by
    rcases hop' with ⟨hop, _⟩ | ⟨_, hop, _⟩ <;> rw [hop] <;> rfl
  have ht := h.mem_of_isRangeOperator hc hrange
  have ht' := h.mem_of_isRangeOperator hc' hrange'
  have hx := h.satisfiesRange hc
  have hx' := h.satisfiesRange hc'
  rw [hdistinct.le_iff ht ht' hval hval', hdistinct.lt_iff ht ht' hval hval']
  rcases hop with ⟨hop, hinc⟩ | ⟨_, hop, hinc⟩ <;>
    rcases hop' with ⟨hop', hinc'⟩ | ⟨_, hop', hinc'⟩ <;>
    rw [hop] at hx <;> rw [hop'] at hx' <;>
    simp only [FilterQuery.satisfiesRange, Bool.not_eq_true', decide_eq_false_iff_not, not_le,
      not_lt] at hx hx'
  · exact ⟨(hx.trans hx').le, fun _ => hx.trans hx'⟩
  · exact ⟨(hx.trans_le hx').le, fun _ => hx.trans_le hx'⟩
  · exact ⟨(hx.trans_lt hx').le, fun _ => hx.trans_lt hx'⟩
  · exact ⟨hx.trans hx', by simp [hinc, hinc']⟩

/-- Range constraints with a solution have one for the floats too. -/
theorem Solved.exists_meetsRanges (h : Solved x numerals constraints)
    (hdistinct : DistinctFloats numerals) : ∃ y, MeetsRanges y constraints := by
  rw [← checkRangeContradictions_iff, checkRangeContradictions]
  split
  · next lower upper hlower hupper =>
    obtain ⟨hle, hlt⟩ := h.bounds hdistinct (mem_of_effectiveBound hlower)
      (mem_of_effectiveBound hupper)
    simp only [Bool.or_eq_false_iff, decide_eq_false_iff_not, not_lt, Bool.and_eq_false_iff,
      Bool.not_eq_false']
    refine ⟨hle, ?_⟩
    by_contra hnot
    simp only [not_or, not_and, Bool.not_eq_true] at hnot
    grind
  · rfl

theorem rangeOf_eq_some_iff {low high : String} (hvalues : c.values = [low, high]) {min max : ℚ} :
    rangeOf c = some (min, max) ↔
      parseNumericValue low = some min ∧ parseNumericValue high = some max := by
  simp only [rangeOf, hvalues]
  cases parseNumericValue low <;> cases parseNumericValue high <;> simp

/-- The ranges of the floats have the nearest float to a number in the ranges. -/
theorem Solved.inRange_nearest (h : Solved x numerals constraints) {between : FieldConstraint}
    (hbetween : between ∈ ofOperator constraints .between) : InRange (nearest x) between := by
  obtain ⟨low, _, high, _, hvalues, hiff⟩ := h.between (Or.inl rfl) hbetween
  obtain ⟨hle, hle'⟩ := hiff.1 rfl
  intro min max hrange
  obtain ⟨hmin, hmax⟩ := (rangeOf_eq_some_iff hvalues).1 hrange
  rw [eq_nearest_of_toBinary64 (toBinary64_of_parse hmin),
    eq_nearest_of_toBinary64 (toBinary64_of_parse hmax)]
  exact ⟨nearest_mono hle, nearest_mono hle'⟩

/-- An equality is in the range of a `BETWEEN`, and not in that of a `NOT BETWEEN`. -/
theorem Solved.valueSatisfiesBetween_iff (h : Solved x numerals constraints)
    (hdistinct : DistinctFloats numerals) {operator : FilterOperator}
    (hop : operator = .between ∨ operator = .notBetween) {eq between : FieldConstraint}
    (heq : eq ∈ ofOperator constraints .equal)
    (hbetween : between ∈ ofOperator constraints operator) :
    valueSatisfiesBetween eq.value between ↔ operator = .between := by
  obtain ⟨low, hlow, high, hhigh, hvalues, hiff⟩ := h.between hop hbetween
  obtain ⟨ht, hx⟩ := h.equal heq
  obtain ⟨val, hval⟩ := hdistinct.exists_parse ht
  obtain ⟨min, hmin⟩ := hdistinct.exists_parse hlow
  obtain ⟨max, hmax⟩ := hdistinct.exists_parse hhigh
  rw [hiff, hx, ← hdistinct.le_iff hlow ht hmin hval, ← hdistinct.le_iff ht hhigh hval hmax]
  simp [valueSatisfiesBetween, numberSatisfiesBetween, hvalues, hval,
    (rangeOf_eq_some_iff hvalues).2 ⟨hmin, hmax⟩]

/-- Constraints with a solution are compatible, but for the test values. -/
theorem Solved.compatible (h : Solved x numerals constraints)
    (hdistinct : DistinctFloats numerals) (htest : LeavesTestValues constraints) :
    Compatible constraints where
  equals := by
    intro eq heq eq' heq'
    obtain ⟨ht, hx⟩ := h.equal heq
    obtain ⟨ht', hx'⟩ := h.equal heq'
    exact hdistinct.eq_of_numeralValue ht ht' (hx.symm.trans hx')
  notEquals := by
    intro eq heq neq hneq hsame
    exact h.notEqual hneq (hsame ▸ (h.equal heq).2)
  ranges := h.exists_meetsRanges hdistinct
  equalRanges := by
    intro eq heq val hval c hc val' hval'
    obtain ⟨ht, hx⟩ := h.equal heq
    by_cases hop : isRangeOperator c.operator
    · rw [hdistinct.satisfiesRange_iff ht (h.mem_of_isRangeOperator hc hop) hval hval', ← hx]
      exact h.satisfiesRange hc
    · cases hcop : c.operator <;> rw [hcop] at hop <;> first
        | rfl
        | exact absurd rfl hop
  betweens := fun _ => ⟨nearest x, fun _ hbetween => h.inRange_nearest hbetween⟩
  equalBetweens := by
    intro hne eq heq
    obtain ⟨between, hbetween⟩ := List.exists_mem_of_ne_nil _ hne
    exact ⟨between, hbetween,
      (h.valueSatisfiesBetween_iff hdistinct (Or.inl rfl) heq hbetween).2 rfl⟩
  equalNotBetweens := by
    intro eq heq between hbetween hinside
    cases (h.valueSatisfiesBetween_iff hdistinct (Or.inr rfl) heq hbetween).1 hinside
  testValues := htest

end Solved

/-! ## Reports -/

theorem mapM_flatten {α β : Type} {f : α → Option (List β)} {l : List α}
    (h : ∀ a ∈ l, ∃ bs, f a = some bs) :
    ∃ lists, l.mapM f = some lists ∧ (lists.flatten = [] ↔ ∀ a ∈ l, f a = some []) := by
  induction l with
  | nil => exact ⟨[], rfl, by simp⟩
  | cons a l ih =>
    obtain ⟨bs, hbs⟩ := h a List.mem_cons_self
    obtain ⟨lists, hlists, hiff⟩ := ih fun a' ha' => h a' (List.mem_cons_of_mem a ha')
    refine ⟨bs :: lists, by simp [List.mapM_cons, hbs, hlists], ?_⟩
    rw [List.flatten_cons, List.append_eq_nil_iff, hiff, List.forall_mem_cons, hbs,
      Option.some.injEq]

/-- The constraints of each field are compatible. -/
def AllCompatible (constraints : List FieldConstraint) : Prop :=
  ∀ field, Compatible (constraintsOf constraints field)

theorem numeric_constraintsOf {constraints : List FieldConstraint}
    (h : ∀ c ∈ constraints, c.IsNumeric) (field : String) :
    ∀ c ∈ constraintsOf constraints field, c.IsNumeric :=
  fun c hc => h c (List.mem_of_mem_filter hc)

/-- A check of constraints of numbers finds nothing just when they are compatible. -/
theorem checkContradictions_iff {constraints : List FieldConstraint}
    (h : ∀ c ∈ constraints, c.IsNumeric) :
    ∃ contradictions, checkContradictions constraints = some contradictions ∧
      (contradictions = [] ↔ AllCompatible constraints) := by
  -- The fields of the constraints are looked at, if there are two of them.
  have hfield : ∀ field, ∃ found,
      (if (constraintsOf constraints field).length < 2 then some []
        else findContradictionsInConstraints field (constraintsOf constraints field)) =
        some found ∧ (found = [] ↔ Compatible (constraintsOf constraints field)) := by
    intro field
    split
    · next hshort => exact ⟨[], rfl, iff_of_true rfl (compatible_of_short hshort)⟩
    · have hnumeric := numeric_constraintsOf h field
      have hfound := findContradictionsInConstraints_eq field hnumeric
      exact ⟨_, hfound, findContradictionsInConstraints_iff field hnumeric hfound⟩
  obtain ⟨lists, hlists, hiff⟩ := @mapM_flatten String String _
    ((constraints.map FieldConstraint.field).dedup)
    fun field _ => (hfield field).imp fun _ => And.left
  refine ⟨lists.flatten, by rw [checkContradictions, hlists]; rfl, ?_⟩
  rw [hiff]
  constructor
  · intro hnone field
    by_cases hmem : field ∈ constraints.map FieldConstraint.field
    · obtain ⟨found, hfound, hcompatible⟩ := hfield field
      apply hcompatible.1
      rw [hnone field (List.mem_dedup.2 hmem), Option.some.injEq] at hfound
      exact hfound.symm
    · have hnil : constraintsOf constraints field = [] := by
        rw [constraintsOf, List.filter_eq_nil_iff]
        intro c hc heq
        exact hmem (List.mem_map.2 ⟨c, hc, of_decide_eq_true heq⟩)
      exact compatible_of_short (by rw [hnil]; exact Nat.zero_lt_two)
  · intro hcompatible field _
    obtain ⟨found, hfound, hiff⟩ := hfield field
    rw [hfound, hiff.2 (hcompatible field)]

/-- A comparison adds its own constraint, and at most an `EXISTS`. -/
theorem mem_addedConstraints {p : Bool × Comparison} {c : FieldConstraint}
    (h : c ∈ addedConstraints p) :
    c.operator = .exists ∧ c.values = [] ∨ c = constraintOf p.1 p.2 := by
  simp only [addedConstraints] at h
  rcases List.mem_append.1 h with h | h
  · split at h
    · rw [List.mem_singleton.1 h]
      exact Or.inl ⟨rfl, rfl⟩
    · cases h
  · exact Or.inr (List.mem_singleton.1 h)

theorem numeric_addedConstraints (h : ∀ p ∈ part, p.2.operation.isNumeric) :
    ∀ c ∈ part.flatMap addedConstraints, c.IsNumeric := by
  intro c hc
  obtain ⟨p, hp, hadded⟩ := List.mem_flatMap.1 hc
  rcases mem_addedConstraints hadded with ⟨hexists, _⟩ | rfl
  · refine ⟨by rw [hexists]; decide, fun hop => ?_⟩
    rw [hexists] at hop
    rcases hop with hop | hop <;> cases hop
  · exact (constraintOf_represents p (h p hp)).isNumeric

/-- The constraints of a field that are not for existence alone are those of the comparisons. -/
theorem ofOperator_addedConstraints {operator : FilterOperator} (hop : operator ≠ .exists)
    (part : List (Bool × Comparison)) (field : String) :
    ofOperator (constraintsOf (part.flatMap addedConstraints) field) operator =
      ofOperator (readingOf part field) operator := by
  simp only [readingOf, ofOperator, constraintsOf]
  induction part with
  | nil => rfl
  | cons p part ih =>
    have hadded : ((addedConstraints p).filter fun c => c.field = field).filter
          (fun c => c.operator = operator) =
        ([constraintOf p.1 p.2].filter fun c => c.field = field).filter
          fun c => c.operator = operator := by
      simp only [addedConstraints]
      split <;> simp [List.filter_filter, hop.symm]
    rw [List.flatMap_cons, List.filter_append, List.filter_append, hadded, ih,
      ← List.filter_append, ← List.filter_append]
    rfl

/-- A check of a part of the flat reading finds nothing just when the comparisons are compatible. -/
theorem checkContradictions_part (h : ∀ p ∈ part, p.2.operation.isNumeric) :
    ∃ contradictions, checkContradictions (part.flatMap addedConstraints) = some contradictions ∧
      (contradictions = [] ↔ ∀ field, Compatible (readingOf part field)) := by
  obtain ⟨contradictions, hcheck, hiff⟩ := checkContradictions_iff (numeric_addedConstraints h)
  refine ⟨contradictions, hcheck, hiff.trans (forall_congr' fun field => ?_)⟩
  exact compatible_congr fun operator hop => ofOperator_addedConstraints hop part field

/-- Nothing is reported for a numeric filter just when the comparisons of its flat reading are
compatible each time that they are checked. -/
theorem detectContradictions_eq_nil_iff (h : tree.isNumeric) :
    ∃ contradictions, detectContradictions tree = some contradictions ∧
      (contradictions = [] ↔
        ∀ part, tree.ChecksPart part → ∀ field, Compatible (readingOf part field)) := by
  have hset : ∀ set ∈ checkedSets tree, ∃ contradictions,
      checkContradictions set = some contradictions := by
    intro set hset
    obtain ⟨part, hpart, rfl⟩ := (mem_checkedSets h).1 hset
    obtain ⟨contradictions, hcheck, _⟩ := checkContradictions_part fun p hp =>
      isNumeric_visited_or false tree h p (hpart.1.subset hp)
    exact ⟨contradictions, hcheck⟩
  obtain ⟨lists, hlists, hiff⟩ := mapM_flatten hset
  refine ⟨lists.flatten.eraseDups, by rw [detectContradictions, hlists]; rfl, ?_⟩
  have hdups : lists.flatten.eraseDups = [] ↔ lists.flatten = [] := by
    cases lists.flatten <;> simp [List.eraseDups_cons]
  rw [hdups, hiff]
  have hpart : ∀ part, tree.ChecksPart part →
      (checkContradictions (part.flatMap addedConstraints) = some [] ↔
        ∀ field, Compatible (readingOf part field)) := by
    intro part hpart
    obtain ⟨contradictions, hcheck, hiff⟩ := checkContradictions_part fun p hp =>
      isNumeric_visited_or false tree h p (hpart.1.subset hp)
    rw [hcheck, Option.some.injEq, hiff]
  constructor
  · intro hnone part hchecked
    exact (hpart part hchecked).1 (hnone _ ((mem_checkedSets h).2 ⟨part, hchecked, rfl⟩))
  · intro hcompatible set hset
    obtain ⟨part, hchecked, rfl⟩ := (mem_checkedSets h).1 hset
    exact (hpart part hchecked).2 (hcompatible part hchecked)

/-! ## False alarms -/

/-- The numerals that a filter compares a field with. -/
def numeralsOf (tree : OrExpression) (field : String) : List String :=
  ((tree.visited false).filter fun p => p.2.key = field).flatMap fun p => p.2.operation.numerals

/-- Parts of the constraints have test values left if all have. -/
theorem LeavesTestValues.sublist {constraints constraints' : List FieldConstraint}
    (h : LeavesTestValues constraints) (hsub : constraints' ⊆ constraints) :
    LeavesTestValues constraints' := by
  have hop : ∀ {operator}, ∀ c ∈ ofOperator constraints' operator,
      c ∈ ofOperator constraints operator := by
    intro operator c hc
    rw [mem_ofOperator] at hc ⊢
    exact ⟨hsub hc.1, hc.2⟩
  intro between hbetween low high hrange
  obtain ⟨val, hval, hnot⟩ := h between (hop between hbetween) low high hrange
  exact ⟨val, hval, fun nb hnb => hnot nb (hop nb hnb)⟩

/-- The numbers satisfy all comparisons of the flat reading. -/
def OrExpression.HoldsFlatly (σ : Assignment) (tree : OrExpression) : Prop :=
  ∀ p ∈ tree.visited false, InContext p.1 (p.2.operation.Holds (σ p.2.key))

/-- A solution of the flat reading satisfies the comparisons of each of its parts. -/
theorem solved_readingOf (h : tree.isNumeric) {σ : Assignment} (hholds : tree.HoldsFlatly σ)
    (hpart : part ⊆ tree.visited false) (field : String) :
    Solved (σ field) (numeralsOf tree field) (readingOf part field) := by
  have hrepresents : ∀ p ∈ part, Represents p (constraintOf p.1 p.2) := fun p hp =>
    constraintOf_represents p (isNumeric_visited_or false tree h p (hpart hp))
  constructor
  · intro c hc
    obtain ⟨p, hp, rfl, -⟩ := mem_readingOf.1 hc
    exact (hrepresents p hp).isNumeric
  · intro c hc t ht
    obtain ⟨p, hp, rfl, hfield⟩ := mem_readingOf.1 hc
    rw [(hrepresents p hp).field] at hfield
    rw [(hrepresents p hp).texts] at ht
    exact List.mem_flatMap.2 ⟨p, List.mem_filter.2 ⟨hpart hp, decide_eq_true hfield⟩, ht⟩
  · intro c hc
    obtain ⟨p, hp, rfl, rfl⟩ := mem_readingOf.1 hc
    rw [(hrepresents p hp).field]
    exact (hrepresents p hp).holds _ (hholds p (hpart hp))

/-- No alarm is false just when a filter with a solution has compatible parts. -/
theorem noFalseAlarm_iff_compatible (h : tree.isNumeric) :
    NoFalseAlarm tree ↔ (Satisfiable tree →
      ∀ part, tree.ChecksPart part → ∀ field, Compatible (readingOf part field)) := by
  obtain ⟨contradictions, hdetect, hiff⟩ := detectContradictions_eq_nil_iff h
  rw [← hiff]
  constructor
  · rintro halarm ⟨σ, hσ⟩
    by_contra hne
    exact halarm contradictions hdetect hne σ hσ
  · intro hnone found hfound hne σ hσ
    rw [hdetect, Option.some.injEq] at hfound
    exact hne (hfound.symm.trans (hnone ⟨σ, hσ⟩))

/-- Compatible is, where the flat reading has a solution and floats are distinct, that test values
of each `BETWEEN` are left. -/
theorem compatible_iff_leavesTestValues (h : tree.isNumeric)
    (hdistinct : ∀ field, DistinctFloats (numeralsOf tree field)) {σ : Assignment}
    (hholds : tree.HoldsFlatly σ) :
    (∀ part, tree.ChecksPart part → ∀ field, Compatible (readingOf part field)) ↔
      ∀ field, LeavesTestValues (readingOf (tree.visited false) field) := by
  constructor
  · intro hcompatible field
    exact (hcompatible _ ⟨List.prefix_rfl, Or.inl rfl⟩ field).testValues
  · intro htest part hpart field
    have hsub : readingOf part field ⊆ readingOf (tree.visited false) field := by
      intro c hc
      obtain ⟨p, hp, hcomparison⟩ := mem_readingOf.1 hc
      exact mem_readingOf.2 ⟨p, hpart.1.subset hp, hcomparison⟩
    exact (solved_readingOf h hholds hpart.1.subset field).compatible (hdistinct field)
      ((htest field).sublist hsub)

/-- Where the flat reading has a solution, which it has from every solution of the filter if no
`AND` is under an odd number of `NOT`s, and different numerals are different floats, a filter with
solutions raises no false alarm just when of each `BETWEEN` one end or the middle is in no `NOT
BETWEEN`. In general the comparisons of its flat reading have to be compatible each time that they
are checked. -/
theorem noFalseAlarm_iff (tree : OrExpression) (h : tree.isNumeric) :
    ((∀ field, DistinctFloats (numeralsOf tree field)) →
        (tree.negatesAnd false = false ∨ ∃ σ, tree.HoldsFlatly σ) →
        (NoFalseAlarm tree ↔ (Satisfiable tree →
          ∀ field, LeavesTestValues (readingOf (tree.visited false) field)))) ∧
      (NoFalseAlarm tree ↔ (Satisfiable tree →
        ∀ part, tree.ChecksPart part → ∀ field, Compatible (readingOf part field))) := by
  refine ⟨fun hdistinct hflat => ?_, noFalseAlarm_iff_compatible h⟩
  rw [noFalseAlarm_iff_compatible h]
  refine forall_congr' fun ⟨σ, hσ⟩ => ?_
  rcases hflat with hand | ⟨σ', hσ'⟩
  · exact compatible_iff_leavesTestValues h hdistinct (holds_visited_or false tree h hand hσ)
  · exact compatible_iff_leavesTestValues h hdistinct hσ'

/-- `a < 5 AND a > 3` -/
def openRange : AndExpression :=
  .and (.plain (.comparison ⟨"a", .lt (.number "5")⟩))
    (.last (.plain (.comparison ⟨"a", .gt (.number "3")⟩)))

theorem openRange_noFalseAlarm : NoFalseAlarm (.last openRange) := by
  have hnumerals : ∀ field, DistinctFloats (numeralsOf (.last openRange) field) := by
    intro field
    by_cases hfield : "a" = field
    · subst hfield
      have hdistinct : ∀ t ∈ ["5", "3"], parseNumericValue t ≠ none ∧
          ∀ t' ∈ ["5", "3"], parseNumericValue t = parseNumericValue t' → t = t' := by
        decide +kernel
      exact hdistinct
    · have hnil : numeralsOf (.last openRange) field = [] := by
        simp [numeralsOf, openRange, OrExpression.visited, AndExpression.visited,
          UnaryExpression.visited, Primary.visited, hfield]
      rw [hnil]
      exact nofun
  refine ((noFalseAlarm_iff (.last openRange) (by decide)).1 hnumerals (Or.inl rfl)).2 ?_
  intro _ field between hbetween
  obtain ⟨hmem, hop⟩ := mem_ofOperator.1 hbetween
  obtain ⟨p, hp, rfl, -⟩ := mem_readingOf.1 hmem
  have hnone : ∀ p ∈ (OrExpression.last openRange).visited false,
      (constraintOf p.1 p.2).operator ≠ .between := by decide
  exact absurd hop (hnone p hp)

/-- `NOT (a < 5 AND a > 3)` holds of ten, and is reported. -/
theorem negatedRange_falseAlarm :
    ¬NoFalseAlarm (.last (.last (.not (.group (.last openRange))))) := by
  intro h
  have hdetect : detectContradictions (.last (.last (.not (.group (.last openRange))))) =
      some ["Field 'a' has contradictory range constraints"] := by
    decide +kernel
  have hfive : Value.numeral (.number "5") = 5 := by decide +kernel
  apply h _ hdetect (List.cons_ne_nil _ _) fun _ => 10
  rintro ⟨hlt, _⟩
  change (10 : ℚ) < Value.numeral (.number "5") at hlt
  rw [hfive] at hlt
  exact absurd hlt (by decide)

end Signoz.FilterQuery
