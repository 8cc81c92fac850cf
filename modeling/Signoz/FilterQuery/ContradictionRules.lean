import Signoz.FilterQuery.Contradictions

/-!
# What the rules for contradictions ask for

The rules find nothing in the constraints of a field just when some numbers exist: one that
satisfies the range constraints, one in all the `BETWEEN`s, and so on (`Compatible`). This is less
than one number for all constraints, and more where values are compared as texts and ranges by
their test values.
-/

namespace Signoz.FilterQuery

/-! ## Constraints of numbers -/

/-- The operators that constraints of numbers have. -/
def numericOperators : List FilterOperator :=
  [.equal, .notEqual, .lessThan, .lessThanOrEq, .greaterThan, .greaterThanOrEq, .between,
    .notBetween, .exists]

/-- A constraint of numbers: a `BETWEEN` has two values. -/
structure FieldConstraint.IsNumeric (c : FieldConstraint) : Prop where
  operator : c.operator ∈ numericOperators
  values : c.operator = .between ∨ c.operator = .notBetween → ∃ low high, c.values = [low, high]

/-- The number satisfies the range constraints. -/
def MeetsRanges (x : ℚ) (constraints : List FieldConstraint) : Prop :=
  ∀ c ∈ constraints, ∀ val, parseNumericValue c.value = some val →
    satisfiesRange c.operator x val

/-- The number is in the range of a `BETWEEN`, if that has numbers. -/
def InRange (x : ℚ) (between : FieldConstraint) : Prop :=
  ∀ low high, rangeOf between = some (low, high) → low ≤ x ∧ x ≤ high

/-- A test value of each `BETWEEN` is in none of the `NOT BETWEEN`s. -/
def LeavesTestValues (constraints : List FieldConstraint) : Prop :=
  ∀ between ∈ ofOperator constraints .between, ∀ low high, rangeOf between = some (low, high) →
    ∃ val ∈ testValues low high, ∀ notBetween ∈ ofOperator constraints .notBetween,
      ¬numberSatisfiesBetween val notBetween

/-- What the rules ask of the constraints of a field. -/
structure Compatible (constraints : List FieldConstraint) : Prop where
  equals : ∀ eq ∈ ofOperator constraints .equal, ∀ eq' ∈ ofOperator constraints .equal,
    eq.value = eq'.value
  notEquals : ∀ eq ∈ ofOperator constraints .equal, ∀ neq ∈ ofOperator constraints .notEqual,
    eq.value ≠ neq.value
  ranges : ∃ x, MeetsRanges x constraints
  equalRanges : ∀ eq ∈ ofOperator constraints .equal, ∀ val,
    parseNumericValue eq.value = some val → MeetsRanges val constraints
  betweens : 2 ≤ (ofOperator constraints .between).length →
    ∃ x, ∀ between ∈ ofOperator constraints .between, InRange x between
  equalBetweens : ofOperator constraints .between ≠ [] →
    ∀ eq ∈ ofOperator constraints .equal, ∃ between ∈ ofOperator constraints .between,
      valueSatisfiesBetween eq.value between
  equalNotBetweens : ∀ eq ∈ ofOperator constraints .equal,
    ∀ notBetween ∈ ofOperator constraints .notBetween,
      ¬valueSatisfiesBetween eq.value notBetween
  testValues : LeavesTestValues constraints

theorem mem_ofOperator {constraints : List FieldConstraint} {operator : FilterOperator}
    {c : FieldConstraint} :
    c ∈ ofOperator constraints operator ↔ c ∈ constraints ∧ c.operator = operator := by
  simp [ofOperator]

/-- Only the constraints of the operators other than `EXISTS` matter. -/
theorem Compatible.of_ofOperator {constraints constraints' : List FieldConstraint}
    (hsame : ∀ operator, operator ≠ .exists →
      ofOperator constraints operator = ofOperator constraints' operator)
    (h : Compatible constraints) : Compatible constraints' := by
  have hranges : ∀ x, MeetsRanges x constraints → MeetsRanges x constraints' := by
    intro x hmeets c hc val hval
    by_cases hop : c.operator = .exists
    · rw [hop]
      rfl
    · have hmem : c ∈ ofOperator constraints c.operator := by
        rw [hsame _ hop]
        exact mem_ofOperator.2 ⟨hc, rfl⟩
      exact hmeets c (mem_ofOperator.1 hmem).1 val hval
  obtain ⟨heqs, hneqs, hmeets, heqRanges, hbetweens, heqBetweens, heqNotBetweens, htest⟩ := h
  rw [LeavesTestValues] at htest
  rw [hsame .between (by decide)] at hbetweens heqBetweens htest
  rw [hsame .notBetween (by decide)] at heqNotBetweens htest
  rw [hsame .equal (by decide)] at heqs hneqs heqRanges heqBetweens heqNotBetweens
  rw [hsame .notEqual (by decide)] at hneqs
  refine ⟨heqs, hneqs, hmeets.imp hranges, ?_, hbetweens, heqBetweens, heqNotBetweens, htest⟩
  exact fun eq heq val hval => hranges val (heqRanges eq heq val hval)

theorem compatible_congr {constraints constraints' : List FieldConstraint}
    (hsame : ∀ operator, operator ≠ .exists →
      ofOperator constraints operator = ofOperator constraints' operator) :
    Compatible constraints ↔ Compatible constraints' :=
  ⟨.of_ofOperator hsame, .of_ofOperator fun operator hop => (hsame operator hop).symm⟩

/-! ## Bounds -/

/-- The first bound leaves no more numbers than the second. -/
def AsStrict (stricter : ℚ → ℚ → Bool) (b b' : Bound) : Prop :=
  stricter b.value b'.value ∨ b.value = b'.value ∧ (b.inclusive → b'.inclusive)

section Bounds

variable {stricter : ℚ → ℚ → Bool}

theorem AsStrict.trans (htrans : ∀ x y z, stricter x y → stricter y z → stricter x z)
    {b b' b'' : Bound} (h : AsStrict stricter b b') (h' : AsStrict stricter b' b'') :
    AsStrict stricter b b'' := by
  rcases h with h | ⟨h, hinc⟩
  · rcases h' with h' | ⟨h', _⟩
    · exact Or.inl (htrans _ _ _ h h')
    · exact Or.inl (h' ▸ h)
  · rcases h' with h' | ⟨h', hinc'⟩
    · exact Or.inl (h ▸ h')
    · exact Or.inr ⟨h.trans h', hinc' ∘ hinc⟩

/-- One of two bounds is as strict as the other. -/
theorem asStrict_of_not (htotal : ∀ x y, stricter x y ∨ x = y ∨ stricter y x) {e b : Bound}
    (h : ¬(stricter b.value e.value || (b.value = e.value && !b.inclusive && e.inclusive))) :
    AsStrict stricter e b := by
  simp only [Bool.or_eq_true, Bool.and_eq_true, decide_eq_true_eq, Bool.not_eq_true', not_or,
    not_and, Bool.not_eq_true] at h
  rcases htotal e.value b.value with hlt | heq | hgt
  · exact Or.inl hlt
  · refine Or.inr ⟨heq, fun he => ?_⟩
    by_contra hb
    have hfalse := h.2 ⟨heq.symm, Bool.eq_false_iff.2 hb⟩
    rw [he] at hfalse
    cases hfalse
  · rw [h.1] at hgt
    cases hgt

theorem asStrict_of_replaces {e b : Bound}
    (h : stricter b.value e.value || (b.value = e.value && !b.inclusive && e.inclusive)) :
    AsStrict stricter b e := by
  simp only [Bool.or_eq_true, Bool.and_eq_true, decide_eq_true_eq, Bool.not_eq_true'] at h
  rcases h with h | ⟨⟨h, hb⟩, _⟩
  · exact Or.inl h
  · exact Or.inr ⟨h, fun hinc => by rw [hb] at hinc; cases hinc⟩

/-- The effective bound is one of the bounds. -/
theorem mem_of_effectiveBound {bounds : List Bound} {e : Bound}
    (h : effectiveBound stricter bounds = some e) : e ∈ bounds := by
  induction bounds using List.reverseRecOn generalizing e with
  | nil => cases h
  | append_singleton bounds b ih =>
    rw [effectiveBound, List.foldl_append] at h
    cases heq : bounds.foldl _ none with
    | none =>
      rw [heq] at h
      cases h
      simp
    | some e' =>
      rw [heq] at h
      simp only [List.foldl_cons, List.foldl_nil] at h
      split_ifs at h with hreplaces
      · cases h
        simp
      · cases h
        exact List.mem_append_left _ (ih heq)

/-- The effective bound is as strict as all bounds. -/
theorem effectiveBound_spec (htrans : ∀ x y z, stricter x y → stricter y z → stricter x z)
    (htotal : ∀ x y, stricter x y ∨ x = y ∨ stricter y x) (bounds : List Bound) :
    ∀ b ∈ bounds, ∃ e ∈ effectiveBound stricter bounds, AsStrict stricter e b := by
  induction bounds using List.reverseRecOn with
  | nil => exact nofun
  | append_singleton bounds b ih =>
    have hself : ∀ b : Bound, AsStrict stricter b b := fun b => Or.inr ⟨rfl, id⟩
    rw [effectiveBound] at ih
    rw [effectiveBound, List.foldl_append]
    intro b' hb'
    cases heq : bounds.foldl _ none with
    | none =>
      rw [heq] at ih
      rcases List.mem_append.1 hb' with hb' | hb'
      · obtain ⟨e, he, _⟩ := ih b' hb'
        cases he
      · exact ⟨b, rfl, List.mem_singleton.1 hb' ▸ hself b⟩
    | some e =>
      rw [heq] at ih
      simp only [List.foldl_cons, List.foldl_nil]
      have hstrict : b' ∈ bounds → AsStrict stricter e b' := by
        intro hb'
        obtain ⟨_, ⟨⟩, hstrict⟩ := ih b' hb'
        exact hstrict
      split_ifs with hreplaces
      · refine ⟨b, rfl, ?_⟩
        rcases List.mem_append.1 hb' with hb' | hb'
        · exact (asStrict_of_replaces hreplaces).trans htrans (hstrict hb')
        · exact List.mem_singleton.1 hb' ▸ hself b
      · refine ⟨e, rfl, ?_⟩
        rcases List.mem_append.1 hb' with hb' | hb'
        · exact hstrict hb'
        · exact List.mem_singleton.1 hb' ▸ asStrict_of_not htotal hreplaces

/-- What holds of the effective bound holds of all, if it holds of all that are less strict. -/
theorem forall_effectiveBound_iff
    (htrans : ∀ x y z, stricter x y → stricter y z → stricter x z)
    (htotal : ∀ x y, stricter x y ∨ x = y ∨ stricter y x) {P : Bound → Prop}
    (hP : ∀ e b, AsStrict stricter e b → P e → P b) (bounds : List Bound) :
    (∀ b ∈ bounds, P b) ↔ ∀ e ∈ effectiveBound stricter bounds, P e := by
  refine ⟨fun h e he => h e (mem_of_effectiveBound he), fun h b hb => ?_⟩
  obtain ⟨e, he, hstrict⟩ := effectiveBound_spec htrans htotal bounds b hb
  exact hP e b hstrict (h e he)

end Bounds

/-- The number keeps a lower bound. -/
def Bound.Above (x : ℚ) (b : Bound) : Prop := if b.inclusive then b.value ≤ x else b.value < x

/-- The number keeps an upper bound. -/
def Bound.Below (x : ℚ) (b : Bound) : Prop := if b.inclusive then x ≤ b.value else x < b.value

/-- The effective lower bound stands for all of them. -/
theorem above_effectiveLower_iff (constraints : List FieldConstraint) (x : ℚ) :
    (∀ b ∈ boundsOf .greaterThan .greaterThanOrEq constraints, b.Above x) ↔
      ∀ e ∈ effectiveLower constraints, e.Above x := by
  apply forall_effectiveBound_iff
  · simpa using fun x y z h h' => h'.trans h
  · simpa using fun x y => (lt_trichotomy y x).imp id (Or.imp_left Eq.symm)
  · intro e b hstrict he
    simp only [AsStrict, decide_eq_true_eq] at hstrict
    simp only [Bound.Above] at he ⊢
    split_ifs at he ⊢ with hb <;> grind

/-- The effective upper bound stands for all of them. -/
theorem below_effectiveUpper_iff (constraints : List FieldConstraint) (x : ℚ) :
    (∀ b ∈ boundsOf .lessThan .lessThanOrEq constraints, b.Below x) ↔
      ∀ e ∈ effectiveUpper constraints, e.Below x := by
  apply forall_effectiveBound_iff
  · simpa using fun x y z h h' => h.trans h'
  · simpa using lt_trichotomy
  · intro e b hstrict he
    simp only [AsStrict, decide_eq_true_eq] at hstrict
    simp only [Bound.Below] at he ⊢
    split_ifs at he ⊢ with hb <;> grind

theorem mem_boundsOf {exclusive inclusive : FilterOperator} {constraints : List FieldConstraint}
    {b : Bound} : b ∈ boundsOf exclusive inclusive constraints ↔
      ∃ c ∈ constraints, parseNumericValue c.value = some b.value ∧
        (c.operator = exclusive ∧ b.inclusive = false ∨
          c.operator ≠ exclusive ∧ c.operator = inclusive ∧ b.inclusive = true) := by
  obtain ⟨value, inc⟩ := b
  rw [boundsOf, List.mem_filterMap]
  refine exists_congr fun c => and_congr_right fun _ => ?_
  cases parseNumericValue c.value with
  | none => simp
  | some val =>
    by_cases hexclusive : c.operator = exclusive
    · simp [hexclusive, eq_comm]
    · by_cases hinclusive : c.operator = inclusive
      · subst hinclusive
        simp only [if_neg hexclusive, if_true]
        simp [hexclusive, eq_comm]
      · simp [hexclusive, hinclusive]

theorem meetsRanges_iff (constraints : List FieldConstraint) (x : ℚ) :
    MeetsRanges x constraints ↔
      (∀ e ∈ effectiveLower constraints, e.Above x) ∧
        ∀ e ∈ effectiveUpper constraints, e.Below x := by
  rw [← above_effectiveLower_iff, ← below_effectiveUpper_iff]
  constructor
  · intro h
    constructor
    · intro b hb
      obtain ⟨c, hc, hval, hop⟩ := mem_boundsOf.1 hb
      have hc := h c hc _ hval
      rcases hop with ⟨hop, hinc⟩ | ⟨_, hop, hinc⟩ <;>
        simpa [satisfiesRange, hop, Bound.Above, hinc] using hc
    · intro b hb
      obtain ⟨c, hc, hval, hop⟩ := mem_boundsOf.1 hb
      have hc := h c hc _ hval
      rcases hop with ⟨hop, hinc⟩ | ⟨_, hop, hinc⟩ <;>
        simpa [satisfiesRange, hop, Bound.Below, hinc] using hc
  · rintro ⟨habove, hbelow⟩ c hc val hval
    cases hop : c.operator
    case greaterThan =>
      have hb := habove ⟨val, false⟩ (mem_boundsOf.2 ⟨c, hc, hval, Or.inl ⟨hop, rfl⟩⟩)
      simpa [satisfiesRange, Bound.Above] using hb
    case greaterThanOrEq =>
      have hb := habove ⟨val, true⟩ (mem_boundsOf.2 ⟨c, hc, hval, Or.inr ⟨by simp [hop], hop, rfl⟩⟩)
      simpa [satisfiesRange, Bound.Above] using hb
    case lessThan =>
      have hb := hbelow ⟨val, false⟩ (mem_boundsOf.2 ⟨c, hc, hval, Or.inl ⟨hop, rfl⟩⟩)
      simpa [satisfiesRange, Bound.Below] using hb
    case lessThanOrEq =>
      have hb := hbelow ⟨val, true⟩ (mem_boundsOf.2 ⟨c, hc, hval, Or.inr ⟨by simp [hop], hop, rfl⟩⟩)
      simpa [satisfiesRange, Bound.Below] using hb
    all_goals rfl

/-- Range constraints are found contradictory when no number satisfies them. -/
theorem checkRangeContradictions_iff (constraints : List FieldConstraint) :
    checkRangeContradictions constraints = false ↔ ∃ x, MeetsRanges x constraints := by
  simp only [meetsRanges_iff, checkRangeContradictions]
  cases effectiveLower constraints with
  | none =>
    cases effectiveUpper constraints with
    | none => simp
    | some upper =>
      refine iff_of_true rfl ⟨upper.value - 1, by simp, ?_⟩
      rintro e ⟨⟩
      rw [Bound.Below]
      split <;> linarith
  | some lower =>
    cases effectiveUpper constraints with
    | none =>
      refine iff_of_true rfl ⟨lower.value + 1, ?_, by simp⟩
      rintro e ⟨⟩
      rw [Bound.Above]
      split <;> linarith
    | some upper =>
      simp only [Option.mem_some_iff, forall_eq', Bound.Above, Bound.Below, Bool.or_eq_false_iff,
        decide_eq_false_iff_not, not_lt]
      constructor
      · rintro ⟨hle, hinc⟩
        refine ⟨(lower.value + upper.value) / 2, ?_⟩
        rcases hle.eq_or_lt with heq | hlt
        · simp only [heq, decide_true, Bool.true_and, Bool.or_eq_false_iff,
            Bool.not_eq_false'] at hinc
          rw [if_pos hinc.1, if_pos hinc.2]
          constructor <;> linarith
        · split_ifs <;> constructor <;> linarith
      · rintro ⟨x, hlower, hupper⟩
        split_ifs at hlower hupper with hl hu hu
        · exact ⟨hlower.trans hupper, by simp [hl, hu]⟩
        · exact ⟨(hlower.trans_lt hupper).le, by simp [(hlower.trans_lt hupper).ne]⟩
        · exact ⟨(hlower.trans_le hupper).le, by simp [(hlower.trans_le hupper).ne]⟩
        · exact ⟨(hlower.trans hupper).le, by simp [(hlower.trans hupper).ne]⟩

/-! ## Intersections -/

/-- The number is in the intersection so far. -/
def InIntersection (x : ℚ) (intersection : Option (ℚ × ℚ)) : Prop :=
  ∀ range ∈ intersection, range.1 ≤ x ∧ x ≤ range.2

theorem inIntersection_intersect (x : ℚ) (intersection : Option (ℚ × ℚ))
    (between : FieldConstraint) :
    InIntersection x (intersect intersection between) ↔
      InIntersection x intersection ∧ InRange x between := by
  rw [intersect]
  cases hrange : rangeOf between with
  | none => simp [InRange, hrange]
  | some range =>
    obtain ⟨min, max⟩ := range
    cases intersection with
    | none => simp [InIntersection, InRange, hrange]
    | some current =>
      obtain ⟨low, high⟩ := current
      simp only [InIntersection, InRange, hrange, Option.mem_some_iff, forall_eq',
        Option.some.injEq, Prod.mk.injEq, and_imp, forall_apply_eq_imp_iff]
      split_ifs <;> grind

theorem inIntersection_foldl (x : ℚ) (betweens : List FieldConstraint)
    (intersection : Option (ℚ × ℚ)) :
    InIntersection x (betweens.foldl intersect intersection) ↔
      InIntersection x intersection ∧ ∀ between ∈ betweens, InRange x between := by
  induction betweens generalizing intersection with
  | nil => simp
  | cons between betweens ih =>
    rw [List.foldl_cons, ih, inIntersection_intersect, List.forall_mem_cons, and_assoc]

/-- Ranges have a common intersection when a number is in all of them. -/
theorem hasCommonIntersection_iff (betweens : List FieldConstraint) :
    hasCommonIntersection betweens ↔ ∃ x, ∀ between ∈ betweens, InRange x between := by
  have hfold : ∀ x, InIntersection x (betweens.foldl intersect none) ↔
      ∀ between ∈ betweens, InRange x between := by
    intro x
    rw [inIntersection_foldl]
    exact and_iff_right nofun
  simp only [← hfold]
  rw [hasCommonIntersection]
  cases betweens.foldl intersect none with
  | none => exact iff_of_true rfl ⟨0, nofun⟩
  | some range =>
    simp only [InIntersection, Option.mem_some_iff, forall_eq', decide_eq_true_eq]
    constructor
    · exact fun h => ⟨range.1, le_rfl, h⟩
    · exact fun ⟨x, hlow, hhigh⟩ => hlow.trans hhigh

/-! ## Rules -/

/-- Only range constraints matter. -/
theorem meetsRanges_filter (constraints : List FieldConstraint) (x : ℚ) :
    MeetsRanges x (constraints.filter fun c => isRangeOperator c.operator) ↔
      MeetsRanges x constraints := by
  refine ⟨fun h c hc val hval => ?_, fun h c hc => h c (List.mem_of_mem_filter hc)⟩
  by_cases hrange : isRangeOperator c.operator
  · exact h c (List.mem_filter.2 ⟨hc, hrange⟩) val hval
  · cases hop : c.operator <;> rw [hop] at hrange <;> first | rfl | exact absurd rfl hrange

theorem valuesSatisfyRanges_iff (value : String) (constraints : List FieldConstraint) :
    valuesSatisfyRanges value constraints ↔
      ∀ val, parseNumericValue value = some val → MeetsRanges val constraints := by
  rw [valuesSatisfyRanges]
  cases parseNumericValue value with
  | none => simp
  | some val =>
    simp only [List.all_eq_true, Option.some.injEq, forall_eq', MeetsRanges]
    refine forall₂_congr fun c _ => ?_
    cases parseNumericValue c.value <;> simp

section Rules

variable (field : String) (constraints : List FieldConstraint)

theorem equalsContradictions_eq_nil_iff : equalsContradictions field constraints = [] ↔
    ∀ eq ∈ ofOperator constraints .equal, ∀ eq' ∈ ofOperator constraints .equal,
      eq.value = eq'.value := by
  simp only [equalsContradictions, ite_eq_right_iff, List.cons_ne_nil, imp_false, not_lt]
  rw [← List.card_toFinset, Finset.card_le_one]
  simp

theorem notEqualContradictions_eq_nil_iff : notEqualContradictions field constraints = [] ↔
    ∀ eq ∈ ofOperator constraints .equal, ∀ neq ∈ ofOperator constraints .notEqual,
      eq.value ≠ neq.value := by
  simp [notEqualContradictions, List.flatMap_eq_nil_iff]

theorem rangeContradictions_eq_nil_iff :
    rangeContradictions field constraints = [] ↔ ∃ x, MeetsRanges x constraints := by
  simp only [rangeContradictions, ite_eq_right_iff, List.cons_ne_nil, imp_false,
    Bool.not_eq_true, checkRangeContradictions_iff, meetsRanges_filter]

theorem equalRangeContradictions_eq_nil_iff : equalRangeContradictions field constraints = [] ↔
    ∀ eq ∈ ofOperator constraints .equal, ∀ val, parseNumericValue eq.value = some val →
      MeetsRanges val constraints := by
  simp only [equalRangeContradictions, List.flatMap_eq_nil_iff, ite_eq_left_iff, List.cons_ne_nil,
    imp_false, not_not, valuesSatisfyRanges_iff, meetsRanges_filter]

theorem betweenContradictions_eq_nil_iff : betweenContradictions field constraints = [] ↔
    (2 ≤ (ofOperator constraints .between).length →
      ∃ x, ∀ between ∈ ofOperator constraints .between, InRange x between) := by
  simp [betweenContradictions, hasCommonIntersection_iff]

theorem equalBetweenContradictions_eq_nil_iff :
    equalBetweenContradictions field constraints = [] ↔
      (ofOperator constraints .between ≠ [] →
        ∀ eq ∈ ofOperator constraints .equal, ∃ between ∈ ofOperator constraints .between,
          valueSatisfiesBetween eq.value between) := by
  simp only [equalBetweenContradictions, List.flatMap_eq_nil_iff, ite_eq_right_iff,
    List.cons_ne_nil, imp_false, not_and, not_not, List.any_eq_true]
  exact ⟨fun h hne eq heq => h eq heq hne, fun h eq heq hne => h hne eq heq⟩

theorem equalNotBetweenContradictions_eq_nil_iff :
    equalNotBetweenContradictions field constraints = [] ↔
      ∀ eq ∈ ofOperator constraints .equal, ∀ notBetween ∈ ofOperator constraints .notBetween,
        ¬valueSatisfiesBetween eq.value notBetween := by
  simp [equalNotBetweenContradictions, List.flatMap_eq_nil_iff]

theorem excludedContradictions_eq_nil_iff :
    excludedContradictions field constraints = [] ↔ LeavesTestValues constraints := by
  rw [excludedContradictions, LeavesTestValues]
  split
  · next hnil =>
    refine iff_of_true rfl fun between _ low high _ => ⟨some low, List.mem_cons_self, ?_⟩
    simp [hnil]
  · rw [List.flatMap_eq_nil_iff]
    refine forall₂_congr fun between _ => ?_
    cases rangeOf between with
    | none => simp
    | some range =>
      obtain ⟨min, max⟩ := range
      simp [excludesAll]

/-! ## Constraints of a field -/

variable {constraints} (hnumeric : ∀ c ∈ constraints, c.IsNumeric)

include hnumeric

theorem ofOperator_eq_nil {operator : FilterOperator} (h : operator ∉ numericOperators) :
    ofOperator constraints operator = [] := by
  rw [ofOperator, List.filter_eq_nil_iff]
  intro c hc heq
  exact h (of_decide_eq_true heq ▸ (hnumeric c hc).operator)

/-- On constraints of numbers the rules for lists, existence and patterns find nothing. -/
theorem findContradictionsInConstraints_eq :
    findContradictionsInConstraints field constraints = some
      (equalsContradictions field constraints ++ notEqualContradictions field constraints ++
        rangeContradictions field constraints ++ equalRangeContradictions field constraints ++
        betweenContradictions field constraints ++ equalBetweenContradictions field constraints ++
        equalNotBetweenContradictions field constraints ++
        excludedContradictions field constraints) := by
  have hnone : ∀ {operator}, operator ∉ numericOperators → ofOperator constraints operator = [] :=
    ofOperator_eq_nil hnumeric
  have hlikes : likeContradictions field constraints = some [] := by
    have hfilter :
        (constraints.filter fun c => c.operator = .like || c.operator = .iLike) = [] := by
      rw [List.filter_eq_nil_iff]
      intro c hc hlike
      have hop := (hnumeric c hc).operator
      rcases Bool.or_eq_true_iff.1 hlike with h | h <;> rw [of_decide_eq_true h] at hop <;>
        exact absurd hop (by decide)
    have hpairs : ((ofOperator constraints .equal).flatMap fun eq =>
        (constraints.filter fun c => c.operator = .like || c.operator = .iLike).map
          fun like => (eq, like)) = [] := by
      rw [hfilter]
      exact List.flatMap_eq_nil_iff.2 fun _ _ => rfl
    simp only [likeContradictions, hpairs]
    rfl
  have hin : equalInContradictions field constraints = [] := by
    simp [equalInContradictions, @hnone .in (by decide),
      @hnone .notIn (by decide), List.flatMap_eq_nil_iff]
  simp [findContradictionsInConstraints, hlikes, hin, inContradictions, existsContradictions,
    @hnone .in (by decide),
    @hnone .notExists (by decide)]

/-- The rules find nothing just in compatible constraints. -/
theorem findContradictionsInConstraints_iff {contradictions : List String}
    (h : findContradictionsInConstraints field constraints = some contradictions) :
    contradictions = [] ↔ Compatible constraints := by
  rw [findContradictionsInConstraints_eq field hnumeric, Option.some.injEq] at h
  rw [← h]
  simp only [List.append_eq_nil_iff, equalsContradictions_eq_nil_iff,
    notEqualContradictions_eq_nil_iff, rangeContradictions_eq_nil_iff,
    equalRangeContradictions_eq_nil_iff, betweenContradictions_eq_nil_iff,
    equalBetweenContradictions_eq_nil_iff, equalNotBetweenContradictions_eq_nil_iff,
    excludedContradictions_eq_nil_iff]
  constructor
  · rintro ⟨⟨⟨⟨⟨⟨⟨h1, h2⟩, h3⟩, h4⟩, h5⟩, h6⟩, h7⟩, h8⟩
    exact ⟨h1, h2, h3, h4, h5, h6, h7, h8⟩
  · intro h
    exact ⟨⟨⟨⟨⟨⟨⟨h.equals, h.notEquals⟩, h.ranges⟩, h.equalRanges⟩, h.betweens⟩,
      h.equalBetweens⟩, h.equalNotBetweens⟩, h.testValues⟩

end Rules

/-- One constraint of numbers can be satisfied. -/
theorem exists_satisfiesRange (operator : FilterOperator) (val : ℚ) :
    ∃ x, satisfiesRange operator x val := by
  cases operator
  case greaterThan => exact ⟨val + 1, by simp [satisfiesRange]⟩
  case lessThan => exact ⟨val - 1, by simp [satisfiesRange]⟩
  all_goals exact ⟨val, by simp [satisfiesRange]⟩

/-- One constraint is compatible with itself. -/
theorem compatible_of_short {constraints : List FieldConstraint} (h : constraints.length < 2) :
    Compatible constraints := by
  have hself : ∀ c ∈ constraints, ∀ c' ∈ constraints, c = c' := by
    match constraints, h with
    | [], _ => exact nofun
    | [c], _ => simp
  have hsame : ∀ {operator operator'}, ∀ c ∈ ofOperator constraints operator,
      ∀ c' ∈ ofOperator constraints operator', operator = operator' := by
    intro operator operator' c hc c' hc'
    rw [mem_ofOperator] at hc hc'
    rw [← hc.2, ← hc'.2, hself c hc.1 c' hc'.1]
  refine ⟨fun eq heq eq' heq' => ?_, fun eq heq neq hneq => ?_, ?_, fun eq heq val _ c hc v _ => ?_,
    fun hlength => ?_, fun hne eq heq => ?_, fun eq heq between hbetween => ?_,
    fun between hbetween low high _ => ⟨some low, List.mem_cons_self, fun nb hnb => ?_⟩⟩
  · rw [hself eq (mem_ofOperator.1 heq).1 eq' (mem_ofOperator.1 heq').1]
  · cases hsame eq heq neq hneq
  · match constraints, h with
    | [], _ => exact ⟨0, nofun⟩
    | [c], _ =>
      cases hval : parseNumericValue c.value with
      | none => exact ⟨0, by simp [MeetsRanges, hval]⟩
      | some val =>
        obtain ⟨x, hx⟩ := exists_satisfiesRange c.operator val
        exact ⟨x, by simpa [MeetsRanges, hval] using hx⟩
  · rw [← hself eq (mem_ofOperator.1 heq).1 c hc, (mem_ofOperator.1 heq).2]
    rfl
  · exact absurd ((List.length_filter_le _ _).trans_lt h) (Nat.not_lt.2 hlength)
  · obtain ⟨between, hbetween⟩ := List.exists_mem_of_ne_nil _ hne
    cases hsame eq heq between hbetween
  · cases hsame eq heq between hbetween
  · cases hsame between hbetween nb hnb

end Signoz.FilterQuery
