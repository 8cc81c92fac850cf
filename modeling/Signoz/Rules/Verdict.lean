import Signoz.Rules.Threshold

/-!
# The verdict of a threshold

`shouldAlertWithTarget` over rational values: it fires exactly when the match type says so of the
values and the compare operator (`shouldAlertWithTarget_verdict`), the value that it reports then
satisfies the operator, and the operators above and below are monotone in the target.
-/

namespace Signoz.Rules

open Signoz.Querier

/-! ## What a verdict means -/

/-- What a compare operator says of a value and a target. -/
def CompareOperator.Holds (op : CompareOperator) (value target : ℚ) : Prop :=
  match op.normalize with
  | .valueIsAbove => target < value
  | .valueIsBelow => value < target
  | .valueIsEq => value = target
  | .valueIsNotEq => value ≠ target
  | .valueAboveOrEq => target ≤ value
  | .valueBelowOrEq => value ≤ target
  | .valueOutsideBounds => target ≤ |value|
  | _ => False

def CompareOperator.IsAbove (op : CompareOperator) : Prop :=
  op.normalize = .valueIsAbove ∨ op.normalize = .valueAboveOrEq

def CompareOperator.IsBelow (op : CompareOperator) : Prop :=
  op.normalize = .valueIsBelow ∨ op.normalize = .valueBelowOrEq

/-- What a match type says of some values and a condition. -/
def MatchType.Fires (m : MatchType) (P : ℚ → Prop) (values : List ℚ) : Prop :=
  match m.normalize with
  | .atleastOnce => ∃ v ∈ values, P v
  | .allTheTimes => ∀ v ∈ values, P v
  | .onAverage => P (values.sum / values.length)
  | .inTotal => P values.sum
  | .last => ∃ v ∈ values.getLast?, P v
  | _ => False

/-- A match type fires for a weaker condition as well. -/
theorem MatchType.Fires.mono {m : MatchType} {P Q : ℚ → Prop} {values : List ℚ}
    (hPQ : ∀ v, P v → Q v) (h : m.Fires P values) : m.Fires Q values := by
  rw [MatchType.Fires] at h ⊢
  split at h
  case h_1 =>
      obtain ⟨v, hv, hP⟩ := h
      exact ⟨v, hv, hPQ v hP⟩
  case h_2 => exact fun v hv => hPQ v (h v hv)
  case h_3 => exact hPQ _ h
  case h_4 => exact hPQ _ h
  case h_5 =>
      obtain ⟨v, hv, hP⟩ := h
      exact ⟨v, hv, hPQ v hP⟩
  case h_6 => exact h.elim

variable {op : CompareOperator}

theorem CompareOperator.Holds.of_le (hop : op.IsAbove) {v t t' : ℚ} (ht : t' ≤ t) (h : op.Holds v t) :
   op.Holds v t' := by
  rw [CompareOperator.Holds] at h ⊢
  rcases hop with hop | hop
  · rw [hop] at h ⊢
    exact lt_of_le_of_lt ht h
  · rw [hop] at h ⊢
    exact le_trans ht h

theorem CompareOperator.Holds.of_ge (hop : op.IsBelow) {v t t' : ℚ} (ht : t ≤ t') (h : op.Holds v t) :
   op.Holds v t' := by
  rw [CompareOperator.Holds] at h ⊢
  rcases hop with hop | hop
  · rw [hop] at h ⊢
    exact lt_of_lt_of_le h ht
  · rw [hop] at h ⊢
    exact le_trans h ht

/-! ## The loops -/

theorem matchesCompareOp_iff {value target : ℚ} :
    matchesCompareOp op.normalize value target ↔ op.Holds value target := by
  have hlt : ∀ a b : ℚ, Float64.lt a b ↔ a < b := fun _ _ => decide_eq_true_iff
  have hle : ∀ a b : ℚ, Float64.le a b ↔ a ≤ b := fun _ _ => decide_eq_true_iff
  have habs : Float64.abs value = |value| := by
    change (if value < 0 then -value else value) = |value|
    split
    · next h => exact (abs_of_neg h).symm
    · next h => exact (abs_of_nonneg (not_lt.1 h)).symm
  have heq : float64Eq value target ↔ value = target := by
    rw [float64Eq, Bool.and_eq_true, hle, hle]
    exact le_antisymm_iff.symm
  rw [CompareOperator.Holds]
  generalize op.normalize = op
  cases op
  case valueIsAbove => exact hlt target value
  case valueIsBelow => exact hlt value target
  case valueIsEq => exact heq
  case valueIsNotEq =>
    rw [matchesCompareOp, Bool.not_eq_true']
    exact Bool.eq_false_iff.trans (not_congr heq)
  case valueAboveOrEq => exact hle target value
  case valueBelowOrEq => exact hle value target
  case valueOutsideBounds =>
    rw [matchesCompareOp, habs]
    exact hle target |value|
  all_goals exact ⟨nofun, False.elim⟩

theorem negatesCompareOp_iff {value target : ℚ} :
    negatesCompareOp op.normalize value target ↔ ¬ op.Holds value target := by
  rw [negatesCompareOp, Bool.not_eq_true', ← matchesCompareOp_iff, Bool.not_eq_true]

/-- The loop adds up and counts every value. -/
theorem sumAndCount_eq (values : List (TimeSeriesValue ℚ)) :
    sumAndCount values = ((values.map TimeSeriesValue.value).sum, (values.length : ℚ)) := by
  have hloop : ∀ acc : ℚ × ℚ, values.foldl
      (fun acc smpl =>
        if Float64.isNaN smpl.value || Float64.isInf smpl.value then acc
        else (Float64.add acc.1 smpl.value, Float64.add acc.2 (Float64.ofInt 1))) acc =
      (acc.1 + (values.map TimeSeriesValue.value).sum, acc.2 + values.length) := by
    induction values with
    | nil => intro acc; simp
    | cons smpl values ih =>
      intro acc
      rw [List.foldl_cons, ih]
      have hadd : ∀ a b : ℚ, Float64.add a b = a + b := fun a b => rfl
      have hone : (Float64.ofInt 1 : ℚ) = 1 := rfl
      have hnan : (Float64.isNaN smpl.value || Float64.isInf smpl.value) = false := rfl
      rw [hnan, hadd, hadd, hone]
      simp only [Bool.false_eq_true, if_false, List.map_cons, List.sum_cons, List.length_cons,
        Nat.cast_add, Nat.cast_one]
      refine Prod.ext (add_assoc _ _ _) ?_
      exact (add_right_comm _ _ _).trans (add_assoc _ _ _)
  refine (hloop (Float64.ofInt 0, Float64.ofInt 0)).trans ?_
  exact Prod.ext (zero_add _) (zero_add _)

theorem extremeValue_cons_cons (better : ℚ → ℚ → Bool) (kept next : TimeSeriesValue ℚ)
    (rest : List (TimeSeriesValue ℚ)) :
    extremeValue better (kept :: next :: rest) =
      extremeValue better ((if better next.value kept.value then next else kept) :: rest) := by
  simp only [extremeValue, List.foldl_cons]
  split <;> rfl

/-- What the loop keeps is one of the values. -/
theorem extremeValue_mem (better : ℚ → ℚ → Bool) {values : List (TimeSeriesValue ℚ)}
    (h : values ≠ []) : ∃ smpl ∈ values, extremeValue better values = some smpl.value := by
  obtain ⟨kept, rest, rfl⟩ := List.exists_cons_of_ne_nil h
  clear h
  induction rest generalizing kept with
  | nil => exact ⟨kept, List.mem_cons_self, rfl⟩
  | cons next rest ih =>
    obtain ⟨smpl, hmem, heq⟩ := ih (if better next.value kept.value then next else kept)
    refine ⟨smpl, ?_, (extremeValue_cons_cons better kept next rest).trans heq⟩
    split at hmem
    · exact List.mem_cons_of_mem _ hmem
    · rcases List.mem_cons.1 hmem with rfl | hmem
      · exact List.mem_cons_self
      · exact List.mem_cons_of_mem _ (List.mem_cons_of_mem _ hmem)

/-- The value shown for a series all of whose values match satisfies the operator: it is one of
them, or the target of an equality. -/
theorem holds_allTheTimesValue {values : List (TimeSeriesValue ℚ)} {target : ℚ} (hne : values ≠ [])
    (h : ∀ smpl ∈ values, op.Holds smpl.value target) :
    op.Holds (allTheTimesValue op.normalize values target) target := by
  have hextreme : ∀ better, op.Holds ((extremeValue better values).getD target) target := by
    intro better
    obtain ⟨smpl, hmem, heq⟩ := extremeValue_mem better hne
    rw [heq]
    exact h smpl hmem
  rw [allTheTimesValue.eq_def]
  split
  · exact hextreme _
  · exact hextreme _
  · exact hextreme _
  · exact hextreme _
  · exact hextreme _
  · cases values with
    | nil => exact absurd rfl hne
    | cons smpl values => exact h smpl List.mem_cons_self
  · -- The rest is an equality, or an operator that nothing satisfies.
    obtain ⟨smpl, hmem⟩ := List.exists_mem_of_ne_nil values hne
    have hsmpl := h smpl hmem
    rw [CompareOperator.Holds] at hsmpl ⊢
    cases hop : op.normalize <;> simp_all

/-! ## The verdict -/

theorem shouldAlertWithTarget_iff (lower : String → String) (b : BasicRuleThreshold ℚ)
    {series : TimeSeries ℚ} (hne : series.values ≠ []) (target : ℚ) :
    ((b.shouldAlertWithTarget lower series target).2 ↔
      b.matchType.Fires (fun v => b.compareOperator.Holds v target)
        (series.values.map TimeSeriesValue.value)) ∧
    ((b.shouldAlertWithTarget lower series target).2 →
      b.compareOperator.Holds (b.shouldAlertWithTarget lower series target).1.v target) := by
  have hempty : ¬ series.values.isEmpty := by
    rw [List.isEmpty_iff]
    exact hne
  rw [BasicRuleThreshold.shouldAlertWithTarget, if_neg hempty, MatchType.Fires]
  cases b.matchType.normalize
  case atleastOnce =>
    -- The value shown is the first that compares.
    dsimp only
    cases hfind : series.values.find? fun smpl =>
        matchesCompareOp b.compareOperator.normalize smpl.value target with
    | none =>
      have hnone := List.find?_eq_none.1 hfind
      refine ⟨⟨nofun, ?_⟩, nofun⟩
      rintro ⟨v, hv, hholds⟩
      obtain ⟨smpl, hmem, rfl⟩ := List.mem_map.1 hv
      exact absurd (matchesCompareOp_iff.2 hholds) (hnone smpl hmem)
    | some smpl =>
      have hmatches := List.find?_some hfind
      have hholds := matchesCompareOp_iff.1 hmatches
      have hmem : smpl.value ∈ series.values.map TimeSeriesValue.value :=
        List.mem_map_of_mem (List.mem_of_find?_eq_some hfind)
      exact ⟨⟨fun _ => ⟨smpl.value, hmem, hholds⟩, fun _ => rfl⟩, fun _ => hholds⟩
  case allTheTimes =>
    dsimp only
    cases hfind : series.values.find? fun smpl =>
        negatesCompareOp b.compareOperator.normalize smpl.value target with
    | none =>
      have hall : ∀ smpl ∈ series.values, b.compareOperator.Holds smpl.value target :=
        fun smpl hmem => by_contra fun hnot =>
          List.find?_eq_none.1 hfind smpl hmem (negatesCompareOp_iff.2 hnot)
      refine ⟨⟨fun _ v hv => ?_, fun _ => rfl⟩, fun _ => holds_allTheTimesValue hne hall⟩
      obtain ⟨smpl, hmem, rfl⟩ := List.mem_map.1 hv
      exact hall smpl hmem
    | some smpl =>
      have hnegates := List.find?_some hfind
      have hnot := negatesCompareOp_iff.1 hnegates
      have hmem : smpl.value ∈ series.values.map TimeSeriesValue.value :=
        List.mem_map_of_mem (List.mem_of_find?_eq_some hfind)
      exact ⟨⟨nofun, fun hall => absurd (hall smpl.value hmem) hnot⟩, nofun⟩
  case onAverage =>
    dsimp only
    rw [sumAndCount_eq, List.length_map]
    exact ⟨matchesCompareOp_iff, matchesCompareOp_iff.1⟩
  case inTotal =>
    dsimp only
    rw [sumAndCount_eq]
    exact ⟨matchesCompareOp_iff, matchesCompareOp_iff.1⟩
  case last =>
    dsimp only
    rw [List.getLast?_map, List.getLast?_eq_some_getLast hne]
    refine ⟨matchesCompareOp_iff.trans ⟨fun h => ⟨_, rfl, h⟩, ?_⟩, matchesCompareOp_iff.1⟩
    rintro ⟨v, ⟨⟩, h⟩
    exact h
  all_goals exact ⟨⟨nofun, False.elim⟩, nofun⟩

/-- A threshold fires exactly when its match type says so of the values, with a value that satisfies
the operator, and above (below) an operator fires at every lower (higher) target as well. -/
theorem shouldAlertWithTarget_verdict (lower : String → String) (b : BasicRuleThreshold ℚ)
    (series : TimeSeries ℚ) (hne : series.values ≠ []) (target : ℚ) :
    ((b.shouldAlertWithTarget lower series target).2 ↔
      b.matchType.Fires (fun v => b.compareOperator.Holds v target)
        (series.values.map TimeSeriesValue.value)) ∧
    ((b.shouldAlertWithTarget lower series target).2 →
      b.compareOperator.Holds (b.shouldAlertWithTarget lower series target).1.v target) ∧
    (b.compareOperator.IsAbove → (b.shouldAlertWithTarget lower series target).2 →
      ∀ target' ≤ target, (b.shouldAlertWithTarget lower series target').2) ∧
    (b.compareOperator.IsBelow → (b.shouldAlertWithTarget lower series target).2 →
      ∀ target' ≥ target, (b.shouldAlertWithTarget lower series target').2) := by
  obtain ⟨hfires, hvalue⟩ := shouldAlertWithTarget_iff lower b hne target
  refine ⟨hfires, hvalue, fun hop h target' hle => ?_, fun hop h target' hge => ?_⟩
  · rw [(shouldAlertWithTarget_iff lower b hne target').1]
    exact (hfires.1 h).mono fun v => CompareOperator.Holds.of_le hop hle
  · rw [(shouldAlertWithTarget_iff lower b hne target').1]
    exact (hfires.1 h).mono fun v => CompareOperator.Holds.of_ge hop hge

/-- All of 3 and 5 are above 2, which the least of them is shown for. -/
theorem shouldAlertWithTarget_verdict_all :
    let b : BasicRuleThreshold ℚ :=
      ⟨"critical", some 2, "", none, .allTheTimesLiteral, .valueIsAboveSymbol, []⟩
    let series : TimeSeries ℚ := ⟨[], [⟨0, 5, false⟩, ⟨1, 3, false⟩]⟩
    (b.shouldAlertWithTarget id series 2).2 ∧ (b.shouldAlertWithTarget id series 2).1.v = 3 ∧
      (b.shouldAlertWithTarget id series 1).2 := by
  intro b series
  obtain ⟨hfires, -, habove, -⟩ := shouldAlertWithTarget_verdict id b series (by decide) 2
  have h : (b.shouldAlertWithTarget id series 2).2 := by
    rw [hfires]
    change ∀ v ∈ [(5 : ℚ), 3], 2 < v
    decide
  exact ⟨h, rfl, habove (.inl rfl) h 1 (by decide)⟩

end Signoz.Rules
