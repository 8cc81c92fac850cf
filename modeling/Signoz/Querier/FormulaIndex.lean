import Signoz.Querier.FormulaInOrder

/-!
# A query and its first aggregation in a formula

A variable `A` and the variable `A.0` refer to the same series
(`parseAggregationReference_indexed`), so a formula should not change when the one takes the place
of the other. The default of a missing value is looked up by the whole text of the variable, though.

`Indexed` relates two evaluators whose expressions differ in this way. Where the variable has a
point, they compute the same; where it has none, each takes the same value or none, as its own
default says. So the results are the same exactly when the defaults agree, or matter nowhere
(`evaluateFormula_indexed_iff`).
-/

namespace Signoz.Querier

open Lib.KeyedFold Lib.GreedyCover

/-! ## Replacing a variable -/

/-- A variable, or its first aggregation if it is the given one. -/
def indexed (x v : String) : String := if v = x then x ++ ".0" else v

@[simp] theorem indexed_self (x : String) : indexed x x = x ++ ".0" := if_pos rfl

theorem indexed_of_ne {x v : String} (h : v ≠ x) : indexed x v = v := if_neg h

theorem index_ne_self (x : String) : x ++ ".0" ≠ x := by
  intro h
  have hlen := congrArg String.length h
  rw [String.length_append] at hlen
  have hzero : ".0".length = 2 := by decide
  omega

@[simp] theorem indexed_index (x : String) : indexed x (x ++ ".0") = x ++ ".0" :=
  indexed_of_ne (index_ne_self x)

theorem splitDots_index (x : String) : splitDots (x ++ ".0") = splitDots x ++ ["0"] := by
  have hzero : ".0".toList = ['.', '0'] := by decide
  have hlast : ['0'].splitOn '.' = [['0']] := by decide
  rw [splitDots, splitDots, String.toList_append, hzero, List.splitOn_append_cons_self, hlast,
    List.map_append]
  rfl

/-- A text without a dot is its only part. -/
theorem splitDots_eq_singleton {x q : String} (h : splitDots x = [q]) : q = x := by
  obtain ⟨l, hl, rfl⟩ := List.map_eq_singleton_iff.1 h
  have hjoin : ['.'].intercalate (x.toList.splitOn '.') = x.toList := List.intercalate_splitOn '.'
  rw [hl, List.intercalate_singleton] at hjoin
  rw [hjoin, String.ofList_toList]

/-- A query name and its first aggregation are the same reference. -/
theorem parseAggregationReference_index {x : String} (h : splitDots x = [x]) :
    parseAggregationReference (x ++ ".0") = some ⟨x, .index 0⟩ ∧
      parseAggregationReference x = some ⟨x, .index 0⟩ := by
  have hzero : atoi "0" = some 0 := by decide
  rw [parseAggregationReference, parseAggregationReference, splitDots_index, h]
  simp only [List.singleton_append, hzero]
  exact ⟨trivial, trivial⟩

/-- A variable with a dot has no further aggregation. -/
theorem parseAggregationReference_index_eq_none {x : String} (h : splitDots x ≠ [x]) :
    parseAggregationReference (x ++ ".0") = none := by
  rw [parseAggregationReference, splitDots_index]
  cases hx : splitDots x with
  | nil => exact absurd (List.map_eq_nil_iff.1 hx) (List.splitOn_ne_nil '.' _)
  | cons q rest =>
    cases rest with
    | nil => exact absurd (splitDots_eq_singleton hx ▸ hx) h
    | cons r rest => cases rest <;> rfl

theorem count_map_indexed_of_ne {x w : String} (hx : w ≠ x) (hindex : w ≠ x ++ ".0")
    (vars : List String) : (vars.map (indexed x)).count w = vars.count w := by
  induction vars with
  | nil => rfl
  | cons v vars ih =>
    rw [List.map_cons, List.count_cons, List.count_cons, ih]
    by_cases hv : v = x
    · rw [hv, indexed_self, beq_eq_false_iff_ne.2 hindex.symm, beq_eq_false_iff_ne.2 hx.symm]
    · rw [indexed_of_ne hv]

theorem count_map_indexed (x : String) (vars : List String) :
    (vars.map (indexed x)).count (x ++ ".0") = vars.count x + vars.count (x ++ ".0") := by
  induction vars with
  | nil => rfl
  | cons v vars ih =>
    rw [List.map_cons, List.count_cons, List.count_cons, List.count_cons, ih]
    by_cases hv : v = x
    · rw [hv, indexed_self, beq_self_eq_true, beq_self_eq_true,
        beq_eq_false_iff_ne.2 (index_ne_self x).symm]
      simp
      omega
    · rw [indexed_of_ne hv, beq_eq_false_iff_ne.2 hv]
      simp
      omega

theorem mem_map_indexed {x w : String} {vars : List String} (hx : x ∈ vars) :
    w ∈ vars.map (indexed x) ↔ w = x ++ ".0" ∨ w ∈ vars ∧ w ≠ x := by
  rw [List.mem_map]
  constructor
  · rintro ⟨v, hv, rfl⟩
    by_cases hvx : v = x
    · exact .inl (hvx ▸ indexed_self x)
    · rw [indexed_of_ne hvx]
      exact .inr ⟨hv, hvx⟩
  · rintro (rfl | ⟨hw, hwx⟩)
    · exact ⟨x, hx, indexed_self x⟩
    · exact ⟨w, hw, indexed_of_ne hwx⟩

/-! ## One timestamp -/

section

variable {V : Type}

/-- A variable stands for zero where it has no point: it may default, and occurs once. -/
def FormulaEvaluator.StandsForZero (fe : FormulaEvaluator) (v : String) : Prop :=
  (fe.canDefaultZero.lookup v).getD false = true ∧ fe.vars.count v < 2

instance (fe : FormulaEvaluator) (v : String) : Decidable (fe.StandsForZero v) :=
  inferInstanceAs (Decidable (_ ∧ _))

/-- The variable stands for zero, and so does its first aggregation if the expression has it. -/
def FormulaEvaluator.BothStandForZero (fe : FormulaEvaluator) (x : String) : Prop :=
  fe.StandsForZero x ∧ (x ++ ".0" ∈ fe.vars → fe.StandsForZero (x ++ ".0"))

instance (fe : FormulaEvaluator) (x : String) : Decidable (fe.BothStandForZero x) :=
  inferInstanceAs (Decidable (_ ∧ _))

/-- Every other variable has a point at a timestamp, or stands for zero. -/
def FormulaEvaluator.OthersComplete (fe : FormulaEvaluator) (x : String)
    (read : String → List (TimeSeriesValue V)) (timestamp : Int) : Prop :=
  ∀ v ∈ fe.vars, v ≠ x → v ≠ x ++ ".0" →
    (pointAt (read v) timestamp).isSome ∨ fe.StandsForZero v

instance (fe : FormulaEvaluator) (x : String) (read : String → List (TimeSeriesValue V))
    (timestamp : Int) : Decidable (fe.OthersComplete x read timestamp) :=
  inferInstanceAs (Decidable (∀ v ∈ fe.vars, _ → _ → _))

/-- The value of the expression with zero for a variable and for its first aggregation. -/
def FormulaEvaluator.valueAtZero [Float64 V] (fe : FormulaEvaluator) (lib : Govaluate V)
    (x : String) (read : String → List (TimeSeriesValue V)) (timestamp : Int) : Option V :=
  (lib.evaluate fe.expression fun v =>
    if v ∈ fe.vars then
      if v = x ∨ v = x ++ ".0" then some (Float64.ofInt 0)
      else fe.valueOfVariable read timestamp v
    else none).filter fun value => !Float64.isNaN value && !Float64.isInf value

/-- The value of a formula at a timestamp, if all variables count there. -/
def FormulaEvaluator.countedAt [Float64 V] (fe : FormulaEvaluator) (lib : Govaluate V)
    (read : String → List (TimeSeriesValue V)) (timestamp : Int) : Option V :=
  if fe.validCountOf read timestamp ≠ fe.vars.length then none
  else fe.evaluateAt lib read timestamp

/-- All variables count exactly when each has a point or stands for zero. -/
theorem validCountOf_eq_iff_forall [Float64 V] (fe : FormulaEvaluator)
    (read : String → List (TimeSeriesValue V)) (t : Int) :
    fe.validCountOf read t = fe.vars.length ↔
      ∀ v ∈ fe.vars, (pointAt (read v) t).isSome ∨ fe.StandsForZero v := by
  rw [validCountOf_eq_iff]
  constructor
  · rintro ⟨hvalued, hrepeated⟩ v hv
    by_cases hpoint : (pointAt (read v) t).isSome
    · exact .inl hpoint
    · have hdefault := ((valueOfVariable_isSome_iff read t v).1 (hvalued v hv)).resolve_left hpoint
      exact .inr ⟨hdefault, Nat.lt_of_not_le fun htwice => hpoint (hrepeated v hv htwice)⟩
  · intro hall
    constructor
    · intro v hv
      exact (valueOfVariable_isSome_iff read t v).2 ((hall v hv).imp_right And.left)
    · intro v hv htwice
      exact (hall v hv).resolve_right fun hzero => absurd hzero.2 (Nat.not_lt.2 htwice)

/-- Results that carry what they are made of are the same exactly when each one is. -/
theorem filterMap_keyed_eq_iff {A B : Type} {l : List A} {k : B → A} {f g : A → Option B}
    (hf : ∀ a b, f a = some b → k b = a) (hg : ∀ a b, g a = some b → k b = a) :
    l.filterMap f = l.filterMap g ↔ ∀ a ∈ l, f a = g a := by
  have hsome : ∀ {f g : A → Option B}, (∀ a b, f a = some b → k b = a) →
      (∀ a b, g a = some b → k b = a) → l.filterMap f = l.filterMap g →
        ∀ a ∈ l, ∀ b, f a = some b → g a = some b := by
    intro f g hf hg heq a ha b hb
    have hmem : b ∈ l.filterMap g := heq ▸ List.mem_filterMap.2 ⟨a, ha, hb⟩
    obtain ⟨a', -, hb'⟩ := List.mem_filterMap.1 hmem
    rwa [← hf a b hb, hg a' b hb']
  constructor
  · intro heq a ha
    exact Option.ext fun b => ⟨hsome hf hg heq a ha b, hsome hg hf heq.symm a ha b⟩
  · exact List.filterMap_congr

theorem evaluateFor_eq_of_countedPoints [Float64 V] (fe : FormulaEvaluator) (lib : Govaluate V)
    (read : String → List (TimeSeriesValue V)) (labels : List Label) :
    fe.evaluateFor lib read labels =
      if (fe.countedPoints lib read).isEmpty then none
      else some ⟨labels, fe.countedPoints lib read⟩ := rfl

theorem values_evaluateFor [Float64 V] (fe : FormulaEvaluator) {lib : Govaluate V}
    {read : String → List (TimeSeriesValue V)} (labels : List Label) :
    ((fe.evaluateFor lib read labels).map TimeSeries.values).getD [] =
      fe.countedPoints lib read := by
  rw [evaluateFor_eq_of_countedPoints]
  split
  · next hempty => exact (List.isEmpty_iff.1 hempty).symm
  · rfl

/-- Two evaluators, with what their variables read, that differ in the text of one variable. -/
structure Indexed (lib : Govaluate V) (fe fe' : FormulaEvaluator) (x : String)
    (read read' : String → List (TimeSeriesValue V)) : Prop where
  mem : x ∈ fe.vars
  vars : fe'.vars = fe.vars.map (indexed x)
  refs : ∀ v, v ∈ fe.aggRefs.map Prod.fst ↔ v ∈ fe.vars
  refs' : ∀ v, v ∈ fe'.aggRefs.map Prod.fst ↔ v ∈ fe'.vars
  defaults : ∀ v ∈ fe.vars, v ≠ x → fe'.canDefaultZero.lookup v = fe.canDefaultZero.lookup v
  read_eq : ∀ v ∈ fe.vars, read' (indexed x v) = read v
  evaluate : ∀ values values' : String → Option V,
    (∀ v ∈ fe.vars, values v = values' (indexed x v)) →
      lib.evaluate fe.expression values = lib.evaluate fe'.expression values'

variable {lib : Govaluate V} {fe fe' : FormulaEvaluator} {x : String}
  {read read' : String → List (TimeSeriesValue V)} (h : Indexed lib fe fe' x read read')

include h

/-- The timestamps are the same. -/
theorem Indexed.timestampsOf_eq : fe'.timestampsOf read' = fe.timestampsOf read := by
  have hmem : ∀ (fe : FormulaEvaluator) (read : String → List (TimeSeriesValue V)),
      (∀ v, v ∈ fe.aggRefs.map Prod.fst ↔ v ∈ fe.vars) → ∀ t,
        t ∈ (fe.aggRefs.flatMap fun p => (read p.1).map TimeSeriesValue.timestamp) ↔
          ∃ v ∈ fe.vars, t ∈ (read v).map TimeSeriesValue.timestamp := by
    intro fe read hrefs t
    rw [List.mem_flatMap]
    constructor
    · rintro ⟨p, hp, ht⟩
      exact ⟨p.1, (hrefs p.1).1 (List.mem_map_of_mem hp), ht⟩
    · rintro ⟨v, hv, ht⟩
      obtain ⟨p, hp, rfl⟩ := List.mem_map.1 ((hrefs v).2 hv)
      exact ⟨p, hp, ht⟩
  have hsame : ∀ t,
      t ∈ (fe'.aggRefs.flatMap fun p => (read' p.1).map TimeSeriesValue.timestamp) ↔
        t ∈ fe.aggRefs.flatMap fun p => (read p.1).map TimeSeriesValue.timestamp := by
    intro t
    rw [hmem fe' read' h.refs', hmem fe read h.refs, h.vars]
    constructor
    · rintro ⟨w, hw, ht⟩
      obtain ⟨v, hv, rfl⟩ := List.mem_map.1 hw
      exact ⟨v, hv, h.read_eq v hv ▸ ht⟩
    · rintro ⟨v, hv, ht⟩
      exact ⟨indexed x v, List.mem_map_of_mem hv, (h.read_eq v hv).symm ▸ ht⟩
  rw [FormulaEvaluator.timestampsOf, FormulaEvaluator.timestampsOf]
  refine List.Perm.eq_of_pairwise' (r := (· ≤ ·)) (List.pairwise_insertionSort _ _)
    (List.pairwise_insertionSort _ _) ?_
  refine (List.perm_insertionSort _ _).trans (List.Perm.trans ?_ (List.perm_insertionSort _ _).symm)
  rw [List.perm_ext_iff_of_nodup (List.nodup_dedup _) (List.nodup_dedup _)]
  intro t
  rw [List.mem_dedup, List.mem_dedup, hsame]

/-- The replaced variable and its first aggregation read the same. -/
theorem Indexed.read_index (hindex : x ++ ".0" ∈ fe.vars) : read (x ++ ".0") = read x := by
  rw [← h.read_eq _ hindex, ← h.read_eq x h.mem, indexed_index, indexed_self]

variable [Float64 V] {t : Int}

/-- Any other variable has the same value. -/
theorem Indexed.value_of_ne {v : String} (hv : v ∈ fe.vars) (hne : v ≠ x) :
    fe'.valueOfVariable read' t v = fe.valueOfVariable read t v := by
  have hread := h.read_eq v hv
  rw [indexed_of_ne hne] at hread
  rw [FormulaEvaluator.valueOfVariable, FormulaEvaluator.valueOfVariable, hread,
    h.defaults v hv hne]

/-- Where each variable has the value that an assignment gives it, the expression with the variable
replaced has the value of the assignment. -/
theorem Indexed.evaluateAt_eq {values : String → Option V}
    (hvalues : ∀ v ∈ fe.vars, values v = fe'.valueOfVariable read' t (indexed x v)) :
    fe'.evaluateAt lib read' t = (lib.evaluate fe.expression values).filter
      fun value => !Float64.isNaN value && !Float64.isInf value := by
  rw [FormulaEvaluator.evaluateAt]
  congr 1
  refine (h.evaluate _ _ fun v hv => ?_).symm
  rw [hvalues v hv, if_pos (h.vars ▸ List.mem_map_of_mem hv)]

/-- All variables of the expression count. -/
theorem Indexed.complete_iff : fe.validCountOf read t = fe.vars.length ↔
    fe.OthersComplete x read t ∧ ((pointAt (read x) t).isSome ∨ fe.BothStandForZero x) := by
  rw [validCountOf_eq_iff_forall]
  constructor
  · intro hall
    refine ⟨fun v hv _ _ => hall v hv, ?_⟩
    by_cases hpoint : (pointAt (read x) t).isSome
    · exact .inl hpoint
    · refine .inr ⟨(hall x h.mem).resolve_left hpoint, fun hindex => ?_⟩
      refine (hall _ hindex).resolve_left ?_
      rw [h.read_index hindex]
      exact hpoint
  · rintro ⟨hothers, hx⟩ v hv
    by_cases hvx : v = x
    · rw [hvx]
      exact hx.imp_right And.left
    · by_cases hindex : v = x ++ ".0"
      · subst hindex
        rw [h.read_index hv]
        exact hx.imp_right fun hzero => hzero.2 hv
      · exact hothers v hv hvx hindex

/-- All variables of the expression with the variable replaced count. -/
theorem Indexed.complete_iff' : fe'.validCountOf read' t = fe'.vars.length ↔
    fe.OthersComplete x read t ∧
      ((pointAt (read x) t).isSome ∨ fe'.StandsForZero (x ++ ".0")) := by
  have hread := h.read_eq x h.mem
  rw [indexed_self] at hread
  have hothers : ∀ v ∈ fe.vars, v ≠ x → v ≠ x ++ ".0" →
      (((pointAt (read' v) t).isSome ∨ fe'.StandsForZero v) ↔
        ((pointAt (read v) t).isSome ∨ fe.StandsForZero v)) := by
    intro v hv hvx hindex
    have hv' := h.read_eq v hv
    rw [indexed_of_ne hvx] at hv'
    rw [hv', FormulaEvaluator.StandsForZero, FormulaEvaluator.StandsForZero, h.defaults v hv hvx,
      h.vars, count_map_indexed_of_ne hvx hindex]
  rw [validCountOf_eq_iff_forall]
  simp only [h.vars, mem_map_indexed h.mem]
  constructor
  · intro hall
    refine ⟨fun v hv hvx hindex => (hothers v hv hvx hindex).1 (hall v (.inr ⟨hv, hvx⟩)), ?_⟩
    have hx := hall (x ++ ".0") (.inl rfl)
    rwa [hread] at hx
  · rintro ⟨hall, hx⟩ w hw
    by_cases hindex : w = x ++ ".0"
    · rw [hindex, hread]
      exact hx
    · obtain ⟨hmem, hwx⟩ := hw.resolve_left hindex
      exact (hothers w hmem hwx hindex).2 (hall w hmem hwx hindex)

/-- Where the variable has a point, the evaluators compute the same. -/
theorem Indexed.countedAt_of_present (hpoint : (pointAt (read x) t).isSome) :
    fe'.countedAt lib read' t = fe.countedAt lib read t := by
  have hcomplete : fe'.validCountOf read' t = fe'.vars.length ↔
      fe.validCountOf read t = fe.vars.length := by
    rw [h.complete_iff, h.complete_iff']
    simp only [hpoint, true_or, and_true]
  have hread := h.read_eq x h.mem
  rw [indexed_self] at hread
  have hvalue : fe'.evaluateAt lib read' t = fe.evaluateAt lib read t := by
    rw [FormulaEvaluator.evaluateAt]
    refine h.evaluateAt_eq fun v hv => ?_
    rw [if_pos hv]
    by_cases hvx : v = x
    · -- the point counts for both
      obtain ⟨p, hp⟩ := Option.isSome_iff_exists.1 hpoint
      rw [hvx, indexed_self, FormulaEvaluator.valueOfVariable, FormulaEvaluator.valueOfVariable,
        hread, hp]
    · rw [indexed_of_ne hvx, h.value_of_ne hv hvx]
  rw [FormulaEvaluator.countedAt, FormulaEvaluator.countedAt, hvalue]
  simp only [ne_eq, hcomplete]

omit h in
/-- A variable without a point that stands for zero has the value zero. -/
theorem value_of_standsForZero (fe : FormulaEvaluator) {read : String → List (TimeSeriesValue V)}
    {v : String} (hpoint : (pointAt (read v) t).isSome = false) (hzero : fe.StandsForZero v) :
    fe.valueOfVariable read t v = some (Float64.ofInt 0) := by
  have hnone : pointAt (read v) t = none := by simpa using hpoint
  rw [FormulaEvaluator.valueOfVariable, hnone]
  simp only [hzero.1, if_true]

/-- Where the variable has no point, it counts as zero or the timestamp is left out. -/
theorem Indexed.countedAt_of_absent (hpoint : (pointAt (read x) t).isSome = false) :
    fe.countedAt lib read t =
      if fe.OthersComplete x read t ∧ fe.BothStandForZero x then fe.valueAtZero lib x read t
      else none := by
  have hcomplete := h.complete_iff (t := t)
  simp only [hpoint, Bool.false_eq_true, false_or] at hcomplete
  rw [FormulaEvaluator.countedAt]
  by_cases hboth : fe.OthersComplete x read t ∧ fe.BothStandForZero x
  · rw [if_neg (not_not.2 (hcomplete.2 hboth)), if_pos hboth, FormulaEvaluator.evaluateAt,
      FormulaEvaluator.valueAtZero]
    congr 2
    funext v
    by_cases hv : v ∈ fe.vars
    · rw [if_pos hv, if_pos hv]
      split
      · next hx =>
          rcases hx with rfl | rfl
          · exact value_of_standsForZero fe hpoint hboth.2.1
          · refine value_of_standsForZero fe ?_ (hboth.2.2 hv)
            rw [h.read_index hv, hpoint]
      · rfl
    · rw [if_neg hv, if_neg hv]
  · rw [if_pos fun hlen => hboth (hcomplete.1 hlen), if_neg hboth]

/-- The same for the first aggregation in its place. -/
theorem Indexed.countedAt_of_absent' (hpoint : (pointAt (read x) t).isSome = false) :
    fe'.countedAt lib read' t =
      if fe.OthersComplete x read t ∧ fe'.StandsForZero (x ++ ".0") then
        fe.valueAtZero lib x read t
      else none := by
  have hcomplete := h.complete_iff' (t := t)
  simp only [hpoint, Bool.false_eq_true, false_or] at hcomplete
  rw [FormulaEvaluator.countedAt]
  by_cases hzero : fe.OthersComplete x read t ∧ fe'.StandsForZero (x ++ ".0")
  · rw [if_neg (not_not.2 (hcomplete.2 hzero)), if_pos hzero, FormulaEvaluator.valueAtZero]
    -- the first aggregation occurs once, as the variable that was replaced
    have hcount := hzero.2.2
    rw [h.vars, count_map_indexed] at hcount
    have hmem := List.count_pos_iff.2 h.mem
    have hindex : x ++ ".0" ∉ fe.vars := List.count_eq_zero.1 (by omega)
    refine h.evaluateAt_eq fun v hv => ?_
    rw [if_pos hv]
    by_cases hvx : v = x
    · rw [if_pos (.inl hvx), hvx, indexed_self]
      refine (value_of_standsForZero fe' ?_ hzero.2).symm
      have hread := h.read_eq x h.mem
      rw [indexed_self] at hread
      rw [hread, hpoint]
    · have hne : v ≠ x ++ ".0" := fun heq => hindex (heq ▸ hv)
      rw [if_neg (not_or.2 ⟨hvx, hne⟩), indexed_of_ne hvx, h.value_of_ne hv hvx]
  · rw [if_pos fun hlen => hzero (hcomplete.1 hlen), if_neg hzero]

/-- The evaluators agree at a timestamp where the variable has no point exactly when both defaults
count or neither does, or it makes no difference. -/
theorem Indexed.countedAt_eq_iff : fe'.countedAt lib read' t = fe.countedAt lib read t ↔
    (fe.BothStandForZero x ↔ fe'.StandsForZero (x ++ ".0")) ∨
      ((pointAt (read x) t).isSome = false → fe.OthersComplete x read t →
        fe.valueAtZero lib x read t = none) := by
  cases hpoint : (pointAt (read x) t).isSome with
  | true => simp [h.countedAt_of_present hpoint]
  | false =>
    rw [h.countedAt_of_absent hpoint, h.countedAt_of_absent' hpoint]
    by_cases hothers : fe.OthersComplete x read t
    · by_cases hzero : fe.BothStandForZero x <;>
        by_cases hzero' : fe'.StandsForZero (x ++ ".0") <;>
        simp [hothers, hzero, hzero', eq_comm]
    · simp [hothers]

/-- The evaluators give a label set the same series exactly when the defaults agree, or matter at no
timestamp. -/
theorem Indexed.evaluateFor_eq_iff (labels : List Label) :
    fe'.evaluateFor lib read' labels = fe.evaluateFor lib read labels ↔
      (fe.BothStandForZero x ↔ fe'.StandsForZero (x ++ ".0")) ∨
        ∀ t ∈ fe.timestampsOf read, (pointAt (read x) t).isSome = false →
          fe.OthersComplete x read t → fe.valueAtZero lib x read t = none := by
  have hpoints : fe'.evaluateFor lib read' labels = fe.evaluateFor lib read labels ↔
      fe'.countedPoints lib read' = fe.countedPoints lib read := by
    constructor
    · intro heq
      rw [← values_evaluateFor fe' labels, ← values_evaluateFor fe labels, heq]
    · intro heq
      rw [evaluateFor_eq_of_countedPoints, evaluateFor_eq_of_countedPoints, heq]
  have htimes : fe'.countedPoints lib read' = fe.countedPoints lib read ↔
      ∀ t ∈ fe.timestampsOf read, fe'.countedAt lib read' t = fe.countedAt lib read t := by
    rw [FormulaEvaluator.countedPoints, FormulaEvaluator.countedPoints, h.timestampsOf_eq]
    refine (filterMap_keyed_eq_iff (k := TimeSeriesValue.timestamp) ?_ ?_).trans ?_
    · intro t p hp
      obtain ⟨value, -, rfl⟩ := Option.map_eq_some_iff.1 hp
      rfl
    · intro t p hp
      obtain ⟨value, -, rfl⟩ := Option.map_eq_some_iff.1 hp
      rfl
    · refine forall₂_congr fun t _ => ?_
      refine ⟨fun heq => ?_, fun heq => congrArg (Option.map _) heq⟩
      refine Option.map_injective (fun a b hab => ?_) heq
      exact congrArg TimeSeriesValue.value hab
  rw [hpoints, htimes]
  simp only [h.countedAt_eq_iff]
  by_cases hagree : fe.BothStandForZero x ↔ fe'.StandsForZero (x ++ ".0")
  · simp [hagree]
  · simp only [hagree, false_or]

end

/-! ## The whole formula -/

section

variable {V : Type}

/-- No variable goes on from another one with a bar, as the keys of its series do. -/
def NoBarBetween (vars : List String) : Prop :=
  ∀ v ∈ vars, ∀ w ∈ vars, v ≠ w → hasPrefix w (v ++ "|") = false

instance (vars : List String) : Decidable (NoBarBetween vars) :=
  inferInstanceAs (Decidable (∀ v ∈ vars, ∀ w ∈ vars, _ → _))

/-- One expression is another with a variable replaced by its first aggregation: it has the same
variables otherwise, and the same value when these have the same values. -/
structure Environment.Replaces (env : Environment V) (x expression expression' : String) :
    Prop where
  vars : env.lib.vars expression' = (env.lib.vars expression).map (List.map (indexed x))
  varsWithoutFunctions : env.varsWithoutFunctions expression' =
    (env.varsWithoutFunctions expression).map (List.map (indexed x))
  evaluate : ∀ vars, env.lib.vars expression = some vars →
    ∀ values values' : String → Option V, (∀ v ∈ vars, values v = values' (indexed x v)) →
      env.lib.evaluate expression values = env.lib.evaluate expression' values'

section

variable {lib : Govaluate V} {simpleFold : Char → Char} {canDefaultZero : List (String × Bool)}
  {expression : String} {fe : FormulaEvaluator}
  (h : newFormulaEvaluator lib simpleFold expression canDefaultZero = some fe)

include h

theorem barsApart_of_noBarBetween (hbars : NoBarBetween fe.vars) : fe.BarsApart :=
  fun p hp p' hp' hne => hbars p.1 ((mem_aggRefs_iff h p).1 hp).1 p'.1
    ((mem_aggRefs_iff h p').1 hp').1 hne

/-- A variable reads the first matching series of the reference that its text says. -/
theorem matchingPoints_eq (timeSeriesData : List (String × TimeSeriesData V)) (labels : List Label)
    {v : String} (hv : v ∈ fe.vars) :
    fe.matchingPoints simpleFold timeSeriesData labels v =
      ((parseAggregationReference v).bind fun ref =>
        ((seriesFor simpleFold timeSeriesData ref).find? fun s =>
          isSubset labels s.labels).map TimeSeries.values).getD [] := by
  obtain ⟨hnodup, hmem⟩ := newFormulaEvaluator_some h
  obtain ⟨⟨v, ref⟩, hp, rfl⟩ := List.mem_map.1 ((hmem v).2 hv)
  rw [FormulaEvaluator.matchingPoints, (mem_iff_lookup hnodup).1 hp,
    ((mem_aggRefs_iff h (v, ref)).1 hp).2, Option.bind_some]
  simp only
  cases (seriesFor simpleFold timeSeriesData ref).find? fun s => isSubset labels s.labels <;> rfl

/-- The label sets that are evaluated are those that the variables refer to. -/
theorem uniqueLabelSets_eq (timeSeriesData : List (String × TimeSeriesData V)) :
    fe.uniqueLabelSets simpleFold timeSeriesData =
      keepUncovered isSubset ((fe.vars.flatMap fun v =>
        ((parseAggregationReference v).map fun ref =>
          (seriesFor simpleFold timeSeriesData ref).map TimeSeries.labels).getD []).insertionSort
            fun a b => b.length ≤ a.length) :=
  keepUncovered_references
    (fun ref => (seriesFor simpleFold timeSeriesData ref).map TimeSeries.labels) []
    (expression_eq h).2.2

/-- A new evaluator of the expression with a variable replaced. -/
theorem newFormulaEvaluator_replaced {x expression' : String} (hx : x ∈ fe.vars)
    (hvars : lib.vars expression' = (lib.vars expression).map (List.map (indexed x))) :
    (newFormulaEvaluator lib simpleFold expression' canDefaultZero).isSome ↔ splitDots x = [x] := by
  obtain ⟨-, hfe, hrefs⟩ := expression_eq h
  have hparsed := (parseReferences_isSome).1 (Option.isSome_iff_exists.2 ⟨_, hrefs⟩)
  have hnew : (newFormulaEvaluator lib simpleFold expression' canDefaultZero).isSome ↔
      (parseReferences (fe.vars.map (indexed x))).isSome := by
    rw [newFormulaEvaluator, hvars, hfe]
    simp only [Option.map_some, Option.bind_eq_bind, Option.bind_some]
    generalize parseReferences (fe.vars.map (indexed x)) = refs
    cases refs <;> rfl
  rw [hnew, parseReferences_isSome]
  constructor
  · intro hall
    by_contra hdots
    have hindex := hall (x ++ ".0") ((mem_map_indexed hx).2 (.inl rfl))
    rw [parseAggregationReference_index_eq_none hdots] at hindex
    cases hindex
  · intro hdots w hw
    rcases (mem_map_indexed hx).1 hw with rfl | ⟨hmem, -⟩
    · rw [(parseAggregationReference_index hdots).1]
      rfl
    · exact hparsed w hmem

variable {x expression' : String} {fe' : FormulaEvaluator} (hx : x ∈ fe.vars)
  (hdots : splitDots x = [x])
  (hvars : lib.vars expression' = (lib.vars expression).map (List.map (indexed x)))
  (h' : newFormulaEvaluator lib simpleFold expression' canDefaultZero = some fe')

include h' hvars

theorem vars_replaced : fe'.vars = fe.vars.map (indexed x) := by
  have hsome := (expression_eq h').2.1
  rw [hvars, (expression_eq h).2.1, Option.map_some, Option.some.injEq] at hsome
  exact hsome.symm

include hdots

omit h h' hvars in
/-- A variable and what replaces it are the same reference. -/
theorem parseAggregationReference_indexed (v : String) :
    parseAggregationReference (indexed x v) = parseAggregationReference v := by
  by_cases hvx : v = x
  · obtain ⟨hindex, hname⟩ := parseAggregationReference_index hdots
    rw [hvx, indexed_self, hindex, hname]
  · rw [indexed_of_ne hvx]

include hx

/-- The evaluators of the two expressions, reading the same label set. -/
theorem indexed_of_new (heval : ∀ values values' : String → Option V,
      (∀ v ∈ fe.vars, values v = values' (indexed x v)) →
        lib.evaluate expression values = lib.evaluate expression' values')
    (timeSeriesData : List (String × TimeSeriesData V)) (labels : List Label) :
    Indexed lib fe fe' x (fe.matchingPoints simpleFold timeSeriesData labels)
      (fe'.matchingPoints simpleFold timeSeriesData labels) where
  mem := hx
  vars := vars_replaced h hvars h'
  refs := (newFormulaEvaluator_some h).2
  refs' := (newFormulaEvaluator_some h').2
  defaults := by
    intro v hv hvx
    have hv' : v ∈ fe'.vars := by
      rw [vars_replaced h hvars h']
      exact (mem_map_indexed hx).2 (.inr ⟨hv, hvx⟩)
    rw [lookup_canDefaultZero h' hv', lookup_canDefaultZero h hv]
  read_eq := by
    intro v hv
    have hv' : indexed x v ∈ fe'.vars := by
      rw [vars_replaced h hvars h']
      exact List.mem_map_of_mem hv
    rw [matchingPoints_eq h' timeSeriesData labels hv',
      matchingPoints_eq h timeSeriesData labels hv, parseAggregationReference_indexed hdots]
  evaluate := by
    rw [(expression_eq h).1, (expression_eq h').1]
    exact heval

omit hx in
/-- The same label sets are evaluated. -/
theorem uniqueLabelSets_replaced (timeSeriesData : List (String × TimeSeriesData V)) :
    fe'.uniqueLabelSets simpleFold timeSeriesData =
      fe.uniqueLabelSets simpleFold timeSeriesData := by
  rw [uniqueLabelSets_eq h', uniqueLabelSets_eq h, vars_replaced h hvars h', List.flatMap_map]
  simp only [parseAggregationReference_indexed hdots]

variable [Float64 V] {timeSeriesData : List (String × TimeSeriesData V)}

/-- The formula and the one with a variable replaced give the same exactly when both defaults count
or neither does, or there is no point at which it makes a difference. -/
theorem evaluateFormula_indexed_iff (heval : ∀ values values' : String → Option V,
      (∀ v ∈ fe.vars, values v = values' (indexed x v)) →
        lib.evaluate expression values = lib.evaluate expression' values')
    (hbars : NoBarBetween fe.vars) (hbars' : NoBarBetween (fe.vars.map (indexed x))) :
    fe'.evaluateFormula lib simpleFold timeSeriesData =
        fe.evaluateFormula lib simpleFold timeSeriesData ↔
      (fe.BothStandForZero x ↔ fe'.StandsForZero (x ++ ".0")) ∨
        ∀ labels ∈ fe.uniqueLabelSets simpleFold timeSeriesData,
          ∀ t ∈ fe.timestampsOf (fe.matchingPoints simpleFold timeSeriesData labels),
            (pointAt (fe.matchingPoints simpleFold timeSeriesData labels x) t).isSome = false →
              fe.OthersComplete x (fe.matchingPoints simpleFold timeSeriesData labels) t →
                fe.valueAtZero lib x (fe.matchingPoints simpleFold timeSeriesData labels) t =
                  none := by
  obtain ⟨hnodup, hmem⟩ := newFormulaEvaluator_some h
  obtain ⟨hnodup', hmem'⟩ := newFormulaEvaluator_some h'
  rw [← vars_replaced h hvars h'] at hbars'
  rw [evaluateFormula_eq hnodup hmem (barsApart_of_noBarBetween h hbars),
    evaluateFormula_eq hnodup' hmem' (barsApart_of_noBarBetween h' hbars'),
    uniqueLabelSets_replaced h hdots hvars h']
  have hkeyed : ∀ (fe : FormulaEvaluator) (labels : List Label) (s : TimeSeries V),
      fe.evaluateFor lib (fe.matchingPoints simpleFold timeSeriesData labels) labels = some s →
        s.labels = labels := by
    intro fe labels s hs
    obtain ⟨-, rfl⟩ := evaluateFor_eq_some_iff.1 hs
    rfl
  rw [filterMap_keyed_eq_iff (hkeyed fe') (hkeyed fe)]
  have hseries := fun labels =>
    (indexed_of_new h hx hdots hvars h' heval timeSeriesData labels).evaluateFor_eq_iff labels
  simp only [hseries]
  by_cases hagree : fe.BothStandForZero x ↔ fe'.StandsForZero (x ++ ".0")
  · simp [hagree]
  · simp only [hagree, false_or]

end

end

end Signoz.Querier
