import Signoz.Querier.FormulaJoin

/-!
# Formulas whose variables default to zero

`evaluateForLabelSet` counts the values of the variables and leaves a timestamp out when there are
fewer of them than variables in the expression. A variable that occurs twice is counted twice when it
has a point, and once when it defaults to zero (`validCountOf_eq_iff`). So the result of a formula
is the pointwise join exactly when no point of the join needs such a default
(`evaluateFormula_join_iff`).
-/

namespace Signoz.Querier

open Lib.KeyedFold Lib.GreedyCover

section

variable {V : Type} [Float64 V] {fe : FormulaEvaluator}

/-! ## The count of the values -/

theorem valueOfVariable_isSome_iff (read : String → List (TimeSeriesValue V)) (timestamp : Int)
    (v : String) : (fe.valueOfVariable read timestamp v).isSome ↔
      ((pointAt (read v) timestamp).isSome ∨ (fe.canDefaultZero.lookup v).getD false = true) := by
  rw [FormulaEvaluator.valueOfVariable]
  cases pointAt (read v) timestamp with
  | some p => simp
  | none => cases (fe.canDefaultZero.lookup v).getD false <;> simp

omit [Float64 V] in
/-- As many different elements satisfy the stronger of two conditions as elements satisfy the
weaker one exactly when the conditions agree and no element that satisfies them is repeated. -/
theorem length_dedup_filter_eq_iff (vars : List String) {p q : String → Bool}
    (hqp : ∀ v, q v = true → p v = true) :
    (vars.dedup.filter q).length = (vars.filter p).length ↔
      ∀ v ∈ vars, p v = true → q v = true ∧ vars.count v < 2 := by
  have hsub : (vars.filter q).Sublist (vars.filter p) := by
    have hfilter : (vars.filter p).filter q = vars.filter q := by
      rw [List.filter_filter]
      refine List.filter_congr fun v _ => ?_
      cases hq : q v with
      | true => simp [hqp v hq]
      | false => simp
    rw [← hfilter]
    exact List.filter_sublist
  have hdedup : (vars.dedup.filter q).Sublist (vars.filter q) := (List.dedup_sublist vars).filter q
  have hnodup : (vars.dedup.filter q).Nodup := (List.nodup_dedup vars).filter q
  constructor
  · intro hlen v hv hp
    -- nothing is lost as a repetition, or between the two conditions
    have hle := hdedup.length_le
    have hle' := hsub.length_le
    have heq := hsub.eq_of_length (by omega)
    have heq' := hdedup.eq_of_length (by omega)
    have hmem : v ∈ vars.filter q := heq ▸ List.mem_filter.2 ⟨hv, hp⟩
    have hq := (List.mem_filter.1 hmem).2
    refine ⟨hq, ?_⟩
    have hcount := List.nodup_iff_count_le_one.1 (heq' ▸ hnodup) v
    rw [List.count_filter hq] at hcount
    omega
  · intro h
    have heq : vars.filter q = vars.filter p := by
      refine List.filter_congr fun v hv => ?_
      cases hp : p v with
      | true => exact (h v hv hp).1
      | false =>
        by_contra hq
        rw [hqp v (by simpa using hq)] at hp
        cases hp
    have hnodup' : (vars.filter q).Nodup := by
      rw [List.nodup_iff_count_le_one]
      intro v
      by_cases hv : v ∈ vars.filter q
      · obtain ⟨hmem, hq⟩ := List.mem_filter.1 hv
        rw [List.count_filter hq]
        have := (h v hmem (hqp v hq)).2
        omega
      · rw [List.count_eq_zero_of_not_mem hv]
        exact Nat.zero_le 1
    have hperm : (vars.dedup.filter q).Perm (vars.filter q) := by
      rw [List.perm_ext_iff_of_nodup hnodup hnodup']
      intro v
      rw [List.mem_filter, List.mem_filter, List.mem_dedup]
    rw [hperm.length_eq, heq]

/-- The count is complete exactly when every variable has a value, and the repeated ones a point. -/
theorem validCountOf_eq_iff (read : String → List (TimeSeriesValue V)) (timestamp : Int) :
    fe.validCountOf read timestamp = fe.vars.length ↔ fe.AllValued read timestamp ∧
      ∀ v ∈ fe.vars, 2 ≤ fe.vars.count v → (pointAt (read v) timestamp).isSome := by
  have hsplit := fe.vars.length_eq_length_filter_add
    fun v => (pointAt (read v) timestamp).isSome
  have hiff := length_dedup_filter_eq_iff fe.vars
    (p := fun v => !(pointAt (read v) timestamp).isSome)
    (q := fun v => !(pointAt (read v) timestamp).isSome && (fe.canDefaultZero.lookup v).getD false)
    fun v hv => (Bool.and_eq_true_iff.1 hv).1
  have hcount : fe.validCountOf read timestamp = fe.vars.length ↔
      (fe.vars.dedup.filter fun v => !(pointAt (read v) timestamp).isSome &&
        (fe.canDefaultZero.lookup v).getD false).length =
        (fe.vars.filter fun v => !(pointAt (read v) timestamp).isSome).length := by
    rw [FormulaEvaluator.validCountOf]
    simp only
    omega
  rw [hcount, hiff]
  constructor
  · intro h
    refine ⟨fun v hv => ?_, fun v hv htwice => ?_⟩
    · rw [valueOfVariable_isSome_iff]
      by_cases hpoint : (pointAt (read v) timestamp).isSome
      · exact Or.inl hpoint
      · have hdefault := (h v hv (by simpa using hpoint)).1
        rw [Bool.and_eq_true] at hdefault
        exact Or.inr hdefault.2
    · by_contra hpoint
      have := (h v hv (by simpa using hpoint)).2
      omega
  · rintro ⟨hvalued, hrepeated⟩ v hv hpoint
    have hnone : ¬ (pointAt (read v) timestamp).isSome := by simpa using hpoint
    refine ⟨?_, ?_⟩
    · rw [Bool.and_eq_true]
      exact ⟨hpoint, ((valueOfVariable_isSome_iff read timestamp v).1 (hvalued v hv)).resolve_left
        hnone⟩
    · by_contra htwice
      exact hnone (hrepeated v hv (by omega))

/-! ## The points of one label set -/

variable {lib : Govaluate V}

/-- The points that `evaluateForLabelSet` computes. -/
def FormulaEvaluator.countedPoints (fe : FormulaEvaluator) (lib : Govaluate V)
    (read : String → List (TimeSeriesValue V)) : List (TimeSeriesValue V) :=
  (fe.timestampsOf read).filterMap fun timestamp =>
    (if fe.validCountOf read timestamp ≠ fe.vars.length then none
      else fe.evaluateAt lib read timestamp).map fun value => ⟨timestamp, value, false⟩

theorem evaluateFor_eq_some_iff {read : String → List (TimeSeriesValue V)} {labels : List Label}
    {s : TimeSeries V} : fe.evaluateFor lib read labels = some s ↔
      fe.countedPoints lib read ≠ [] ∧ s = ⟨labels, fe.countedPoints lib read⟩ := by
  rw [FormulaEvaluator.evaluateFor]
  change (if (fe.countedPoints lib read).isEmpty then none
    else some (⟨labels, fe.countedPoints lib read⟩ : TimeSeries V)) = some s ↔ _
  by_cases hempty : fe.countedPoints lib read = []
  · simp [hempty]
  · rw [if_neg (by simpa using hempty)]
    constructor
    · intro h
      exact ⟨hempty, (Option.some.inj h).symm⟩
    · rintro ⟨-, rfl⟩
      rfl

/-- The points are those of the join exactly when no repeated variable defaults at one of them. -/
theorem countedPoints_eq_iff (read : String → List (TimeSeriesValue V)) :
    fe.countedPoints lib read = fe.joinPoints lib read ↔
      ∀ point ∈ fe.joinPoints lib read, ∀ v ∈ fe.vars, 2 ≤ fe.vars.count v →
        (pointAt (read v) point.timestamp).isSome := by
  constructor
  · intro heq point hpoint
    rw [← heq] at hpoint
    obtain ⟨t, -, ht⟩ := List.mem_filterMap.1 hpoint
    obtain ⟨value, hvalue, rfl⟩ := Option.map_eq_some_iff.1 ht
    split at hvalue
    · cases hvalue
    · next hcount => exact ((validCountOf_eq_iff read t).1 (not_not.1 hcount)).2
  · intro h
    refine List.filterMap_congr fun t ht => ?_
    by_cases hcount : fe.validCountOf read t = fe.vars.length
    · rw [if_neg (not_not.2 hcount), if_pos ((validCountOf_eq_iff read t).1 hcount).1]
    · rw [if_pos hcount]
      by_cases hvalued : fe.AllValued read t
      · rw [if_pos hvalued]
        cases hvalue : fe.evaluateAt lib read t with
        | none => rfl
        | some value =>
          -- a point of the join at which the count is too small
          have hmem : (⟨t, value, false⟩ : TimeSeriesValue V) ∈ fe.joinPoints lib read :=
            List.mem_filterMap.2 ⟨t, ht, by rw [if_pos hvalued, hvalue]; rfl⟩
          exact absurd ((validCountOf_eq_iff read t).2 ⟨hvalued, h _ hmem⟩) hcount
      · rw [if_neg hvalued]

/-- Only what the variables read matters. -/
theorem evaluateFor_congr (hrefs : ∀ v, v ∈ fe.aggRefs.map Prod.fst ↔ v ∈ fe.vars)
    {read read' : String → List (TimeSeriesValue V)} (h : ∀ v ∈ fe.vars, read v = read' v)
    (labels : List Label) : fe.evaluateFor lib read labels = fe.evaluateFor lib read' labels := by
  have htimes : fe.timestampsOf read = fe.timestampsOf read' := by
    rw [FormulaEvaluator.timestampsOf, FormulaEvaluator.timestampsOf]
    have hflat : (fe.aggRefs.flatMap fun p => (read p.1).map TimeSeriesValue.timestamp) =
        fe.aggRefs.flatMap fun p => (read' p.1).map TimeSeriesValue.timestamp :=
      List.flatMap_congr fun p hp => by
        rw [h p.1 ((hrefs p.1).1 (List.mem_map_of_mem hp))]
    rw [hflat]
  have hcount : ∀ t, fe.validCountOf read t = fe.validCountOf read' t := by
    intro t
    simp only [FormulaEvaluator.validCountOf]
    have hpresent : fe.vars.filter (fun v => (pointAt (read v) t).isSome) =
        fe.vars.filter fun v => (pointAt (read' v) t).isSome :=
      List.filter_congr fun v hv => by rw [h v hv]
    have hdefault : fe.vars.dedup.filter (fun v => !(pointAt (read v) t).isSome &&
        (fe.canDefaultZero.lookup v).getD false) =
        fe.vars.dedup.filter fun v => !(pointAt (read' v) t).isSome &&
          (fe.canDefaultZero.lookup v).getD false :=
      List.filter_congr fun v hv => by rw [h v (List.mem_dedup.1 hv)]
    rw [hpresent, hdefault]
  have hvalue : ∀ t, fe.evaluateAt lib read t = fe.evaluateAt lib read' t := by
    intro t
    rw [FormulaEvaluator.evaluateAt, FormulaEvaluator.evaluateAt]
    have hassign : (fun v => if v ∈ fe.vars then fe.valueOfVariable read t v else none) =
        fun v => if v ∈ fe.vars then fe.valueOfVariable read' t v else none := by
      funext v
      by_cases hv : v ∈ fe.vars
      · rw [if_pos hv, if_pos hv, FormulaEvaluator.valueOfVariable,
          FormulaEvaluator.valueOfVariable, h v hv]
      · rw [if_neg hv, if_neg hv]
    rw [hassign]
  rw [FormulaEvaluator.evaluateFor, FormulaEvaluator.evaluateFor, htimes]
  simp only [hcount, hvalue]

/-! ## All label sets -/

variable {simpleFold : Char → Char} {timeSeriesData : List (String × TimeSeriesData V)}

omit [Float64 V] in
/-- Label sets that are the same match the same series. -/
theorem matchingPoints_congr {labels labels' : List Label} (h : SameLabels labels labels') :
    fe.matchingPoints simpleFold timeSeriesData labels =
      fe.matchingPoints simpleFold timeSeriesData labels' := by
  have hsub : ∀ labels'' : List Label, isSubset labels labels'' = isSubset labels' labels'' := by
    intro labels''
    rw [Bool.eq_iff_iff, isSubset_iff, isSubset_iff]
    exact forall_congr' fun name => by rw [h name]
  funext v
  simp only [FormulaEvaluator.matchingPoints, hsub]

/-- The label sets that are evaluated, from the referenced ones in some order. -/
def evaluatedSets (o : WalkOrders V) (fe : FormulaEvaluator) (simpleFold : Char → Char)
    (timeSeriesData : List (String × TimeSeriesData V)) : List (List Label) :=
  keepUncovered isSubset (o.labelSets
    ((fe.buildSeriesLookupIn o simpleFold timeSeriesData).map fun p => p.2.series.labels))

/-- What the walks have in common: the referenced label sets, each evaluated on its matching
series. -/
structure ReadsSafely (fe : FormulaEvaluator) (simpleFold : Char → Char)
    (timeSeriesData : List (String × TimeSeriesData V)) : Prop where
  refs : (fe.aggRefs.map Prod.fst).Nodup
  vars : ∀ v, v ∈ fe.aggRefs.map Prod.fst ↔ v ∈ fe.vars
  data : (timeSeriesData.map Prod.fst).Nodup
  labelled : fe.WellLabelled simpleFold timeSeriesData
  apart : fe.ReadsApart simpleFold timeSeriesData

variable (h : ReadsSafely fe simpleFold timeSeriesData) (o : WalkOrders V)

include h

omit [Float64 V] in
/-- The labels in the lookup are the referenced ones. -/
theorem ReadsSafely.labels_perm :
    ((fe.buildSeriesLookupIn o simpleFold timeSeriesData).map fun p => p.2.series.labels).Perm
      (fe.referencedLabels simpleFold timeSeriesData) := by
  have hperm := (buildSeriesLookupIn_perm o h.refs h.data h.apart).map fun p => p.2.series.labels
  rw [← labels_canonicalLookup]
  exact hperm

/-- The result: the evaluated label sets, each on its matching series. -/
theorem ReadsSafely.evaluateFormulaIn_eq :
    fe.evaluateFormulaIn o lib simpleFold timeSeriesData =
      o.completion ((evaluatedSets o fe simpleFold timeSeriesData).filterMap fun labels =>
        fe.evaluateFor lib (fe.matchingPoints simpleFold timeSeriesData labels) labels) := by
  rw [FormulaEvaluator.evaluateFormulaIn]
  refine congrArg o.completion (List.filterMap_congr fun labels _ => ?_)
  refine evaluateFor_congr h.vars (fun v hv => ?_) labels
  have hperm := buildSeriesLookupIn_perm o h.refs h.data h.apart
  exact variableData_eq h.refs h.labelled h.apart ((o.metadata_perm labels v _).trans hperm) labels
    ((h.vars v).2 hv)

omit [Float64 V] in
theorem ReadsSafely.mem_sorted {labels : List Label} : labels ∈ o.labelSets
      ((fe.buildSeriesLookupIn o simpleFold timeSeriesData).map fun p => p.2.series.labels) ↔
    labels ∈ fe.referencedLabels simpleFold timeSeriesData :=
  ((o.labelSets_perm _).trans (h.labels_perm o)).mem_iff

omit [Float64 V] in
/-- The evaluated label sets are maximal. -/
theorem ReadsSafely.isMaximal {labels : List Label}
    (hmem : labels ∈ evaluatedSets o fe simpleFold timeSeriesData) :
    fe.IsMaximal simpleFold timeSeriesData labels := by
  have hnodup : ∀ labels ∈ fe.referencedLabels simpleFold timeSeriesData,
      (labels.map Label.name).Nodup := by
    intro labels hlabels
    obtain ⟨p, hp, hlabels⟩ := List.mem_flatMap.1 hlabels
    obtain ⟨s, hs, rfl⟩ := List.mem_map.1 hlabels
    exact h.apart.labels p hp s hs
  have hsorted := (o.labelSets_sorted ((fe.buildSeriesLookupIn o simpleFold timeSeriesData).map
    fun p => p.2.series.labels)).imp_of_mem
      (S := fun a b => isSubset b a = true → isSubset a b = true) fun {a b} ha hb hlen hba =>
        isSubset_of_length_le (hnodup a ((h.mem_sorted o).1 ha)) hlen hba
  constructor
  · exact (h.mem_sorted o).1 ((keepUncovered_sublist _).subset hmem)
  · intro labels' hlabels'
    exact keepUncovered_maximal isSubset_refl isSubset_trans hsorted labels hmem labels'
      ((h.mem_sorted o).2 hlabels')

omit [Float64 V] in
/-- Every maximal label set is evaluated. -/
theorem ReadsSafely.exists_evaluated {labels : List Label}
    (hmax : fe.IsMaximal simpleFold timeSeriesData labels) :
    ∃ labels' ∈ evaluatedSets o fe simpleFold timeSeriesData, SameLabels labels' labels := by
  obtain ⟨labels', hmem, hsub⟩ := keepUncovered_covers isSubset_refl _ labels
    ((h.mem_sorted o).2 hmax.1)
  refine ⟨labels', hmem, (sameLabels_iff labels' labels).2 ⟨hsub, ?_⟩⟩
  exact hmax.2 labels' ((h.mem_sorted o).1 ((keepUncovered_sublist _).subset hmem)) hsub

/-- A result series is an evaluated label set with its points. -/
theorem ReadsSafely.mem_result {s : TimeSeries V} :
    s ∈ fe.evaluateFormulaIn o lib simpleFold timeSeriesData ↔
      s.labels ∈ evaluatedSets o fe simpleFold timeSeriesData ∧ s.values ≠ [] ∧
        s.values = fe.countedPoints lib
          (fe.matchingPoints simpleFold timeSeriesData s.labels) := by
  rw [h.evaluateFormulaIn_eq o, (o.completion_perm _).mem_iff, List.mem_filterMap]
  constructor
  · rintro ⟨labels, hmem, hs⟩
    obtain ⟨hne, rfl⟩ := evaluateFor_eq_some_iff.1 hs
    exact ⟨hmem, hne, rfl⟩
  · rintro ⟨hmem, hne, hvalues⟩
    refine ⟨s.labels, hmem, evaluateFor_eq_some_iff.2 ⟨hvalues ▸ hne, ?_⟩⟩
    rw [← hvalues]

/-- No two result series have the same labels. -/
theorem ReadsSafely.pairwise_result :
    (fe.evaluateFormulaIn o lib simpleFold timeSeriesData).Pairwise
      fun s s' => ¬ SameLabels s.labels s'.labels := by
  rw [h.evaluateFormulaIn_eq o]
  refine ((o.completion_perm _).pairwise_iff fun {s s'} hne hsame => hne fun name =>
    (hsame name).symm).2 ?_
  refine (pairwise_keepUncovered _).filterMap _ fun labels labels' huncovered s hs s' hs' hsame => ?_
  obtain ⟨-, rfl⟩ := evaluateFor_eq_some_iff.1 hs
  obtain ⟨-, rfl⟩ := evaluateFor_eq_some_iff.1 hs'
  have hsub := ((sameLabels_iff labels labels').1 hsame).1
  rw [huncovered] at hsub
  cases hsub

omit h o

/-- A formula is the pointwise join of its series, in whatever order maps are walked and goroutines
finish, exactly when no point of the join needs the default of a repeated variable. -/
theorem evaluateFormula_join_iff {expressionStr : String} {canDefaultZero : List (String × Bool)}
    (hfe : newFormulaEvaluator lib simpleFold expressionStr canDefaultZero = some fe)
    (hdata : (timeSeriesData.map Prod.fst).Nodup)
    (hlabels : fe.WellLabelled simpleFold timeSeriesData)
    (hapart : fe.ReadsApart simpleFold timeSeriesData) :
    fe.JoinsPointwise lib simpleFold timeSeriesData ↔
      fe.NoRepeatedDefault lib simpleFold timeSeriesData := by
  obtain ⟨hrefs, hvars⟩ := newFormulaEvaluator_some hfe
  have h : ReadsSafely fe simpleFold timeSeriesData := ⟨hrefs, hvars, hdata, hlabels, hapart⟩
  constructor
  · intro hjoin labels hmax point hpoint
    have hresult := hjoin .inOrder
    obtain ⟨s, hs, hsame⟩ := hresult.complete labels hmax (List.ne_nil_of_mem hpoint)
    have hjoined := (hresult.points s hs).2
    rw [((h.mem_result .inOrder).1 hs).2.2, matchingPoints_congr hsame] at hjoined
    exact (countedPoints_eq_iff _).1 hjoined point hpoint
  · intro hdefaults o
    have hpoints : ∀ labels, fe.IsMaximal simpleFold timeSeriesData labels →
        fe.countedPoints lib (fe.matchingPoints simpleFold timeSeriesData labels) =
          fe.joinPoints lib (fe.matchingPoints simpleFold timeSeriesData labels) :=
      fun labels hmax => (countedPoints_eq_iff _).2 (hdefaults labels hmax)
    refine ⟨fun s hs => ?_, fun s hs => ?_, h.pairwise_result o, fun labels hmax hne => ?_⟩
    · exact h.isMaximal o ((h.mem_result o).1 hs).1
    · obtain ⟨hmem, hne, hvalues⟩ := (h.mem_result o).1 hs
      exact ⟨hne, hvalues.trans (hpoints s.labels (h.isMaximal o hmem))⟩
    · obtain ⟨labels', hmem, hsame⟩ := h.exists_evaluated o hmax
      rw [← hpoints labels hmax, ← matchingPoints_congr hsame] at hne
      exact ⟨⟨labels', _⟩, (h.mem_result o).2 ⟨hmem, hne, rfl⟩, hsame⟩

end

/-! ## An error rate -/

/-- The expression `A / (A + B)`. -/
def errorShareLib : Govaluate (Option Rat) where
  vars _ := some ["A", "A", "B"]
  evaluate _ values := do
    let a ← values "A"
    let b ← values "B"
    some (Float64.div a (Float64.add a b))

/-- Its evaluator: both queries are counts, and default to zero. -/
def errorShare : FormulaEvaluator where
  expression := "A / (A + B)"
  vars := ["A", "A", "B"]
  canDefaultZero := [("A", true), ("A", true), ("B", true)]
  aggRefs := [("A", ⟨"A", .index 0⟩), ("B", ⟨"B", .index 0⟩)]

theorem errorShare_new : newFormulaEvaluator errorShareLib Char.toLower "A / (A + B)"
    [("A", true), ("B", true)] = some errorShare := by decide +kernel

/-- The errors at some minutes, and four successes in the first minute. -/
def errorsAndSuccesses (errors : List (TimeSeriesValue (Option Rat))) :
    List (String × TimeSeriesData (Option Rat)) :=
  [("A", ⟨"A", [⟨0, "", "", [⟨[], errors⟩]⟩]⟩),
    ("B", ⟨"B", [⟨0, "", "", [⟨[], [⟨60000, some 4, false⟩]⟩]⟩]⟩)]

/-- The series without labels that each variable has. -/
theorem seriesFor_errorShare (errors : List (TimeSeriesValue (Option Rat))) :
    ∀ p ∈ errorShare.aggRefs, ∃ values,
      seriesFor Char.toLower (errorsAndSuccesses errors) p.2 = [⟨[], values⟩] := by
  intro p hp
  rcases List.mem_cons.1 hp with rfl | hp
  · exact ⟨errors, rfl⟩
  · rw [List.mem_singleton.1 hp]
    exact ⟨[⟨60000, some 4, false⟩], rfl⟩

theorem errorShare_wellLabelled (errors : List (TimeSeriesValue (Option Rat))) :
    errorShare.WellLabelled Char.toLower (errorsAndSuccesses errors) := by
  intro p hp
  obtain ⟨values, hseries⟩ := seriesFor_errorShare errors p hp
  rw [hseries]
  refine ⟨fun s hs s' hs' name => ?_, List.pairwise_singleton _ _⟩
  rw [List.mem_singleton.1 hs, List.mem_singleton.1 hs']

theorem errorShare_apart (errors : List (TimeSeriesValue (Option Rat))) :
    errorShare.ReadsApart Char.toLower (errorsAndSuccesses errors) where
  bars := by decide
  names := by
    intro p hp hnone
    rcases List.mem_cons.1 hp with rfl | hp
    · cases hnone
    · rw [List.mem_singleton.1 hp] at hnone
      cases hnone
  labels := by
    intro p hp s hs
    obtain ⟨values, hseries⟩ := seriesFor_errorShare errors p hp
    rw [hseries, List.mem_singleton] at hs
    rw [hs]
    exact List.nodup_nil

/-- An error and four successes in one minute: the share is there. -/
theorem errorShare_joins : errorShare.JoinsPointwise errorShareLib Char.toLower
    (errorsAndSuccesses [⟨60000, some 1, false⟩]) := by
  refine (evaluateFormula_join_iff errorShare_new (by decide) (errorShare_wellLabelled _)
    (errorShare_apart _)).2 ?_
  intro labels hmax
  have hlabels : ∀ labels ∈ errorShare.referencedLabels Char.toLower
      (errorsAndSuccesses [⟨60000, some 1, false⟩]), labels = [] := by decide +kernel
  rw [hlabels labels hmax.1]
  decide +kernel

/-- No error in the minute of the successes: the share of that minute is zero, and is missing. -/
theorem errorShare_misses_zero : ¬ errorShare.JoinsPointwise errorShareLib Char.toLower
    (errorsAndSuccesses [⟨120000, some 1, false⟩]) := by
  intro h
  have hresult : errorShare.evaluateFormulaIn .inOrder errorShareLib Char.toLower
      (errorsAndSuccesses [⟨120000, some 1, false⟩]) = [⟨[], [⟨120000, some 1, false⟩]⟩] := by
    decide +kernel
  have hjoin : errorShare.joinPoints errorShareLib (errorShare.matchingPoints Char.toLower
      (errorsAndSuccesses [⟨120000, some 1, false⟩]) []) =
        [⟨60000, some 0, false⟩, ⟨120000, some 1, false⟩] := by decide +kernel
  have hpoints := ((h .inOrder).points _ (by rw [hresult]; exact List.mem_singleton_self _)).2
  simp only [hjoin] at hpoints
  cases hpoints

end Signoz.Querier
