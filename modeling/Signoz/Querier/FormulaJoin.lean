import Signoz.Lib.GreedyCover
import Signoz.Querier.GapFilling
import Signoz.Querier.SeriesKeys

/-!
# Formulas as pointwise joins

`EvaluateFormula` walks maps in any order and collects the series of its goroutines in any order;
`evaluateFormulaIn` is the evaluation with these orders chosen (`WalkOrders`). Its result should be
the pointwise join: one series for each maximal label set that has a value somewhere, with the value
of the expression at every timestamp at which each variable has one (`PointwiseJoin`).

When no two things can be taken for each other (`ReadsApart`), the orders do not matter
(`evaluateFormulaIn_eq`), and the result is the join exactly when no point of the join needs the
default of a variable that occurs twice in the expression (`evaluateFormula_join_iff`): the default
of such a variable is counted once, and the timestamp is left out.
-/

namespace Signoz.Querier

open Lib.KeyedFold Lib.GreedyCover

section

variable {V : Type}

/-! ## Evaluation in any order -/

/-- The orders in which maps are walked, label sets of one size sorted, and goroutines finished. -/
structure WalkOrders (V : Type) where
  refs : List (String × AggregationRef) → List (String × AggregationRef)
  refs_perm : ∀ l, (refs l).Perm l
  /-- A walk over the results of the queries, for each variable. -/
  data : String → List (String × TimeSeriesData V) → List (String × TimeSeriesData V)
  data_perm : ∀ v l, (data v l).Perm l
  /-- A walk over the lookup, for each label set and variable. -/
  metadata : List Label → String → SeriesLookup V → SeriesLookup V
  metadata_perm : ∀ labels v l, (metadata labels v l).Perm l
  labelSets : List (List Label) → List (List Label)
  labelSets_perm : ∀ l, (labelSets l).Perm l
  labelSets_sorted : ∀ l, (labelSets l).Pairwise fun a b => b.length ≤ a.length
  completion : List (TimeSeries V) → List (TimeSeries V)
  completion_perm : ∀ l, (completion l).Perm l

/-- Maps are walked in the order in which they were filled. -/
def WalkOrders.inOrder : WalkOrders V where
  refs l := l
  refs_perm := List.Perm.refl
  data _ l := l
  data_perm _ := List.Perm.refl
  metadata _ _ l := l
  metadata_perm _ _ := List.Perm.refl
  labelSets l := l.insertionSort fun a b => b.length ≤ a.length
  labelSets_perm := List.perm_insertionSort _
  labelSets_sorted l := by
    have : Std.Total fun a b : List Label => b.length ≤ a.length :=
      ⟨fun a b => Nat.le_total b.length a.length⟩
    have : IsTrans (List Label) fun a b => b.length ≤ a.length :=
      ⟨fun _ _ _ hab hbc => Nat.le_trans hbc hab⟩
    exact List.pairwise_insertionSort _ l
  completion l := l
  completion_perm := List.Perm.refl

/-- `buildSeriesLookup`. -/
def FormulaEvaluator.buildSeriesLookupIn (o : WalkOrders V) (fe : FormulaEvaluator)
    (simpleFold : Char → Char) (timeSeriesData : List (String × TimeSeriesData V)) :
    SeriesLookup V :=
  accumulate (fun s => ⟨s, s.values⟩) (fun entry s => ⟨entry.series, entry.data ++ s.values⟩) []
    ((o.refs fe.aggRefs).flatMap fun p =>
      seriesOfVariable simpleFold (o.data p.1 timeSeriesData) p.1 p.2)

variable [Float64 V]

/-- The value of a variable at a timestamp, when `read` gives the points of each variable. -/
def FormulaEvaluator.valueOfVariable (fe : FormulaEvaluator)
    (read : String → List (TimeSeriesValue V)) (timestamp : Int) (variableName : String) :
    Option V :=
  match pointAt (read variableName) timestamp with
  | some p => some p.value
  | none =>
    if (fe.canDefaultZero.lookup variableName).getD false then some (Float64.ofInt 0) else none

/-- `validCount`. -/
def FormulaEvaluator.validCountOf (fe : FormulaEvaluator)
    (read : String → List (TimeSeriesValue V)) (timestamp : Int) : Nat :=
  let present := fun v => (pointAt (read v) timestamp).isSome
  (fe.vars.filter present).length +
    (fe.vars.dedup.filter fun v =>
      !present v && (fe.canDefaultZero.lookup v).getD false).length

/-- The finite value of the expression at a timestamp. -/
def FormulaEvaluator.evaluateAt (fe : FormulaEvaluator) (lib : Govaluate V)
    (read : String → List (TimeSeriesValue V)) (timestamp : Int) : Option V :=
  (lib.evaluate fe.expression fun v =>
    if v ∈ fe.vars then fe.valueOfVariable read timestamp v else none).filter
      fun value => !Float64.isNaN value && !Float64.isInf value

/-- The timestamps at which some variable has a point, in order. -/
def FormulaEvaluator.timestampsOf (fe : FormulaEvaluator)
    (read : String → List (TimeSeriesValue V)) : List Int :=
  (fe.aggRefs.flatMap fun p => (read p.1).map TimeSeriesValue.timestamp).dedup.insertionSort
    (· ≤ ·)

/-- `evaluateForLabelSet`, from what each variable reads. -/
def FormulaEvaluator.evaluateFor (fe : FormulaEvaluator) (lib : Govaluate V)
    (read : String → List (TimeSeriesValue V)) (targetLabels : List Label) :
    Option (TimeSeries V) :=
  let resultValues := (fe.timestampsOf read).filterMap fun timestamp =>
    (if fe.validCountOf read timestamp ≠ fe.vars.length then none
      else fe.evaluateAt lib read timestamp).map fun value =>
        (⟨timestamp, value, false⟩ : TimeSeriesValue V)
  if resultValues.isEmpty then none else some ⟨targetLabels, resultValues⟩

/-- `EvaluateFormula`. -/
def FormulaEvaluator.evaluateFormulaIn (o : WalkOrders V) (fe : FormulaEvaluator)
    (lib : Govaluate V) (simpleFold : Char → Char)
    (timeSeriesData : List (String × TimeSeriesData V)) : List (TimeSeries V) :=
  let lookup := fe.buildSeriesLookupIn o simpleFold timeSeriesData
  o.completion ((keepUncovered isSubset
    (o.labelSets (lookup.map fun p => p.2.series.labels))).filterMap fun labels =>
      fe.evaluateFor lib (fun v => variableData (o.metadata labels v lookup) labels v) labels)

/-- With every map in order this is the evaluation that the other results are about. -/
theorem evaluateFormulaIn_inOrder (fe : FormulaEvaluator) (lib : Govaluate V)
    (simpleFold : Char → Char) (timeSeriesData : List (String × TimeSeriesData V)) :
    fe.evaluateFormulaIn .inOrder lib simpleFold timeSeriesData =
      fe.evaluateFormula lib simpleFold timeSeriesData := rfl

/-! ## The join -/

/-- The series that a reference selects. -/
def seriesFor (simpleFold : Char → Char) (timeSeriesData : List (String × TimeSeriesData V))
    (ref : AggregationRef) : List (TimeSeries V) :=
  match lookupFold simpleFold timeSeriesData ref.queryName with
  | none => []
  | some d =>
    match targetBucket d ref with
    | none => []
    | some bucket => bucket.series

/-- The label sets of all referenced series. -/
def FormulaEvaluator.referencedLabels (fe : FormulaEvaluator) (simpleFold : Char → Char)
    (timeSeriesData : List (String × TimeSeriesData V)) : List (List Label) :=
  fe.aggRefs.flatMap fun p =>
    (seriesFor simpleFold timeSeriesData p.2).map fun s => s.labels

/-- A label set of a referenced series that no other one properly includes. -/
def FormulaEvaluator.IsMaximal (fe : FormulaEvaluator) (simpleFold : Char → Char)
    (timeSeriesData : List (String × TimeSeriesData V)) (labels : List Label) : Prop :=
  labels ∈ fe.referencedLabels simpleFold timeSeriesData ∧
    ∀ labels' ∈ fe.referencedLabels simpleFold timeSeriesData,
      isSubset labels' labels = true → isSubset labels labels' = true

/-- The points of the series of a variable that matches a label set. -/
def FormulaEvaluator.matchingPoints (fe : FormulaEvaluator) (simpleFold : Char → Char)
    (timeSeriesData : List (String × TimeSeriesData V)) (labels : List Label)
    (variableName : String) : List (TimeSeriesValue V) :=
  match fe.aggRefs.lookup variableName with
  | none => []
  | some ref =>
    match (seriesFor simpleFold timeSeriesData ref).find? fun s => isSubset labels s.labels with
    | none => []
    | some s => s.values

/-- Every variable has a value at a timestamp. -/
def FormulaEvaluator.AllValued (fe : FormulaEvaluator) (read : String → List (TimeSeriesValue V))
    (timestamp : Int) : Prop :=
  ∀ v ∈ fe.vars, (fe.valueOfVariable read timestamp v).isSome

instance (fe : FormulaEvaluator) (read : String → List (TimeSeriesValue V)) (timestamp : Int) :
    Decidable (fe.AllValued read timestamp) :=
  inferInstanceAs (Decidable (∀ v ∈ fe.vars, _))

/-- The points of the join: the finite values of the expression where every variable has a value. -/
def FormulaEvaluator.joinPoints (fe : FormulaEvaluator) (lib : Govaluate V)
    (read : String → List (TimeSeriesValue V)) : List (TimeSeriesValue V) :=
  (fe.timestampsOf read).filterMap fun timestamp =>
    (if fe.AllValued read timestamp then fe.evaluateAt lib read timestamp else none).map fun value =>
      ⟨timestamp, value, false⟩

/-- Two lists of labels are the same label set. -/
def SameLabels (labels labels' : List Label) : Prop :=
  ∀ name, labelNamed labels name = labelNamed labels' name

/-- A result is the pointwise join of the referenced series. -/
structure FormulaEvaluator.PointwiseJoin (fe : FormulaEvaluator) (lib : Govaluate V)
    (simpleFold : Char → Char) (timeSeriesData : List (String × TimeSeriesData V))
    (result : List (TimeSeries V)) : Prop where
  maximal : ∀ s ∈ result, fe.IsMaximal simpleFold timeSeriesData s.labels
  points : ∀ s ∈ result, s.values ≠ [] ∧
    s.values = fe.joinPoints lib (fe.matchingPoints simpleFold timeSeriesData s.labels)
  once : result.Pairwise fun s s' => ¬ SameLabels s.labels s'.labels
  complete : ∀ labels, fe.IsMaximal simpleFold timeSeriesData labels →
    fe.joinPoints lib (fe.matchingPoints simpleFold timeSeriesData labels) ≠ [] →
      ∃ s ∈ result, SameLabels s.labels labels

/-- The result is the pointwise join in whatever order maps are walked and goroutines finish. -/
def FormulaEvaluator.JoinsPointwise (fe : FormulaEvaluator) (lib : Govaluate V)
    (simpleFold : Char → Char) (timeSeriesData : List (String × TimeSeriesData V)) : Prop :=
  ∀ o : WalkOrders V, fe.PointwiseJoin lib simpleFold timeSeriesData
    (fe.evaluateFormulaIn o lib simpleFold timeSeriesData)

/-- The series of each referenced aggregation have the same label names, and any two of them differ
in a label value. -/
def FormulaEvaluator.WellLabelled (fe : FormulaEvaluator) (simpleFold : Char → Char)
    (timeSeriesData : List (String × TimeSeriesData V)) : Prop :=
  ∀ p ∈ fe.aggRefs,
    (∀ s ∈ seriesFor simpleFold timeSeriesData p.2, ∀ s' ∈ seriesFor simpleFold timeSeriesData p.2,
      ∀ name, (labelNamed s.labels name).isSome = (labelNamed s'.labels name).isSome) ∧
    (seriesFor simpleFold timeSeriesData p.2).Pairwise fun s s' => ¬ SameLabels s.labels s'.labels

/-- Nothing that is read can be taken for something else: no variable goes on from another one with
a bar, as the keys of its series do; a query name that no result has exactly belongs to one result
up to case; and no series has a label name twice. -/
structure FormulaEvaluator.ReadsApart (fe : FormulaEvaluator) (simpleFold : Char → Char)
    (timeSeriesData : List (String × TimeSeriesData V)) : Prop where
  bars : ∀ p ∈ fe.aggRefs, ∀ p' ∈ fe.aggRefs, p.1 ≠ p'.1 → hasPrefix p'.1 (p.1 ++ "|") = false
  names : ∀ p ∈ fe.aggRefs, timeSeriesData.lookup p.2.queryName = none →
    ∀ e ∈ timeSeriesData, ∀ e' ∈ timeSeriesData, equalFold simpleFold e.1 p.2.queryName = true →
      equalFold simpleFold e'.1 p.2.queryName = true → e.1 = e'.1
  labels : ∀ p ∈ fe.aggRefs, ∀ s ∈ seriesFor simpleFold timeSeriesData p.2,
    (s.labels.map Label.name).Nodup

/-- No point of the join uses the default of a variable that occurs more than once. -/
def FormulaEvaluator.NoRepeatedDefault (fe : FormulaEvaluator) (lib : Govaluate V)
    (simpleFold : Char → Char) (timeSeriesData : List (String × TimeSeriesData V)) : Prop :=
  ∀ labels, fe.IsMaximal simpleFold timeSeriesData labels →
    ∀ point ∈ fe.joinPoints lib (fe.matchingPoints simpleFold timeSeriesData labels),
      ∀ v ∈ fe.vars, 2 ≤ fe.vars.count v →
        (pointAt (fe.matchingPoints simpleFold timeSeriesData labels v) point.timestamp).isSome

end

section

variable {V : Type}

/-! ## Label sets -/

theorem isSubset_iff (labels labels' : List Label) : isSubset labels labels' = true ↔
    ∀ name, (labelNamed labels' name).isSome → labelNamed labels name = labelNamed labels' name := by
  have hnamed : ∀ name, (labelNamed labels' name).isSome ↔ ∃ l ∈ labels', l.name = name := by
    intro name
    simp [labelNamed, List.find?_isSome]
  simp only [isSubset, List.all_eq_true, decide_eq_true_eq, hnamed]
  constructor
  · rintro h name ⟨l, hl, rfl⟩
    exact h l hl
  · intro h l hl
    exact h l.name ⟨l, hl, rfl⟩

theorem isSubset_refl (labels : List Label) : isSubset labels labels = true :=
  (isSubset_iff labels labels).2 fun _ _ => rfl

theorem isSubset_trans (a b c : List Label) (hab : isSubset a b = true)
    (hbc : isSubset b c = true) : isSubset a c = true := by
  rw [isSubset_iff] at hab hbc ⊢
  intro name hname
  have hb := hbc name hname
  rw [hab name (hb ▸ hname), hb]

theorem sameLabels_iff (labels labels' : List Label) : SameLabels labels labels' ↔
    isSubset labels labels' = true ∧ isSubset labels' labels = true := by
  rw [isSubset_iff, isSubset_iff]
  constructor
  · intro h
    exact ⟨fun name _ => h name, fun name _ => (h name).symm⟩
  · rintro ⟨h, h'⟩ name
    by_cases hname : (labelNamed labels' name).isSome
    · exact h name hname
    · by_cases hname' : (labelNamed labels name).isSome
      · exact (h' name hname').symm
      · rw [Option.not_isSome_iff_eq_none.1 hname, Option.not_isSome_iff_eq_none.1 hname']

/-- Of label sets without repeated names, one that is no larger than a subset has no more labels. -/
theorem isSubset_of_length_le {a b : List Label} (ha : (a.map Label.name).Nodup)
    (hlen : b.length ≤ a.length) (hba : isSubset b a = true) : isSubset a b = true := by
  have hsub : a.map Label.name ⊆ b.map Label.name := by
    intro name hname
    obtain ⟨l, hl, rfl⟩ := List.mem_map.1 hname
    have hsome : (labelNamed a l.name).isSome := by
      simpa [labelNamed, List.find?_isSome] using ⟨l, hl, rfl⟩
    have hb := (isSubset_iff b a).1 hba l.name hsome
    rw [← hb] at hsome
    simpa [labelNamed, List.find?_isSome] using hsome
  have hperm := (ha.subperm hsub).perm_of_length_le (by simpa using hlen)
  rw [isSubset_iff] at hba ⊢
  intro name hname
  refine (hba name ?_).symm
  have hmem : name ∈ b.map Label.name := by
    simpa [labelNamed, List.find?_isSome] using hname
  have hmem' := hperm.mem_iff.2 hmem
  simpa [labelNamed, List.find?_isSome] using hmem'

/-! ## What is read, in any order -/

/-- What is found does not depend on the order, when everything that could be found is the same. -/
theorem find?_perm {A B : Type} {p : A → Bool} {f : A → B} {l l' : List A} (hperm : l.Perm l')
    (hsame : ∀ a ∈ l', ∀ b ∈ l', p a = true → p b = true → f a = f b) :
    (l.find? p).map f = (l'.find? p).map f := by
  cases hl : l.find? p with
  | none =>
    have hnone : l'.find? p = none := by
      rw [List.find?_eq_none] at hl ⊢
      exact fun a ha => hl a (hperm.mem_iff.2 ha)
    rw [hnone]
  | some a =>
    have ha := List.mem_of_find?_eq_some hl
    have hpa := List.find?_some hl
    cases hl' : l'.find? p with
    | none =>
      rw [List.find?_eq_none] at hl'
      exact absurd hpa (hl' a (hperm.mem_iff.1 ha))
    | some b =>
      rw [Option.map_some, Option.map_some]
      rw [hsame a (hperm.mem_iff.1 ha) b (List.mem_of_find?_eq_some hl') hpa
        (List.find?_some hl')]

/-- A name resolves in any order of the results. -/
theorem lookupFold_perm {A : Type} {simpleFold : Char → Char} {m m' : List (String × A)}
    (hperm : m'.Perm m) (hkeys : (m.map Prod.fst).Nodup) {name : String}
    (hone : m.lookup name = none → ∀ e ∈ m, ∀ e' ∈ m, equalFold simpleFold e.1 name = true →
      equalFold simpleFold e'.1 name = true → e.1 = e'.1) :
    lookupFold simpleFold m' name = lookupFold simpleFold m name := by
  have hkeys' : (m'.map Prod.fst).Nodup := (hperm.map Prod.fst).nodup_iff.2 hkeys
  have hlookup : m'.lookup name = m.lookup name := by
    refine Option.ext fun a => ?_
    rw [← mem_iff_lookup hkeys', ← mem_iff_lookup hkeys]
    exact hperm.mem_iff
  rw [lookupFold, lookupFold, hlookup]
  cases hname : m.lookup name with
  | some a => rfl
  | none =>
    refine find?_perm hperm fun a ha b hb hpa hpb => ?_
    have hab := hone hname a ha b hb hpa hpb
    have hsecond := (mem_iff_lookup hkeys).1 (show (a.1, a.2) ∈ m from ha)
    rw [hab, (mem_iff_lookup hkeys).1 (show (b.1, b.2) ∈ m from hb)] at hsecond
    exact (Option.some.inj hsecond).symm

theorem seriesOfVariable_eq (simpleFold : Char → Char)
    (timeSeriesData : List (String × TimeSeriesData V)) (v : String) (ref : AggregationRef) :
    seriesOfVariable simpleFold timeSeriesData v ref =
      (seriesFor simpleFold timeSeriesData ref).mapIdx fun i s =>
        (buildSeriesKey v i s.labels, s) := by
  rw [seriesOfVariable, seriesFor]
  cases lookupFold simpleFold timeSeriesData ref.queryName with
  | none => rfl
  | some d =>
    cases hbucket : targetBucket d ref with
    | none => simp [hbucket]
    | some bucket => simp [hbucket]

/-- The references are those of the variables. -/
theorem parseReferences_some : ∀ {vars : List String} {refs : List (String × AggregationRef)},
    parseReferences vars = some refs →
      (refs.map Prod.fst).Nodup ∧ ∀ v, v ∈ refs.map Prod.fst ↔ v ∈ vars := by
  intro vars
  induction vars with
  | nil =>
    intro refs h
    obtain rfl : [] = refs := Option.some.inj h
    simp
  | cons v vars ih =>
    intro refs h
    rw [parseReferences] at h
    simp only [Option.bind_eq_bind, Option.pure_def, Option.bind_eq_some_iff,
      Option.some.injEq] at h
    obtain ⟨ref, -, rest, hrest, rfl⟩ := h
    obtain ⟨hnodup, hmem⟩ := ih hrest
    have hfilter : ((rest.filter fun p => p.1 ≠ v).map Prod.fst) =
        (rest.map Prod.fst).filter fun w => w ≠ v := by
      rw [List.filter_map]
      rfl
    rw [List.map_cons, hfilter]
    refine ⟨List.nodup_cons.2 ⟨by simp, hnodup.filter _⟩, fun w => ?_⟩
    rw [List.mem_cons, List.mem_cons, List.mem_filter, hmem]
    by_cases hw : w = v <;> simp [hw]

/-- What a new evaluator consists of. -/
theorem newFormulaEvaluator_some {lib : Govaluate V} {simpleFold : Char → Char}
    {expressionStr : String} {canDefaultZero : List (String × Bool)} {fe : FormulaEvaluator}
    (h : newFormulaEvaluator lib simpleFold expressionStr canDefaultZero = some fe) :
    (fe.aggRefs.map Prod.fst).Nodup ∧ ∀ v, v ∈ fe.aggRefs.map Prod.fst ↔ v ∈ fe.vars := by
  rw [newFormulaEvaluator] at h
  simp only [Option.bind_eq_bind, Option.pure_def, Option.bind_eq_some_iff, Option.some.injEq] at h
  obtain ⟨vars, -, refs, hrefs, rfl⟩ := h
  exact parseReferences_some hrefs

/-- The lookup, one entry for each referenced series. -/
def FormulaEvaluator.canonicalLookup (fe : FormulaEvaluator) (simpleFold : Char → Char)
    (timeSeriesData : List (String × TimeSeriesData V)) : SeriesLookup V :=
  fe.aggRefs.flatMap fun p => (seriesFor simpleFold timeSeriesData p.2).mapIdx fun i s =>
    (buildSeriesKey p.1 i s.labels, ⟨s, s.values⟩)

section Reading

variable {fe : FormulaEvaluator} {simpleFold : Char → Char}
  {timeSeriesData : List (String × TimeSeriesData V)}

theorem mem_canonicalLookup {e : String × SeriesEntry V} :
    e ∈ fe.canonicalLookup simpleFold timeSeriesData ↔
      ∃ p ∈ fe.aggRefs, ∃ i s, (seriesFor simpleFold timeSeriesData p.2)[i]? = some s ∧
        e = (buildSeriesKey p.1 i s.labels, ⟨s, s.values⟩) := by
  rw [FormulaEvaluator.canonicalLookup, List.mem_flatMap]
  constructor
  · rintro ⟨p, hp, he⟩
    obtain ⟨i, hi, rfl⟩ := List.mem_mapIdx.1 he
    exact ⟨p, hp, i, _, List.getElem?_eq_getElem hi, rfl⟩
  · rintro ⟨p, hp, i, s, hs, rfl⟩
    obtain ⟨hi, rfl⟩ := List.getElem?_eq_some_iff.1 hs
    exact ⟨p, hp, List.mem_mapIdx.2 ⟨i, hi, rfl⟩⟩

/-- No variable goes on from another one with a bar, as the keys of its series do. -/
def FormulaEvaluator.BarsApart (fe : FormulaEvaluator) : Prop :=
  ∀ p ∈ fe.aggRefs, ∀ p' ∈ fe.aggRefs, p.1 ≠ p'.1 → hasPrefix p'.1 (p.1 ++ "|") = false

/-- Keys of different variables are different, and a search for one does not find the other. -/
theorem FormulaEvaluator.BarsApart.variable_eq (h : fe.BarsApart)
    {p p' : String × AggregationRef} (hp : p ∈ fe.aggRefs) (hp' : p' ∈ fe.aggRefs) {i : Nat}
    {labels : List Label} (hfound : hasPrefix (buildSeriesKey p.1 i labels) (p'.1 ++ "|") = true) :
    p.1 = p'.1 := by
  by_contra hne
  rcases key_hasPrefix hfound with heq | hbar | hbar
  · exact hne heq
  · rw [h p' hp' p hp (Ne.symm hne)] at hbar
    cases hbar
  · rw [h p hp p' hp' hne] at hbar
    cases hbar

theorem nodup_keys_canonicalLookup (hrefs : (fe.aggRefs.map Prod.fst).Nodup)
    (h : fe.BarsApart) :
    ((fe.canonicalLookup simpleFold timeSeriesData).map Prod.fst).Nodup := by
  rw [FormulaEvaluator.canonicalLookup, List.map_flatMap, List.nodup_flatMap]
  constructor
  · intro p _
    rw [List.nodup_iff_getElem?_ne_getElem?]
    intro i j hij hj heq
    simp only [List.length_map, List.length_mapIdx] at hj
    simp only [List.getElem?_map, List.getElem?_mapIdx, List.getElem?_eq_getElem hj,
      List.getElem?_eq_getElem (Nat.lt_trans hij hj), Option.map_some, Option.some.injEq] at heq
    have := buildSeriesKey_position heq
    omega
  · refine (List.pairwise_map.1 hrefs).imp_of_mem fun {p p'} hp hp' hne k hk hk' => ?_
    obtain ⟨e, he, rfl⟩ := List.mem_map.1 hk
    obtain ⟨e', he', heq⟩ := List.mem_map.1 hk'
    obtain ⟨i, hi, rfl⟩ := List.mem_mapIdx.1 he
    obtain ⟨j, hj, rfl⟩ := List.mem_mapIdx.1 he'
    have hfound : hasPrefix (buildSeriesKey p.1 i
        (seriesFor simpleFold timeSeriesData p.2)[i].labels) (p'.1 ++ "|") = true := by
      rw [← show _ = buildSeriesKey p.1 i _ from heq]
      exact key_hasPrefix_self _ _ _
    exact hne (h.variable_eq hp hp' hfound)

/-- The lookup, from the series filed in it. -/
theorem canonicalLookup_eq_map : fe.canonicalLookup simpleFold timeSeriesData =
    (fe.aggRefs.flatMap fun p => (seriesFor simpleFold timeSeriesData p.2).mapIdx
      fun i s => (buildSeriesKey p.1 i s.labels, s)).map
        fun e => (e.1, (⟨e.2, e.2.values⟩ : SeriesEntry V)) := by
  rw [FormulaEvaluator.canonicalLookup, List.map_flatMap]
  refine List.flatMap_congr fun p _ => ?_
  apply List.ext_getElem?
  intro i
  rw [List.getElem?_mapIdx, List.getElem?_map, List.getElem?_mapIdx, Option.map_map]
  rfl

/-- The labels in the lookup are the referenced ones. -/
theorem labels_canonicalLookup : (fe.canonicalLookup simpleFold timeSeriesData).map
    (fun p => p.2.series.labels) = fe.referencedLabels simpleFold timeSeriesData := by
  rw [FormulaEvaluator.canonicalLookup, FormulaEvaluator.referencedLabels, List.map_flatMap]
  refine List.flatMap_congr fun p _ => ?_
  apply List.ext_getElem?
  intro i
  rw [List.getElem?_map, List.getElem?_mapIdx, List.getElem?_map, Option.map_map]
  rfl

/-- The lookup is the same in any order, up to the order of its entries. -/
theorem buildSeriesLookupIn_perm (o : WalkOrders V) (hrefs : (fe.aggRefs.map Prod.fst).Nodup)
    (hdata : (timeSeriesData.map Prod.fst).Nodup) (h : fe.ReadsApart simpleFold timeSeriesData) :
    (fe.buildSeriesLookupIn o simpleFold timeSeriesData).Perm
      (fe.canonicalLookup simpleFold timeSeriesData) := by
  have hperm := o.refs_perm fe.aggRefs
  have hitems : ((o.refs fe.aggRefs).flatMap fun p =>
      seriesOfVariable simpleFold (o.data p.1 timeSeriesData) p.1 p.2) =
      (o.refs fe.aggRefs).flatMap fun p => (seriesFor simpleFold timeSeriesData p.2).mapIdx
        fun i s => (buildSeriesKey p.1 i s.labels, s) := by
    refine List.flatMap_congr fun p hp => ?_
    have hname := lookupFold_perm (o.data_perm p.1 timeSeriesData) hdata
      (h.names p (hperm.mem_iff.1 hp))
    rw [seriesOfVariable_eq, seriesFor, seriesFor, hname]
  have hflat := hperm.flatMap_right fun p => (seriesFor simpleFold timeSeriesData p.2).mapIdx
    fun i s => (buildSeriesKey p.1 i s.labels, s)
  have hnodup : ((fe.canonicalLookup simpleFold timeSeriesData).map Prod.fst).Nodup :=
    nodup_keys_canonicalLookup hrefs h.bars
  rw [canonicalLookup_eq_map, List.map_map] at hnodup
  rw [FormulaEvaluator.buildSeriesLookupIn, hitems, accumulate_of_nodup, List.nil_append,
    canonicalLookup_eq_map]
  · exact hflat.map _
  · rw [List.map_nil, List.nil_append]
    exact ((hflat.map Prod.fst).nodup_iff).2 hnodup

/-- A variable reads the points of its matching series, in whatever order the lookup is walked. -/
theorem variableData_eq (hrefs : (fe.aggRefs.map Prod.fst).Nodup)
    (hlabels : fe.WellLabelled simpleFold timeSeriesData)
    (h : fe.ReadsApart simpleFold timeSeriesData) {lookup : SeriesLookup V}
    (hperm : lookup.Perm (fe.canonicalLookup simpleFold timeSeriesData)) (labels : List Label)
    {v : String} (hv : v ∈ fe.aggRefs.map Prod.fst) :
    variableData lookup labels v = fe.matchingPoints simpleFold timeSeriesData labels v := by
  obtain ⟨⟨v, ref⟩, hp, rfl⟩ := List.mem_map.1 hv
  have hfound : ∀ e ∈ fe.canonicalLookup simpleFold timeSeriesData,
      (hasPrefix e.1 (v ++ "|") && isSubset labels e.2.series.labels) = true →
      ∃ i : Nat, (seriesFor simpleFold timeSeriesData ref)[i]? = some e.2.series ∧
        isSubset labels e.2.series.labels = true ∧ e.2.data = e.2.series.values := by
    intro e he hfind
    obtain ⟨p', hp', i, s, hs, rfl⟩ := mem_canonicalLookup.1 he
    rw [Bool.and_eq_true] at hfind
    have hsame := FormulaEvaluator.BarsApart.variable_eq h.bars hp' hp hfind.1
    have href : p'.2 = ref := by
      have h₁ := (mem_iff_lookup hrefs).1 (show (p'.1, p'.2) ∈ fe.aggRefs from hp')
      rw [hsame, (mem_iff_lookup hrefs).1 hp] at h₁
      exact (Option.some.inj h₁).symm
    exact ⟨i, href ▸ hs, hfind.2, rfl⟩
  -- one series of the variable matches at most
  have hunique : ∀ (i j : Nat) (s s' : TimeSeries V),
      (seriesFor simpleFold timeSeriesData ref)[i]? = some s →
      (seriesFor simpleFold timeSeriesData ref)[j]? = some s' →
      isSubset labels s.labels = true → isSubset labels s'.labels = true → s = s' := by
    intro i j s s' hs hs' hsub hsub'
    obtain ⟨hnames, hdistinct⟩ := hlabels (v, ref) hp
    have hsame : SameLabels s.labels s'.labels := by
      intro name
      rw [isSubset_iff] at hsub hsub'
      have hname := hnames s (List.mem_of_getElem? hs) s' (List.mem_of_getElem? hs') name
      by_cases hsome : (labelNamed s.labels name).isSome
      · rw [← hsub name hsome, ← hsub' name (hname ▸ hsome)]
      · have hsome' : ¬ (labelNamed s'.labels name).isSome := hname ▸ hsome
        rw [Option.not_isSome_iff_eq_none.1 hsome, Option.not_isSome_iff_eq_none.1 hsome']
    by_contra hne
    obtain ⟨hi, rfl⟩ := List.getElem?_eq_some_iff.1 hs
    obtain ⟨hj, rfl⟩ := List.getElem?_eq_some_iff.1 hs'
    rcases Nat.lt_trichotomy i j with hij | rfl | hij
    · exact List.pairwise_iff_getElem.1 hdistinct i j hi hj hij hsame
    · exact hne rfl
    · exact List.pairwise_iff_getElem.1 hdistinct j i hj hi hij fun name => (hsame name).symm
  have hread := find?_perm (f := fun e => e.2.data) hperm fun e he e' he' hfind hfind' => by
    obtain ⟨i, hs, hsub, hdata⟩ := hfound e he hfind
    obtain ⟨j, hs', hsub', hdata'⟩ := hfound e' he' hfind'
    rw [hdata, hdata', hunique i j _ _ hs hs' hsub hsub']
  have hvariable : variableData lookup labels v = ((lookup.find? fun e =>
      hasPrefix e.1 (v ++ "|") && isSubset labels e.2.series.labels).map
        fun e => e.2.data).getD [] := by
    rw [variableData]
    split
    · next e he => rw [he]; rfl
    · next he => rw [he]; rfl
  rw [hvariable, hread, FormulaEvaluator.matchingPoints, (mem_iff_lookup hrefs).1 hp]
  simp only
  cases hmatch : (seriesFor simpleFold timeSeriesData ref).find?
      fun s => isSubset labels s.labels with
  | none =>
    have hnone : (fe.canonicalLookup simpleFold timeSeriesData).find? (fun e =>
        hasPrefix e.1 (v ++ "|") && isSubset labels e.2.series.labels) = none := by
      rw [List.find?_eq_none]
      intro e he hfind
      obtain ⟨i, hs, hsub, -⟩ := hfound e he hfind
      exact List.find?_eq_none.1 hmatch _ (List.mem_of_getElem? hs) hsub
    rw [hnone]
    rfl
  | some s =>
    obtain ⟨i, hs⟩ := List.getElem?_of_mem (List.mem_of_find?_eq_some hmatch)
    have hsub := List.find?_some hmatch
    have hmem : (buildSeriesKey v i s.labels, (⟨s, s.values⟩ : SeriesEntry V)) ∈
        fe.canonicalLookup simpleFold timeSeriesData :=
      mem_canonicalLookup.2 ⟨(v, ref), hp, i, s, hs, rfl⟩
    cases hfind : (fe.canonicalLookup simpleFold timeSeriesData).find? (fun e =>
        hasPrefix e.1 (v ++ "|") && isSubset labels e.2.series.labels) with
    | none =>
      rw [List.find?_eq_none] at hfind
      refine absurd ?_ (hfind _ hmem)
      rw [Bool.and_eq_true]
      exact ⟨key_hasPrefix_self _ _ _, hsub⟩
    | some e =>
      have hpred := List.find?_some hfind
      obtain ⟨j, hs', hsub', hdata⟩ := hfound e (List.mem_of_find?_eq_some hfind) hpred
      rw [Option.map_some, Option.getD_some, hdata, hunique j i _ _ hs' hs hsub' hsub]

end Reading

end

end Signoz.Querier
