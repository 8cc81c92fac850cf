import Signoz.Querier.FormulaDefaults

/-!
# Formulas read in order

What a new evaluator holds for each variable (`mem_aggRefs_iff`, `lookup_canDefaultZero`), and its
evaluation with every map in order. As long as no variable goes on from another one with a bar, a
variable reads its first matching series (`variableData_canonicalLookup`), and the result has a
series for each label set of `uniqueLabelSets` at most (`evaluateFormula_eq`). Nothing is asked of
the labels of the series or of the names of the results.
-/

namespace Signoz.Querier

open Lib.KeyedFold Lib.GreedyCover

/-! ## What a new evaluator holds -/

theorem mem_parseReferences : ∀ {vars : List String} {refs : List (String × AggregationRef)},
    parseReferences vars = some refs → ∀ p : String × AggregationRef,
      p ∈ refs ↔ p.1 ∈ vars ∧ parseAggregationReference p.1 = some p.2 := by
  intro vars
  induction vars with
  | nil =>
    intro refs h p
    obtain rfl : [] = refs := Option.some.inj h
    simp
  | cons v vars ih =>
    intro refs h p
    rw [parseReferences] at h
    simp only [Option.bind_eq_bind, Option.pure_def, Option.bind_eq_some_iff,
      Option.some.injEq] at h
    obtain ⟨ref, href, rest, hrest, rfl⟩ := h
    rw [List.mem_cons, List.mem_filter, ih hrest, List.mem_cons, decide_eq_true_eq]
    by_cases hv : p.1 = v
    · -- the entry of the first variable is its own
      rw [hv, href]
      constructor
      · rintro (rfl | ⟨-, hne⟩)
        · exact ⟨.inl rfl, rfl⟩
        · exact absurd rfl hne
      · rintro ⟨-, hsame⟩
        exact .inl (Prod.ext hv (Option.some.inj hsame).symm)
    · constructor
      · rintro (rfl | ⟨h, -⟩)
        · exact absurd rfl hv
        · exact ⟨.inr h.1, h.2⟩
      · rintro ⟨hmem, hsame⟩
        exact .inr ⟨⟨hmem.resolve_left hv, hsame⟩, hv⟩

theorem parseReferences_isSome : ∀ {vars : List String},
    (parseReferences vars).isSome ↔ ∀ v ∈ vars, (parseAggregationReference v).isSome := by
  intro vars
  induction vars with
  | nil => simp [parseReferences]
  | cons v vars ih =>
    rw [List.forall_mem_cons, ← ih, parseReferences]
    cases parseAggregationReference v with
    | none => simp
    | some ref => cases parseReferences vars <;> simp

/-- The label sets of all variables, of which repeated ones are left out, whether they come with the
references or with the variables. -/
theorem keepUncovered_references (block : AggregationRef → List (List Label)) :
    ∀ {vars : List String} {refs : List (String × AggregationRef)} (a : List (List Label)),
      parseReferences vars = some refs →
      keepUncovered isSubset ((a ++ refs.flatMap fun p => block p.2).insertionSort
        fun a b => b.length ≤ a.length) =
      keepUncovered isSubset ((a ++ vars.flatMap fun v =>
        ((parseAggregationReference v).map block).getD []).insertionSort
          fun a b => b.length ≤ a.length) := by
  have : Std.Total fun a b : List Label => b.length ≤ a.length :=
    ⟨fun a b => Nat.le_total b.length a.length⟩
  have : IsTrans (List Label) fun a b => b.length ≤ a.length :=
    ⟨fun _ _ _ hab hbc => Nat.le_trans hbc hab⟩
  intro vars
  induction vars with
  | nil =>
    intro refs a h
    obtain rfl : [] = refs := Option.some.inj h
    rfl
  | cons v vars ih =>
    intro refs a h
    rw [parseReferences] at h
    simp only [Option.bind_eq_bind, Option.pure_def, Option.bind_eq_some_iff,
      Option.some.injEq] at h
    obtain ⟨ref, href, rest, hrest, rfl⟩ := h
    rw [List.flatMap_cons, List.flatMap_cons, href, Option.map_some, Option.getD_some,
      ← List.append_assoc, ← List.append_assoc, ← ih (a ++ block ref) hrest]
    -- the references that were left out are that of the first variable again
    refine keepUncovered_flatMap_filter _ isSubset_refl _ _ rest _ ?_
    intro p hp hdrop labels hlabels
    obtain ⟨-, hsame⟩ := (mem_parseReferences hrest p).1 hp
    have hv : p.1 = v := by simpa using hdrop
    rw [hv, href, Option.some.injEq] at hsame
    exact List.mem_append_right a (hsame ▸ hlabels)

section

variable {V : Type} {lib : Govaluate V} {simpleFold : Char → Char} {expressionStr : String}
  {canDefaultZero : List (String × Bool)} {fe : FormulaEvaluator}

theorem newFormulaEvaluator_eq_some_iff :
    newFormulaEvaluator lib simpleFold expressionStr canDefaultZero = some fe ↔
      ∃ vars refs, lib.vars expressionStr = some vars ∧ parseReferences vars = some refs ∧
        fe = ⟨expressionStr, vars, vars.filterMap fun v =>
          (lookupFold simpleFold canDefaultZero v).map fun b => (v, b), refs⟩ := by
  rw [newFormulaEvaluator]
  simp only [Option.bind_eq_bind, Option.pure_def, Option.bind_eq_some_iff, Option.some.injEq]
  constructor
  · rintro ⟨vars, hvars, refs, hrefs, rfl⟩
    exact ⟨vars, refs, hvars, hrefs, rfl⟩
  · rintro ⟨vars, refs, hvars, hrefs, rfl⟩
    exact ⟨vars, hvars, refs, hrefs, rfl⟩

variable (h : newFormulaEvaluator lib simpleFold expressionStr canDefaultZero = some fe)

include h

theorem expression_eq : fe.expression = expressionStr ∧ lib.vars expressionStr = some fe.vars ∧
    parseReferences fe.vars = some fe.aggRefs := by
  obtain ⟨vars, refs, hvars, hrefs, rfl⟩ := newFormulaEvaluator_eq_some_iff.1 h
  exact ⟨rfl, hvars, hrefs⟩

/-- Every variable has the reference that its text says. -/
theorem mem_aggRefs_iff (p : String × AggregationRef) :
    p ∈ fe.aggRefs ↔ p.1 ∈ fe.vars ∧ parseAggregationReference p.1 = some p.2 :=
  mem_parseReferences (expression_eq h).2.2 p

/-- The default of a variable is that of its whole text. -/
theorem lookup_canDefaultZero {v : String} (hv : v ∈ fe.vars) :
    fe.canDefaultZero.lookup v = lookupFold simpleFold canDefaultZero v := by
  obtain ⟨vars, refs, -, -, rfl⟩ := newFormulaEvaluator_eq_some_iff.1 h
  clear h
  simp only at hv ⊢
  induction vars with
  | nil => cases hv
  | cons w vars ih =>
    rw [List.filterMap_cons]
    by_cases hw : v = w
    · subst hw
      cases hlookup : lookupFold simpleFold canDefaultZero v with
      | some b => simp
      | none =>
        -- no entry of the variable is made at any of its occurrences
        simp only [Option.map_none]
        refine lookup_eq_none_of_notMem fun hmem => ?_
        obtain ⟨p, hp, rfl⟩ := List.mem_map.1 hmem
        obtain ⟨u, -, hu⟩ := List.mem_filterMap.1 hp
        obtain ⟨b, hb, rfl⟩ := Option.map_eq_some_iff.1 hu
        rw [hlookup] at hb
        cases hb
    · have hrest := ih ((List.mem_cons.1 hv).resolve_left hw)
      cases lookupFold simpleFold canDefaultZero w with
      | none => exact hrest
      | some b =>
        simp only [Option.map_some]
        rw [List.lookup_cons, beq_eq_false_iff_ne.2 hw]
        exact hrest

end

/-! ## Reading a variable -/

section

variable {V : Type} {fe : FormulaEvaluator} {simpleFold : Char → Char}
  {timeSeriesData : List (String × TimeSeriesData V)}

theorem buildSeriesLookup_eq (hrefs : (fe.aggRefs.map Prod.fst).Nodup) (h : fe.BarsApart) :
    fe.buildSeriesLookup simpleFold timeSeriesData =
      fe.canonicalLookup simpleFold timeSeriesData := by
  have hnodup : ((fe.canonicalLookup simpleFold timeSeriesData).map Prod.fst).Nodup :=
    nodup_keys_canonicalLookup hrefs h
  have hitems : (fe.aggRefs.flatMap fun p => seriesOfVariable simpleFold timeSeriesData p.1 p.2) =
      fe.aggRefs.flatMap fun p => (seriesFor simpleFold timeSeriesData p.2).mapIdx
        fun i s => (buildSeriesKey p.1 i s.labels, s) :=
    List.flatMap_congr fun p _ => seriesOfVariable_eq simpleFold timeSeriesData p.1 p.2
  rw [canonicalLookup_eq_map, List.map_map] at hnodup
  rw [FormulaEvaluator.buildSeriesLookup, hitems, accumulate_of_nodup, List.nil_append,
    canonicalLookup_eq_map]
  rw [List.map_nil, List.nil_append]
  exact hnodup

/-- Searching by the element alone, the positions do not matter. -/
theorem find?_mapIdx {A B C : Type} {p : B → Bool} {q : A → Bool} {g : B → C} {k : A → C} :
    ∀ (l : List A) (f : Nat → A → B), (∀ i a, p (f i a) = q a) → (∀ i a, g (f i a) = k a) →
      ((l.mapIdx f).find? p).map g = (l.find? q).map k := by
  intro l
  induction l with
  | nil => intro f _ _; rfl
  | cons a l ih =>
    intro f hp hg
    rw [List.mapIdx_cons, List.find?_cons, List.find?_cons, hp]
    cases q a with
    | true => rw [Option.map_some, Option.map_some, hg]
    | false => exact ih _ (fun i b => hp (i + 1) b) fun i b => hg (i + 1) b

/-- Where one entry of a list counts, the first result is that of the entry. -/
theorem findSome?_of_forall {A B : Type} {f : A → Option B} {a : A} :
    ∀ {l : List A}, a ∈ l → (∀ b ∈ l, b ≠ a → f b = none) → l.findSome? f = f a := by
  intro l
  induction l with
  | nil => intro ha _; cases ha
  | cons b l ih =>
    intro ha hnone
    rw [List.findSome?_cons]
    have hrest : ∀ c ∈ l, c ≠ a → f c = none := fun c hc => hnone c (List.mem_cons_of_mem b hc)
    cases hb : f b with
    | some x =>
      have hab : b = a := by
        by_contra hne
        rw [hnone b List.mem_cons_self hne] at hb
        cases hb
      rw [← hab, hb]
    | none =>
      by_cases hl : a ∈ l
      · exact ih hl hrest
      · obtain rfl : a = b := (List.mem_cons.1 ha).resolve_right hl
        rw [hb, List.findSome?_eq_none_iff]
        exact fun c hc => hrest c hc fun hca => hl (hca ▸ hc)

/-- A variable reads its first matching series. -/
theorem variableData_canonicalLookup (hrefs : (fe.aggRefs.map Prod.fst).Nodup) (h : fe.BarsApart)
    (labels : List Label) {v : String} (hv : v ∈ fe.aggRefs.map Prod.fst) :
    variableData (fe.canonicalLookup simpleFold timeSeriesData) labels v =
      fe.matchingPoints simpleFold timeSeriesData labels v := by
  obtain ⟨⟨v, ref⟩, hp, rfl⟩ := List.mem_map.1 hv
  have hfind : (fe.canonicalLookup simpleFold timeSeriesData).find? (fun e =>
      hasPrefix e.1 (v ++ "|") && isSubset labels e.2.series.labels) =
      ((seriesFor simpleFold timeSeriesData ref).mapIdx fun i s =>
        (buildSeriesKey v i s.labels, (⟨s, s.values⟩ : SeriesEntry V))).find? fun e =>
          hasPrefix e.1 (v ++ "|") && isSubset labels e.2.series.labels := by
    rw [FormulaEvaluator.canonicalLookup, List.find?_flatMap]
    refine findSome?_of_forall (a := (v, ref)) hp fun p' hp' hne => ?_
    -- the series of another variable are not found
    rw [List.find?_eq_none]
    intro e he hfound
    obtain ⟨i, hi, rfl⟩ := List.mem_mapIdx.1 he
    have hsame := h.variable_eq hp' hp (Bool.and_eq_true_iff.1 hfound).1
    have hsecond := (mem_iff_lookup hrefs).1 (show (p'.1, p'.2) ∈ fe.aggRefs from hp')
    rw [hsame, (mem_iff_lookup hrefs).1 hp] at hsecond
    exact hne (Prod.ext hsame (Option.some.inj hsecond).symm)
  have hdata := find?_mapIdx (p := fun e : String × SeriesEntry V =>
      hasPrefix e.1 (v ++ "|") && isSubset labels e.2.series.labels)
    (q := fun s : TimeSeries V => isSubset labels s.labels)
    (g := fun e : String × SeriesEntry V => e.2.data) (k := TimeSeries.values)
    (seriesFor simpleFold timeSeriesData ref)
    (fun i s => (buildSeriesKey v i s.labels, (⟨s, s.values⟩ : SeriesEntry V)))
    (fun i s => by rw [key_hasPrefix_self, Bool.true_and]) fun i s => rfl
  rw [← hfind] at hdata
  rw [variableData, FormulaEvaluator.matchingPoints, (mem_iff_lookup hrefs).1 hp]
  simp only
  cases hmatch : (seriesFor simpleFold timeSeriesData ref).find?
      fun s => isSubset labels s.labels with
  | none =>
    rw [hmatch, Option.map_none, Option.map_eq_none_iff] at hdata
    rw [hdata]
  | some s =>
    rw [hmatch, Option.map_some, Option.map_eq_some_iff] at hdata
    obtain ⟨e, he, hvalues⟩ := hdata
    rw [he]
    exact hvalues

/-- The label sets that are evaluated: the referenced ones that no earlier and larger one covers. -/
def FormulaEvaluator.uniqueLabelSets (fe : FormulaEvaluator) (simpleFold : Char → Char)
    (timeSeriesData : List (String × TimeSeriesData V)) : List (List Label) :=
  keepUncovered isSubset ((fe.referencedLabels simpleFold timeSeriesData).insertionSort
    fun a b => b.length ≤ a.length)

variable [Float64 V] {lib : Govaluate V}

/-- The result of a formula: each label set evaluated on the matching series of the variables. -/
theorem evaluateFormula_eq (hrefs : (fe.aggRefs.map Prod.fst).Nodup)
    (hvars : ∀ v, v ∈ fe.aggRefs.map Prod.fst ↔ v ∈ fe.vars) (h : fe.BarsApart) :
    fe.evaluateFormula lib simpleFold timeSeriesData =
      (fe.uniqueLabelSets simpleFold timeSeriesData).filterMap fun labels =>
        fe.evaluateFor lib (fe.matchingPoints simpleFold timeSeriesData labels) labels := by
  have hlookup : fe.buildSeriesLookupIn .inOrder simpleFold timeSeriesData =
      fe.canonicalLookup simpleFold timeSeriesData := buildSeriesLookup_eq hrefs h
  rw [← evaluateFormulaIn_inOrder, FormulaEvaluator.evaluateFormulaIn, hlookup,
    labels_canonicalLookup]
  refine List.filterMap_congr fun labels _ => ?_
  refine evaluateFor_congr hvars (fun v hv => ?_) labels
  exact variableData_canonicalLookup hrefs h labels ((hvars v).2 hv)

end

end Signoz.Querier
