import Signoz.Querier.PostProcess

/-!
# The order in which formulas are processed

`applyFormulas` ranges over a map of formulas and stores each result in the map that the next
formula reads, so a formula that names another formula of the request sees its result or does not,
as the order has it. When every variable of every formula resolves to the result of a query and
not to that of another formula (`FormulasApart`), each formula computes what it computes on the
base results (`lookup_applyFormulas`), and the order does not matter
(`applyFormulas_order_irrelevant`).
-/

namespace Signoz.Querier

open Lib.KeyedFold

section

variable {V : Type}

/-! ## Resolving a name in the results -/

variable {results : Results V}

theorem lookup_dataOf (kind : Payload V → Option (TimeSeriesData V))
    (hkeys : (results.map Prod.fst).Nodup) (q : String) :
    (dataOf kind results).lookup q = (results.lookup q).bind kind := by
  induction results with
  | nil => rfl
  | cons p rest ih =>
    obtain ⟨n, value⟩ := p
    rw [List.map_cons, List.nodup_cons] at hkeys
    have ih' := ih hkeys.2
    by_cases hq : q = n
    · subst hq
      have hrest : rest.lookup q = none := lookup_eq_none_of_notMem hkeys.1
      cases hv : kind value with
      | none => simpa [dataOf, List.lookup_cons, hv, hrest] using ih'
      | some d => simp [dataOf, hv]
    · have hq' : (q == n) = false := beq_eq_false_iff_ne.2 hq
      cases hv : kind value with
      | none => simpa [dataOf, List.lookup_cons, hv, hq'] using ih'
      | some d => simpa [dataOf, List.lookup_cons, hv, hq'] using ih'

/-- Setting a name that a search passes over does not change what the search finds. -/
theorem find?_dataOf_set (kind : Payload V → Option (TimeSeriesData V)) {m : String}
    {P : String → Bool} (hm : P m = false) (value : Payload V) (results : Results V) :
    ((dataOf kind (results.set m value)).find? fun p => P p.1) =
      (dataOf kind results).find? fun p => P p.1 := by
  induction results with
  | nil => cases hv : kind value <;> simp [Results.set, upsertWith, dataOf, hv, hm]
  | cons p rest ih =>
    obtain ⟨n, old⟩ := p
    by_cases hn : n = m
    · subst hn
      cases hv : kind value <;> cases ho : kind old <;>
        simp [Results.set, upsertWith, dataOf, hv, ho, hm]
    · have hstep : Results.set ((n, old) :: rest) m value = (n, old) :: Results.set rest m value := by
        simp [Results.set, upsertWith, hn]
      rw [hstep]
      cases ho : kind old with
      | none => simpa [dataOf, ho] using ih
      | some d =>
        cases hP : P n with
        | true => simp [dataOf, ho, hP]
        | false => simpa [dataOf, ho, hP] using ih

/-- Setting a name does not change what another name resolves to, if that one is there itself or
does not match the name that is set. -/
theorem lookupFold_dataOf_set (kind : Payload V → Option (TimeSeriesData V))
    (simpleFold : Char → Char) (hkeys : (results.map Prod.fst).Nodup) {m q : String} (hne : q ≠ m)
    (value : Payload V)
    (h : ((results.lookup q).bind kind).isSome ∨ equalFold simpleFold m q = false) :
    lookupFold simpleFold (dataOf kind (results.set m value)) q =
      lookupFold simpleFold (dataOf kind results) q := by
  have hlookup : (dataOf kind (results.set m value)).lookup q = (dataOf kind results).lookup q := by
    have hkeys' : ((results.set m value).map Prod.fst).Nodup :=
      nodup_keys_upsertWith m value _ hkeys
    rw [lookup_dataOf kind hkeys, lookup_dataOf kind hkeys', Results.set, lookup_upsertWith,
      if_neg hne]
  unfold lookupFold
  rw [hlookup]
  cases hq : (dataOf kind results).lookup q with
  | some d => rfl
  | none =>
    rw [lookup_dataOf kind hkeys] at hq
    have hm : equalFold simpleFold m q = false := h.resolve_left (by simp [hq])
    simp only [find?_dataOf_set kind (P := fun n => equalFold simpleFold n q) hm value results]

/-! ## What one formula reads -/

variable [Float64 V]

/-- A formula depends on the data only through what the names in its variables resolve to. -/
theorem evaluateFormula_congr (fe : FormulaEvaluator) (lib : Govaluate V)
    (simpleFold : Char → Char) {data data' : List (String × TimeSeriesData V)}
    (h : ∀ p ∈ fe.aggRefs, lookupFold simpleFold data p.2.queryName =
      lookupFold simpleFold data' p.2.queryName) :
    fe.evaluateFormula lib simpleFold data = fe.evaluateFormula lib simpleFold data' := by
  have hseries : (fe.aggRefs.flatMap fun p => seriesOfVariable simpleFold data p.1 p.2) =
      fe.aggRefs.flatMap fun p => seriesOfVariable simpleFold data' p.1 p.2 := by
    refine List.flatMap_congr fun p hp => ?_
    unfold seriesOfVariable
    rw [h p hp]
  unfold FormulaEvaluator.evaluateFormula FormulaEvaluator.buildSeriesLookup
  rw [hseries]

/-- The data that formulas of a request read. -/
def dataKind : RequestType → Payload V → Option (TimeSeriesData V)
  | .timeSeries => Payload.timeSeries?
  | .scalar => Payload.scalarSeries?
  | _ => fun _ => none

/-- The evaluator of a formula, if it can be made. -/
def evaluatorOf (env : Environment V) (req : QueryRangeRequest V)
    (formula : QueryBuilderFormula V) : Option FormulaEvaluator :=
  newFormulaEvaluator env.lib env.simpleFold formula.expression
    (req.queriesSupportingZeroDefault env.toLower)

variable {env : Environment V} {req : QueryRangeRequest V}

theorem evaluatorOf_isSome {formula : QueryBuilderFormula V} {value : Payload V}
    (h : processFormula env req results formula = some value) :
    (evaluatorOf env req formula).isSome := by
  unfold processFormula processTimeSeriesFormula processScalarFormula at h
  unfold evaluatorOf
  cases hfe : newFormulaEvaluator env.lib env.simpleFold formula.expression
    (req.queriesSupportingZeroDefault env.toLower) with
  | some fe => rfl
  | none => cases htype : req.requestType <;> simp [hfe, htype] at h

theorem processFormula_congr {results results' : Results V} {formula : QueryBuilderFormula V}
    (h : ∀ fe, evaluatorOf env req formula = some fe → ∀ p ∈ fe.aggRefs,
      lookupFold env.simpleFold (dataOf (dataKind req.requestType) results) p.2.queryName =
        lookupFold env.simpleFold (dataOf (dataKind req.requestType) results') p.2.queryName) :
    processFormula env req results formula = processFormula env req results' formula := by
  unfold processFormula processTimeSeriesFormula processScalarFormula
  unfold evaluatorOf at h
  cases hfe : newFormulaEvaluator env.lib env.simpleFold formula.expression
    (req.queriesSupportingZeroDefault env.toLower) with
  | none =>
    cases req.requestType <;>
      simp only [Option.bind_eq_bind, Option.bind_none, Option.map_none]
  | some fe =>
    have hcongr := evaluateFormula_congr fe env.lib env.simpleFold (h fe hfe)
    cases htype : req.requestType
    case timeSeries =>
      simp only [htype, dataKind] at hcongr
      simp only [Option.bind_eq_bind, Option.bind_some, hcongr]
    case scalar =>
      simp only [htype, dataKind] at hcongr
      simp only [Option.bind_eq_bind, Option.bind_some, hcongr]
    all_goals simp only [Option.map_none]

/-! ## Any order -/

/-- No variable of a formula resolves to the result of another formula: its query name is not the
name of another formula that can be evaluated, and either a query of that name has data or the
names of the other formulas do not match it in another case. -/
def FormulasApart (env : Environment V) (req : QueryRangeRequest V)
    (formulas : List (String × QueryBuilderFormula V)) (results : Results V) : Prop :=
  ∀ p ∈ formulas, ∀ fe, evaluatorOf env req p.2 = some fe → ∀ ref ∈ fe.aggRefs,
    ∀ p' ∈ formulas, p'.1 ≠ p.1 → (evaluatorOf env req p'.2).isSome →
      ref.2.queryName ≠ p'.1 ∧
        (((results.lookup ref.2.queryName).bind (dataKind req.requestType)).isSome ∨
          equalFold env.simpleFold p'.1 ref.2.queryName = false)

theorem nodup_keys_afterFormula (hkeys : (results.map Prod.fst).Nodup)
    (p : String × QueryBuilderFormula V) :
    ((afterFormula env req results p).map Prod.fst).Nodup := by
  unfold afterFormula
  split
  · exact nodup_keys_upsertWith p.1 _ _ hkeys
  · exact hkeys

theorem lookup_afterFormula (env : Environment V) (req : QueryRangeRequest V)
    (results : Results V) (p : String × QueryBuilderFormula V) (q : String) :
    (afterFormula env req results p).lookup q =
      if q = p.1 then (processFormula env req results p.2).or (results.lookup q)
      else results.lookup q := by
  unfold afterFormula
  split
  · rename_i result hresult
    rw [Results.set, lookup_upsertWith, hresult]
    by_cases hq : q = p.1
    · simp only [if_pos hq]
      cases results.lookup p.1 <;> rfl
    · rw [if_neg hq, if_neg hq]
  · rename_i hresult
    rw [hresult, Option.none_or, ite_self]

/-- A formula that is apart from the one just processed computes what it computed before. -/
theorem processFormula_afterFormula (hkeys : (results.map Prod.fst).Nodup)
    {formulas : List (String × QueryBuilderFormula V)}
    (hapart : FormulasApart env req formulas results) {p p' : String × QueryBuilderFormula V}
    (hp : p ∈ formulas) (hp' : p' ∈ formulas) (hne : p'.1 ≠ p.1) :
    processFormula env req (afterFormula env req results p') p.2 =
      processFormula env req results p.2 := by
  unfold afterFormula
  cases hresult : processFormula env req results p'.2 with
  | none => rfl
  | some result =>
    refine processFormula_congr fun fe hfe ref href => ?_
    obtain ⟨hname, hfold⟩ := hapart p hp fe hfe ref href p' hp' hne (evaluatorOf_isSome hresult)
    exact lookupFold_dataOf_set _ env.simpleFold hkeys hname result hfold

theorem FormulasApart.afterFormula {p₀ : String × QueryBuilderFormula V}
    {rest : List (String × QueryBuilderFormula V)} (hnames : ((p₀ :: rest).map Prod.fst).Nodup)
    (hapart : FormulasApart env req (p₀ :: rest) results) :
    FormulasApart env req rest (afterFormula env req results p₀) := by
  intro p hp fe hfe ref href p' hp' hne hsome
  rw [List.map_cons, List.nodup_cons] at hnames
  have hhead : p₀.1 ≠ p.1 := fun heq => hnames.1 (heq ▸ List.mem_map_of_mem hp)
  obtain ⟨hname, hfold⟩ := hapart p (List.mem_cons_of_mem p₀ hp) fe hfe ref href p'
    (List.mem_cons_of_mem p₀ hp') hne hsome
  refine ⟨hname, hfold.imp (fun hdata => ?_) id⟩
  rw [lookup_afterFormula]
  split
  · rename_i heq
    cases hresult : processFormula env req results p₀.2 with
    | none => exact heq ▸ hdata
    | some result =>
      exact absurd heq (hapart p (List.mem_cons_of_mem p₀ hp) fe hfe ref href p₀
        List.mem_cons_self hhead (evaluatorOf_isSome hresult)).1
  · exact hdata

/-- Formulas that are apart each compute what they compute on the base results. -/
theorem lookup_applyFormulas {order : List (String × QueryBuilderFormula V)}
    (hnames : (order.map Prod.fst).Nodup) (hkeys : (results.map Prod.fst).Nodup)
    (hapart : FormulasApart env req order results) (name : String) :
    (applyFormulas env req order results).lookup name =
      ((order.lookup name).bind (processFormula env req results)).or (results.lookup name) := by
  induction order generalizing results with
  | nil => simp [applyFormulas]
  | cons p₀ rest ih =>
    have hcons : applyFormulas env req (p₀ :: rest) results =
      applyFormulas env req rest (afterFormula env req results p₀) := rfl
    have hrest := (List.nodup_cons.1 (List.map_cons ▸ hnames))
    rw [hcons, ih hrest.2 (nodup_keys_afterFormula hkeys p₀) (hapart.afterFormula hnames)]
    by_cases hname : name = p₀.1
    · subst hname
      have hnone : rest.lookup p₀.1 = none := lookup_eq_none_of_notMem hrest.1
      obtain ⟨n, formula⟩ := p₀
      simp [hnone, lookup_afterFormula]
    · have hlookup : (p₀ :: rest).lookup name = rest.lookup name := by
        obtain ⟨n, formula⟩ := p₀
        simp [List.lookup_cons, beq_eq_false_iff_ne.2 hname]
      rw [hlookup, lookup_afterFormula, if_neg hname]
      cases hformula : rest.lookup name with
      | none => simp only [Option.bind_none]
      | some formula =>
        have hmem : (name, formula) ∈ rest := (mem_iff_lookup hrest.2).2 hformula
        have hsame := processFormula_afterFormula hkeys hapart
          (List.mem_cons_of_mem p₀ hmem) List.mem_cons_self (Ne.symm hname)
        rw [Option.bind_some, Option.bind_some, hsame]

omit [Float64 V] in
theorem nodup_keys_formulaQueries (req : QueryRangeRequest V) :
    (req.formulaQueries.map Prod.fst).Nodup :=
  nodup_keys_accumulate _ _ _ List.nodup_nil

/-- Every order of the formulas gives every name the same result. -/
def OrderIrrelevant (env : Environment V) (req : QueryRangeRequest V) (results : Results V) :
    Prop :=
  ∀ order₁ order₂ : List (String × QueryBuilderFormula V), order₁.Perm req.formulaQueries →
    order₂.Perm req.formulaQueries → ∀ name,
      (applyFormulas env req order₁ results).lookup name =
        (applyFormulas env req order₂ results).lookup name

/-- The order of the formulas does not matter when they are apart. -/
theorem applyFormulas_order_irrelevant {env : Environment V} {req : QueryRangeRequest V}
    {results : Results V} (hkeys : (results.map Prod.fst).Nodup)
    (hapart : FormulasApart env req req.formulaQueries results) :
    OrderIrrelevant env req results := by
  have hvalue : ∀ order : List (String × QueryBuilderFormula V),
      order.Perm req.formulaQueries → ∀ name,
        (applyFormulas env req order results).lookup name =
          ((req.formulaQueries.lookup name).bind (processFormula env req results)).or
            (results.lookup name) := by
    intro order hperm name
    have hnames : (order.map Prod.fst).Nodup :=
      (hperm.map Prod.fst).nodup_iff.2 (nodup_keys_formulaQueries req)
    have hsame : order.lookup name = req.formulaQueries.lookup name := by
      refine Option.ext fun formula => ?_
      rw [← mem_iff_lookup hnames, ← mem_iff_lookup (nodup_keys_formulaQueries req)]
      exact hperm.mem_iff
    have hapart' : FormulasApart env req order results :=
      fun p hp fe hfe ref href p' hp' => hapart p (hperm.mem_iff.1 hp) fe hfe ref href p'
        (hperm.mem_iff.1 hp')
    rw [lookup_applyFormulas hnames hkeys hapart', hsame]
  intro order₁ order₂ h₁ h₂ name
  rw [hvalue order₁ h₁, hvalue order₂ h₂]

end

/-! ## A formula of a formula -/

def countA : QuerySpec (Option Rat) :=
  .builder false ⟨"A", false, .expressions ["count()"], 60000, [], 0, []⟩

def formulaOf (name expression : String) : QueryBuilderFormula (Option Rat) :=
  ⟨name, expression, false, [], 0, []⟩

/-- A count and two formulas with the given expressions. -/
def requestOf (expression₁ expression₂ : String) : QueryRangeRequest (Option Rat) :=
  ⟨0, 120000, .timeSeries,
    [countA, .formula (formulaOf "F1" expression₁), .formula (formulaOf "F2" expression₂)], none⟩

/-- The count has one point. -/
def onePoint : Results (Option Rat) :=
  [("A", .timeSeries ⟨"A", [⟨0, "", "", [⟨[], [⟨60000, some 3, false⟩]⟩]⟩]⟩)]

/-- The formula `F2 = F1` has a series after `F1 = A` and none before it. -/
theorem formula_of_formula_depends_on_order :
    ¬OrderIrrelevant variableEnvironment (requestOf "A" "F1") onePoint := by
  intro h
  have hqueries : (requestOf "A" "F1").formulaQueries =
      [("F1", formulaOf "F1" "A"), ("F2", formulaOf "F2" "F1")] := by decide +kernel
  have hsame := h [("F1", formulaOf "F1" "A"), ("F2", formulaOf "F2" "F1")]
    [("F2", formulaOf "F2" "F1"), ("F1", formulaOf "F1" "A")]
    (by rw [hqueries]) (by rw [hqueries]; exact List.Perm.swap _ _ _) "F2"
  exact absurd hsame (by decide +kernel)

/-- Two formulas over the same query can be processed in either order. -/
theorem formulas_of_query_order_irrelevant :
    OrderIrrelevant variableEnvironment (requestOf "A" "A") onePoint := by
  have hqueries : (requestOf "A" "A").formulaQueries =
      [("F1", formulaOf "F1" "A"), ("F2", formulaOf "F2" "A")] := by decide +kernel
  have hrefs : ∀ p ∈ (requestOf "A" "A").formulaQueries,
      ∀ fe ∈ evaluatorOf variableEnvironment (requestOf "A" "A") p.2,
        fe.aggRefs = [("A", ⟨"A", .index 0⟩)] := by
    rw [hqueries]
    decide +kernel
  refine applyFormulas_order_irrelevant (by decide) ?_
  intro p hp fe hfe ref href p' hp' _ _
  rw [hrefs p hp fe hfe, List.mem_singleton] at href
  subst href
  rw [hqueries] at hp'
  refine ⟨fun heq => ?_, Or.inl (by decide +kernel)⟩
  have hname : p'.1 ∈ ["F1", "F2"] := List.mem_map_of_mem (f := Prod.fst) hp'
  exact absurd (heq ▸ hname) (by decide)

end Signoz.Querier
