import Signoz.FilterQuery.ConditionErrors

/-!
# What a filter reads of its variables

`VisitComparison` looks the value of a comparison up among the variables, as it stands and then
without its first byte, once the keys of the comparison are found and kept.
`prepareWhereClause_congr` says that nothing else of the variables reaches the clause: two maps that
resolve the values of these comparisons alike give the same result. Where no term of the filter is
skipped and the condition builder keeps the values it is given, the maps give the same clause only
then (`resolvesAlike_of_same`).
-/

namespace Signoz.FilterQuery

variable {C F : Type}

/-- The options with other variables. -/
def VisitorOpts.withVars (opts : VisitorOpts C F) (vars : String → Option (VariableItem F)) :
    VisitorOpts C F := { opts with vars := vars }

/-! ## The values that are looked up -/

/-- The two maps resolve the value of the operation alike. -/
def Operation.ResolvesAlike (opts : VisitorOpts C F) (v w : String → Option (VariableItem F)) :
    Operation → Prop
  | .inClause clause | .notInClause clause =>
    resolveValues (opts.withVars v) (clause.read opts) =
      resolveValues (opts.withVars w) (clause.read opts)
  | .exists _ | .between _ _ _ => True
  | .equals value | .notEquals value | .lt value | .le value | .gt value | .ge value
  | .like _ value | .ilike _ value | .regexp _ value | .contains _ value =>
    resolveValue (opts.withVars v) (value.read opts) =
      resolveValue (opts.withVars w) (value.read opts)

/-- The visitor reaches the comparison, and keys are left to it. -/
def OrExpression.LooksUp (opts : VisitorOpts C F) (tree : OrExpression) (c : Comparison) : Prop :=
  .comparison c ∈ tree.reached (opts.forFilter tree) ∧ c.keys (opts.forFilter tree) ≠ []

/-! ## One comparison -/

/-- What follows a visit sees its result only. -/
theorem visit_bind_congr {α β : Type} {m : Visit α} {f g : α → Visit β}
    (h : f m.run.1 = g m.run.1) : (m >>= f) = (m >>= g) := by
  rw [visit_bind_eq, visit_bind_eq, h]

/-! ## What reads no variables -/

section Others

variable (opts : VisitorOpts C F) (v : String → Option (VariableItem F))

@[simp] theorem visitKey_withVars (text : String) :
    visitKey (opts.withVars v) text = visitKey opts text := rfl

@[simp] theorem visitValue_withVars (value : Value) :
    visitValue (opts.withVars v) value = visitValue opts value := by
  cases value <;> rfl

@[simp] theorem visitValues_withVars (values : List Value) :
    visitValues (opts.withVars v) values = visitValues opts values := by
  induction values with
  | nil => rfl
  | cons value values ih => simp only [visitValues, visitValue_withVars, ih]

@[simp] theorem visitInClause_withVars (clause : InClause) :
    visitInClause (opts.withVars v) clause = visitInClause opts clause := by
  cases clause <;> simp [visitInClause]

@[simp] theorem conditionsFor_withVars (reports : Bool) (op : FilterOperator) (value : Operand F)
    (keys : List FieldKey) :
    conditionsFor (opts.withVars v) reports op value keys =
      conditionsFor opts reports op value keys := by
  induction keys with
  | nil => rfl
  | cons key keys ih =>
    simp only [conditionsFor, ih]
    rfl

@[simp] theorem keysCondition_withVars (reports : Bool) (op : FilterOperator) (value : Operand F)
    (keys : List FieldKey) :
    keysCondition (opts.withVars v) reports op value keys =
      keysCondition opts reports op value keys := by
  simp only [keysCondition, conditionsFor_withVars]

@[simp] theorem visitBetween_withVars (op : FilterOperator) (low high : Value) (key : FieldKey)
    (keys : List FieldKey) :
    visitBetween (opts.withVars v) op low high key keys =
      visitBetween opts op low high key keys := by
  simp only [visitBetween, visitValue_withVars, keysCondition_withVars]

@[simp] theorem fullTextCondition_withVars (text : String) :
    fullTextCondition (opts.withVars v) text = fullTextCondition opts text := rfl

@[simp] theorem visitFullText_withVars (text : FullText) :
    visitFullText (opts.withVars v) text = visitFullText opts text := by
  cases text <;> simp [visitFullText]

@[simp] theorem visitFunctionParam_withVars (param : FunctionParam) :
    visitFunctionParam (opts.withVars v) param = visitFunctionParam opts param := by
  cases param <;> simp [visitFunctionParam]

@[simp] theorem visitFunctionParams_withVars (params : List FunctionParam) :
    visitFunctionParams (opts.withVars v) params = visitFunctionParams opts params := by
  induction params with
  | nil => rfl
  | cons param params ih => simp only [visitFunctionParams, visitFunctionParam_withVars, ih]

@[simp] theorem visitFunctionCall_withVars (call : FunctionCall) :
    visitFunctionCall (opts.withVars v) call = visitFunctionCall opts call := by
  unfold visitFunctionCall
  rw [visitFunctionParams_withVars]
  rfl

@[simp] theorem keys_withVars (c : Comparison) : c.keys (opts.withVars v) = c.keys opts := rfl

theorem forFilter_withVars (tree : OrExpression) :
    (opts.withVars v).forFilter tree = (opts.forFilter tree).withVars v := by
  unfold VisitorOpts.forFilter
  split <;> rfl

end Others

section Congruence

variable (opts : VisitorOpts C F) {v w : String → Option (VariableItem F)} {keys : List FieldKey}

theorem visitOperator_congr {op : FilterOperator} {like : Option String} {value : Value}
    (h : resolveValue (opts.withVars v) (value.read opts) =
      resolveValue (opts.withVars w) (value.read opts)) :
    visitOperator (opts.withVars v) op like value keys =
      visitOperator (opts.withVars w) op like value keys := by
  unfold visitOperator
  simp only [visitValue_withVars, keysCondition_withVars]
  apply visit_bind_congr
  rw [Value.read] at h
  rw [h]

theorem visitIn_congr {op : FilterOperator} {clause : InClause}
    (h : resolveValues (opts.withVars v) (clause.read opts) =
      resolveValues (opts.withVars w) (clause.read opts)) :
    visitIn (opts.withVars v) op clause keys = visitIn (opts.withVars w) op clause keys := by
  unfold visitIn
  simp only [visitInClause_withVars, keysCondition_withVars]
  apply visit_bind_congr
  rw [InClause.read] at h
  rw [h]

theorem visitOperation_congr {operation : Operation} {key : FieldKey}
    (h : operation.ResolvesAlike opts v w) :
    visitOperation (opts.withVars v) key keys operation =
      visitOperation (opts.withVars w) key keys operation := by
  cases operation with
  | «exists» negated => simp only [visitOperation, keysCondition_withVars]
  | between negated low high => simp only [visitOperation, visitBetween_withVars]
  | inClause clause => exact visitIn_congr opts h
  | notInClause clause => exact visitIn_congr opts h
  | _ =>
    unfold visitOperation
    exact visitOperator_congr opts h

theorem visitComparison_congr {comparison : Comparison}
    (h : comparison.keys opts ≠ [] → comparison.operation.ResolvesAlike opts v w) :
    visitComparison (opts.withVars v) comparison = visitComparison (opts.withVars w) comparison := by
  unfold visitComparison
  simp only [visitKey_withVars]
  apply visit_bind_congr
  have hkept : ∀ u, keptKeys (opts.withVars u) = keptKeys opts := fun _ => rfl
  rw [hkept, hkept]
  unfold Comparison.keys at h
  split
  · rfl
  · next found _ =>
    split
    · rfl
    · next key keys hkeys =>
      rw [hkeys] at h
      exact visitOperation_congr opts (h (List.cons_ne_nil _ _))

/-- The comparisons of a part of a filter that have keys are all resolved alike. -/
def AllAlike (opts : VisitorOpts C F) (v w : String → Option (VariableItem F))
    (terms : List Primary) : Prop :=
  ∀ c, .comparison c ∈ terms → c.keys opts ≠ [] → c.operation.ResolvesAlike opts v w

mutual

/-- A filter whose comparisons are all resolved alike is visited alike. -/
theorem orBranches_congr : ∀ (expr : OrExpression),
    AllAlike opts v w (expr.reached (opts.withVars v)) →
      orBranches (opts.withVars v) expr = orBranches (opts.withVars w) expr
  | .last expr, h => by
    rw [orBranches, orBranches, andParts_congr expr h]
  | .or expr rest, h => by
    have hfirst : AllAlike opts v w (expr.reached (opts.withVars v)) := by
      intro c hc
      apply h c
      rw [OrExpression.reached]
      split
      · exact hc
      · exact List.mem_append_left _ hc
    rw [orBranches, orBranches, ← andParts_congr expr hfirst]
    apply visit_bind_congr
    dsimp only
    split
    · rfl
    · next hskip =>
      -- the branch is not skipped, so the rest is reached
      rw [orBranches_congr rest fun c hc => h c (by
        rw [OrExpression.reached]
        exact (if_neg hskip) ▸ List.mem_append_right _ hc)]

theorem andParts_congr : ∀ (expr : AndExpression),
    AllAlike opts v w (expr.reached (opts.withVars v)) →
      andParts (opts.withVars v) expr = andParts (opts.withVars w) expr
  | .last expr, h => by
    rw [andParts, andParts, visitUnaryExpression_congr expr h]
  | .and expr rest, h => by
    rw [andParts, andParts,
      visitUnaryExpression_congr expr fun c hc => h c (List.mem_append_left _ hc),
      andParts_congr rest fun c hc => h c (List.mem_append_right _ hc)]

theorem visitUnaryExpression_congr : ∀ (expr : UnaryExpression),
    AllAlike opts v w (expr.reached (opts.withVars v)) →
      visitUnaryExpression (opts.withVars v) expr = visitUnaryExpression (opts.withVars w) expr
  | .plain primary, h => by
    rw [visitUnaryExpression, visitUnaryExpression, visitPrimary_congr primary h]
  | .not primary, h => by
    rw [visitUnaryExpression, visitUnaryExpression, visitPrimary_congr primary h]

theorem visitPrimary_congr : ∀ (primary : Primary),
    AllAlike opts v w (primary.reached (opts.withVars v)) →
      visitPrimary (opts.withVars v) primary = visitPrimary (opts.withVars w) primary
  | .group expr, h => by
    rw [visitPrimary, visitPrimary, orBranches_congr expr h]
  | .comparison comparison, h => by
    rw [visitPrimary, visitPrimary]
    exact visitComparison_congr opts (h comparison (List.mem_singleton.2 rfl))
  | .functionCall call, _ => by
    rw [visitPrimary, visitPrimary, visitFunctionCall_withVars, visitFunctionCall_withVars]
  | .fullText text, _ => by
    rw [visitPrimary, visitPrimary, visitFullText_withVars, visitFullText_withVars]
  | .key text, _ => by
    rw [visitPrimary, visitPrimary, fullTextCondition_withVars, fullTextCondition_withVars]
  | .value value, _ => by
    rw [visitPrimary, visitPrimary, fullTextCondition_withVars, fullTextCondition_withVars]

end

/-- Whether the resource filter is skipped does not matter to the values. -/
theorem resolvesAlike_withSkip (skip : Bool) (operation : Operation) :
    operation.ResolvesAlike { opts with skipResourceFilter := skip } v w ↔
      operation.ResolvesAlike opts v w := by
  have hvalue : ∀ value, visitValue ({ opts with skipResourceFilter := skip } : VisitorOpts C F)
      value = visitValue opts value := by
    intro value
    cases value <;> rfl
  have hvalues : ∀ values, visitValues ({ opts with skipResourceFilter := skip } : VisitorOpts C F)
      values = visitValues opts values := by
    intro values
    induction values with
    | nil => rfl
    | cons value values ih => simp only [visitValues, hvalue, ih]
  have hclause : ∀ clause, InClause.read ({ opts with skipResourceFilter := skip } : VisitorOpts C F)
      clause = InClause.read opts clause := by
    intro clause
    cases clause <;> simp only [InClause.read, visitInClause, hvalues]
  cases operation with
  | «exists» negated => exact Iff.rfl
  | between negated low high => exact Iff.rfl
  | inClause clause =>
    rw [Operation.ResolvesAlike, hclause]
    exact Iff.rfl
  | notInClause clause =>
    rw [Operation.ResolvesAlike, hclause]
    exact Iff.rfl
  | _ =>
    rw [Operation.ResolvesAlike, Value.read, hvalue]
    exact Iff.rfl

theorem resolvesAlike_forFilter (tree : OrExpression) (operation : Operation) :
    operation.ResolvesAlike (opts.forFilter tree) v w ↔ operation.ResolvesAlike opts v w := by
  unfold VisitorOpts.forFilter
  split
  · exact resolvesAlike_withSkip opts false operation
  · exact Iff.rfl

theorem prepareWhereClause_eq (tree : OrExpression) :
    prepareWhereClause opts tree =
      (let visited := (visitOrExpression (opts.forFilter tree) tree).run
      let noted := finish visited.2
      if noted.errors ≠ [] then
        .error ⟨noted.errors,
          if noted.mainErrorURL = "" then
            "https://signoz.io/docs/userguide/search-troubleshooting/"
          else noted.mainErrorURL⟩
      else
        .ok ⟨match visited.1 with
          | .empty | .skip => none
          | cond => some cond, noted.warnings, noted.mainWarnURL⟩) := rfl

/-- Two maps that resolve the values of these comparisons alike give the same clause, warnings and
errors. -/
theorem prepareWhereClause_congr (tree : OrExpression)
    (h : ∀ c, tree.LooksUp (opts.withVars v) c → c.operation.ResolvesAlike opts v w) :
    prepareWhereClause (opts.withVars v) tree = prepareWhereClause (opts.withVars w) tree := by
  have hvisit : visitOrExpression ((opts.forFilter tree).withVars v) tree =
      visitOrExpression ((opts.forFilter tree).withVars w) tree := by
    rw [visitOrExpression, visitOrExpression, orBranches_congr (opts.forFilter tree) tree]
    intro c hc hkeys
    rw [resolvesAlike_forFilter]
    refine h c ⟨?_, ?_⟩
    · rw [forFilter_withVars]
      exact hc
    · rw [forFilter_withVars]
      exact hkeys
  rw [prepareWhereClause_eq, prepareWhereClause_eq, forFilter_withVars, forFilter_withVars, hvisit]

end Congruence

/-! ## Conditions of the same shape -/

namespace Cond

/-- A condition that no `AND` and no `OR` leaves out. -/
def Solid (cond : Cond C F) : Prop := cond.isSkippable = false ∧ cond.isEmpty = false

/-- Two lists of such conditions, of one length. -/
structure Matched (conds conds' : List (Cond C F)) : Prop where
  length_eq : conds.length = conds'.length
  left : ∀ cond ∈ conds, cond.Solid
  right : ∀ cond ∈ conds', cond.Solid

theorem Matched.singleton {cond cond' : Cond C F} (h : cond.Solid) (h' : cond'.Solid) :
    Matched [cond] [cond'] :=
  ⟨rfl, by simpa using h, by simpa using h'⟩

theorem Matched.cons {cond cond' : Cond C F} {conds conds' : List (Cond C F)} (h : cond.Solid)
    (h' : cond'.Solid) (hrest : Matched conds conds') : Matched (cond :: conds) (cond' :: conds') :=
  ⟨congrArg Nat.succ hrest.length_eq, List.forall_mem_cons.2 ⟨h, hrest.left⟩,
    List.forall_mem_cons.2 ⟨h', hrest.right⟩⟩

variable {f : Cond C F → Cond C F → Cond C F}

theorem foldl_inj (hf : Function.Injective2 f) {conds conds' : List (Cond C F)}
    (hlength : conds.length = conds'.length) :
    ∀ {cond cond' : Cond C F}, conds.foldl f cond = conds'.foldl f cond' →
      cond = cond' ∧ conds = conds' := by
  induction conds generalizing conds' with
  | nil =>
    obtain rfl := List.length_eq_zero_iff.1 hlength.symm
    exact fun h => ⟨h, rfl⟩
  | cons c conds ih =>
    cases conds' with
    | nil => cases hlength
    | cons c' conds' =>
      intro cond cond' h
      obtain ⟨hfirst, hrest⟩ := ih (Nat.succ.inj hlength) h
      obtain ⟨rfl, rfl⟩ := hf hfirst
      exact ⟨rfl, by rw [hrest]⟩

theorem foldl_solid (hf : ∀ a b, (f a b).Solid) {cond : Cond C F} (hcond : cond.Solid)
    (conds : List (Cond C F)) :
    (conds.foldl f cond).Solid := by
  induction conds generalizing cond with
  | nil => exact hcond
  | cons c conds ih => exact ih (hf cond c)

/-- The conditions joined by `AND` or by `OR`: none of them is left out. -/
def joined (f : Cond C F → Cond C F → Cond C F) : List (Cond C F) → Cond C F
  | [] => .skip
  | cond :: conds => conds.foldl f cond

variable {conds : List (Cond C F)}

theorem filter_solid (h : ∀ cond ∈ conds, cond.Solid) :
    (conds.filter fun c => !c.isEmpty) = conds :=
  List.filter_eq_self.2 fun c hc => by simp [(h c hc).2]

theorem andCondition_eq_joined (h : ∀ cond ∈ conds, cond.Solid) :
    andCondition conds = joined and conds := by
  match conds, h with
  | [], _ => rfl
  | [_], _ => rfl
  | c :: c' :: cs, h =>
    show Cond.sbAnd (c :: c' :: cs) = _
    rw [sbAnd, filter_solid h]
    rfl

theorem orCondition_eq_joined (h : ∀ cond ∈ conds, cond.Solid) :
    orCondition (.ok conds) = joined or conds := by
  match conds, h with
  | [], _ => rfl
  | [_], _ => rfl
  | c :: c' :: cs, h =>
    show Cond.sbOr (c :: c' :: cs) = _
    rw [sbOr, filter_solid h]
    rfl

theorem Matched.joined_inj (hf : Function.Injective2 f) {conds conds' : List (Cond C F)}
    (h : Matched conds conds') (heq : joined f conds = joined f conds') : conds = conds' := by
  cases conds with
  | nil => exact (List.length_eq_zero_iff.1 h.length_eq.symm).symm
  | cons c conds =>
    cases conds' with
    | nil => cases h.length_eq
    | cons c' conds' =>
      obtain ⟨rfl, rfl⟩ := foldl_inj hf (Nat.succ.inj h.length_eq) heq
      rfl

theorem joined_solid (hf : ∀ a b, (f a b).Solid) (h : ∀ cond ∈ conds, cond.Solid) (hne : conds ≠ []) :
    (joined f conds).Solid := by
  cases conds with
  | nil => exact absurd rfl hne
  | cons c conds => exact foldl_solid hf (h c List.mem_cons_self) conds

theorem and_inj : Function.Injective2 (@Cond.and C F) :=
  fun _ _ _ _ h => ⟨(Cond.and.inj h).1, (Cond.and.inj h).2⟩

theorem or_inj : Function.Injective2 (@Cond.or C F) :=
  fun _ _ _ _ h => ⟨(Cond.or.inj h).1, (Cond.or.inj h).2⟩

end Cond

/-! ## Two runs of the visitor -/

section TwoRuns

open Cond

variable (o o' : VisitorOpts C F)

/-- No term is skipped, in either run. -/
def AllSolid (terms : List Primary) : Prop :=
  ∀ term ∈ terms, (visitPrimary o term).run.1.Solid ∧ (visitPrimary o' term).run.1.Solid

/-- The two runs have the same condition for every term. -/
def AllSame (terms : List Primary) : Prop :=
  ∀ term ∈ terms, (visitPrimary o term).run.1 = (visitPrimary o' term).run.1

theorem AllSolid.append_iff {terms terms' : List Primary} :
    AllSolid o o' (terms ++ terms') ↔ AllSolid o o' terms ∧ AllSolid o o' terms' :=
  List.forall_mem_append

theorem AllSame.append {terms terms' : List Primary} (h : AllSame o o' terms)
    (h' : AllSame o o' terms') : AllSame o o' (terms ++ terms') :=
  List.forall_mem_append.2 ⟨h, h'⟩

/-- The condition of a branch from those of its parts. -/
theorem andCondition_matched {conds conds' : List (Cond C F)} (hne : conds ≠ [])
    (h : Matched conds conds') :
    (andCondition conds).Solid ∧ (andCondition conds').Solid ∧
      (andCondition conds = andCondition conds' → conds = conds') := by
  have hne' : conds' ≠ [] := fun hnil => by
    have hlength := h.length_eq
    rw [hnil] at hlength
    exact hne (List.length_eq_zero_iff.1 hlength)
  rw [andCondition_eq_joined h.left, andCondition_eq_joined h.right]
  exact ⟨joined_solid (fun _ _ => ⟨rfl, rfl⟩) h.left hne,
    joined_solid (fun _ _ => ⟨rfl, rfl⟩) h.right hne', h.joined_inj and_inj⟩

/-- The condition of a filter from those of its branches. -/
theorem orCondition_matched {conds conds' : List (Cond C F)} (hne : conds ≠ [])
    (h : Matched conds conds') :
    (orCondition (.ok conds)).Solid ∧ (orCondition (.ok conds')).Solid ∧
      (orCondition (.ok conds) = orCondition (.ok conds') → conds = conds') := by
  have hne' : conds' ≠ [] := fun hnil => by
    have hlength := h.length_eq
    rw [hnil] at hlength
    exact hne (List.length_eq_zero_iff.1 hlength)
  rw [orCondition_eq_joined h.left, orCondition_eq_joined h.right]
  exact ⟨joined_solid (fun _ _ => ⟨rfl, rfl⟩) h.left hne,
    joined_solid (fun _ _ => ⟨rfl, rfl⟩) h.right hne', h.joined_inj or_inj⟩

mutual

/-- Where no term is skipped, no branch of an `OR` is left out, and the results of two runs are the
same only if the conditions of all terms are. -/
theorem orBranches_matched : ∀ (expr : OrExpression), AllSolid o o' (expr.reached o) →
    ∃ conds conds', (orBranches o expr).run.1 = .ok conds ∧
      (orBranches o' expr).run.1 = .ok conds' ∧ conds ≠ [] ∧ Matched conds conds' ∧
        (conds = conds' → AllSame o o' (expr.reached o))
  | .last expr, h => by
    obtain ⟨hne, hparts, hsame⟩ := andParts_matched expr h
    obtain ⟨hsolid, hsolid', hinj⟩ := andCondition_matched hne hparts
    refine ⟨[andCondition (andParts o expr).run.1], [andCondition (andParts o' expr).run.1], ?_, ?_,
      List.cons_ne_nil _ _, Matched.singleton hsolid hsolid', fun heq => ?_⟩
    · simp only [orBranches, run_bind, run_pure, Bool.false_eq_true, if_false, hsolid.1, hsolid.2]
    · simp only [orBranches, run_bind, run_pure, Bool.false_eq_true, if_false, hsolid'.1, hsolid'.2]
    · exact hsame (hinj (List.cons.inj heq).1)
  | .or expr rest, h => by
    have hfirst : AllSolid o o' (expr.reached o) := by
      intro term hterm
      apply h term
      rw [OrExpression.reached]
      split
      · exact hterm
      · exact List.mem_append_left _ hterm
    obtain ⟨hne, hparts, hsame⟩ := andParts_matched expr hfirst
    obtain ⟨hsolid, hsolid', hinj⟩ := andCondition_matched hne hparts
    have hgoes : (visitAndExpression o expr).run.1.isSkippable = false := hsolid.1
    -- the first branch is not skipped, so the rest is reached
    rw [OrExpression.reached, hgoes, if_neg Bool.false_ne_true] at h ⊢
    obtain ⟨conds, conds', hrun, hrun', -, hrest, hsameRest⟩ :=
      orBranches_matched rest ((AllSolid.append_iff o o').1 h).2
    refine ⟨andCondition (andParts o expr).run.1 :: conds,
      andCondition (andParts o' expr).run.1 :: conds', ?_, ?_, List.cons_ne_nil _ _,
      hrest.cons hsolid hsolid', fun heq => ?_⟩
    · simp only [orBranches, run_bind, run_pure, Bool.false_eq_true, if_false, hsolid.1, hsolid.2,
        hrun, Except.map]
    · simp only [orBranches, run_bind, run_pure, Bool.false_eq_true, if_false, hsolid'.1, hsolid'.2,
        hrun', Except.map]
    · obtain ⟨hcond, hconds⟩ := List.cons.inj heq
      exact AllSame.append o o' (hsame (hinj hcond)) (hsameRest hconds)

theorem andParts_matched : ∀ (expr : AndExpression), AllSolid o o' (expr.reached o) →
    (andParts o expr).run.1 ≠ [] ∧ Matched (andParts o expr).run.1 (andParts o' expr).run.1 ∧
      ((andParts o expr).run.1 = (andParts o' expr).run.1 → AllSame o o' (expr.reached o))
  | .last expr, h => by
    obtain ⟨hsolid, hsolid', hsame⟩ := visitUnaryExpression_matched expr h
    have hrun : (andParts o (.last expr)).run.1 = [(visitUnaryExpression o expr).run.1] := by
      simp only [andParts, run_bind, run_pure, Bool.or_self, Bool.false_eq_true, if_false, hsolid.1,
        hsolid.2]
    have hrun' : (andParts o' (.last expr)).run.1 = [(visitUnaryExpression o' expr).run.1] := by
      simp only [andParts, run_bind, run_pure, Bool.or_self, Bool.false_eq_true, if_false, hsolid'.1,
        hsolid'.2]
    rw [hrun, hrun']
    exact ⟨List.cons_ne_nil _ _, Matched.singleton hsolid hsolid',
      fun heq => hsame (List.cons.inj heq).1⟩
  | .and expr rest, h => by
    obtain ⟨hfirst, hlater⟩ := (AllSolid.append_iff o o').1 h
    obtain ⟨hsolid, hsolid', hsame⟩ := visitUnaryExpression_matched expr hfirst
    obtain ⟨-, hrest, hsameRest⟩ := andParts_matched rest hlater
    have hrun : (andParts o (.and expr rest)).run.1 =
        (visitUnaryExpression o expr).run.1 :: (andParts o rest).run.1 := by
      simp only [andParts, run_bind, run_pure, Bool.or_self, Bool.false_eq_true, if_false, hsolid.1,
        hsolid.2]
    have hrun' : (andParts o' (.and expr rest)).run.1 =
        (visitUnaryExpression o' expr).run.1 :: (andParts o' rest).run.1 := by
      simp only [andParts, run_bind, run_pure, Bool.or_self, Bool.false_eq_true, if_false, hsolid'.1,
        hsolid'.2]
    rw [hrun, hrun']
    refine ⟨List.cons_ne_nil _ _, hrest.cons hsolid hsolid', fun heq => ?_⟩
    obtain ⟨hcond, hconds⟩ := List.cons.inj heq
    exact AllSame.append o o' (hsame hcond) (hsameRest hconds)

theorem visitUnaryExpression_matched : ∀ (expr : UnaryExpression),
    AllSolid o o' (expr.reached o) →
      (visitUnaryExpression o expr).run.1.Solid ∧ (visitUnaryExpression o' expr).run.1.Solid ∧
        ((visitUnaryExpression o expr).run.1 = (visitUnaryExpression o' expr).run.1 →
          AllSame o o' (expr.reached o))
  | .plain primary, h => by
    rw [visitUnaryExpression, visitUnaryExpression]
    exact visitPrimary_matched primary h
  | .not primary, h => by
    obtain ⟨hsolid, hsolid', hsame⟩ := visitPrimary_matched primary h
    have hrun : (visitUnaryExpression o (.not primary)).run.1 =
        .not (visitPrimary o primary).run.1 := by
      simp only [visitUnaryExpression, run_bind, run_pure, Bool.false_eq_true, if_false, hsolid.1]
    have hrun' : (visitUnaryExpression o' (.not primary)).run.1 =
        .not (visitPrimary o' primary).run.1 := by
      simp only [visitUnaryExpression, run_bind, run_pure, Bool.false_eq_true, if_false, hsolid'.1]
    rw [hrun, hrun']
    exact ⟨⟨rfl, rfl⟩, ⟨rfl, rfl⟩, fun heq => hsame (Cond.not.inj heq)⟩

theorem visitPrimary_matched : ∀ (primary : Primary), AllSolid o o' (primary.reached o) →
    (visitPrimary o primary).run.1.Solid ∧ (visitPrimary o' primary).run.1.Solid ∧
      ((visitPrimary o primary).run.1 = (visitPrimary o' primary).run.1 →
        AllSame o o' (primary.reached o))
  | .group expr, h => by
    obtain ⟨conds, conds', hrun, hrun', hne, hmatched, hsame⟩ := orBranches_matched expr h
    obtain ⟨hsolid, hsolid', hinj⟩ := orCondition_matched hne hmatched
    have hgroup : (visitPrimary o (.group expr)).run.1 = .paren (orCondition (.ok conds)) := by
      simp only [visitPrimary, run_bind, run_pure, Bool.false_eq_true, if_false, hrun, hsolid.1]
    have hgroup' : (visitPrimary o' (.group expr)).run.1 = .paren (orCondition (.ok conds')) := by
      simp only [visitPrimary, run_bind, run_pure, Bool.false_eq_true, if_false, hrun', hsolid'.1]
    rw [hgroup, hgroup']
    exact ⟨⟨rfl, rfl⟩, ⟨rfl, rfl⟩, fun heq => hsame (hinj (Cond.paren.inj heq))⟩
  | .comparison comparison, h => by
    obtain ⟨hsolid, hsolid'⟩ := h _ (List.mem_singleton.2 rfl)
    exact ⟨hsolid, hsolid', fun heq => List.forall_mem_singleton.2 heq⟩
  | .functionCall call, h => by
    obtain ⟨hsolid, hsolid'⟩ := h _ (List.mem_singleton.2 rfl)
    exact ⟨hsolid, hsolid', fun heq => List.forall_mem_singleton.2 heq⟩
  | .fullText text, h => by
    obtain ⟨hsolid, hsolid'⟩ := h _ (List.mem_singleton.2 rfl)
    exact ⟨hsolid, hsolid', fun heq => List.forall_mem_singleton.2 heq⟩
  | .key text, h => by
    obtain ⟨hsolid, hsolid'⟩ := h _ (List.mem_singleton.2 rfl)
    exact ⟨hsolid, hsolid', fun heq => List.forall_mem_singleton.2 heq⟩
  | .value value, h => by
    obtain ⟨hsolid, hsolid'⟩ := h _ (List.mem_singleton.2 rfl)
    exact ⟨hsolid, hsolid', fun heq => List.forall_mem_singleton.2 heq⟩

end

end TwoRuns

/-! ## The value in a condition -/

section Values

variable (opts : VisitorOpts C F)

/-- The condition builder never fails, and its conditions tell the values they are built for. -/
def VisitorOpts.KeepsValues : Prop :=
  ∃ condition : FieldKey → FilterOperator → Operand F → C,
    (∀ key op, Function.Injective (condition key op)) ∧
      ∀ key op x, opts.conditionFor key op x = .ok (.built (condition key op x))

/-- A value that is resolved to a value notes nothing. -/
theorem resolveValue_eq_pure {value y : Scalar F} (h : (resolveValue opts value).run.1 = some y) :
    resolveValue opts value = pure (some y) := by
  unfold resolveValue at h ⊢
  split at h
  · split at h
    · rw [← h]
      rfl
    · split at h
      · rw [← h]
        rfl
      · rw [← h]
        rfl
      · cases h
      · rw [← h]
        rfl
  · rw [← h]
    rfl

/-- Values that are resolved are values without a note, or stand for a condition that is skipped. -/
theorem resolveValues_cases (values : List (Scalar F)) :
    (∃ ys, (resolveValues opts values : Visit (Except (Cond C F) (List (Scalar F)))) =
        pure (.ok ys)) ∨
      ∃ cond : Cond C F, (resolveValues opts values).run.1 = .error cond ∧
        cond.isSkippable = true := by
  unfold resolveValues
  split
  · split
    · exact .inl ⟨_, rfl⟩
    · split
      · exact .inr ⟨_, rfl, rfl⟩
      · exact .inl ⟨_, rfl⟩
      · exact .inl ⟨_, rfl⟩
      · exact .inr ⟨_, rfl, rfl⟩
      · exact .inl ⟨_, rfl⟩
  · exact .inl ⟨_, rfl⟩

variable {key : FieldKey} {keys : List FieldKey}

/-- The visitor gives up on an operation without a value to build conditions for. -/
theorem isSkippable_visitOperation {operation : Operation} (h : operation.operand opts = none) :
    (visitOperation opts key keys operation).run.1.isSkippable = true := by
  have hvalue : ∀ (op : FilterOperator) (like : Option String) (value : Value),
      ((resolveValue opts (value.read opts)).run.1).map Operand.scalar = none →
        (visitOperator opts op like value keys).run.1.isSkippable = true := by
    intro op like value h
    rw [visitOperator, run_bind, run_visitValue, run_bind, Option.map_eq_none_iff.1 h]
    rfl
  have hin : ∀ (op : FilterOperator) (clause : InClause),
      (Operation.inClause clause).operand opts = none →
        (visitIn opts op clause keys).run.1.isSkippable = true := by
    intro op clause h
    rw [Operation.operand] at h
    rw [visitIn, run_bind, run_visitInClause, run_bind]
    rcases @resolveValues_cases C F opts (clause.read opts) with ⟨ys, hys⟩ | ⟨cond, hcond, hskip⟩
    · rw [hys] at h
      cases h
    · rw [hcond]
      exact hskip
  cases operation with
  | «exists» negated => cases h
  | inClause clause => exact hin _ clause h
  | notInClause clause => exact hin _ clause h
  | between negated low high =>
    rw [visitOperation, visitBetween, run_bind, run_visitValue, run_bind, run_visitValue]
    rw [Operation.operand] at h
    revert h
    cases low.read opts <;> cases high.read opts <;>
      first
        | exact fun _ => rfl
        | exact fun h => absurd h (Option.some_ne_none _)
  | _ => exact hvalue _ _ _ h

theorem run_visitOperation {operation : Operation} {x : Operand F}
    (h : operation.operand opts = some x) :
    (visitOperation opts key keys operation).run.1 =
      (keysCondition opts operation.reports operation.operator x keys).run.1 := by
  have hvalue : ∀ (op : FilterOperator) (like : Option String) (value : Value),
      ((resolveValue opts (value.read opts)).run.1).map Operand.scalar = some x →
        (visitOperator opts op like value keys).run.1 =
          (keysCondition opts true op x keys).run.1 := by
    intro op like value h
    obtain ⟨y, hy, rfl⟩ := Option.map_eq_some_iff.1 h
    rw [visitOperator, run_bind, run_visitValue, run_bind, hy]
    cases like with
    | none => rfl
    | some name =>
      dsimp only
      split <;> rfl
  have hin : ∀ (op : FilterOperator) (clause : InClause),
      (Operation.inClause clause).operand opts = some x →
        (visitIn opts op clause keys).run.1 = (keysCondition opts false op x keys).run.1 := by
    intro op clause h
    rw [Operation.operand] at h
    rw [visitIn, run_bind, run_visitInClause, run_bind]
    cases hvalues : (resolveValues opts (clause.read opts)).run.1 with
    | ok values =>
      rw [hvalues] at h
      obtain rfl := Option.some.inj h
      rfl
    | error condition =>
      rw [hvalues] at h
      cases h
  cases operation with
  | «exists» negated =>
    obtain rfl := Option.some.inj h
    rfl
  | inClause clause => exact hin _ clause h
  | notInClause clause => exact hin _ clause h
  | between negated low high =>
    rw [visitOperation, visitBetween, run_bind, run_visitValue, run_bind, run_visitValue]
    rw [Operation.operand] at h
    revert h
    cases low.read opts <;> cases high.read opts <;> intro h <;> cases h <;> rfl
  | _ => exact hvalue _ _ _ h

/-- The conditions on the keys tell the value. -/
theorem keysCondition_inj (hbuilder : opts.KeepsValues) {reports : Bool} {op : FilterOperator}
    {x y : Operand F} (hkeys : keys ≠ [])
    (h : (keysCondition opts reports op x keys).run.1 =
      (keysCondition opts reports op y keys).run.1) : x = y := by
  obtain ⟨condition, hinj, hcondition⟩ := hbuilder
  have hconds : ∀ (z : Operand F) (keys : List FieldKey),
      (conditionsFor opts reports op z keys).run.1 =
        some (keys.map fun key => .built (condition key op z)) := by
    intro z keys
    induction keys with
    | nil => rfl
    | cons key keys ih =>
      simp only [conditionsFor, hcondition, run_bind, run_pure, ih, Option.map_some, List.map_cons,
        Cond.isSkippable, Bool.false_eq_true, if_false]
  have hmatched : Cond.Matched (keys.map fun key => (.built (condition key op x) : Cond C F))
      (keys.map fun key => .built (condition key op y)) := by
    refine ⟨by simp, ?_, ?_⟩ <;>
      exact List.forall_mem_map.2 fun _ _ => ⟨rfl, rfl⟩
  have hjoined : ∀ z, (keysCondition opts reports op z keys).run.1 =
      Cond.joined (if op.isNegativeOperator then .and else .or)
        (keys.map fun key => .built (condition key op z)) := by
    intro z
    rw [keysCondition, run_bind, hconds]
    obtain ⟨key, keys, rfl⟩ := List.exists_cons_of_ne_nil hkeys
    cases keys with
    | nil => rfl
    | cons key' keys =>
      have hsolid : ∀ cond ∈ (key :: key' :: keys).map fun key =>
          (.built (condition key op z) : Cond C F), cond.Solid :=
        List.forall_mem_map.2 fun _ _ => ⟨rfl, rfl⟩
      simp only [List.map_cons] at hsolid ⊢
      cases op.isNegativeOperator
      · rw [run_pure, if_neg Bool.false_ne_true, if_neg Bool.false_ne_true, Cond.sbOr,
          Cond.filter_solid hsolid]
        rfl
      · rw [run_pure, if_pos rfl, if_pos rfl, Cond.sbAnd, Cond.filter_solid hsolid]
        rfl
  rw [hjoined, hjoined] at h
  have hlists : (keys.map fun key => (.built (condition key op x) : Cond C F)) =
      keys.map fun key => .built (condition key op y) := by
    cases hneg : op.isNegativeOperator
    · rw [hneg] at h
      exact hmatched.joined_inj Cond.or_inj h
    · rw [hneg] at h
      exact hmatched.joined_inj Cond.and_inj h
  obtain ⟨key, keys, rfl⟩ := List.exists_cons_of_ne_nil hkeys
  exact hinj key op (Cond.built.inj (List.cons.inj hlists).1)

theorem KeepsValues.forFilter (h : opts.KeepsValues) (tree : OrExpression)
    (u : String → Option (VariableItem F)) : ((opts.forFilter tree).withVars u).KeepsValues := by
  obtain ⟨condition, hinj, hcondition⟩ := h
  refine ⟨condition, hinj, fun key op x => ?_⟩
  rw [← hcondition key op x]
  unfold VisitorOpts.forFilter
  split <;> rfl

theorem run_visitComparison {c : Comparison} (h : c.keys opts = key :: keys) :
    (visitComparison opts c).run.1 = (visitOperation opts key (key :: keys) c.operation).run.1 := by
  unfold Comparison.keys at h
  rw [visitComparison, run_bind]
  cases hfound : (visitKey opts c.key).run.1 with
  | nil =>
    rw [hfound] at h
    simp [keptKeys] at h
  | cons first rest =>
    rw [hfound] at h
    simp only [h]

end Values

section Converse

variable (opts : VisitorOpts C F) {v w : String → Option (VariableItem F)}

@[simp] theorem valueRead_withVars (u : String → Option (VariableItem F)) (value : Value) :
    value.read (opts.withVars u) = value.read opts := by
  rw [Value.read, Value.read, visitValue_withVars]

@[simp] theorem clauseRead_withVars (u : String → Option (VariableItem F)) (clause : InClause) :
    clause.read (opts.withVars u) = clause.read opts := by
  rw [InClause.read, InClause.read, visitInClause_withVars]

/-- Where both maps give one value, they resolve the values alike. -/
theorem resolvesAlike_of_operand {operation : Operation} {x : Operand F}
    (hv : operation.operand (opts.withVars v) = some x)
    (hw : operation.operand (opts.withVars w) = some x) : operation.ResolvesAlike opts v w := by
  have hvalue : ∀ value : Value,
      ((resolveValue (opts.withVars v) (value.read opts)).run.1).map Operand.scalar = some x →
      ((resolveValue (opts.withVars w) (value.read opts)).run.1).map Operand.scalar = some x →
        resolveValue (opts.withVars v) (value.read opts) =
          resolveValue (opts.withVars w) (value.read opts) := by
    intro value hv hw
    obtain ⟨y, hy, rfl⟩ := Option.map_eq_some_iff.1 hv
    obtain ⟨z, hz, hyz⟩ := Option.map_eq_some_iff.1 hw
    rw [resolveValue_eq_pure _ hy, resolveValue_eq_pure _ hz, Operand.scalar.inj hyz]
  have hclause : ∀ clause : InClause, Operation.operand (opts.withVars v) (.inClause clause) = some x →
      Operation.operand (opts.withVars w) (.inClause clause) = some x →
        resolveValues (opts.withVars v) (clause.read opts) =
          resolveValues (opts.withVars w) (clause.read opts) := by
    intro clause hv hw
    simp only [Operation.operand, clauseRead_withVars] at hv hw
    rcases @resolveValues_cases C F (opts.withVars v) (clause.read opts) with
      ⟨ys, hys⟩ | ⟨cond, hcond, -⟩
    · rcases @resolveValues_cases C F (opts.withVars w) (clause.read opts) with
        ⟨zs, hzs⟩ | ⟨cond, hcond, -⟩
      · rw [hys] at hv
        rw [hzs] at hw
        rw [hys, hzs, Operand.list.inj (Option.some.inj (hv.trans hw.symm))]
      · rw [hcond] at hw
        cases hw
    · rw [hcond] at hv
      cases hv
  cases operation with
  | «exists» negated => trivial
  | between negated low high => trivial
  | inClause clause => exact hclause clause hv hw
  | notInClause clause => exact hclause clause hv hw
  | _ =>
    simp only [Operation.operand, valueRead_withVars] at hv hw
    exact hvalue _ hv hw

/-- A comparison that has one condition under both maps has its value resolved alike. -/
theorem resolvesAlike_of_condition {c : Comparison} (hbuilder : opts.KeepsValues)
    (hkeys : c.keys opts ≠ []) (hsolid : (visitComparison (opts.withVars v) c).run.1.Solid)
    (hsame : (visitComparison (opts.withVars v) c).run.1 =
      (visitComparison (opts.withVars w) c).run.1) : c.operation.ResolvesAlike opts v w := by
  obtain ⟨key, keys, hkey⟩ := List.exists_cons_of_ne_nil hkeys
  have hv := run_visitComparison (opts.withVars v) hkey
  have hw := run_visitComparison (opts.withVars w) hkey
  have hgives : ∀ u, (visitComparison (opts.withVars u) c).run.1 =
      (visitOperation (opts.withVars u) key (key :: keys) c.operation).run.1 →
        (visitComparison (opts.withVars u) c).run.1.Solid →
          ∃ x, c.operation.operand (opts.withVars u) = some x := by
    intro u hu hcond
    cases hoperand : c.operation.operand (opts.withVars u) with
    | some x => exact ⟨x, rfl⟩
    | none =>
      have hskip := @isSkippable_visitOperation C F (opts.withVars u) key (key :: keys) _ hoperand
      rw [← hu, hcond.1] at hskip
      cases hskip
  obtain ⟨x, hx⟩ := hgives v hv hsolid
  obtain ⟨y, hy⟩ := hgives w hw (hsame ▸ hsolid)
  rw [hv, hw, run_visitOperation _ hx, run_visitOperation _ hy, keysCondition_withVars,
    keysCondition_withVars] at hsame
  obtain rfl := keysCondition_inj opts hbuilder (List.cons_ne_nil _ _) hsame
  exact resolvesAlike_of_operand opts hx hy

/-- Where no term is skipped, the clause is the condition of the filter. -/
theorem whereClause_of_solid {o : VisitorOpts C F} {tree : OrExpression}
    {clause : PreparedWhereClause C F} (h : prepareWhereClause o tree = .ok clause)
    (hsolid : (visitOrExpression (o.forFilter tree) tree).run.1.Solid) :
    clause.whereClause = some (visitOrExpression (o.forFilter tree) tree).run.1 := by
  rw [prepareWhereClause_eq] at h
  dsimp only at h
  split at h
  · cases h
  · obtain rfl := Except.ok.inj h
    revert hsolid
    cases (visitOrExpression (o.forFilter tree) tree).run.1 with
    | empty => exact fun hsolid => nomatch hsolid.2
    | skip => exact fun hsolid => nomatch hsolid.1
    | _ => exact fun _ => rfl

/-- One clause under two maps, where no term is skipped and the conditions tell their values: the
values of all comparisons that are looked up are resolved alike. -/
theorem resolvesAlike_of_same (hbuilder : opts.KeepsValues) {tree : OrExpression}
    (hsolid : AllSolid ((opts.withVars v).forFilter tree) ((opts.withVars w).forFilter tree)
      (tree.reached ((opts.withVars v).forFilter tree)))
    {clause : PreparedWhereClause C F} (hv : prepareWhereClause (opts.withVars v) tree = .ok clause)
    (hw : prepareWhereClause (opts.withVars w) tree = .ok clause) {c : Comparison}
    (hc : tree.LooksUp (opts.withVars v) c) : c.operation.ResolvesAlike opts v w := by
  obtain ⟨conds, conds', hrun, hrun', hne, hmatched, hsame⟩ := orBranches_matched _ _ tree hsolid
  obtain ⟨hcond, hcond', hinj⟩ := orCondition_matched hne hmatched
  have hvisit : (visitOrExpression ((opts.withVars v).forFilter tree) tree).run.1 =
      orCondition (.ok conds) := congrArg orCondition hrun
  have hvisit' : (visitOrExpression ((opts.withVars w).forFilter tree) tree).run.1 =
      orCondition (.ok conds') := congrArg orCondition hrun'
  have hclause := whereClause_of_solid hv (by rw [hvisit]; exact hcond)
  have hclause' := whereClause_of_solid hw (by rw [hvisit']; exact hcond')
  rw [hclause, hvisit, hvisit', Option.some.injEq] at hclause'
  have hall := hsame (hinj hclause') _ hc.1
  have hterm := (hsolid _ hc.1).1
  simp only [visitPrimary, forFilter_withVars] at hall hterm
  rw [← resolvesAlike_forFilter opts tree]
  refine resolvesAlike_of_condition (opts.forFilter tree) ?_ ?_ hterm hall
  · exact KeepsValues.forFilter opts hbuilder tree (opts.forFilter tree).vars
  · have hkeys := hc.2
    rwa [forFilter_withVars] at hkeys

end Converse

/-! ## The names a filter refers to -/

/-- The text of a value token, out of its quotes. -/
def Value.text : Value → String
  | .quotedText text => trimQuotes text
  | .number text | .bool text | .key text => text

/-- The value tokens of an operation. -/
def Operation.tokens : Operation → List Value
  | .inClause (.list values) | .notInClause (.list values) => values.allValue
  | .inClause (.single value) | .notInClause (.single value) => [value]
  | .exists _ => []
  | .between _ low high => [low, high]
  | .equals value | .notEquals value | .lt value | .le value | .gt value | .ge value
  | .like _ value | .ilike _ value | .regexp _ value | .contains _ value => [value]

/-- The value tokens of a parameter. -/
def FunctionParam.tokens : FunctionParam → List Value
  | .key text => [.key text]
  | .value token => [token]
  | .array values => values.allValue

mutual

/-- The value tokens of a filter, those that stand alone and those of functions among them. -/
def OrExpression.tokens : OrExpression → List Value
  | .last expr => expr.tokens
  | .or expr rest => expr.tokens ++ rest.tokens

def AndExpression.tokens : AndExpression → List Value
  | .last expr => expr.tokens
  | .and expr rest => expr.tokens ++ rest.tokens

def UnaryExpression.tokens : UnaryExpression → List Value
  | .plain primary => primary.tokens
  | .not primary => primary.tokens

def Primary.tokens : Primary → List Value
  | .group expr => expr.tokens
  | .comparison comparison => comparison.operation.tokens
  | .functionCall call => (call.first :: call.rest).flatMap FunctionParam.tokens
  | .fullText (.quotedText text) => [.quotedText text]
  | .fullText (.freeText text) => [.key text]
  | .key text => [.key text]
  | .value token => [token]

end

/-- The two maps agree on every name that a value token refers to with a `$`. -/
def AgreeOnReferenced (tree : OrExpression) (v w : String → Option (VariableItem F)) : Prop :=
  ∀ n, (∃ token ∈ tree.tokens, token.text = "$" ++ n) → v n = w n

/-- Two maps that have one value for every string that a comparison looks up give the same clause,
warnings and errors. Where no term of the filter is skipped and the conditions tell their values,
only these maps give one clause. -/
theorem prepareWhereClause_reads_compared (opts : VisitorOpts C F)
    (v w : String → Option (VariableItem F)) (tree : OrExpression) :
    ((∀ c, tree.LooksUp (opts.withVars v) c → c.operation.ResolvesAlike opts v w) →
        prepareWhereClause (opts.withVars v) tree = prepareWhereClause (opts.withVars w) tree) ∧
      ∀ clause, opts.KeepsValues →
        AllSolid ((opts.withVars v).forFilter tree) ((opts.withVars w).forFilter tree)
          (tree.reached ((opts.withVars v).forFilter tree)) →
        prepareWhereClause (opts.withVars v) tree = .ok clause →
          (prepareWhereClause (opts.withVars w) tree = .ok clause ↔
            ∀ c, tree.LooksUp (opts.withVars v) c → c.operation.ResolvesAlike opts v w) := by
  refine ⟨prepareWhereClause_congr opts tree, fun clause hbuilder hsolid hv => ⟨?_, ?_⟩⟩
  · exact fun hw c hc => resolvesAlike_of_same opts hbuilder hsolid hv hw hc
  · intro h
    rw [← prepareWhereClause_congr opts tree h, hv]

/-- One variable. -/
def oneVariable (name value : String) : String → Option (VariableItem Nat) := fun n =>
  if n = name then some ⟨.text, .scalar (.str value)⟩ else none

/-- The filter `key = value`. -/
def equalsFilter (key : String) (value : Value) : OrExpression :=
  .last (.last (.plain (.comparison ⟨key, .equals value⟩)))

/-- `env = 'xregion'` refers to no variable, and a variable `region` takes the place of its
value. -/
theorem literal_takes_variable :
    ∃ (v w : String → Option (VariableItem Nat)) (tree : OrExpression),
      AgreeOnReferenced tree v w ∧
        prepareWhereClause (oneKeyOpts.withVars v) tree ≠
          prepareWhereClause (oneKeyOpts.withVars w) tree := by
  refine ⟨fun _ => none, oneVariable "region" "eu",
    equalsFilter "env" (.quotedText "'xregion'"), ?_, ?_⟩
  · rintro n ⟨token, htoken, hn⟩
    obtain rfl : token = .quotedText "'xregion'" := List.mem_singleton.1 htoken
    have hhead := congrArg (fun s : String => s.toList.head?) hn
    have hdollar : ("$" ++ n).toList.head? = some '$' := by
      rw [String.toList_append]
      rfl
    rw [hdollar] at hhead
    exact absurd hhead (by decide)
  · have hliteral : prepareWhereClause (oneKeyOpts.withVars fun _ => none)
        (equalsFilter "env" (.quotedText "'xregion'")) =
          .ok ⟨some (.built (.scalar (.str "xregion"))), [], ""⟩ := by
      rfl
    have hvariable : prepareWhereClause (oneKeyOpts.withVars (oneVariable "region" "eu"))
        (equalsFilter "env" (.quotedText "'xregion'")) =
          .ok ⟨some (.built (.scalar (.str "eu"))), [], ""⟩ := by
      rfl
    rw [hliteral, hvariable]
    simp

/-- A variable that no comparison looks up makes no difference. -/
theorem other_variable_unread :
    prepareWhereClause (oneKeyOpts.withVars fun _ => none)
        (equalsFilter "env" (.quotedText "'xregion'")) =
      prepareWhereClause (oneKeyOpts.withVars (oneVariable "zone" "eu"))
        (equalsFilter "env" (.quotedText "'xregion'")) :=
  (prepareWhereClause_reads_compared oneKeyOpts _ _ _).1 (by
    rintro c ⟨hc, -⟩
    have hcomparison : c = ⟨"env", .equals (.quotedText "'xregion'")⟩ := by
      simpa [equalsFilter, OrExpression.reached, AndExpression.reached, UnaryExpression.reached,
        Primary.reached] using hc
    rw [hcomparison]
    rfl)

end Signoz.FilterQuery
