import Signoz.Lib.OneShotNames
import Signoz.LogPipelines.OperatorChain

/-!
# The generated processors

`PreparePipelineProcessor` makes one collector processor for every enabled pipeline with an enabled
operator: a router, the chain of operators, and a `noop`. Its name is the normalised alias, with the
position of the pipeline as a suffix if the name is taken; the suffixed name is not checked, and a
name that meets it drops a pipeline. `preparePipelineProcessor_iff` says when none is dropped.
-/

namespace Signoz.LogPipelines

open Lib

/-! ## `PreparePipelineProcessor` -/

/-- `Processor`. -/
structure Processor where
  operators : List PipelineOperator

def noopID : String := "noop"

/-- `badCharsForCollectorConfName`. -/
def isBadChar (c : Char) : Bool := !(c.isAlphanum || c = '-')

def collectorConfProcessorName {F : Type} (p : Pipeline F) : String :=
  let normalizedAlias := p.aliasText.toList.map fun c => if isBadChar c then '-' else c
  "signozlogspipeline/pipeline_" ++ String.ofList normalizedAlias

/-- `fmt.Sprintf("%s-%d", name, pipelineIdx)`. -/
def withIndex (name : String) (pipelineIdx : Nat) : String := name ++ "-" ++ pipelineIdx.repr

def routerTo (output filterExpr : String) : PipelineOperator :=
  { type := .router, id := "router_signoz", routes := some [⟨output, filterExpr⟩],
    default := noopID }

def noopOperator : PipelineOperator := { type := .noop, id := noopID }

section Prepare

variable {F : Type} (env : Environment F)

/-- The loop, from the pipeline with the index `pipelineIdx` on. -/
def prepareFrom : Nat → List (Pipeline F) → (String → Option Processor) → List String →
    Except Failure ((String → Option Processor) × List String)
  | _, [], processors, names => .ok (processors, names)
  | pipelineIdx, v :: rest, processors, names =>
    if !v.enabled then prepareFrom (pipelineIdx + 1) rest processors names
    else
      match getOperators env (env.newUUID pipelineIdx) v.config with
      | .error failure => .error failure
      | .ok [] => prepareFrom (pipelineIdx + 1) rest processors names
      | .ok (first :: others) =>
        match env.parse v.filter with
        | .error text => .error (.error text)
        | .ok filterExpr =>
          let operators := first :: others
          let processor : Processor :=
            ⟨[routerTo first.id filterExpr] ++ operators ++ [noopOperator]⟩
          let name := collectorConfProcessorName v
          let name := if (processors name).isSome then withIndex name pipelineIdx else name
          prepareFrom (pipelineIdx + 1) rest
            (Function.update processors name (some processor)) (names ++ [name])

def preparePipelineProcessor (gettablePipelines : List (Pipeline F)) :
    Except Failure ((String → Option Processor) × List String) :=
  prepareFrom env 0 gettablePipelines (fun _ => none) []

end Prepare

/-! ## What is asked of the result -/

/-- The operators that the router, which is the first, reaches by following outputs. -/
inductive Reached (processor : Processor) : PipelineOperator → Prop where
  | route {router op : PipelineOperator} {route : Route} :
      processor.operators.head? = some router → route ∈ router.routes.getD [] →
      op ∈ processor.operators → op.id = route.output → Reached processor op
  | output {a b : PipelineOperator} :
      Reached processor a → a.output ≠ "" → b ∈ processor.operators → b.id = a.output →
      Reached processor b

/-- The ids that outputs of operators, and the routes and the default of the router, name. -/
def Processor.targets (processor : Processor) : List String :=
  (processor.operators.map PipelineOperator.output ++
    (processor.operators.head?.map fun router =>
      router.default :: (router.routes.getD []).map Route.output).getD []).filter (· ≠ "")

/-- The processor routes what the filter of the pipeline selects through its enabled operators, in
their order. -/
structure Runs {F : Type} (env : Environment F) (p : Pipeline F) (processor : Processor) :
    Prop where
  /-- A router with the filter, the operators of the pipeline as a chain with the enabled ones in
  their order, and `noop`. -/
  chain : ∃ first others filterExpr, env.parse p.filter = .ok filterExpr ∧
    (∃ newUUID, getOperators env newUUID p.config = .ok (first :: others)) ∧
    processor.operators =
      [routerTo first.id filterExpr] ++ (first :: others) ++ [noopOperator] ∧
    ((p.config.filter (·.enabled)).map PipelineOperator.key).Sublist
      ((first :: others).map PipelineOperator.key) ∧
    (first :: others).IsChain (fun a b => a.output = b.id) ∧
    ∀ last ∈ (first :: others).getLast?, last.output = ""
  reached : ∀ op ∈ p.config, op.enabled = true →
    ∃ op' ∈ processor.operators, op'.key = op.key ∧ Reached processor op'
  targets : ∀ target ∈ processor.targets, ∃ op ∈ processor.operators, op.id = target

/-- The pipeline is enabled and has an enabled operator. -/
def Pipeline.contributes {F : Type} (p : Pipeline F) : Bool :=
  p.enabled && p.config.any (·.enabled)

/-- Different names, one for each pipeline that contributes, in their order, each mapped to a
processor that runs the pipeline. -/
structure Generated {F : Type} (env : Environment F) (pipelines : List (Pipeline F))
    (processors : String → Option Processor) (names : List String) : Prop where
  different : names.Nodup
  each : List.Forall₂ (fun name p => ∃ processor, processors name = some processor ∧
    Runs env p processor) names (pipelines.filter Pipeline.contributes)
  only : ∀ name, processors name ≠ none → name ∈ names

/-! ## A single pipeline -/

section Single

variable {F : Type} {env : Environment F}

/-- What a valid pipeline promises of its operators. -/
structure ValidConfig (config : List PipelineOperator) : Prop where
  ids : ∀ op ∈ config, op.id ≠ ""
  last : ∀ last ∈ config.getLast?, last.output = ""

theorem validOperators_ok {ops : List PipelineOperator} :
    ∀ {ids outputs : List String}, validOperators env ids outputs ops = .ok () →
      ValidConfig ops := by
  induction ops with
  | nil =>
    intro ids outputs _
    exact ⟨fun op h => (nomatch h), fun op h => (nomatch h)⟩
  | cons op rest ih =>
    intro ids outputs h
    rw [validOperators] at h
    split_ifs at h with horder hid htype hnil houtput hdup hdupout hsame
    cases hop : isValidOperator env op with
    | error e =>
      rw [hop] at h
      cases h
    | ok _ =>
      rw [hop] at h
      have hrest := ih h
      refine ⟨?_, ?_⟩
      · intro o ho
        rcases List.mem_cons.1 ho with rfl | ho
        · exact hid
        · exact hrest.ids o ho
      · intro last hlast
        cases rest with
        | nil =>
          obtain rfl := Option.some.inj hlast
          by_contra hne
          exact houtput ⟨rfl, hne⟩
        | cons next rest =>
          rw [List.getLast?_cons_cons] at hlast
          exact hrest.last last hlast

theorem isValid_ok {p : Pipeline F} (h : isValid env p = .ok ()) :
    ValidConfig p.config ∧ ∃ filterExpr, env.parse p.filter = .ok filterExpr := by
  rw [isValid] at h
  split_ifs at h with horder hname halias
  cases hparse : env.parse p.filter with
  | error e =>
    rw [hparse] at h
    cases h
  | ok filterExpr =>
    rw [hparse] at h
    exact ⟨validOperators_ok h, filterExpr, rfl⟩

/-- What `getOperators` returns for a valid configuration. -/
structure OperatorChain (config operators : List PipelineOperator) : Prop where
  keys : ((config.filter (·.enabled)).map PipelineOperator.key).Sublist
    (operators.map PipelineOperator.key)
  none : config.filter (·.enabled) = [] → operators = []
  ids : ∀ op ∈ operators, op.id ≠ ""
  linked : operators.IsChain fun a b => a.output = b.id
  last : ∀ last ∈ operators.getLast?, last.output = ""

theorem getOperators_chain {newUUID : Nat → Nat → String} {config operators : List PipelineOperator}
    (hvalid : ValidConfig config) (h : getOperators env newUUID config = .ok operators) :
    OperatorChain config operators := by
  obtain ⟨collected, hcollect, rfl⟩ := map_ok_iff.1 h
  obtain ⟨added, hkeys, hsub, hnone, hids⟩ := collectOperators_keys hcollect
  rw [List.nil_append] at hkeys
  have hlinked : (linkOutputs collected).map PipelineOperator.key =
      added.map PipelineOperator.key := (linkOutputs_keys collected).trans hkeys
  refine ⟨?_, ?_, ?_, linkOutputs_chain collected, ?_⟩
  · rw [hlinked]
    exact hsub
  · intro hempty
    rw [hnone hempty] at hlinked
    exact List.map_eq_nil_iff.1 hlinked
  · intro op hop hempty
    have hkey : op.key ∈ added.map PipelineOperator.key := hlinked ▸ List.mem_map_of_mem hop
    obtain ⟨o, ho, heq⟩ := List.mem_map.1 hkey
    apply hids hvalid.ids o ho
    rw [show o.id = op.id from congrArg Prod.fst heq, hempty]
  · rw [linkOutputs_last]
    cases config with
    | nil =>
      obtain rfl := Except.ok.inj hcollect
      exact fun last hlast => (nomatch hlast)
    | cons op rest => exact collectOperators_last (List.cons_ne_nil _ _) hvalid.last hcollect

theorem getOperators_ok_iff (newUUID : Nat → Nat → String) {config : List PipelineOperator} :
    (∃ operators, getOperators env newUUID config = .ok operators) ↔
      ∀ op ∈ config, op.enabled = true → OperatorBuilds env op := by
  rw [← collectOperators_ok_iff newUUID]
  constructor
  · rintro ⟨operators, h⟩
    obtain ⟨collected, hcollect, -⟩ := map_ok_iff.1 h
    exact ⟨collected, hcollect⟩
  · rintro ⟨collected, hcollect⟩
    exact ⟨_, map_ok_iff.2 ⟨collected, hcollect, rfl⟩⟩

/-- Along a chain every operator is reached from the first. -/
theorem reached_of_chain {processor : Processor} :
    ∀ {first : PipelineOperator} {others : List PipelineOperator},
      (first :: others).IsChain (fun a b => a.output = b.id) →
      (∀ op ∈ first :: others, op.id ≠ "" ∧ op ∈ processor.operators) →
      Reached processor first → ∀ op ∈ first :: others, Reached processor op := by
  intro first others
  induction others generalizing first with
  | nil =>
    intro _ _ hfirst op hop
    obtain rfl := List.mem_singleton.1 hop
    exact hfirst
  | cons next rest ih =>
    intro hchain hops hfirst op hop
    rw [List.isChain_cons_cons] at hchain
    have hnext : Reached processor next := by
      obtain ⟨hid, hmem⟩ := hops next (by simp)
      refine Reached.output hfirst ?_ hmem hchain.1.symm
      rw [hchain.1]
      exact hid
    rcases List.mem_cons.1 hop with rfl | hop
    · exact hfirst
    · exact ih hchain.2 (fun o ho => hops o (List.mem_cons_of_mem first ho)) hnext op hop

/-- The outputs of a chain are ids of the chain, or empty. -/
theorem output_of_chain {operators : List PipelineOperator}
    (hchain : operators.IsChain fun a b => a.output = b.id)
    (hlast : ∀ last ∈ operators.getLast?, last.output = "") :
    ∀ op ∈ operators, op.output = "" ∨ ∃ target ∈ operators, target.id = op.output := by
  induction operators with
  | nil => exact fun op h => (nomatch h)
  | cons op rest ih =>
    cases rest with
    | nil =>
      intro o ho
      obtain rfl := List.mem_singleton.1 ho
      exact Or.inl (hlast o rfl)
    | cons next rest =>
      rw [List.isChain_cons_cons] at hchain
      rw [List.getLast?_cons_cons] at hlast
      intro o ho
      rcases List.mem_cons.1 ho with rfl | ho
      · exact Or.inr ⟨next, by simp, hchain.1.symm⟩
      · rcases ih hchain.2 hlast o ho with h | ⟨target, htarget, h⟩
        · exact Or.inl h
        · exact Or.inr ⟨target, List.mem_cons_of_mem op htarget, h⟩

/-- A processor made of a chain runs its pipeline. -/
theorem runs_of_chain {p : Pipeline F} {first : PipelineOperator} {others : List PipelineOperator}
    {filterExpr : String} (hfilter : env.parse p.filter = .ok filterExpr)
    {newUUID : Nat → Nat → String}
    (hoperators : getOperators env newUUID p.config = .ok (first :: others))
    (hchain : OperatorChain p.config (first :: others)) :
    Runs env p ⟨[routerTo first.id filterExpr] ++ (first :: others) ++ [noopOperator]⟩ := by
  have hmem : ∀ op ∈ first :: others,
      op ∈ [routerTo first.id filterExpr] ++ (first :: others) ++ [noopOperator] := by
    intro op hop
    simp only [List.mem_append]
    exact Or.inl (Or.inr hop)
  refine ⟨⟨first, others, filterExpr, hfilter, ⟨newUUID, hoperators⟩, rfl, hchain.keys,
    hchain.linked, hchain.last⟩, ?_, ?_⟩
  · intro op hop henabled
    have hkey : op.key ∈ (first :: others).map PipelineOperator.key :=
      hchain.keys.subset (List.mem_map_of_mem (List.mem_filter.2 ⟨hop, henabled⟩))
    obtain ⟨op', hop', heq⟩ := List.mem_map.1 hkey
    refine ⟨op', hmem op' hop', heq, ?_⟩
    apply reached_of_chain hchain.linked (fun o ho => ⟨hchain.ids o ho, hmem o ho⟩) _ op' hop'
    have hroute : (⟨first.id, filterExpr⟩ : Route) ∈
        ((routerTo first.id filterExpr).routes.getD []) := List.mem_cons_self
    exact Reached.route rfl hroute (hmem first List.mem_cons_self) rfl
  · intro target htarget
    obtain ⟨hin, hne⟩ := List.mem_filter.1 htarget
    rcases List.mem_append.1 hin with hin | hin
    · obtain ⟨op, hop, rfl⟩ := List.mem_map.1 hin
      rcases List.mem_append.1 hop with hop | hop
      · rcases List.mem_append.1 hop with hop | hop
        · obtain rfl := List.mem_singleton.1 hop
          simp [routerTo] at hne
        · rcases output_of_chain hchain.linked hchain.last op hop with h | ⟨o, ho, h⟩
          · simp [h] at hne
          · exact ⟨o, hmem o ho, h⟩
      · obtain rfl := List.mem_singleton.1 hop
        simp [noopOperator] at hne
    · -- The router names the first operator and `noop`.
      rcases List.mem_cons.1 hin with rfl | hroute
      · exact ⟨noopOperator, by simp, rfl⟩
      · obtain rfl := List.mem_singleton.1 hroute
        exact ⟨first, hmem first List.mem_cons_self, rfl⟩

end Single

/-! ## The names -/

theorem withIndex_index {a b : String} {i j : Nat} (h : withIndex a i = withIndex b j) : i = j := by
  have hlist := congrArg (fun s : String => s.toList.reverse) h
  simp only [withIndex, String.toList_append, List.reverse_append, Nat.toList_repr] at hlist
  have hdigits : ∀ (n : Nat) (rest : List Char),
      ((Nat.toDigits 10 n).reverse ++ ("-".toList.reverse ++ rest)).takeWhile (· ≠ '-') =
        (Nat.toDigits 10 n).reverse := by
    intro n rest
    rw [List.takeWhile_append_of_pos]
    · simp
    · intro c hc
      have hdigit := Nat.isDigit_of_mem_toDigits (by decide) (by decide) (List.mem_reverse.1 hc)
      have hne : c ≠ '-' := by
        rintro rfl
        exact absurd hdigit (by decide)
      simpa using hne
  have hreverse : (Nat.toDigits 10 i).reverse = (Nat.toDigits 10 j).reverse := by
    rw [← hdigits i, ← hdigits j, hlist]
  have hof := congrArg (fun ds => Nat.ofDigitChars 10 ds 0) (List.reverse_inj.1 hreverse)
  simpa only [Nat.ofDigitChars_ten_toDigits] using hof

section Names

variable {F : Type}

/-- The pipelines that contribute, with their indices and normalised names. -/
def wantedNames : Nat → List (Pipeline F) → List (Nat × String)
  | _, [] => []
  | pipelineIdx, p :: rest =>
    if p.contributes then
      (pipelineIdx, collectorConfProcessorName p) :: wantedNames (pipelineIdx + 1) rest
    else wantedNames (pipelineIdx + 1) rest

attribute [local simp] wantedNames

variable {pipelines : List (Pipeline F)}

theorem le_of_mem_wantedNames :
    ∀ {pipelineIdx : Nat}, ∀ item ∈ wantedNames pipelineIdx pipelines, pipelineIdx ≤ item.1 := by
  induction pipelines with
  | nil => exact fun item h => (nomatch h)
  | cons p rest ih =>
    intro pipelineIdx item hitem
    rw [wantedNames] at hitem
    by_cases hp : p.contributes = true
    · rw [if_pos hp, List.mem_cons] at hitem
      rcases hitem with rfl | hitem
      · exact Nat.le_refl _
      · exact Nat.le_of_succ_le (ih item hitem)
    · rw [if_neg hp] at hitem
      exact Nat.le_of_succ_le (ih item hitem)

theorem nodup_wantedNames :
    ∀ {pipelineIdx : Nat}, ((wantedNames pipelineIdx pipelines).map Prod.fst).Nodup := by
  induction pipelines with
  | nil => exact List.nodup_nil
  | cons p rest ih =>
    intro pipelineIdx
    rw [wantedNames]
    by_cases hp : p.contributes = true
    · rw [if_pos hp, List.map_cons, List.nodup_cons]
      refine ⟨?_, ih⟩
      intro hmem
      obtain ⟨item, hitem, heq⟩ := List.mem_map.1 hmem
      have hle := le_of_mem_wantedNames item hitem
      rw [heq] at hle
      exact Nat.lt_irrefl _ hle
    · rw [if_neg hp]
      exact ih

/-- No contributing pipeline whose normalised name is taken has a suffixed name that is the
normalised name of an earlier one. -/
def NoNameClash (pipelines : List (Pipeline F)) : Prop :=
  OneShotNames.Clear withIndex (wantedNames 0 pipelines).reverse

instance (pipelines : List (Pipeline F)) : Decidable (NoNameClash pipelines) :=
  inferInstanceAs (Decidable (OneShotNames.Clear withIndex _))

variable {env : Environment F}

/-- An enabled pipeline contributes when some operator is kept. -/
theorem contributes_iff {p : Pipeline F} {operators : List PipelineOperator}
    (henabled : p.enabled = true) (hchain : OperatorChain p.config operators) :
    p.contributes = true ↔ operators ≠ [] := by
  rw [Pipeline.contributes, henabled, Bool.true_and, List.any_eq_true]
  constructor
  · rintro ⟨op, hop, hop'⟩ hnil
    have hkey := hchain.keys.subset (List.mem_map_of_mem (List.mem_filter.2 ⟨hop, hop'⟩))
    rw [hnil] at hkey
    cases hkey
  · intro hne
    have hfilter : p.config.filter (·.enabled) ≠ [] := fun h => hne (hchain.none h)
    obtain ⟨op, hop⟩ := List.exists_mem_of_ne_nil _ hfilter
    exact ⟨op, (List.mem_filter.1 hop).1, (List.mem_filter.1 hop).2⟩

/-- The loop, for valid pipelines whose operators can be built: the names are those of
`OneShotNames`, and if they differ every pipeline has its processor. -/
theorem prepareFrom_spec :
    ∀ (pipelineIdx : Nat) {processors : String → Option Processor}
      (before : List (Nat × String)),
      (∀ p ∈ pipelines, isValid env p = .ok ()) →
      (∀ p ∈ pipelines, p.enabled = true → ∀ op ∈ p.config, op.enabled = true →
        OperatorBuilds env op) →
      (∀ name, (processors name).isSome = true ↔
        name ∈ OneShotNames.assigned withIndex before) →
      ∃ result newNames,
        prepareFrom env pipelineIdx pipelines processors
            (OneShotNames.assigned withIndex before) =
          .ok (result, OneShotNames.assigned withIndex before ++ newNames) ∧
        OneShotNames.assigned withIndex before ++ newNames =
          OneShotNames.assigned withIndex (before ++ wantedNames pipelineIdx pipelines) ∧
        (∀ name, (result name).isSome = true ↔
          name ∈ OneShotNames.assigned withIndex before ++ newNames) ∧
        ((OneShotNames.assigned withIndex before ++ newNames).Nodup →
          (∀ name ∈ OneShotNames.assigned withIndex before, result name = processors name) ∧
          List.Forall₂ (fun name p => ∃ processor, result name = some processor ∧
            Runs env p processor) newNames (pipelines.filter Pipeline.contributes)) := by
  induction pipelines with
  | nil =>
    intro pipelineIdx processors before _ _ hkeys
    refine ⟨processors, [], by rw [prepareFrom, List.append_nil], by simp [wantedNames], ?_, ?_⟩
    · intro name
      rw [hkeys, List.append_nil]
    · exact fun _ => ⟨fun _ _ => rfl, List.Forall₂.nil⟩
  | cons p rest ih =>
    intro pipelineIdx processors before hvalid hbuilds hkeys
    have hvalid' : ∀ q ∈ rest, isValid env q = .ok () :=
      fun q hq => hvalid q (List.mem_cons_of_mem p hq)
    have hbuilds' : ∀ q ∈ rest, q.enabled = true → ∀ op ∈ q.config, op.enabled = true →
        OperatorBuilds env op := fun q hq => hbuilds q (List.mem_cons_of_mem p hq)
    rw [prepareFrom, wantedNames]
    by_cases henabled : p.enabled = true
    · obtain ⟨hconfig, filterExpr, hfilter⟩ := isValid_ok (hvalid p List.mem_cons_self)
      obtain ⟨operators, hoperators⟩ := (getOperators_ok_iff (env.newUUID pipelineIdx)).2
        (hbuilds p List.mem_cons_self henabled)
      have hchain := getOperators_chain hconfig hoperators
      have hcontributes := contributes_iff henabled hchain
      rw [henabled, hoperators]
      simp only [Bool.not_true, Bool.false_eq_true, if_false]
      cases operators with
      | nil =>
        -- No operator is enabled: the pipeline is skipped.
        have hnone : ¬ p.contributes = true := fun h => hcontributes.1 h rfl
        rw [if_neg hnone, List.filter_cons_of_neg hnone]
        exact ih _ _ hvalid' hbuilds' hkeys
      | cons first others =>
        have hsome : p.contributes = true := hcontributes.2 (List.cons_ne_nil _ _)
        rw [if_pos hsome, List.filter_cons_of_pos hsome, hfilter]
        have hname : (if (processors (collectorConfProcessorName p)).isSome = true then
            withIndex (collectorConfProcessorName p) pipelineIdx
            else collectorConfProcessorName p) =
            OneShotNames.nameFor withIndex (OneShotNames.assigned withIndex before)
              (pipelineIdx, collectorConfProcessorName p) := by
          rw [OneShotNames.nameFor]
          by_cases hin : collectorConfProcessorName p ∈ OneShotNames.assigned withIndex before
          · rw [if_pos hin, if_pos ((hkeys _).2 hin)]
          · rw [if_neg hin, if_neg (fun h => hin ((hkeys _).1 h))]
        simp only [hname]
        have hconcat := OneShotNames.assigned_concat withIndex before
          (pipelineIdx, collectorConfProcessorName p)
        generalize OneShotNames.nameFor withIndex (OneShotNames.assigned withIndex before)
          (pipelineIdx, collectorConfProcessorName p) = name at hconcat
        have hruns := runs_of_chain hfilter hoperators hchain
        generalize (⟨[routerTo first.id filterExpr] ++ (first :: others) ++ [noopOperator]⟩ :
          Processor) = processor at hruns
        have hkeys' : ∀ n, (Function.update processors name (some processor) n).isSome = true ↔
            n ∈ OneShotNames.assigned withIndex
              (before ++ [(pipelineIdx, collectorConfProcessorName p)]) := by
          intro n
          rw [hconcat, List.mem_append, List.mem_singleton, Function.update_apply]
          by_cases hn : n = name
          · simp [hn]
          · rw [if_neg hn, hkeys]
            simp [hn]
        obtain ⟨result, newNames, hrun, hassigned, honly, heach⟩ :=
          ih (pipelineIdx + 1) _ hvalid' hbuilds' hkeys'
        rw [hconcat] at hrun hassigned honly heach
        refine ⟨result, name :: newNames, ?_, ?_, ?_, ?_⟩
        · rw [hrun, List.append_assoc]
          rfl
        · rw [← List.append_cons, List.append_assoc] at hassigned
          exact hassigned
        · intro n
          rw [honly n, List.append_assoc]
          rfl
        · intro hnodup
          rw [List.append_cons] at hnodup
          obtain ⟨hold, hnew⟩ := heach hnodup
          refine ⟨?_, List.Forall₂.cons ⟨processor, ?_, hruns⟩ hnew⟩
          · intro n hn
            have hne : n ≠ name := by
              rintro rfl
              rw [List.nodup_append, List.nodup_append] at hnodup
              exact hnodup.1.2.2 n hn n (List.mem_singleton.2 rfl) rfl
            rw [hold n (List.mem_append_left _ hn), Function.update_of_ne hne]
          · rw [hold name (List.mem_append_right _ (List.mem_singleton.2 rfl)),
              Function.update_self]
    · have hnone : ¬ p.contributes = true := by
        intro h
        exact henabled (Bool.and_eq_true_iff.1 h).1
      have hfalse : p.enabled = false := by simpa using henabled
      rw [hfalse, if_neg hnone, List.filter_cons_of_neg hnone]
      exact ih _ _ hvalid' hbuilds' hkeys

/-- The loop succeeds only if every enabled operator can be built. -/
theorem operatorBuilds_of_prepareFrom :
    ∀ {pipelineIdx : Nat} {processors : String → Option Processor} {names : List String}
      {r : (String → Option Processor) × List String},
      prepareFrom env pipelineIdx pipelines processors names = .ok r →
      ∀ p ∈ pipelines, p.enabled = true → ∀ op ∈ p.config, op.enabled = true →
        OperatorBuilds env op := by
  induction pipelines with
  | nil => exact fun _ p hp => (nomatch hp)
  | cons p rest ih =>
    intro pipelineIdx processors names r h q hq hqenabled
    rw [prepareFrom] at h
    by_cases henabled : p.enabled = true
    · rw [henabled] at h
      simp only [Bool.not_true, Bool.false_eq_true, if_false] at h
      cases hoperators : getOperators env (env.newUUID pipelineIdx) p.config with
      | error failure =>
        rw [hoperators] at h
        cases h
      | ok operators =>
        have hp := (getOperators_ok_iff (env.newUUID pipelineIdx)).1 ⟨operators, hoperators⟩
        rw [hoperators] at h
        have hrest : ∀ q ∈ rest, q.enabled = true → ∀ op ∈ q.config, op.enabled = true →
            OperatorBuilds env op := by
          cases operators with
          | nil => exact ih h
          | cons first others =>
            cases hparse : env.parse p.filter with
            | error text =>
              simp only [hparse] at h
              cases h
            | ok filterExpr =>
              simp only [hparse] at h
              exact ih h
        rcases List.mem_cons.1 hq with rfl | hq
        · exact hp
        · exact hrest q hq hqenabled
    · have hfalse : p.enabled = false := by simpa using henabled
      rw [hfalse] at h
      rcases List.mem_cons.1 hq with rfl | hq
      · exact absurd hqenabled henabled
      · exact ih h q hq hqenabled

end Names

/-! ## The result -/

section Result

variable {F : Type} (env : Environment F)

/-- For valid pipelines: the result has different names, one for each enabled pipeline with an
enabled operator, in their order, each mapped to a processor that runs the pipeline, exactly when
the conditions of all enabled operators can be generated and no suffixed name meets the normalised
name of an earlier pipeline. -/
theorem preparePipelineProcessor_iff (pipelines : List (Pipeline F))
    (hvalid : ∀ p ∈ pipelines, isValid env p = .ok ()) :
    (∃ processors names, preparePipelineProcessor env pipelines = .ok (processors, names) ∧
        Generated env pipelines processors names) ↔
      (∀ p ∈ pipelines, p.enabled = true → ∀ op ∈ p.config, op.enabled = true →
        OperatorBuilds env op) ∧ NoNameClash pipelines := by
  have hkeys : ∀ name, ((fun _ => none : String → Option Processor) name).isSome = true ↔
      name ∈ OneShotNames.assigned withIndex [] := by
    intro name
    simp
  have hspec := fun hbuilds => prepareFrom_spec 0 [] hvalid hbuilds hkeys
  have hclear : (OneShotNames.assigned withIndex (wantedNames 0 pipelines)).Nodup ↔
      NoNameClash pipelines :=
    OneShotNames.nodup_assigned_iff (fun _ _ _ _ h => withIndex_index h) nodup_wantedNames
  constructor
  · rintro ⟨processors, names, hrun, hgenerated⟩
    have hbuilds := operatorBuilds_of_prepareFrom hrun
    refine ⟨hbuilds, ?_⟩
    obtain ⟨result, newNames, hrun', hassigned, -, -⟩ := hspec hbuilds
    have heq := Except.ok.inj (hrun.symm.trans hrun')
    rw [← hclear]
    rw [List.nil_append] at hassigned
    rw [← hassigned]
    have hnames : names = [] ++ newNames := congrArg Prod.snd heq
    exact hnames ▸ hgenerated.different
  · rintro ⟨hbuilds, hnoclash⟩
    obtain ⟨result, newNames, hrun, hassigned, honly, heach⟩ := hspec hbuilds
    have hnodup : (OneShotNames.assigned withIndex [] ++ newNames).Nodup := by
      rw [hassigned]
      exact hclear.2 hnoclash
    refine ⟨result, newNames, hrun, ⟨hnodup, (heach hnodup).2, ?_⟩⟩
    intro name hname
    exact (honly name).1 (Option.isSome_iff_ne_none.2 hname)

end Result

/-! ## A pipeline that is dropped -/

/-- An environment in which every path compiles and every filter is `body != nil`. -/
def plainEnvironment : Environment Unit where
  parse := fun _ => .ok "body != nil"
  compile := fun _ => .ok ()
  memberNodes := fun _ => .ok []
  regexForStrptimeLayout := fun layout => .ok layout
  subexpNames := fun _ => .ok [""]
  newUUID := fun i j k => i.repr ++ "-" ++ j.repr ++ "-" ++ k.repr
  maxJSONFlatteningDepth := 1
  sendOnErrorQuiet := "send_quiet"

/-- A pipeline that keeps the fields of one operator. -/
def retaining (aliasText field : String) : Pipeline Unit where
  orderId := 1
  enabled := true
  name := aliasText
  aliasText := aliasText
  filter := ()
  config := [{ type := .retain, id := "retain", orderId := 1, enabled := true, fields := [field] }]

theorem retaining_builds {pipelines : List (Pipeline Unit)}
    (h : ∀ p ∈ pipelines, ∃ aliasText field, p = retaining aliasText field) :
    ∀ p ∈ pipelines, p.enabled = true → ∀ op ∈ p.config, op.enabled = true →
      OperatorBuilds plainEnvironment op := by
  intro p hp _ op hop _
  obtain ⟨aliasText, field, rfl⟩ := h p hp
  obtain rfl := List.mem_singleton.1 hop
  trivial

/-- Aliases `a-2`, `a` and `a`: the third pipeline gets the name of the first and replaces it. -/
theorem aliases_clash :
    (∀ p ∈ [retaining "a-2" "x", retaining "a" "y", retaining "a" "z"],
      isValid plainEnvironment p = .ok ()) ∧
    ∃ processors names,
      preparePipelineProcessor plainEnvironment
          [retaining "a-2" "x", retaining "a" "y", retaining "a" "z"] = .ok (processors, names) ∧
        names = ["signozlogspipeline/pipeline_a-2", "signozlogspipeline/pipeline_a",
          "signozlogspipeline/pipeline_a-2"] ∧
        ¬ Generated plainEnvironment [retaining "a-2" "x", retaining "a" "y", retaining "a" "z"]
          processors names := by
  refine ⟨by decide +kernel, _, _, rfl, by decide +kernel, ?_⟩
  intro h
  exact absurd h.different (by decide +kernel)

/-- Two pipelines with one alias get different names. -/
theorem same_alias_generated :
    ∃ processors names,
      preparePipelineProcessor plainEnvironment [retaining "a" "x", retaining "a" "y"] =
          .ok (processors, names) ∧
        Generated plainEnvironment [retaining "a" "x", retaining "a" "y"] processors names := by
  apply (preparePipelineProcessor_iff plainEnvironment _ (by decide +kernel)).2
  refine ⟨retaining_builds ?_, by decide +kernel⟩
  intro p hp
  simp only [List.mem_cons, List.not_mem_nil, or_false] at hp
  rcases hp with rfl | rfl
  · exact ⟨_, _, rfl⟩
  · exact ⟨_, _, rfl⟩

end Signoz.LogPipelines
