import Signoz.Dashboard.VariableGraph
import Signoz.Lib.Runs

/-!
# The fetch store of the dashboard variables

`variableFetchStore.ts` keeps the fetch state of every variable. A QUERY variable waits for its
QUERY parents, a DYNAMIC variable for all QUERY variables, and three calls move them on. For each
call there is one lemma that says the state of every variable after it.
-/

namespace Signoz.Dashboard

open Lib

/-! ## The store -/

/-- The states of `VariableFetchState`. -/
inductive VariableFetchState
  | idle
  | loading
  | revalidating
  | waiting
  | error
  deriving DecidableEq

/-- `IVariableFetchStoreState`. A time or a counter that is not there reads as 0. -/
structure VariableFetchStoreState where
  states : String → Option VariableFetchState
  lastUpdated : String → Int
  cycleIds : String → Nat

/-- `initialState`. -/
def VariableFetchStoreState.initial : VariableFetchStoreState :=
  ⟨fun _ => none, fun _ => 0, fun _ => 0⟩

/-- Idle, or in error. -/
def isSettled (state : Option VariableFetchState) : Bool :=
  state = some .idle || state = some .error

/-- A variable that was fetched before is revalidated. -/
def resolveFetchState (draft : VariableFetchStoreState) (name : String) : VariableFetchState :=
  if draft.lastUpdated name > 0 then .revalidating else .loading

/-- Every QUERY variable is settled. -/
def areAllQueryVariablesSettled (states : String → Option VariableFetchState)
    (variableTypes : List (String × VariableQueryType)) : Bool :=
  (variableTypes.filter fun p => p.2 = .QUERY).all fun p => isSettled (states p.1)

/-- `draft.states[name] = state`. -/
def VariableFetchStoreState.setState (draft : VariableFetchStoreState) (name : String)
    (state : VariableFetchState) : VariableFetchStoreState :=
  { draft with states := Function.update draft.states name (some state) }

/-- The cycle of a variable goes up, and its state is set. -/
def VariableFetchStoreState.startCycle (draft : VariableFetchStoreState) (name : String)
    (state : VariableFetchState) : VariableFetchStoreState :=
  { draft.setState name state with
    cycleIds := Function.update draft.cycleIds name (draft.cycleIds name + 1) }

/-- Every DYNAMIC variable that waits becomes active. -/
def unlockWaitingDynamicVariables (draft : VariableFetchStoreState)
    (dynamicVariableOrder : List String) : VariableFetchStoreState :=
  dynamicVariableOrder.foldl
    (fun draft dynName =>
      if draft.states dynName = some .waiting then
        draft.setState dynName (resolveFetchState draft dynName)
      else draft)
    draft

/-- New variables are idle, and entries of variables that are gone are deleted. -/
def initializeVariableFetchStore (variableNames : List String) (draft : VariableFetchStoreState) :
    VariableFetchStoreState where
  states name := if name ∈ variableNames then some ((draft.states name).getD .idle) else none
  lastUpdated name := if name ∈ variableNames then draft.lastUpdated name else 0
  cycleIds name := if name ∈ variableNames then draft.cycleIds name else 0

/-! ## The context -/

/-- `VariableFetchContext`. -/
structure VariableFetchContext where
  doAllQueryVariablesHaveValuesSelected : Bool
  variableTypes : List (String × VariableQueryType)
  dynamicVariableOrder : List String
  dependencyData : Option DependencyData

/-- `selectedValue`: none, a list, or one value. -/
inductive SelectedValue
  | nil
  | array (values : List String)
  | single (value : String)

/-- An empty list is no selection. -/
def SelectedValue.isSelected : SelectedValue → Bool
  | .nil => false
  | .array values => values.length > 0
  | .single _ => true

/-- `getVariableDependencyContext`, with the values selected at the time of the call. -/
def getVariableDependencyContext (textContainsVariableReference : String → String → Bool)
    (vars : DashboardVariables) (selectedValue : String → SelectedValue) :
    VariableFetchContext where
  doAllQueryVariablesHaveValuesSelected :=
    vars.sorted.all fun v => v.type ≠ .QUERY || (selectedValue v.name).isSelected
  variableTypes := buildVariableTypesMap vars.sorted
  dynamicVariableOrder := buildDynamicVariableOrder vars.sorted
  dependencyData := buildDependencyData textContainsVariableReference vars.sorted

/-! ## The calls -/

/-- A loop that starts a cycle for each name, in a state computed from the store at its turn. -/
def startCycles (state : VariableFetchStoreState → String → VariableFetchState)
    (names : List String) (draft : VariableFetchStoreState) : VariableFetchStoreState :=
  names.foldl (fun draft name => draft.startCycle name (state draft name)) draft

/-- One of the parents is a QUERY variable. -/
def hasQueryParents (ctx : VariableFetchContext) (data : DependencyData) (name : String) : Bool :=
  (data.parentDependencyGraph.at name).any fun p => ctx.variableTypes.lookup p = some .QUERY

/-- QUERY variables without QUERY parents start, DYNAMIC ones once all values are selected. -/
def enqueueFetchOfAllVariables (ctx : VariableFetchContext) (draft : VariableFetchStoreState) :
    VariableFetchStoreState :=
  match ctx.dependencyData with
  | none => draft
  | some data =>
    let draft := startCycles
      (fun draft name =>
        if hasQueryParents ctx data name then .waiting else resolveFetchState draft name)
      data.order draft
    startCycles
      (fun draft name =>
        if ctx.doAllQueryVariablesHaveValuesSelected then resolveFetchState draft name
        else .waiting)
      ctx.dynamicVariableOrder draft

/-- The last block of `onVariableFetchComplete` and `onVariableFetchFailure`. -/
def unlockIfSettled (ctx : VariableFetchContext) (name : String) (draft : VariableFetchStoreState) :
    VariableFetchStoreState :=
  if ctx.variableTypes.lookup name = some .QUERY ∧
      areAllQueryVariablesSettled draft.states ctx.variableTypes then
    unlockWaitingDynamicVariables draft ctx.dynamicVariableOrder
  else draft

/-- The state and the time of a variable that completes. -/
def markComplete (now : Int) (name : String) (draft : VariableFetchStoreState) :
    VariableFetchStoreState :=
  { draft.setState name .idle with
    lastUpdated := Function.update draft.lastUpdated name now }

/-- The loop over the children of `onVariableFetchComplete`. -/
def unblockChildren (ctx : VariableFetchContext) (data : DependencyData) (name : String)
    (draft : VariableFetchStoreState) : VariableFetchStoreState :=
  (data.graph.at name).foldl
    (fun draft child =>
      if ctx.variableTypes.lookup child = some .QUERY ∧ draft.states child = some .waiting then
        draft.setState child (resolveFetchState draft child)
      else draft)
    draft

/-- The variable is idle, and what waits for it goes on. -/
def onVariableFetchComplete (ctx : VariableFetchContext) (now : Int) (name : String)
    (draft : VariableFetchStoreState) : VariableFetchStoreState :=
  let draft := markComplete now name draft
  match ctx.dependencyData with
  | none => draft
  | some data => unlockIfSettled ctx name (unblockChildren ctx data name draft)

/-- The loop over the descendants of `onVariableFetchFailure`. -/
def idleDescendants (ctx : VariableFetchContext) (data : DependencyData) (name : String)
    (draft : VariableFetchStoreState) : VariableFetchStoreState :=
  (data.transitiveDescendants.at name).foldl
    (fun draft desc =>
      if ctx.variableTypes.lookup desc = some .QUERY then draft.setState desc .idle else draft)
    draft

/-- The variable has failed, and its QUERY descendants are idle. -/
def onVariableFetchFailure (ctx : VariableFetchContext) (name : String)
    (draft : VariableFetchStoreState) : VariableFetchStoreState :=
  let draft := draft.setState name .error
  match ctx.dependencyData with
  | none => draft
  | some data => unlockIfSettled ctx name (idleDescendants ctx data name draft)

/-- The QUERY variables among the descendants. -/
def queryDescendants (ctx : VariableFetchContext) (data : DependencyData) (name : String) :
    List String :=
  (data.transitiveDescendants.at name).filter fun desc =>
    ctx.variableTypes.lookup desc = some .QUERY

/-- The loop over the QUERY descendants of `enqueueDescendantsOfVariable`. -/
def enqueueQueryDescendants (ctx : VariableFetchContext) (data : DependencyData) (name : String)
    (draft : VariableFetchStoreState) : VariableFetchStoreState :=
  startCycles
    (fun draft desc =>
      let allParentsSettled := (data.parentDependencyGraph.at desc).all fun p =>
        isSettled (draft.states p)
      if allParentsSettled then resolveFetchState draft desc else .waiting)
    (queryDescendants ctx data name) draft

/-- The QUERY descendants start again, then the DYNAMIC variables. -/
def enqueueDescendantsOfVariable (ctx : VariableFetchContext) (name : String)
    (draft : VariableFetchStoreState) : VariableFetchStoreState :=
  match ctx.dependencyData with
  | none => draft
  | some data =>
    let draft := enqueueQueryDescendants ctx data name draft
    startCycles
      (fun draft dynName =>
        if areAllQueryVariablesSettled draft.states ctx.variableTypes then
          resolveFetchState draft dynName
        else .waiting)
      ctx.dynamicVariableOrder draft

/-- How a fetch ends. -/
inductive Outcome
  | complete
  | failure

def isVariableInActiveFetchState (state : Option VariableFetchState) : Bool :=
  state = some .loading || state = some .revalidating

/-- A fetch that ends counts only for an active variable. -/
def settleVariableFetch (ctx : VariableFetchContext) (now : Int) (name : String) (outcome : Outcome)
    (draft : VariableFetchStoreState) : VariableFetchStoreState :=
  if name = "" then draft
  else if !isVariableInActiveFetchState (draft.states name) then draft
  else
    match outcome with
    | .complete => onVariableFetchComplete ctx now name draft
    | .failure => onVariableFetchFailure ctx name draft

/-- A call for a variable of the dashboard, with the values selected or the time when it comes. -/
inductive Call
  | enqueueFetchOfAllVariables (selectedValue : String → SelectedValue)
  | enqueueDescendantsOfVariable (name : String)
  | settleVariableFetch (name : String) (outcome : Outcome) (now : Int)

section Calls

variable (textContainsVariableReference : String → String → Bool) (vars : DashboardVariables)

/-- The context of a call that does not read the selected values. -/
def contextOf : VariableFetchContext :=
  getVariableDependencyContext textContainsVariableReference vars fun _ => .nil

/-- One call on the store. -/
def step (s : VariableFetchStoreState) : Call → Option VariableFetchStoreState
  | .enqueueFetchOfAllVariables selectedValue =>
    some (enqueueFetchOfAllVariables
      (getVariableDependencyContext textContainsVariableReference vars selectedValue) s)
  | .enqueueDescendantsOfVariable name =>
    some (enqueueDescendantsOfVariable (contextOf textContainsVariableReference vars) name s)
  | .settleVariableFetch name outcome now =>
    some (settleVariableFetch (contextOf textContainsVariableReference vars) now name outcome s)

/-- All variables idle. -/
def allIdle : VariableFetchStoreState := initializeVariableFetchStore vars.names .initial

end Calls

/-! ## States of a variable -/

/-- The variable is loading or revalidating. -/
def IsActive (s : VariableFetchStoreState) (name : String) : Prop :=
  isVariableInActiveFetchState (s.states name) = true

def IsWaiting (s : VariableFetchStoreState) (name : String) : Prop := s.states name = some .waiting

instance (s : VariableFetchStoreState) (name : String) : Decidable (IsActive s name) :=
  inferInstanceAs (Decidable (_ = true))

instance (s : VariableFetchStoreState) (name : String) : Decidable (IsWaiting s name) :=
  inferInstanceAs (Decidable (s.states name = some .waiting))

variable {s : VariableFetchStoreState} {name : String}

theorem isActive_iff :
    IsActive s name ↔ s.states name = some .loading ∨ s.states name = some .revalidating := by
  simp [IsActive, isVariableInActiveFetchState]

theorem isSettled_iff {state : Option VariableFetchState} :
    isSettled state = true ↔ state = some .idle ∨ state = some .error := by
  simp [isSettled]

theorem IsActive.not_waiting (h : IsActive s name) :
    ¬ IsWaiting s name := by
  intro hw
  rw [IsWaiting] at hw
  rw [isActive_iff, hw] at h
  simp at h

/-- What is not settled is active or waiting. -/
theorem not_settled_iff (h : s.states name ≠ none) :
    isSettled (s.states name) = false ↔ IsActive s name ∨ IsWaiting s name := by
  rw [isActive_iff, IsWaiting]
  obtain ⟨state, hstate⟩ := Option.ne_none_iff_exists'.1 h
  rw [hstate]
  cases state with
  | idle => simp [isSettled]
  | loading => simp [isSettled]
  | revalidating => simp [isSettled]
  | waiting => simp [isSettled]
  | error => simp [isSettled]

theorem resolveFetchState_cases (s : VariableFetchStoreState) (name : String) :
    resolveFetchState s name = .loading ∨ resolveFetchState s name = .revalidating := by
  rw [resolveFetchState]
  by_cases h : s.lastUpdated name > 0
  · exact Or.inr (if_pos h)
  · exact Or.inl (if_neg h)

/-- A variable that is resolved is active. -/
theorem isActive_of_resolve {s t : VariableFetchStoreState}
    (h : t.states name = some (resolveFetchState s name)) : IsActive t name := by
  rw [isActive_iff, h]
  rcases resolveFetchState_cases s name with hr | hr
  · exact Or.inl (congrArg some hr)
  · exact Or.inr (congrArg some hr)

/-! ## The loops -/

section Loops

variable {state : VariableFetchStoreState → String → VariableFetchState}
  {s : VariableFetchStoreState}

theorem startCycles_cons (name : String) (rest : List String) :
    startCycles state (name :: rest) s =
      startCycles state rest (s.startCycle name (state s name)) := rfl

theorem startCycle_states (name n : String) (st : VariableFetchState) :
    (s.startCycle name st).states n = if n = name then some st else s.states n :=
  Function.update_apply ..

theorem startCycle_cycleIds (name n : String) (st : VariableFetchState) :
    (s.startCycle name st).cycleIds n = s.cycleIds n + if name = n then 1 else 0 := by
  change Function.update s.cycleIds name (s.cycleIds name + 1) n = _
  rw [Function.update_apply]
  by_cases h : n = name
  · subst h
    simp
  · simp [h, Ne.symm h]

theorem startCycles_lastUpdated (names : List String) :
    ∀ s : VariableFetchStoreState, (startCycles state names s).lastUpdated = s.lastUpdated := by
  induction names with
  | nil => exact fun s => rfl
  | cons name rest ih =>
    intro s
    rw [startCycles_cons, ih]
    rfl

/-- A loop raises the cycle of a name once for each turn. -/
theorem startCycles_cycleIds (names : List String) (n : String) :
    ∀ s : VariableFetchStoreState,
      (startCycles state names s).cycleIds n = s.cycleIds n + names.count n := by
  induction names with
  | nil => exact fun s => rfl
  | cons name rest ih =>
    intro s
    rw [startCycles_cons, ih, startCycle_cycleIds, List.count_cons]
    by_cases h : name = n
    · subst h
      simp
      omega
    · simp [h]

variable {names : List String}

/-- A loop leaves the states of other names. -/
theorem startCycles_states_of_not_mem {n : String} (h : n ∉ names) :
    ∀ s : VariableFetchStoreState, (startCycles state names s).states n = s.states n := by
  induction names with
  | nil => exact fun s => rfl
  | cons name rest ih =>
    intro s
    rw [List.mem_cons, not_or] at h
    rw [startCycles_cons, ih h.2, startCycle_states, if_neg h.1]

/-- Where the loop computes the state of a name from what it does not change, that is the state
of the name after the loop. -/
theorem startCycles_states_of_mem (I : VariableFetchStoreState → Prop)
    (value : String → VariableFetchState) (hvalue : ∀ s, I s → ∀ n ∈ names, state s n = value n)
    (hkeep : ∀ s, I s → ∀ n ∈ names, I (s.startCycle n (value n))) {n : String} (hn : n ∈ names) :
    ∀ s, I s → (startCycles state names s).states n = some (value n) := by
  induction names with
  | nil => cases hn
  | cons name rest ih =>
    intro s hs
    rw [startCycles_cons, hvalue s hs name List.mem_cons_self]
    have hs' := hkeep s hs name List.mem_cons_self
    by_cases hrest : n ∈ rest
    · exact ih (fun s hs n hn => hvalue s hs n (List.mem_cons_of_mem _ hn))
        (fun s hs n hn => hkeep s hs n (List.mem_cons_of_mem _ hn)) hrest _ hs'
    · obtain rfl := (List.mem_cons.1 hn).resolve_right hrest
      rw [startCycles_states_of_not_mem hrest, startCycle_states, if_pos rfl]

/-- In the loop over the descendants a name starts when its parents are settled in the store before
the loop and none of them has had its turn. -/
theorem startCycles_cascade {parents : String → List String}
    (hstate : ∀ s n, state s n =
      if (parents n).all (fun p => isSettled (s.states p)) then resolveFetchState s n
      else .waiting) {n : String} (hn : n ∈ names) (hnodup : names.Nodup) :
    ∀ s, (startCycles state names s).states n =
      some (if ∀ p ∈ parents n, isSettled (s.states p) = true ∧ p ∉ names.takeWhile (· ≠ n) then
        resolveFetchState s n else .waiting) := by
  induction names with
  | nil => cases hn
  | cons name rest ih =>
    intro s
    rw [List.nodup_cons] at hnodup
    rw [startCycles_cons]
    by_cases hname : n = name
    · subst hname
      rw [startCycles_states_of_not_mem hnodup.1, startCycle_states, if_pos rfl, hstate,
        List.takeWhile_cons_of_neg (by simp)]
      simp only [List.all_eq_true, List.not_mem_nil, not_false_eq_true, and_true]
    · have hrest : n ∈ rest := (List.mem_cons.1 hn).resolve_left hname
      have hne : name ≠ n := Ne.symm hname
      -- The name before it is active or waiting from its turn on.
      have hunsettled : isSettled (some (state s name)) = false := by
        rw [hstate]
        split
        · rcases resolveFetchState_cases s name with hr | hr <;> rw [hr] <;> rfl
        · rfl
      rw [ih hrest hnodup.2, List.takeWhile_cons_of_pos (by simpa using hne)]
      have hiff : (∀ p ∈ parents n,
          isSettled ((s.startCycle name (state s name)).states p) = true ∧
            p ∉ rest.takeWhile (· ≠ n)) ↔
          ∀ p ∈ parents n, isSettled (s.states p) = true ∧
            p ∉ name :: rest.takeWhile (· ≠ n) := by
        apply forall₂_congr
        intro p _
        rw [startCycle_states, List.mem_cons, not_or]
        by_cases hp : p = name
        · rw [if_pos hp, hunsettled]
          simp [hp]
        · rw [if_neg hp]
          simp [hp]
      simp only [hiff]
      rfl

/-- A loop that sets the state of those names that meet a condition on their own state. -/
theorem foldl_setState (cond : Option VariableFetchState → String → Prop)
    [∀ st n, Decidable (cond st n)] (value : (String → Int) → String → VariableFetchState)
    (names : List String) :
    ∀ s : VariableFetchStoreState,
      let t := names.foldl (fun draft name =>
        if cond (draft.states name) name then draft.setState name (value draft.lastUpdated name)
        else draft) s
      t.lastUpdated = s.lastUpdated ∧ t.cycleIds = s.cycleIds ∧
        ∀ n, t.states n =
          if n ∈ names ∧ cond (s.states n) n then some (value s.lastUpdated n)
          else s.states n := by
  induction names with
  | nil =>
    intro s
    refine ⟨rfl, rfl, ?_⟩
    intro n
    rw [if_neg (fun h => nomatch h.1)]
    rfl
  | cons name rest ih =>
    intro s
    rw [List.foldl_cons]
    by_cases hcond : cond (s.states name) name
    · rw [if_pos hcond]
      obtain ⟨hlast, hcycle, hstates⟩ := ih (s.setState name (value s.lastUpdated name))
      refine ⟨hlast, hcycle, ?_⟩
      intro n
      rw [hstates]
      have hset : (s.setState name (value s.lastUpdated name)).states n =
          if n = name then some (value s.lastUpdated name) else s.states n :=
        Function.update_apply ..
      by_cases hn : n = name
      · subst hn
        have hin : n ∈ n :: rest ∧ cond (s.states n) n := ⟨List.mem_cons_self, hcond⟩
        rw [hset, if_pos rfl, if_pos hin]
        exact ite_self _
      · rw [hset, if_neg hn]
        simp only [List.mem_cons, hn, false_or]
        rfl
    · rw [if_neg hcond]
      obtain ⟨hlast, hcycle, hstates⟩ := ih s
      refine ⟨hlast, hcycle, ?_⟩
      intro n
      rw [hstates]
      by_cases hn : n = name
      · subst hn
        rw [if_neg (fun h => hcond h.2), if_neg (fun h => hcond h.2)]
      · simp only [List.mem_cons, hn, false_or]

end Loops

/-! ## The store after a call -/

def IsQuery (ctx : VariableFetchContext) (name : String) : Prop :=
  ctx.variableTypes.lookup name = some .QUERY

instance (ctx : VariableFetchContext) (name : String) : Decidable (IsQuery ctx name) :=
  inferInstanceAs (Decidable (ctx.variableTypes.lookup name = some .QUERY))

/-- What the calls rely on: the context of a dashboard with variables. -/
structure VariableFetchContext.Sound (ctx : VariableFetchContext) (data : DependencyData) :
    Prop where
  dependencyData : ctx.dependencyData = some data
  graph : data.Sound ctx.variableTypes
  dynamic : ∀ name,
    name ∈ ctx.dynamicVariableOrder ↔ ctx.variableTypes.lookup name = some .DYNAMIC
  names : (ctx.variableTypes.map Prod.fst).Nodup
  /-- Values are missing only where there is a QUERY variable. -/
  values : ctx.doAllQueryVariablesHaveValuesSelected = false → ∃ name, IsQuery ctx name

section States

variable {ctx : VariableFetchContext} {data : DependencyData} (hctx : ctx.Sound data)
  {s : VariableFetchStoreState}

include hctx

theorem not_query_of_dynamic {name : String} (h : name ∈ ctx.dynamicVariableOrder) :
    ¬ IsQuery ctx name := by
  intro hquery
  have htype := (hctx.dynamic name).1 h
  rw [IsQuery, htype] at hquery
  cases hquery

theorem areAllQueryVariablesSettled_iff {states : String → Option VariableFetchState} :
    areAllQueryVariablesSettled states ctx.variableTypes = true ↔
      ∀ name, IsQuery ctx name → isSettled (states name) = true := by
  rw [areAllQueryVariablesSettled, List.all_eq_true]
  simp only [List.mem_filter, decide_eq_true_eq, and_imp, Prod.forall]
  constructor
  · intro h name hquery
    exact h name .QUERY ((KeyedFold.mem_iff_lookup hctx.names).2 hquery) rfl
  · rintro h name type hmem rfl
    exact h name ((KeyedFold.mem_iff_lookup hctx.names).1 hmem)

/-- The states of the QUERY variables decide whether all of them are settled. -/
theorem areAllQueryVariablesSettled_congr {states states' : String → Option VariableFetchState}
    (h : ∀ name, IsQuery ctx name → states' name = states name) :
    areAllQueryVariablesSettled states' ctx.variableTypes =
      areAllQueryVariablesSettled states ctx.variableTypes := by
  rw [Bool.eq_iff_iff, areAllQueryVariablesSettled_iff hctx, areAllQueryVariablesSettled_iff hctx]
  apply forall₂_congr
  intro name hquery
  rw [h name hquery]

omit hctx in
theorem resolveFetchState_congr {d : VariableFetchStoreState} (h : d.lastUpdated = s.lastUpdated)
    (name : String) : resolveFetchState d name = resolveFetchState s name := by
  rw [resolveFetchState, resolveFetchState, h]

/-- The states after `enqueueFetchOfAllVariables`. -/
theorem enqueueFetchOfAllVariables_states (name : String) :
    (enqueueFetchOfAllVariables ctx s).states name =
      if name ∈ ctx.dynamicVariableOrder then
        some (if ctx.doAllQueryVariablesHaveValuesSelected then resolveFetchState s name
          else .waiting)
      else if name ∈ data.order then
        some (if hasQueryParents ctx data name then .waiting else resolveFetchState s name)
      else s.states name := by
  rw [enqueueFetchOfAllVariables, hctx.dependencyData]
  by_cases hdyn : name ∈ ctx.dynamicVariableOrder
  · rw [if_pos hdyn]
    apply startCycles_states_of_mem (fun d => d.lastUpdated = s.lastUpdated)
      (fun n => if ctx.doAllQueryVariablesHaveValuesSelected then resolveFetchState s n
        else .waiting) _ _ hdyn
    · exact startCycles_lastUpdated _ s
    · intro d hd n _
      rw [resolveFetchState_congr hd]
    · exact fun d hd n _ => hd
  · rw [if_neg hdyn, startCycles_states_of_not_mem hdyn]
    by_cases horder : name ∈ data.order
    · rw [if_pos horder]
      apply startCycles_states_of_mem (fun d => d.lastUpdated = s.lastUpdated)
        (fun n => if hasQueryParents ctx data n then .waiting else resolveFetchState s n) _ _
        horder s rfl
      · intro d hd n _
        rw [resolveFetchState_congr hd]
      · exact fun d hd n _ => hd
    · rw [if_neg horder, startCycles_states_of_not_mem horder]

/-- A QUERY descendant starts in the cascade of a variable when its parents are settled and none
of them has had its turn. -/
def StartsAtOnce (ctx : VariableFetchContext) (data : DependencyData) (s : VariableFetchStoreState)
    (name desc : String) : Prop :=
  ∀ p ∈ data.parentDependencyGraph.at desc,
    isSettled (s.states p) = true ∧ p ∉ (queryDescendants ctx data name).takeWhile (· ≠ desc)

instance (ctx : VariableFetchContext) (data : DependencyData) (s : VariableFetchStoreState)
    (name desc : String) : Decidable (StartsAtOnce ctx data s name desc) :=
  inferInstanceAs (Decidable (∀ p ∈ data.parentDependencyGraph.at desc,
    isSettled (s.states p) = true ∧ p ∉ (queryDescendants ctx data name).takeWhile (· ≠ desc)))

omit hctx in
theorem isQuery_of_mem_queryDescendants {name desc : String}
    (h : desc ∈ queryDescendants ctx data name) : IsQuery ctx desc :=
  of_decide_eq_true (List.mem_filter.1 h).2

/-- Every QUERY variable is settled and none is a descendant: the DYNAMIC variables may start. -/
def NothingToWaitFor (ctx : VariableFetchContext) (data : DependencyData)
    (s : VariableFetchStoreState) (name : String) : Prop :=
  queryDescendants ctx data name = [] ∧
    areAllQueryVariablesSettled s.states ctx.variableTypes = true

instance (ctx : VariableFetchContext) (data : DependencyData) (s : VariableFetchStoreState)
    (name : String) : Decidable (NothingToWaitFor ctx data s name) :=
  inferInstanceAs (Decidable (_ ∧ _))

theorem enqueueQueryDescendants_states (name n : String) :
    (enqueueQueryDescendants ctx data name s).states n =
      if n ∈ queryDescendants ctx data name then
        some (if StartsAtOnce ctx data s name n then resolveFetchState s n else .waiting)
      else s.states n := by
  by_cases hn : n ∈ queryDescendants ctx data name
  · rw [if_pos hn]
    exact startCycles_cascade (fun _ _ => rfl) hn ((hctx.graph.nodup name).filter _) s
  · rw [if_neg hn]
    exact startCycles_states_of_not_mem hn s

omit hctx in
theorem not_settled_start {p : Prop} [Decidable p] (n : String) :
    isSettled (some (if p then resolveFetchState s n else .waiting)) = false := by
  by_cases h : p
  · rw [if_pos h]
    rcases resolveFetchState_cases s n with hr | hr
    · rw [hr]
      rfl
    · rw [hr]
      rfl
  · rw [if_neg h]
    rfl

theorem settled_after_cascade (name : String) :
    areAllQueryVariablesSettled (enqueueQueryDescendants ctx data name s).states
        ctx.variableTypes = true ↔ NothingToWaitFor ctx data s name := by
  constructor
  · intro h
    have hall := (areAllQueryVariablesSettled_iff hctx).1 h
    have hnil : queryDescendants ctx data name = [] := by
      rw [List.eq_nil_iff_forall_not_mem]
      intro d hd
      have hsettled := hall d (isQuery_of_mem_queryDescendants hd)
      rw [enqueueQueryDescendants_states hctx, if_pos hd, not_settled_start] at hsettled
      cases hsettled
    refine ⟨hnil, ?_⟩
    rw [← h]
    apply areAllQueryVariablesSettled_congr hctx
    intro n _
    rw [enqueueQueryDescendants_states hctx, hnil, if_neg List.not_mem_nil]
  · rintro ⟨hnil, hall⟩
    rw [← hall]
    apply areAllQueryVariablesSettled_congr hctx
    intro n _
    rw [enqueueQueryDescendants_states hctx, hnil, if_neg List.not_mem_nil]

/-- The states after `enqueueDescendantsOfVariable`. -/
theorem enqueueDescendantsOfVariable_states (name n : String) :
    (enqueueDescendantsOfVariable ctx name s).states n =
      if n ∈ ctx.dynamicVariableOrder then
        some (if NothingToWaitFor ctx data s name then resolveFetchState s n else .waiting)
      else if n ∈ queryDescendants ctx data name then
        some (if StartsAtOnce ctx data s name n then resolveFetchState s n else .waiting)
      else s.states n := by
  rw [enqueueDescendantsOfVariable, hctx.dependencyData]
  by_cases hdyn : n ∈ ctx.dynamicVariableOrder
  · rw [if_pos hdyn]
    -- The loop changes DYNAMIC variables only, so every turn finds the same answer.
    apply startCycles_states_of_mem
      (fun d => d.lastUpdated = s.lastUpdated ∧
        (areAllQueryVariablesSettled d.states ctx.variableTypes = true ↔
          NothingToWaitFor ctx data s name))
      (fun n => if NothingToWaitFor ctx data s name then resolveFetchState s n else .waiting) _ _
      hdyn
    · exact ⟨startCycles_lastUpdated _ s, settled_after_cascade hctx name⟩
    · rintro d ⟨hlast, hsettled⟩ n _
      simp only [hsettled, resolveFetchState_congr hlast]
    · rintro d ⟨hlast, hsettled⟩ n hn
      refine ⟨hlast, ?_⟩
      refine Iff.trans ?_ hsettled
      rw [areAllQueryVariablesSettled_congr hctx]
      intro q hq
      rw [startCycle_states, if_neg]
      rintro rfl
      exact not_query_of_dynamic hctx hn hq
  · rw [if_neg hdyn, startCycles_states_of_not_mem hdyn, enqueueQueryDescendants_states hctx]

omit hctx in
theorem unlockWaitingDynamicVariables_spec (order : List String) :
    (unlockWaitingDynamicVariables s order).cycleIds = s.cycleIds ∧
      ∀ n, (unlockWaitingDynamicVariables s order).states n =
        if n ∈ order ∧ IsWaiting s n then some (resolveFetchState s n) else s.states n := by
  have h := foldl_setState (fun st _ => st = some .waiting)
    (fun lastUpdated n => if lastUpdated n > 0 then .revalidating else .loading) order s
  exact ⟨h.2.1, h.2.2⟩

/-- When all QUERY variables are settled, the DYNAMIC variables that wait start. -/
def Unlocks (ctx : VariableFetchContext) (s : VariableFetchStoreState) (name : String) : Prop :=
  IsQuery ctx name ∧ areAllQueryVariablesSettled s.states ctx.variableTypes = true

omit hctx in
theorem unlockIfSettled_spec (name : String) :
    (unlockIfSettled ctx name s).cycleIds = s.cycleIds ∧
      ∀ n, (Unlocks ctx s name → n ∈ ctx.dynamicVariableOrder → IsWaiting s n →
          IsActive (unlockIfSettled ctx name s) n) ∧
        (¬ (Unlocks ctx s name ∧ n ∈ ctx.dynamicVariableOrder ∧ IsWaiting s n) →
          (unlockIfSettled ctx name s).states n = s.states n) := by
  by_cases h : Unlocks ctx s name
  · have heq : unlockIfSettled ctx name s =
        unlockWaitingDynamicVariables s ctx.dynamicVariableOrder := if_pos h
    obtain ⟨hcycle, hstates⟩ := unlockWaitingDynamicVariables_spec (s := s) ctx.dynamicVariableOrder
    rw [heq]
    refine ⟨hcycle, fun n => ⟨?_, ?_⟩⟩
    · intro _ hdyn hwait
      apply isActive_of_resolve (s := s)
      rw [hstates, if_pos ⟨hdyn, hwait⟩]
    · intro hnot
      rw [hstates, if_neg (fun hn => hnot ⟨h, hn⟩)]
  · have heq : unlockIfSettled ctx name s = s := if_neg h
    rw [heq]
    refine ⟨rfl, fun n => ⟨?_, ?_⟩⟩
    · exact fun hunlocks => absurd hunlocks h
    · exact fun _ => rfl

omit hctx in
/-- After `unblockChildren` the variable is idle, its waiting QUERY children are active, and the
other variables are as they were. -/
theorem unblockChildren_spec (ctx : VariableFetchContext) (data : DependencyData)
    (s : VariableFetchStoreState) (name : String) (now : Int) :
    let t := unblockChildren ctx data name (markComplete now name s)
    t.cycleIds = s.cycleIds ∧ t.states name = some .idle ∧
      ∀ n, n ≠ name →
        (n ∈ data.graph.at name → IsQuery ctx n → IsWaiting s n → IsActive t n) ∧
          (¬ (n ∈ data.graph.at name ∧ IsQuery ctx n ∧ IsWaiting s n) →
            t.states n = s.states n) := by
  obtain ⟨-, hcycle, hstates⟩ :=
    foldl_setState (fun st n => IsQuery ctx n ∧ st = some .waiting)
      (fun lastUpdated n => if lastUpdated n > 0 then .revalidating else .loading)
      (data.graph.at name) (markComplete now name s)
  have hmark : ∀ n, (markComplete now name s).states n =
      if n = name then some .idle else s.states n := fun n => Function.update_apply ..
  refine ⟨hcycle, ?_, ?_⟩
  · refine (hstates name).trans ?_
    rw [hmark, if_pos rfl]
    exact if_neg (fun h => nomatch h.2.2)
  · intro n hn
    have hsame : (markComplete now name s).states n = s.states n := by rw [hmark, if_neg hn]
    constructor
    · intro hchild hquery hwait
      apply isActive_of_resolve (s := markComplete now name s)
      refine (hstates n).trans ?_
      exact if_pos ⟨hchild, hquery, hsame.trans hwait⟩
    · intro hnot
      refine (hstates n).trans ?_
      rw [hsame]
      exact if_neg hnot

omit hctx in
/-- After `idleDescendants` the variable and its QUERY descendants are settled, and the other
variables are as they were. -/
theorem idleDescendants_spec (ctx : VariableFetchContext) (data : DependencyData)
    (s : VariableFetchStoreState) (name : String) :
    let t := idleDescendants ctx data name (s.setState name .error)
    t.cycleIds = s.cycleIds ∧
      ∀ n, ((n = name ∨ n ∈ queryDescendants ctx data name) → isSettled (t.states n) = true) ∧
        (n ≠ name → n ∉ queryDescendants ctx data name → t.states n = s.states n) := by
  obtain ⟨-, hcycle, hstates⟩ :=
    foldl_setState (fun _ n => IsQuery ctx n) (fun _ _ => .idle)
      (data.transitiveDescendants.at name) (s.setState name .error)
  have hmark : ∀ n, (s.setState name .error).states n =
      if n = name then some .error else s.states n := fun n => Function.update_apply ..
  have hmem : ∀ n, n ∈ queryDescendants ctx data name ↔
      n ∈ data.transitiveDescendants.at name ∧ IsQuery ctx n := by
    intro n
    rw [queryDescendants, List.mem_filter, decide_eq_true_iff, IsQuery]
  refine ⟨hcycle, fun n => ⟨?_, ?_⟩⟩
  · intro h
    rw [isSettled_iff]
    by_cases hdesc : n ∈ queryDescendants ctx data name
    · exact Or.inl ((hstates n).trans (if_pos ((hmem n).1 hdesc)))
    · refine Or.inr ((hstates n).trans ?_)
      rw [hmark, if_pos (h.resolve_right hdesc)]
      exact if_neg (fun hn => hdesc ((hmem n).2 hn))
  · intro hn hdesc
    refine (hstates n).trans ?_
    rw [hmark, if_neg hn]
    exact if_neg (fun h => hdesc ((hmem n).2 h))

/-! ### The counters -/

omit hctx in
theorem enqueueDescendantsOfVariable_cycleIds (hdata : ctx.dependencyData = some data)
    (name n : String) :
    (enqueueDescendantsOfVariable ctx name s).cycleIds n =
      s.cycleIds n + (queryDescendants ctx data name).count n +
        ctx.dynamicVariableOrder.count n := by
  rw [enqueueDescendantsOfVariable, hdata]
  refine (startCycles_cycleIds _ n _).trans ?_
  rw [enqueueQueryDescendants, startCycles_cycleIds]

end States

end Signoz.Dashboard
