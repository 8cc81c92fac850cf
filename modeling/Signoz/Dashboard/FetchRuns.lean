import Signoz.Dashboard.VariableFetch

/-!
# Runs of the fetch store

After each call a variable that waits should have an active one to wait for, and a QUERY variable
that the call starts should have no unsettled QUERY parent. Two calls break this: a completed
variable starts its waiting children whatever their other parents do, and a cascade walks the
descendants in an order that can put a child before its parent. `Fits` is the condition on the store
before a call under which the call does neither, and `runs_meet_iff` carries it over whole runs.
-/

namespace Signoz.Dashboard

open Lib

/-! ## The property -/

/-- If some variable is waiting, some variable is loading or revalidating. -/
def NoDeadlock (t : VariableFetchStoreState) : Prop := (∃ n, IsWaiting t n) → ∃ n, IsActive t n

/-- The call moved the variable to loading or revalidating. -/
def Moved (s t : VariableFetchStoreState) (name : String) : Prop :=
  IsActive t name ∧ (t.states name ≠ s.states name ∨ t.cycleIds name ≠ s.cycleIds name)

/-- No QUERY variable that the call moved has a QUERY parent that is then unsettled. -/
def NoEarlyChild (ctx : VariableFetchContext) (data : DependencyData)
    (s t : VariableFetchStoreState) : Prop :=
  ∀ child, IsQuery ctx child → Moved s t child →
    ∀ p ∈ data.parentDependencyGraph.at child, IsQuery ctx p → ¬ (IsActive t p ∨ IsWaiting t p)

/-! ## The invariant -/

structure FetchInvariant (ctx : VariableFetchContext) (s : VariableFetchStoreState) : Prop where
  /-- QUERY variables have a state. -/
  present : ∀ n, IsQuery ctx n → s.states n ≠ none
  /-- Only QUERY and DYNAMIC variables are unsettled. -/
  kinds : ∀ n, IsActive s n ∨ IsWaiting s n → IsQuery ctx n ∨ n ∈ ctx.dynamicVariableOrder
  /-- The DYNAMIC variables wait together. -/
  together : ∀ n ∈ ctx.dynamicVariableOrder, ∀ m ∈ ctx.dynamicVariableOrder,
    IsWaiting s n → IsWaiting s m

/-! ## The condition on a call -/

/-- Every descendant that starts at once has no parent among the descendants, and the cascade
leaves something active unless there is nothing to wait for. -/
def CascadeFits (ctx : VariableFetchContext) (data : DependencyData) (s : VariableFetchStoreState)
    (name : String) : Prop :=
  (∀ d ∈ queryDescendants ctx data name, StartsAtOnce ctx data s name d →
    ∀ p ∈ data.parentDependencyGraph.at d, p ∉ queryDescendants ctx data name) ∧
  (NothingToWaitFor ctx data s name ∨
    (∃ q, IsQuery ctx q ∧ q ∉ queryDescendants ctx data name ∧ IsActive s q) ∨
    ∃ d ∈ queryDescendants ctx data name, StartsAtOnce ctx data s name d)

/-- Every waiting QUERY child has its other QUERY parents settled, and unless no QUERY variable
waits, another variable is active or a child starts. -/
def CompleteFits (ctx : VariableFetchContext) (data : DependencyData) (s : VariableFetchStoreState)
    (name : String) : Prop :=
  (∀ c ∈ data.graph.at name, IsQuery ctx c → IsWaiting s c →
    ∀ p ∈ data.parentDependencyGraph.at c, IsQuery ctx p → p ≠ name →
      isSettled (s.states p) = true) ∧
  ((∃ n, n ≠ name ∧ IsActive s n) ∨
    (∃ c ∈ data.graph.at name, IsQuery ctx c ∧ IsWaiting s c) ∨
    ∀ q, IsQuery ctx q → ¬ IsWaiting s q)

/-- Another variable stays active, or every waiting QUERY variable is a descendant. -/
def FailureFits (ctx : VariableFetchContext) (data : DependencyData) (s : VariableFetchStoreState)
    (name : String) : Prop :=
  (∃ n, n ≠ name ∧ n ∉ queryDescendants ctx data name ∧ IsActive s n) ∨
    ∀ q, IsQuery ctx q → IsWaiting s q → q ∈ queryDescendants ctx data name

def CallFits (ctx : VariableFetchContext) (data : DependencyData) (s : VariableFetchStoreState) :
    Call → Prop
  | .enqueueFetchOfAllVariables _ => True
  | .enqueueDescendantsOfVariable name => CascadeFits ctx data s name
  | .settleVariableFetch name .complete _ => IsActive s name → CompleteFits ctx data s name
  | .settleVariableFetch name .failure _ => IsActive s name → FailureFits ctx data s name

section Calls

variable {ctx : VariableFetchContext} {data : DependencyData} (hctx : ctx.Sound data)
  {s : VariableFetchStoreState} (hs : FetchInvariant ctx s)

theorem active_or_waiting_of_not_settled {n : String} (h : s.states n ≠ none)
    (hn : isSettled (s.states n) ≠ true) : IsActive s n ∨ IsWaiting s n :=
  (not_settled_iff h).1 (Bool.eq_false_of_not_eq_true hn)

/-! ### `enqueueFetchOfAllVariables` -/

include hctx in
theorem waiting_enqueueFetchOfAllVariables {n : String} (hdyn : n ∈ ctx.dynamicVariableOrder) :
    IsWaiting (enqueueFetchOfAllVariables ctx s) n ↔
      ctx.doAllQueryVariablesHaveValuesSelected = false := by
  rw [IsWaiting, enqueueFetchOfAllVariables_states hctx, if_pos hdyn]
  cases ctx.doAllQueryVariablesHaveValuesSelected with
  | false => simp
  | true =>
    rcases resolveFetchState_cases s n with hr | hr
    · simp [hr]
    · simp [hr]

include hctx hs in
theorem FetchInvariant.enqueueFetchOfAllVariables :
    FetchInvariant ctx (enqueueFetchOfAllVariables ctx s) := by
  refine ⟨?_, ?_, ?_⟩
  · intro n hquery
    rw [enqueueFetchOfAllVariables_states hctx,
      if_neg (fun hdyn => not_query_of_dynamic hctx hdyn hquery),
      if_pos ((hctx.graph.order n).2 hquery)]
    exact Option.some_ne_none _
  · intro n h
    by_cases hdyn : n ∈ ctx.dynamicVariableOrder
    · exact Or.inr hdyn
    · by_cases horder : n ∈ data.order
      · exact Or.inl ((hctx.graph.order n).1 horder)
      · rw [IsActive, IsWaiting, enqueueFetchOfAllVariables_states hctx, if_neg hdyn,
          if_neg horder] at h
        exact hs.kinds n h
  · intro n hn m hm hwait
    rw [waiting_enqueueFetchOfAllVariables hctx hn] at hwait
    exact (waiting_enqueueFetchOfAllVariables hctx hm).2 hwait

include hctx in
/-- One of the QUERY variables has no QUERY parent. -/
theorem exists_root {name : String} (h : IsQuery ctx name) :
    ∃ root, root ∈ data.order ∧ hasQueryParents ctx data root = false := by
  have hne : data.order ≠ [] := List.ne_nil_of_mem ((hctx.graph.order name).2 h)
  obtain ⟨root, hroot, hsource⟩ := hctx.graph.acyclic.exists_source hne
  refine ⟨root, hroot, ?_⟩
  rw [hasQueryParents, List.any_eq_false]
  intro p hp hquery
  have hpquery : IsQuery ctx p := of_decide_eq_true hquery
  exact hsource p ((hctx.graph.order p).2 hpquery) ((hctx.graph.parents p root).1 hp)

include hctx hs in
theorem enqueueFetchOfAllVariables_noDeadlock :
    NoDeadlock (Dashboard.enqueueFetchOfAllVariables ctx s) := by
  rintro ⟨n, hwait⟩
  -- Whatever waits, there is a QUERY variable, and a root of theirs is active.
  have hquery : ∃ q, IsQuery ctx q := by
    rcases (hs.enqueueFetchOfAllVariables hctx).kinds n (Or.inr hwait) with hn | hdyn
    · exact ⟨n, hn⟩
    · exact hctx.values ((waiting_enqueueFetchOfAllVariables hctx hdyn).1 hwait)
  obtain ⟨q, hq⟩ := hquery
  obtain ⟨root, hroot, hparents⟩ := exists_root hctx hq
  have hnot : root ∉ ctx.dynamicVariableOrder :=
    fun hdyn => not_query_of_dynamic hctx hdyn ((hctx.graph.order root).1 hroot)
  refine ⟨root, isActive_of_resolve (s := s) ?_⟩
  rw [enqueueFetchOfAllVariables_states hctx, if_neg hnot, if_pos hroot, hparents]
  rfl

include hctx in
theorem enqueueFetchOfAllVariables_noEarlyChild :
    NoEarlyChild ctx data s (Dashboard.enqueueFetchOfAllVariables ctx s) := by
  rintro child hchild ⟨hactive, -⟩ p hp hquery
  have hnot : child ∉ ctx.dynamicVariableOrder :=
    fun hdyn => not_query_of_dynamic hctx hdyn hchild
  have hparents : hasQueryParents ctx data child = true :=
    List.any_eq_true.2 ⟨p, hp, decide_eq_true hquery⟩
  -- A QUERY variable with a QUERY parent waits.
  have hwait : IsWaiting (Dashboard.enqueueFetchOfAllVariables ctx s) child := by
    rw [IsWaiting, enqueueFetchOfAllVariables_states hctx, if_neg hnot,
      if_pos ((hctx.graph.order child).2 hchild), hparents]
    rfl
  exact absurd hwait hactive.not_waiting

/-! ### `enqueueDescendantsOfVariable` -/

variable {name n : String}

include hctx in
theorem waiting_enqueueDescendantsOfVariable (hdyn : n ∈ ctx.dynamicVariableOrder) :
    IsWaiting (enqueueDescendantsOfVariable ctx name s) n ↔ ¬ NothingToWaitFor ctx data s name := by
  rw [IsWaiting, enqueueDescendantsOfVariable_states hctx, if_pos hdyn]
  by_cases h : NothingToWaitFor ctx data s name
  · rcases resolveFetchState_cases s n with hr | hr
    · simp [h, hr]
    · simp [h, hr]
  · simp [h]

include hctx in
/-- A QUERY descendant is active after the cascade if it starts at once, and waits if not. -/
theorem cascade_of_mem {name d : String} (hd : d ∈ queryDescendants ctx data name) :
    (IsActive (enqueueDescendantsOfVariable ctx name s) d ↔ StartsAtOnce ctx data s name d) ∧
      (IsWaiting (enqueueDescendantsOfVariable ctx name s) d ↔
        ¬ StartsAtOnce ctx data s name d) := by
  have hnot : d ∉ ctx.dynamicVariableOrder :=
    fun hdyn => not_query_of_dynamic hctx hdyn (isQuery_of_mem_queryDescendants hd)
  have hstate := enqueueDescendantsOfVariable_states hctx (s := s) name d
  rw [if_neg hnot, if_pos hd] at hstate
  by_cases h : StartsAtOnce ctx data s name d
  · rw [if_pos h] at hstate
    have hactive := isActive_of_resolve hstate
    exact ⟨iff_of_true hactive h, iff_of_false hactive.not_waiting (not_not_intro h)⟩
  · rw [if_neg h] at hstate
    have hwait : IsWaiting (enqueueDescendantsOfVariable ctx name s) d := hstate
    exact ⟨iff_of_false (fun ha => ha.not_waiting hwait) h, iff_of_true hwait h⟩

include hctx in
/-- A QUERY variable that is no descendant stays as it was. -/
theorem cascade_of_not_mem (hquery : IsQuery ctx n) (hn : n ∉ queryDescendants ctx data name) :
    (enqueueDescendantsOfVariable ctx name s).states n = s.states n := by
  have hnot : n ∉ ctx.dynamicVariableOrder :=
    fun hdyn => not_query_of_dynamic hctx hdyn hquery
  rw [enqueueDescendantsOfVariable_states hctx, if_neg hnot, if_neg hn]

include hctx hs in
theorem FetchInvariant.enqueueDescendantsOfVariable (name : String) :
    FetchInvariant ctx (Dashboard.enqueueDescendantsOfVariable ctx name s) := by
  refine ⟨?_, ?_, ?_⟩
  · intro n hquery
    rw [enqueueDescendantsOfVariable_states hctx,
      if_neg (fun hdyn => not_query_of_dynamic hctx hdyn hquery)]
    by_cases hn : n ∈ queryDescendants ctx data name
    · rw [if_pos hn]
      exact Option.some_ne_none _
    · rw [if_neg hn]
      exact hs.present n hquery
  · intro n h
    by_cases hdyn : n ∈ ctx.dynamicVariableOrder
    · exact Or.inr hdyn
    · by_cases hn : n ∈ queryDescendants ctx data name
      · exact Or.inl (isQuery_of_mem_queryDescendants hn)
      · rw [IsActive, IsWaiting, enqueueDescendantsOfVariable_states hctx, if_neg hdyn,
          if_neg hn] at h
        exact hs.kinds n h
  · intro n hn m hm hwait
    rw [waiting_enqueueDescendantsOfVariable hctx hn] at hwait
    exact (waiting_enqueueDescendantsOfVariable hctx hm).2 hwait

include hctx hs in
theorem enqueueDescendantsOfVariable_noEarlyChild_iff (name : String) :
    NoEarlyChild ctx data s (Dashboard.enqueueDescendantsOfVariable ctx name s) ↔
      ∀ d ∈ queryDescendants ctx data name, StartsAtOnce ctx data s name d →
        ∀ p ∈ data.parentDependencyGraph.at d, p ∉ queryDescendants ctx data name := by
  have hcycle := enqueueDescendantsOfVariable_cycleIds (s := s) hctx.dependencyData name
  constructor
  · intro h d hd hstarts p hp hdesc
    have hmoved : Moved s (Dashboard.enqueueDescendantsOfVariable ctx name s) d := by
      refine ⟨((cascade_of_mem hctx hd).1).2 hstarts, Or.inr ?_⟩
      have hpos := List.count_pos_iff.2 hd
      rw [hcycle]
      omega
    apply h d (isQuery_of_mem_queryDescendants hd) hmoved p hp
      (isQuery_of_mem_queryDescendants hdesc)
    -- A descendant is unsettled after the cascade, started or not.
    rw [(cascade_of_mem hctx hdesc).1, (cascade_of_mem hctx hdesc).2]
    exact Classical.em _
  · rintro h child hquery ⟨hactive, hchanged⟩ p hp hpquery hunsettled
    by_cases hchild : child ∈ queryDescendants ctx data name
    · have hstarts := ((cascade_of_mem hctx hchild).1).1 hactive
      have hpnot := h child hchild hstarts p hp
      rw [IsActive, IsWaiting, cascade_of_not_mem hctx hpquery hpnot] at hunsettled
      have hsettled := (hstarts p hp).1
      rw [(not_settled_iff (hs.present p hpquery)).2 hunsettled] at hsettled
      cases hsettled
    · have hnot : child ∉ ctx.dynamicVariableOrder :=
        fun hdyn => not_query_of_dynamic hctx hdyn hquery
      rcases hchanged with hstate | hcount
      · exact hstate (cascade_of_not_mem hctx hquery hchild)
      · rw [hcycle, List.count_eq_zero.2 hchild, List.count_eq_zero.2 hnot] at hcount
        exact hcount rfl

include hctx hs in
theorem enqueueDescendantsOfVariable_noDeadlock_iff (name : String) :
    NoDeadlock (Dashboard.enqueueDescendantsOfVariable ctx name s) ↔
      NothingToWaitFor ctx data s name ∨
        (∃ q, IsQuery ctx q ∧ q ∉ queryDescendants ctx data name ∧ IsActive s q) ∨
        ∃ d ∈ queryDescendants ctx data name, StartsAtOnce ctx data s name d := by
  constructor
  · intro h
    by_cases hnothing : NothingToWaitFor ctx data s name
    · exact Or.inl hnothing
    refine Or.inr ?_
    by_contra hnone
    obtain ⟨hquiet, hnostart⟩ := not_or.1 hnone
    -- Some QUERY variable waits: a descendant, or one that is not settled.
    have hwaits : ∃ n, IsWaiting (Dashboard.enqueueDescendantsOfVariable ctx name s) n := by
      by_cases hnil : queryDescendants ctx data name = []
      · have hnotall : ¬ ∀ q, IsQuery ctx q → isSettled (s.states q) = true :=
          fun hall => hnothing ⟨hnil, (areAllQueryVariablesSettled_iff hctx).2 hall⟩
        simp only [not_forall] at hnotall
        obtain ⟨q, hq, hunsettled⟩ := hnotall
        have hqnot : q ∉ queryDescendants ctx data name := by
          rw [hnil]
          exact List.not_mem_nil
        rcases active_or_waiting_of_not_settled (hs.present q hq) hunsettled with ha | hw
        · exact absurd ⟨q, hq, hqnot, ha⟩ hquiet
        · exact ⟨q, (cascade_of_not_mem hctx hq hqnot).trans hw⟩
      · obtain ⟨d, hd⟩ := List.exists_mem_of_ne_nil _ hnil
        exact ⟨d, ((cascade_of_mem hctx hd).2).2 (fun hstarts => hnostart ⟨d, hd, hstarts⟩)⟩
    obtain ⟨a, hactive⟩ := h hwaits
    rcases (hs.enqueueDescendantsOfVariable hctx name).kinds a (Or.inl hactive) with hq | hdyn
    · by_cases ha : a ∈ queryDescendants ctx data name
      · exact hnostart ⟨a, ha, ((cascade_of_mem hctx ha).1).1 hactive⟩
      · rw [IsActive, cascade_of_not_mem hctx hq ha] at hactive
        exact hquiet ⟨a, hq, ha, hactive⟩
    · exact hactive.not_waiting ((waiting_enqueueDescendantsOfVariable hctx hdyn).2 hnothing)
  · rintro (hnothing | ⟨q, hq, hqnot, hactive⟩ | ⟨d, hd, hstarts⟩)
    · rintro ⟨n, hwait⟩
      rcases (hs.enqueueDescendantsOfVariable hctx name).kinds n (Or.inr hwait) with hn | hdyn
      · have hnot : n ∉ queryDescendants ctx data name := by
          rw [hnothing.1]
          exact List.not_mem_nil
        have hsettled := (areAllQueryVariablesSettled_iff hctx).1 hnothing.2 n hn
        rw [IsWaiting, cascade_of_not_mem hctx hn hnot] at hwait
        rw [hwait] at hsettled
        cases hsettled
      · exact absurd hnothing ((waiting_enqueueDescendantsOfVariable hctx hdyn).1 hwait)
    · intro _
      refine ⟨q, ?_⟩
      rw [IsActive, cascade_of_not_mem hctx hq hqnot]
      exact hactive
    · exact fun _ => ⟨d, ((cascade_of_mem hctx hd).1).2 hstarts⟩

/-! ### Unlocking the DYNAMIC variables -/

/-- The store between the loop of a call and the unlocking. -/
structure BeforeUnlock (ctx : VariableFetchContext) (name : String) (m : VariableFetchStoreState) :
    Prop extends FetchInvariant ctx m where
  /-- Where a DYNAMIC variable waits, the settled variable is a QUERY variable. -/
  query : ∀ n ∈ ctx.dynamicVariableOrder, IsWaiting m n → IsQuery ctx name

section Unlock

variable {name : String} {m : VariableFetchStoreState} (hm : BeforeUnlock ctx name m)

include hctx

theorem unlock_of_query {n : String} (hquery : IsQuery ctx n) :
    (unlockIfSettled ctx name m).states n = m.states n :=
  ((unlockIfSettled_spec name).2 n).2
    (fun h => not_query_of_dynamic hctx h.2.1 hquery)

omit hctx in
theorem unlock_of_not_waiting {n : String} (h : ¬ IsWaiting m n) :
    (unlockIfSettled ctx name m).states n = m.states n :=
  ((unlockIfSettled_spec name).2 n).2 (fun hn => h hn.2.2)

omit hctx in
/-- What waits after the unlocking waited before. -/
theorem waiting_of_unlock {n : String} (h : IsWaiting (unlockIfSettled ctx name m) n) :
    IsWaiting m n := by
  by_contra hnot
  rw [IsWaiting, unlock_of_not_waiting hnot] at h
  exact hnot h

include hm

theorem unlock_noDeadlock_iff :
    NoDeadlock (unlockIfSettled ctx name m) ↔
      (∃ n, IsActive m n) ∨ ∀ q, IsQuery ctx q → ¬ IsWaiting m q := by
  constructor
  · intro h
    by_contra hnone
    obtain ⟨hquiet, hwaits⟩ := not_or.1 hnone
    simp only [not_forall, not_not] at hwaits
    obtain ⟨q, hq, hwait⟩ := hwaits
    -- A QUERY variable waits, so nothing is unlocked, and nothing was active.
    have hlocked : ¬ Unlocks ctx m name := by
      rintro ⟨-, hall⟩
      have hsettled := (areAllQueryVariablesSettled_iff hctx).1 hall q hq
      rw [hwait] at hsettled
      cases hsettled
    obtain ⟨a, hactive⟩ := h ⟨q, (unlock_of_query hctx hq).trans hwait⟩
    have hsame : (unlockIfSettled ctx name m).states a = m.states a :=
      ((unlockIfSettled_spec name).2 a).2 (fun hn => hlocked hn.1)
    rw [IsActive, hsame] at hactive
    exact hquiet ⟨a, hactive⟩
  · rintro (⟨n, hactive⟩ | hnone)
    · intro _
      refine ⟨n, ?_⟩
      rw [IsActive, unlock_of_not_waiting hactive.not_waiting]
      exact hactive
    · rintro ⟨w, hwait⟩
      have hbefore := waiting_of_unlock hwait
      rcases hm.kinds w (Or.inr hbefore) with hq | hdyn
      · exact absurd hbefore (hnone w hq)
      -- A DYNAMIC variable still waits, so some QUERY variable is not settled: it is active.
      have hlocked : ¬ Unlocks ctx m name := by
        intro hunlocks
        exact (((unlockIfSettled_spec name).2 w).1 hunlocks hdyn hbefore).not_waiting hwait
      have hnotall : ¬ ∀ q, IsQuery ctx q → isSettled (m.states q) = true :=
        fun hall => hlocked ⟨hm.query w hdyn hbefore, (areAllQueryVariablesSettled_iff hctx).2 hall⟩
      simp only [not_forall] at hnotall
      obtain ⟨q, hq, hunsettled⟩ := hnotall
      rcases active_or_waiting_of_not_settled (hm.present q hq) hunsettled with ha | hw
      · refine ⟨q, ?_⟩
        rw [IsActive, unlock_of_query hctx hq]
        exact ha
      · exact absurd hw (hnone q hq)

theorem unlock_invariant : FetchInvariant ctx (unlockIfSettled ctx name m) := by
  refine ⟨?_, ?_, ?_⟩
  · intro n hquery
    rw [unlock_of_query hctx hquery]
    exact hm.present n hquery
  · rintro n (hactive | hwait)
    · by_cases hbefore : IsWaiting m n
      · exact hm.kinds n (Or.inr hbefore)
      · rw [IsActive, unlock_of_not_waiting hbefore] at hactive
        exact hm.kinds n (Or.inl hactive)
    · exact hm.kinds n (Or.inr (waiting_of_unlock hwait))
  · intro n hn k hk hwait
    have hbefore := waiting_of_unlock hwait
    have hkbefore := hm.together n hn k hk hbefore
    have hlocked : ¬ Unlocks ctx m name := by
      intro hunlocks
      exact (((unlockIfSettled_spec name).2 n).1 hunlocks hn hbefore).not_waiting hwait
    exact (((unlockIfSettled_spec name).2 k).2 (fun h => hlocked h.1)).trans hkbefore

end Unlock

/-! ### `settleVariableFetch` -/

include hs in
/-- The variable is active, so no DYNAMIC variable waits unless it is a QUERY variable. -/
theorem query_of_dynamic_waiting (hactive : IsActive s name) (hdyn : n ∈ ctx.dynamicVariableOrder)
    (hwait : IsWaiting s n) : IsQuery ctx name := by
  rcases hs.kinds name (Or.inl hactive) with hq | hname
  · exact hq
  · exact absurd (hs.together n hdyn name hname hwait) hactive.not_waiting

section Complete

variable {name : String} {now : Int} (hactive : IsActive s name)

theorem not_waiting_of_idle {m : VariableFetchStoreState} {n : String}
    (h : m.states n = some .idle) : ¬ (IsActive m n ∨ IsWaiting m n) := by
  rw [isActive_iff, IsWaiting, h]
  simp

/-- What waits after the children are unblocked waited before and is no waiting QUERY child. -/
theorem waiting_unblockChildren {n : String} :
    IsWaiting (unblockChildren ctx data name (markComplete now name s)) n ↔
      n ≠ name ∧ ¬ (n ∈ data.graph.at name ∧ IsQuery ctx n) ∧ IsWaiting s n := by
  obtain ⟨-, hidle, hother⟩ := unblockChildren_spec ctx data s name now
  constructor
  · intro hwait
    have hne : n ≠ name := by
      rintro rfl
      exact not_waiting_of_idle hidle (Or.inr hwait)
    have hnot : ¬ (n ∈ data.graph.at name ∧ IsQuery ctx n ∧ IsWaiting s n) :=
      fun h => ((hother n hne).1 h.1 h.2.1 h.2.2).not_waiting hwait
    have hbefore : IsWaiting s n := ((hother n hne).2 hnot).symm.trans hwait
    exact ⟨hne, fun h => hnot ⟨h.1, h.2, hbefore⟩, hbefore⟩
  · rintro ⟨hne, hnot, hwait⟩
    exact ((hother n hne).2 (fun h => hnot ⟨h.1, h.2.1⟩)).trans hwait

/-- What is active then was active before, or is a waiting QUERY child. -/
theorem active_unblockChildren {n : String} :
    IsActive (unblockChildren ctx data name (markComplete now name s)) n ↔
      n ≠ name ∧ (IsActive s n ∨ n ∈ data.graph.at name ∧ IsQuery ctx n ∧ IsWaiting s n) := by
  obtain ⟨-, hidle, hother⟩ := unblockChildren_spec ctx data s name now
  constructor
  · intro hafter
    have hne : n ≠ name := by
      rintro rfl
      exact not_waiting_of_idle hidle (Or.inl hafter)
    refine ⟨hne, ?_⟩
    by_cases hchild : n ∈ data.graph.at name ∧ IsQuery ctx n ∧ IsWaiting s n
    · exact Or.inr hchild
    · rw [IsActive, (hother n hne).2 hchild] at hafter
      exact Or.inl hafter
  · rintro ⟨hne, hbefore | ⟨hchild, hquery, hwait⟩⟩
    · rw [IsActive, (hother n hne).2 (fun h => hbefore.not_waiting h.2.2)]
      exact hbefore
    · exact (hother n hne).1 hchild hquery hwait

include hctx hs hactive

theorem beforeUnlock_complete :
    BeforeUnlock ctx name (unblockChildren ctx data name (markComplete now name s)) := by
  obtain ⟨-, hidle, hother⟩ := unblockChildren_spec ctx data s name now
  refine ⟨⟨?_, ?_, ?_⟩, ?_⟩
  · intro n hquery
    by_cases hne : n = name
    · rw [hne, hidle]
      exact Option.some_ne_none _
    · by_cases hchild : n ∈ data.graph.at name ∧ IsQuery ctx n ∧ IsWaiting s n
      · intro hnone
        have hafter := (hother n hne).1 hchild.1 hchild.2.1 hchild.2.2
        rw [IsActive, hnone] at hafter
        cases hafter
      · rw [(hother n hne).2 hchild]
        exact hs.present n hquery
  · rintro n (hafter | hafter)
    · rcases (active_unblockChildren.1 hafter).2 with hbefore | ⟨-, hquery, -⟩
      · exact hs.kinds n (Or.inl hbefore)
      · exact Or.inl hquery
    · exact hs.kinds n (Or.inr (waiting_unblockChildren.1 hafter).2.2)
  · intro n hn k hk hwait
    have hkwait := hs.together n hn k hk (waiting_unblockChildren.1 hwait).2.2
    refine waiting_unblockChildren.2 ⟨?_, ?_, hkwait⟩
    · rintro rfl
      exact hactive.not_waiting hkwait
    · exact fun h => not_query_of_dynamic hctx hk h.2
  · intro n hdyn hwait
    exact query_of_dynamic_waiting hs hactive hdyn (waiting_unblockChildren.1 hwait).2.2

theorem complete_noDeadlock_iff :
    NoDeadlock (unlockIfSettled ctx name (unblockChildren ctx data name (markComplete now name s)))
      ↔ (∃ n, n ≠ name ∧ IsActive s n) ∨
        (∃ c ∈ data.graph.at name, IsQuery ctx c ∧ IsWaiting s c) ∨
        ∀ q, IsQuery ctx q → ¬ IsWaiting s q := by
  rw [unlock_noDeadlock_iff hctx (beforeUnlock_complete hctx hs hactive)]
  constructor
  · rintro (⟨n, hn⟩ | hnone)
    · obtain ⟨hne, hbefore | hchild⟩ := active_unblockChildren.1 hn
      · exact Or.inl ⟨n, hne, hbefore⟩
      · exact Or.inr (Or.inl ⟨n, hchild⟩)
    · by_cases hchild : ∃ c ∈ data.graph.at name, IsQuery ctx c ∧ IsWaiting s c
      · exact Or.inr (Or.inl hchild)
      · refine Or.inr (Or.inr ?_)
        intro q hq hwait
        apply hnone q hq
        refine waiting_unblockChildren.2 ⟨?_, ?_, hwait⟩
        · rintro rfl
          exact hactive.not_waiting hwait
        · exact fun h => hchild ⟨q, h.1, hq, hwait⟩
  · rintro (⟨n, hne, hbefore⟩ | ⟨c, hchild, hquery, hwait⟩ | hnone)
    · exact Or.inl ⟨n, active_unblockChildren.2 ⟨hne, Or.inl hbefore⟩⟩
    · refine Or.inl ⟨c, active_unblockChildren.2 ⟨?_, Or.inr ⟨hchild, hquery, hwait⟩⟩⟩
      rintro rfl
      exact hactive.not_waiting hwait
    · exact Or.inr fun q hq hwait => hnone q hq (waiting_unblockChildren.1 hwait).2.2

theorem complete_noEarlyChild_iff :
    NoEarlyChild ctx data s
        (unlockIfSettled ctx name (unblockChildren ctx data name (markComplete now name s))) ↔
      ∀ c ∈ data.graph.at name, IsQuery ctx c → IsWaiting s c →
        ∀ p ∈ data.parentDependencyGraph.at c, IsQuery ctx p → p ≠ name →
          isSettled (s.states p) = true := by
  obtain ⟨hcycle, hidle, hother⟩ :=
    unblockChildren_spec ctx data s name now
  constructor
  · intro h c hchild hquery hwait p hp hpquery hpne
    have hcne : c ≠ name := by
      rintro rfl
      exact hactive.not_waiting hwait
    have hstarted : IsActive
        (unlockIfSettled ctx name (unblockChildren ctx data name (markComplete now name s))) c := by
      rw [IsActive, unlock_of_query hctx hquery]
      exact active_unblockChildren.2 ⟨hcne, Or.inr ⟨hchild, hquery, hwait⟩⟩
    have hmoved : Moved s
        (unlockIfSettled ctx name (unblockChildren ctx data name (markComplete now name s))) c := by
      refine ⟨hstarted, Or.inl ?_⟩
      intro hsame
      exact hstarted.not_waiting (hsame.trans hwait)
    have hquiet := h c hquery hmoved p hp hpquery
    rw [IsActive, IsWaiting, unlock_of_query hctx hpquery] at hquiet
    by_contra hunsettled
    apply hquiet
    rcases active_or_waiting_of_not_settled (hs.present p hpquery) hunsettled with ha | hw
    · exact Or.inl (active_unblockChildren.2 ⟨hpne, Or.inl ha⟩)
    · by_cases hpchild : p ∈ data.graph.at name
      · exact Or.inl (active_unblockChildren.2 ⟨hpne, Or.inr ⟨hpchild, hpquery, hw⟩⟩)
      · exact Or.inr (waiting_unblockChildren.2 ⟨hpne, fun hc => hpchild hc.1, hw⟩)
  · rintro h child hquery ⟨hstarted, hchanged⟩ p hp hpquery hunsettled
    rw [(unlockIfSettled_spec name).1, hcycle] at hchanged
    rw [IsActive, unlock_of_query hctx hquery] at hstarted
    rw [unlock_of_query hctx hquery] at hchanged
    rw [IsActive, IsWaiting, unlock_of_query hctx hpquery] at hunsettled
    have hstate := hchanged.resolve_right (fun hcount => hcount rfl)
    -- What changed to active is a waiting QUERY child.
    obtain ⟨hne, -⟩ := active_unblockChildren.1 hstarted
    have hchild : child ∈ data.graph.at name ∧ IsQuery ctx child ∧ IsWaiting s child := by
      by_contra hnot
      exact hstate ((hother child hne).2 hnot)
    by_cases hpne : p = name
    · subst hpne
      exact not_waiting_of_idle hidle hunsettled
    have hsettled := h child hchild.1 hquery hchild.2.2 p hp hpquery hpne
    have hpquiet : ¬ (IsActive s p ∨ IsWaiting s p) := by
      rw [← not_settled_iff (hs.present p hpquery), hsettled]
      exact Bool.noConfusion
    rcases hunsettled with ha | hw
    · rcases (active_unblockChildren.1 ha).2 with hbefore | ⟨-, -, hbefore⟩
      · exact hpquiet (Or.inl hbefore)
      · exact hpquiet (Or.inr hbefore)
    · exact hpquiet (Or.inr (waiting_unblockChildren.1 hw).2.2)

end Complete

section Failure

variable {name : String} (hactive : IsActive s name) {n : String}

theorem not_unsettled_of_settled {m : VariableFetchStoreState} (h : isSettled (m.states n) = true) :
   ¬ (IsActive m n ∨ IsWaiting m n) := by
  rw [isActive_iff, IsWaiting]
  rcases isSettled_iff.1 h with hstate | hstate
  · rw [hstate]
    simp
  · rw [hstate]
    simp

theorem idleDescendants_other
    (h : IsActive (idleDescendants ctx data name (s.setState name .error)) n ∨
      IsWaiting (idleDescendants ctx data name (s.setState name .error)) n) :
    n ≠ name ∧ n ∉ queryDescendants ctx data name ∧
      (idleDescendants ctx data name (s.setState name .error)).states n = s.states n := by
  obtain ⟨-, hspec⟩ := idleDescendants_spec ctx data s name
  have hnot : ¬ (n = name ∨ n ∈ queryDescendants ctx data name) :=
    fun hn => not_unsettled_of_settled ((hspec n).1 hn) h
  rw [not_or] at hnot
  exact ⟨hnot.1, hnot.2, (hspec n).2 hnot.1 hnot.2⟩

theorem active_idleDescendants :
    IsActive (idleDescendants ctx data name (s.setState name .error)) n ↔
      n ≠ name ∧ n ∉ queryDescendants ctx data name ∧ IsActive s n := by
  constructor
  · intro h
    obtain ⟨hne, hdesc, hsame⟩ := idleDescendants_other (Or.inl h)
    rw [IsActive, hsame] at h
    exact ⟨hne, hdesc, h⟩
  · rintro ⟨hne, hdesc, h⟩
    obtain ⟨-, hspec⟩ := idleDescendants_spec ctx data s name
    rw [IsActive, (hspec n).2 hne hdesc]
    exact h

theorem waiting_idleDescendants :
    IsWaiting (idleDescendants ctx data name (s.setState name .error)) n ↔
      n ≠ name ∧ n ∉ queryDescendants ctx data name ∧ IsWaiting s n := by
  constructor
  · intro h
    obtain ⟨hne, hdesc, hsame⟩ := idleDescendants_other (Or.inr h)
    exact ⟨hne, hdesc, hsame.symm.trans h⟩
  · rintro ⟨hne, hdesc, h⟩
    obtain ⟨-, hspec⟩ := idleDescendants_spec ctx data s name
    exact ((hspec n).2 hne hdesc).trans h

include hctx hs hactive

theorem beforeUnlock_failure :
    BeforeUnlock ctx name (idleDescendants ctx data name (s.setState name .error)) := by
  obtain ⟨-, hspec⟩ := idleDescendants_spec ctx data s name
  refine ⟨⟨?_, ?_, ?_⟩, ?_⟩
  · intro n hquery
    by_cases hn : n = name ∨ n ∈ queryDescendants ctx data name
    · intro hnone
      have hsettled := (hspec n).1 hn
      rw [hnone] at hsettled
      cases hsettled
    · rw [not_or] at hn
      rw [(hspec n).2 hn.1 hn.2]
      exact hs.present n hquery
  · intro n h
    rcases h with h | h
    · exact hs.kinds n (Or.inl (active_idleDescendants.1 h).2.2)
    · exact hs.kinds n (Or.inr (waiting_idleDescendants.1 h).2.2)
  · intro n hn k hk hwait
    have hkwait := hs.together n hn k hk (waiting_idleDescendants.1 hwait).2.2
    refine waiting_idleDescendants.2 ⟨?_, ?_, hkwait⟩
    · rintro rfl
      exact hactive.not_waiting hkwait
    · exact fun h => not_query_of_dynamic hctx hk (isQuery_of_mem_queryDescendants h)
  · intro n hdyn hwait
    exact query_of_dynamic_waiting hs hactive hdyn (waiting_idleDescendants.1 hwait).2.2

theorem failure_noDeadlock_iff :
    NoDeadlock (unlockIfSettled ctx name (idleDescendants ctx data name (s.setState name .error))) ↔
      FailureFits ctx data s name := by
  rw [unlock_noDeadlock_iff hctx (beforeUnlock_failure hctx hs hactive), FailureFits]
  simp only [active_idleDescendants, waiting_idleDescendants]
  apply or_congr Iff.rfl
  apply forall₂_congr
  intro q _
  constructor
  · intro h hwait
    by_contra hdesc
    refine h ⟨?_, hdesc, hwait⟩
    rintro rfl
    exact hactive.not_waiting hwait
  · rintro h ⟨-, hdesc, hwait⟩
    exact hdesc (h hwait)

omit hs hactive in
/-- A failure moves no QUERY variable. -/
theorem failure_noEarlyChild :
    NoEarlyChild ctx data s
      (unlockIfSettled ctx name (idleDescendants ctx data name (s.setState name .error))) := by
  rintro child hquery ⟨hstarted, hchanged⟩ p _ _ _
  rw [(unlockIfSettled_spec name).1,
    (idleDescendants_spec ctx data s name).1,
    unlock_of_query hctx hquery] at hchanged
  rw [IsActive, unlock_of_query hctx hquery] at hstarted
  rcases hchanged with hstate | hcount
  · exact hstate (idleDescendants_other (Or.inl hstarted)).2.2
  · exact hcount rfl

end Failure

end Calls

/-! ## Runs -/

section Runs

variable (textContainsVariableReference : String → String → Bool) (vars : DashboardVariables)

/-- The call leaves no deadlock and starts no child early. -/
def FetchesWell (s : VariableFetchStoreState) (call : Call) : Prop :=
  ∀ t, step textContainsVariableReference vars s call = some t →
    NoDeadlock t ∧
      ∀ data, buildDependencyData textContainsVariableReference vars.sorted = some data →
        NoEarlyChild (contextOf textContainsVariableReference vars) data s t

/-- The condition on a call and the store before it. -/
def Fits (s : VariableFetchStoreState) (call : Call) : Prop :=
  ∀ data, buildDependencyData textContainsVariableReference vars.sorted = some data →
    CallFits (contextOf textContainsVariableReference vars) data s call

variable {textContainsVariableReference vars} {data : DependencyData}

theorem getVariableDependencyContext_sound
    (hacyclic : AcyclicReferences textContainsVariableReference vars)
    (h : buildDependencyData textContainsVariableReference vars.sorted = some data)
    (selectedValue : String → SelectedValue) :
    (getVariableDependencyContext textContainsVariableReference vars selectedValue).Sound data := by
  refine ⟨h, buildDependencyData_sound hacyclic h, ?_, ?_, ?_⟩
  · intro name
    exact vars.mem_dynamicOrder
  · have hsub : (((vars.sorted.filter fun v => v.name ≠ "").map fun v => (v.name, v.type)).map
        Prod.fst).Sublist vars.names := by
      rw [List.map_map]
      exact List.filter_sublist.map _
    exact hsub.nodup vars.nodup
  · intro hvalues
    obtain ⟨v, hv, hquery⟩ := List.all_eq_false.1 hvalues
    have htype : v.type = .QUERY := by
      by_contra hne
      simp [hne] at hquery
    exact ⟨v.name, vars.lookup_types.2 ⟨v, hv, rfl, htype⟩⟩

variable {s : VariableFetchStoreState}

/-- Without variables nothing is unsettled. -/
theorem settled_of_no_data (hs : FetchInvariant (contextOf textContainsVariableReference vars) s)
    (h : buildDependencyData textContainsVariableReference vars.sorted = none) (n : String) :
    ¬ (IsActive s n ∨ IsWaiting s n) := by
  have hnil : vars.sorted = [] := by
    rw [buildDependencyData] at h
    by_contra hne
    rw [if_neg (fun hlength => hne (List.eq_nil_of_length_eq_zero hlength))] at h
    cases h
  intro hunsettled
  rcases hs.kinds n hunsettled with hquery | hdyn
  · obtain ⟨v, hv, -⟩ := vars.lookup_types.1 hquery
    rw [hnil] at hv
    cases hv
  · obtain ⟨v, hv, -⟩ := vars.lookup_types.1 (vars.mem_dynamicOrder.1 hdyn)
    rw [hnil] at hv
    cases hv

/-- The empty name is no variable. -/
theorem not_active_empty (hs : FetchInvariant (contextOf textContainsVariableReference vars) s) :
   ¬ IsActive s "" := by
  intro hactive
  rcases hs.kinds "" (Or.inl hactive) with hquery | hdyn
  · obtain ⟨v, hv, hname, -⟩ := vars.lookup_types.1 hquery
    exact vars.named v hv hname
  · obtain ⟨v, hv, hname, -⟩ := vars.lookup_types.1 (vars.mem_dynamicOrder.1 hdyn)
    exact vars.named v hv hname

theorem settleVariableFetch_of_not_active {ctx : VariableFetchContext} {now : Int} {name : String}
    {outcome : Outcome} (h : ¬ IsActive s name) :
    settleVariableFetch ctx now name outcome s = s := by
  have hfalse : isVariableInActiveFetchState (s.states name) = false :=
    Bool.eq_false_of_not_eq_true h
  cases outcome with
  | complete =>
    rw [settleVariableFetch, hfalse]
    exact ite_self _
  | failure =>
    rw [settleVariableFetch, hfalse]
    exact ite_self _

theorem settleVariableFetch_of_active {ctx : VariableFetchContext} (now : Int) {name : String}
    (h : IsActive s name) (hname : name ≠ "") (hdata : ctx.dependencyData = some data) :
    settleVariableFetch ctx now name .complete s =
        unlockIfSettled ctx name (unblockChildren ctx data name (markComplete now name s)) ∧
      settleVariableFetch ctx now name .failure s =
        unlockIfSettled ctx name (idleDescendants ctx data name (s.setState name .error)) := by
  have htrue : isVariableInActiveFetchState (s.states name) = true := h
  constructor
  · rw [settleVariableFetch, if_neg hname, htrue]
    simp only [Bool.not_true, Bool.false_eq_true, if_false]
    rw [onVariableFetchComplete, hdata]
  · rw [settleVariableFetch, if_neg hname, htrue]
    simp only [Bool.not_true, Bool.false_eq_true, if_false]
    rw [onVariableFetchFailure, hdata]

variable {call : Call}

/-- Without variables no call changes the store. -/
theorem step_of_no_data (hs : FetchInvariant (contextOf textContainsVariableReference vars) s)
    (h : buildDependencyData textContainsVariableReference vars.sorted = none) :
    step textContainsVariableReference vars s call = some s := by
  cases call with
  | enqueueFetchOfAllVariables selectedValue =>
    rw [step, enqueueFetchOfAllVariables, getVariableDependencyContext, h]
  | enqueueDescendantsOfVariable name =>
    rw [step, enqueueDescendantsOfVariable, contextOf, getVariableDependencyContext, h]
  | settleVariableFetch name outcome now =>
    rw [step, settleVariableFetch_of_not_active]
    exact fun hactive => settled_of_no_data hs h name (Or.inl hactive)

/-- Every call keeps the invariant. -/
theorem step_invariant (hacyclic : AcyclicReferences textContainsVariableReference vars)
    {s t : VariableFetchStoreState}
    (hs : FetchInvariant (contextOf textContainsVariableReference vars) s)
    (hstep : step textContainsVariableReference vars s call = some t) :
    FetchInvariant (contextOf textContainsVariableReference vars) t := by
  cases hdata : buildDependencyData textContainsVariableReference vars.sorted with
  | none =>
    rw [step_of_no_data hs hdata] at hstep
    exact Option.some.inj hstep ▸ hs
  | some data =>
    have hctx := getVariableDependencyContext_sound hacyclic hdata fun _ => .nil
    cases call with
    | enqueueFetchOfAllVariables selectedValue =>
      obtain rfl := Option.some.inj hstep
      have hsel := getVariableDependencyContext_sound hacyclic hdata selectedValue
      have hkept := FetchInvariant.enqueueFetchOfAllVariables hsel
        ⟨hs.present, hs.kinds, hs.together⟩
      exact ⟨hkept.present, hkept.kinds, hkept.together⟩
    | enqueueDescendantsOfVariable name =>
      obtain rfl := Option.some.inj hstep
      exact hs.enqueueDescendantsOfVariable hctx name
    | settleVariableFetch name outcome now =>
      obtain rfl := Option.some.inj hstep
      by_cases hactive : IsActive s name
      · have hname : name ≠ "" := by
          rintro rfl
          exact not_active_empty hs hactive
        obtain ⟨hcomplete, hfailure⟩ :=
          settleVariableFetch_of_active now hactive hname hctx.dependencyData
        cases outcome with
        | complete =>
          rw [contextOf, hcomplete]
          exact unlock_invariant hctx (beforeUnlock_complete hctx hs hactive)
        | failure =>
          rw [contextOf, hfailure]
          exact unlock_invariant hctx (beforeUnlock_failure hctx hs hactive)
      · rw [settleVariableFetch_of_not_active hactive]
        exact hs

theorem fits_iff_of_data
    (hdata : buildDependencyData textContainsVariableReference vars.sorted = some data) :
    Fits textContainsVariableReference vars s call ↔
      CallFits (contextOf textContainsVariableReference vars) data s call := by
  constructor
  · exact fun h => h data hdata
  · intro h data' h'
    obtain rfl := Option.some.inj (hdata.symm.trans h')
    exact h

/-- One call: from a store without a deadlock, it does well exactly when it fits. -/
theorem fetchesWell_iff (hacyclic : AcyclicReferences textContainsVariableReference vars)
    (hs : FetchInvariant (contextOf textContainsVariableReference vars) s) (hquiet : NoDeadlock s) :
    FetchesWell textContainsVariableReference vars s call ↔
      Fits textContainsVariableReference vars s call := by
  cases hdata : buildDependencyData textContainsVariableReference vars.sorted with
  | none =>
    refine iff_of_true ?_ ?_
    · intro t ht
      rw [step_of_no_data hs hdata] at ht
      obtain rfl := Option.some.inj ht
      refine ⟨hquiet, ?_⟩
      intro data h
      rw [hdata] at h
      cases h
    · intro data h
      rw [hdata] at h
      cases h
  | some data =>
    have hctx := getVariableDependencyContext_sound hacyclic hdata fun _ => .nil
    have hwell : ∀ {t}, step textContainsVariableReference vars s call = some t →
        (FetchesWell textContainsVariableReference vars s call ↔ NoDeadlock t ∧
          NoEarlyChild (contextOf textContainsVariableReference vars) data s t) := by
      intro t ht
      constructor
      · intro h
        exact ⟨(h t ht).1, (h t ht).2 data hdata⟩
      · rintro ⟨hdead, hearly⟩ t' ht'
        obtain rfl := Option.some.inj (ht.symm.trans ht')
        refine ⟨hdead, ?_⟩
        intro data' h'
        obtain rfl := Option.some.inj (hdata.symm.trans h')
        exact hearly
    rw [fits_iff_of_data hdata]
    cases call with
    | enqueueFetchOfAllVariables selectedValue =>
      have hsel := getVariableDependencyContext_sound hacyclic hdata selectedValue
      refine (hwell rfl).trans (iff_of_true ⟨?_, ?_⟩ trivial)
      · exact enqueueFetchOfAllVariables_noDeadlock hsel
          ⟨hs.present, hs.kinds, hs.together⟩
      · exact enqueueFetchOfAllVariables_noEarlyChild hsel
    | enqueueDescendantsOfVariable name =>
      refine (hwell rfl).trans ?_
      rw [CallFits, CascadeFits, and_comm]
      exact and_congr (enqueueDescendantsOfVariable_noEarlyChild_iff hctx hs name)
        (enqueueDescendantsOfVariable_noDeadlock_iff hctx hs name)
    | settleVariableFetch name outcome now =>
      refine (hwell rfl).trans ?_
      by_cases hactive : IsActive s name
      · have hname : name ≠ "" := by
          rintro rfl
          exact not_active_empty hs hactive
        obtain ⟨hcomplete, hfailure⟩ :=
          settleVariableFetch_of_active now hactive hname hctx.dependencyData
        cases outcome with
        | complete =>
          rw [contextOf, hcomplete, CallFits, CompleteFits, and_comm]
          simp only [hactive, true_imp_iff]
          exact and_congr (complete_noEarlyChild_iff hctx hs hactive)
            (complete_noDeadlock_iff hctx hs hactive)
        | failure =>
          rw [contextOf, hfailure, CallFits]
          simp only [hactive, true_imp_iff]
          rw [← failure_noDeadlock_iff hctx hs hactive]
          exact and_iff_left (failure_noEarlyChild hctx)
      · rw [settleVariableFetch_of_not_active hactive]
        refine iff_of_true ⟨hquiet, ?_⟩ ?_
        · rintro child _ ⟨-, hchanged⟩
          rcases hchanged with h | h
          · exact absurd rfl h
          · exact absurd rfl h
        · cases outcome with
          | complete => exact fun h => absurd h hactive
          | failure => exact fun h => absurd h hactive

theorem allIdle_state {n : String} :
    ¬ (IsActive (allIdle vars) n ∨ IsWaiting (allIdle vars) n) := by
  have hstate : (allIdle vars).states n = if n ∈ vars.names then some .idle else none := rfl
  rw [isActive_iff, IsWaiting, hstate]
  by_cases h : n ∈ vars.names
  · simp [h]
  · simp [h]

theorem allIdle_invariant :
    FetchInvariant (contextOf textContainsVariableReference vars) (allIdle vars) := by
  refine ⟨?_, ?_, ?_⟩
  · intro n hquery
    obtain ⟨v, hv, rfl, -⟩ := vars.lookup_types.1 hquery
    have hname : v.name ∈ vars.names := List.mem_map_of_mem hv
    have hstate : (allIdle vars).states v.name = some .idle := if_pos hname
    rw [hstate]
    exact Option.some_ne_none _
  · exact fun n h => absurd h allIdle_state
  · exact fun n _ m _ h => absurd (Or.inr h) allIdle_state

/-- From all variables idle: every call leaves no deadlock and starts no child early exactly in
the runs whose calls all fit. -/
theorem runs_meet_iff (hacyclic : AcyclicReferences textContainsVariableReference vars)
    (calls : List Call) :
    Runs.StepsMeet (step textContainsVariableReference vars)
        (FetchesWell textContainsVariableReference vars) (allIdle vars) calls ↔
      Runs.StepsMeet (step textContainsVariableReference vars)
        (Fits textContainsVariableReference vars) (allIdle vars) calls := by
  apply Runs.stepsMeet_congr_of_meet
    (I := fun s => FetchInvariant (contextOf textContainsVariableReference vars) s ∧ NoDeadlock s)
  · rintro s call t ⟨hs, hquiet⟩ hfits hstep
    refine ⟨step_invariant hacyclic hs hstep, ?_⟩
    exact (((fetchesWell_iff hacyclic hs hquiet).2 hfits) t hstep).1
  · rintro s call ⟨hs, hquiet⟩
    exact fetchesWell_iff hacyclic hs hquiet
  · refine ⟨allIdle_invariant, ?_⟩
    rintro ⟨n, hwait⟩
    exact absurd (Or.inr hwait) allIdle_state

theorem exec_fetchInvariant (hacyclic : AcyclicReferences textContainsVariableReference vars)
    (calls : List Call) {t : VariableFetchStoreState}
    (h : Runs.exec (step textContainsVariableReference vars) (allIdle vars) calls = some t) :
    FetchInvariant (contextOf textContainsVariableReference vars) t :=
  Runs.exec_invariant (I := fun _ t => FetchInvariant _ t) allIdle_invariant
    (fun _ _ _ _ hm hstep => step_invariant hacyclic hm hstep) calls t h

/-- Only variables are unsettled. -/
theorem mem_names_of_unsettled
    (hs : FetchInvariant (contextOf textContainsVariableReference vars) s) {n : String}
    (h : IsActive s n ∨ IsWaiting s n) : n ∈ vars.names := by
  rcases hs.kinds n h with hquery | hdyn
  · obtain ⟨v, hv, hname, -⟩ := vars.lookup_types.1 hquery
    exact List.mem_map.2 ⟨v, hv, hname⟩
  · obtain ⟨v, hv, hname, -⟩ := vars.lookup_types.1 (vars.mem_dynamicOrder.1 hdyn)
    exact List.mem_map.2 ⟨v, hv, hname⟩

end Runs

/-! ## A deadlock and an early start -/

/-- The form `$name`, up to the next character that is no word character. -/
def dollarReference (text variableName : String) : Bool :=
  variableName ≠ "" && text.toList.tails.any fun rest =>
    ('$' :: variableName.toList).isPrefixOf rest &&
      (rest.drop (variableName.length + 1)).head?.all fun c => !(c.isAlphanum || c = '_')

/-- A QUERY variable of a CUSTOM and a DYNAMIC one. -/
def dynamicParent : DashboardVariables :=
  ⟨[⟨"A", .CUSTOM, ""⟩, ⟨"D", .DYNAMIC, ""⟩, ⟨"Q", .QUERY, "$A $D"⟩], by decide, by decide,
    by decide⟩

/-- A QUERY variable of two QUERY variables. -/
def twoParents : DashboardVariables :=
  ⟨[⟨"P", .QUERY, ""⟩, ⟨"R", .QUERY, ""⟩, ⟨"Q", .QUERY, "$P $R"⟩], by decide, by decide,
    by decide⟩

/-- Edges lead to the variable `Q` only. -/
theorem acyclic_of_edges {vars : DashboardVariables}
    (h : ∀ p ∈ vars.names, p ≠ "Q" ∨
      (buildDependencies dollarReference vars.sorted).at p = [])
    (hchild : ∀ p ∈ vars.names, ∀ c ∈ (buildDependencies dollarReference vars.sorted).at p,
      c = "Q") : AcyclicReferences dollarReference vars := by
  apply Kahn.acyclic_of_rank fun n => if n = "Q" then 1 else 0
  intro p c hedge
  have hp : p ∈ vars.names := by
    by_contra hnot
    rw [VariableGraph.at_of_not_mem] at hedge
    · cases hedge
    · rwa [buildDependencies_keys]
  have hpne : p ≠ "Q" := by
    apply (h p hp).resolve_right
    intro hnil
    rw [hnil] at hedge
    cases hedge
  rw [if_neg hpne, if_pos (hchild p hp c hedge)]
  exact Nat.one_pos

theorem dynamicParent_acyclic : AcyclicReferences dollarReference dynamicParent :=
  acyclic_of_edges (by decide +kernel) (by decide +kernel)

/-- `Q` completes and `D` starts; then a change of `A` lets `Q` wait for `D` and `D` for `Q`. With
two parents, the first that completes starts `Q` while the other is loading. -/
theorem waits_forever_and_starts_early :
    (∃ t, Runs.exec (step dollarReference dynamicParent) (allIdle dynamicParent)
        [.enqueueFetchOfAllVariables fun _ => .nil, .settleVariableFetch "Q" .complete 1,
          .enqueueDescendantsOfVariable "A"] = some t ∧ ¬ NoDeadlock t) ∧
      ¬ Runs.StepsMeet (step dollarReference twoParents) (FetchesWell dollarReference twoParents)
        (allIdle twoParents)
        [.enqueueFetchOfAllVariables fun _ => .nil, .settleVariableFetch "P" .complete 1] := by
  constructor
  · refine ⟨_, rfl, ?_⟩
    intro h
    obtain ⟨n, hactive⟩ := h ⟨"D", by decide +kernel⟩
    have hs := exec_fetchInvariant dynamicParent_acyclic
      [.enqueueFetchOfAllVariables fun _ => .nil, .settleVariableFetch "Q" .complete 1,
        .enqueueDescendantsOfVariable "A"] rfl
    have hname := mem_names_of_unsettled hs (Or.inl hactive)
    revert hactive
    suffices hnone : ∀ m ∈ dynamicParent.names, ¬ IsActive _ m from hnone n hname
    decide +kernel
  · rintro ⟨-, h⟩
    obtain ⟨hwell, -⟩ := h _ rfl
    have hearly := (hwell _ rfl).2 _ rfl "Q" (by decide +kernel)
    exact hearly ⟨by decide +kernel, Or.inl (by decide +kernel)⟩ "R" (by decide +kernel)
      (by decide +kernel) (Or.inl (by decide +kernel))

theorem dynamicParent_query {n : String}
    (h : IsQuery (contextOf dollarReference dynamicParent) n) : n = "Q" := by
  obtain ⟨v, hv, hname, htype⟩ := dynamicParent.lookup_types.1 h
  suffices honly : ∀ v ∈ dynamicParent.sorted, v.type = .QUERY → v.name = "Q" from
    hname ▸ honly v hv htype
  decide

/-- All variables are fetched, `Q` completes while it is loading, `D` starts and fails, and a change
of `A` starts `Q` again. -/
theorem dynamicParent_run_well :
    Runs.StepsMeet (step dollarReference dynamicParent) (FetchesWell dollarReference dynamicParent)
      (allIdle dynamicParent)
      [.enqueueFetchOfAllVariables fun _ => .nil, .settleVariableFetch "Q" .complete 1,
        .settleVariableFetch "D" .failure 2, .enqueueDescendantsOfVariable "A"] := by
  rw [runs_meet_iff dynamicParent_acyclic]
  refine ⟨fun _ _ => trivial, ?_⟩
  intro t ht
  obtain rfl := Option.some.inj ht
  refine ⟨(fits_iff_of_data rfl).2 ?_, ?_⟩
  · intro _
    refine ⟨by decide +kernel, Or.inr (Or.inr ?_)⟩
    intro q hquery
    obtain rfl := dynamicParent_query hquery
    decide +kernel
  intro t ht
  obtain rfl := Option.some.inj ht
  refine ⟨(fits_iff_of_data rfl).2 ?_, ?_⟩
  · intro _
    refine Or.inr ?_
    intro q hquery hwait
    obtain rfl := dynamicParent_query hquery
    exact absurd hwait (by decide +kernel)
  intro t ht
  obtain rfl := Option.some.inj ht
  refine ⟨(fits_iff_of_data rfl).2 ?_, fun _ _ => trivial⟩
  exact ⟨by decide +kernel, Or.inr (Or.inr ⟨"Q", by decide +kernel, by decide +kernel⟩)⟩

end Signoz.Dashboard
