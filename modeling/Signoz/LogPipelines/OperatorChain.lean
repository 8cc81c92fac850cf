import Signoz.LogPipelines.GetOperators

/-!
# The chain of operators

The operators that `getOperators` returns are the enabled ones in their order, with the children of
JSON parsers between them. Every output is the id of the next operator, and the last output is
empty.
-/

namespace Signoz.LogPipelines

/-- What building, clearing and linking leave as it is. -/
def PipelineOperator.key (op : PipelineOperator) : String × OperatorType := (op.id, op.type)

/-! ## The two loops over outputs -/

attribute [local simp] linkOutputs collectOperators clearLastOutput

theorem clearLastOutput_keys (ops : List PipelineOperator) :
    (clearLastOutput ops).map PipelineOperator.key = ops.map PipelineOperator.key := by
  induction ops with
  | nil => rfl
  | cons op rest ih =>
    cases rest with
    | nil => rfl
    | cons next rest =>
      rw [clearLastOutput, List.map_cons, ih]
      · rfl
      · exact List.cons_ne_nil _ _

theorem clearLastOutput_last (ops : List PipelineOperator) :
    ∀ last ∈ (clearLastOutput ops).getLast?, last.output = "" := by
  induction ops with
  | nil =>
    intro last hlast
    cases hlast
  | cons op rest ih =>
    cases rest with
    | nil =>
      intro last hlast
      obtain rfl := Option.some.inj hlast
      rfl
    | cons next rest =>
      have hcons : clearLastOutput (op :: next :: rest) =
          op :: clearLastOutput (next :: rest) := by
        rw [clearLastOutput]
        exact List.cons_ne_nil _ _
      have hne : clearLastOutput (next :: rest) ≠ [] := by
        intro hnil
        have := congrArg (List.map PipelineOperator.key) hnil
        rw [clearLastOutput_keys] at this
        cases this
      rw [hcons, List.getLast?_cons_of_ne_nil hne]
      exact ih

theorem linkOutputs_cons (op : PipelineOperator) (rest : List PipelineOperator) :
    ∃ op' rest', linkOutputs (op :: rest) = op' :: rest' ∧ op'.key = op.key := by
  cases rest with
  | nil => exact ⟨op, [], rfl, rfl⟩
  | cons next rest => exact ⟨_, _, rfl, rfl⟩

theorem linkOutputs_keys (ops : List PipelineOperator) :
    (linkOutputs ops).map PipelineOperator.key = ops.map PipelineOperator.key := by
  induction ops with
  | nil => rfl
  | cons op rest ih =>
    cases rest with
    | nil => rfl
    | cons next rest =>
      rw [linkOutputs, List.map_cons, ih]
      rfl

/-- Linking changes no output of the last operator. -/
theorem linkOutputs_last (ops : List PipelineOperator) :
    (linkOutputs ops).getLast? = ops.getLast? := by
  induction ops with
  | nil => rfl
  | cons op rest ih =>
    cases rest with
    | nil => rfl
    | cons next rest =>
      obtain ⟨next', rest', heq, -⟩ := linkOutputs_cons next rest
      rw [linkOutputs, List.getLast?_cons_cons, ← ih, heq, List.getLast?_cons_cons]

/-- Every output is the id of the next operator. -/
theorem linkOutputs_chain (ops : List PipelineOperator) :
    (linkOutputs ops).IsChain fun a b => a.output = b.id := by
  induction ops with
  | nil => exact List.IsChain.nil
  | cons op rest ih =>
    cases rest with
    | nil => exact List.IsChain.singleton op
    | cons next rest =>
      obtain ⟨next', rest', heq, hkey⟩ := linkOutputs_cons next rest
      rw [linkOutputs, heq]
      rw [heq] at ih
      refine List.IsChain.cons_cons ?_ ih
      exact (congrArg Prod.fst hkey).symm

/-! ## The loop over the configured operators -/

variable {F : Type} {env : Environment F} {newUUID : Nat → Nat → String}

/-- The loop succeeds when every enabled operator can be built. -/
theorem collectOperators_ok_iff (newUUID : Nat → Nat → String) {ops : List PipelineOperator} :
    ∀ {i : Nat} {filteredOp : List PipelineOperator},
      (∃ r, collectOperators env newUUID i ops filteredOp = .ok r) ↔
        ∀ op ∈ ops, op.enabled = true → OperatorBuilds env op := by
  induction ops with
  | nil =>
    intro i filteredOp
    exact iff_of_true ⟨_, rfl⟩ (fun _ h => nomatch h)
  | cons op rest ih =>
    intro i filteredOp
    rw [collectOperators, List.forall_mem_cons]
    by_cases henabled : op.enabled = true
    · rw [if_pos henabled, ← operatorsOf_ok_iff (newUUID i)]
      cases hbuilt : operatorsOf env (newUUID i) op with
      | error failure =>
        refine iff_of_false (fun ⟨_, h⟩ => nomatch h) ?_
        rintro ⟨h, -⟩
        obtain ⟨_, h⟩ := h henabled
        cases h
      | ok operators =>
        refine ih.trans ?_
        exact ⟨fun h => ⟨fun _ => ⟨_, rfl⟩, h⟩, fun h => h.2⟩
    · rw [if_neg henabled]
      have hskip : ((op.enabled = true → OperatorBuilds env op) ∧
          ∀ op ∈ rest, op.enabled = true → OperatorBuilds env op) ↔
          ∀ op ∈ rest, op.enabled = true → OperatorBuilds env op :=
        and_iff_right (fun h => absurd h henabled)
      rw [hskip]
      by_cases hlast : rest = []
      · rw [if_pos hlast]
        exact ih
      · rw [if_neg hlast]
        exact ih

/-- The operators added to those that are there: the enabled ones in their order, with children
between them. -/
theorem collectOperators_keys {ops : List PipelineOperator} :
    ∀ {i : Nat} {filteredOp r : List PipelineOperator},
      collectOperators env newUUID i ops filteredOp = .ok r →
      ∃ added : List PipelineOperator,
        r.map PipelineOperator.key = (filteredOp ++ added).map PipelineOperator.key ∧
        ((ops.filter (·.enabled)).map PipelineOperator.key).Sublist
          (added.map PipelineOperator.key) ∧
        (ops.filter (·.enabled) = [] → added = []) ∧
        ((∀ op ∈ ops, op.id ≠ "") → ∀ op ∈ added, op.id ≠ "") := by
  induction ops with
  | nil =>
    intro i filteredOp r h
    obtain rfl := Except.ok.inj h
    exact ⟨[], by simp, by simp, fun _ => rfl, fun _ op h => nomatch h⟩
  | cons op rest ih =>
    intro i filteredOp r h
    rw [collectOperators] at h
    by_cases henabled : op.enabled = true
    · rw [if_pos henabled] at h
      cases hbuilt : operatorsOf env (newUUID i) op with
      | error failure =>
        rw [hbuilt] at h
        cases h
      | ok operators =>
        rw [hbuilt] at h
        obtain ⟨added, hkeys, hsub, -, hids⟩ := ih h
        obtain ⟨head, children, rfl, hid, htype, -, hchildren⟩ := operatorsOf_built hbuilt
        have hhead : head.key = op.key := Prod.ext hid htype
        refine ⟨head :: children ++ added, ?_, ?_, ?_, ?_⟩
        · rw [hkeys, List.append_assoc]
        · rw [List.filter_cons_of_pos henabled, List.map_cons, List.cons_append, List.map_cons,
            hhead, List.map_append]
          exact List.Sublist.cons_cons _ (hsub.trans (List.sublist_append_right _ _))
        · rw [List.filter_cons_of_pos henabled]
          exact fun hnil => nomatch hnil
        · intro hne o ho
          rw [List.cons_append, List.mem_cons, List.mem_append] at ho
          rcases ho with rfl | ho | ho
          · rw [hid]
            exact hne op List.mem_cons_self
          · exact (hchildren o ho).2
          · exact hids (fun x hx => hne x (List.mem_cons_of_mem op hx)) o ho
    · rw [if_neg henabled] at h
      have hfilter : (op :: rest).filter (·.enabled) = rest.filter (·.enabled) :=
        List.filter_cons_of_neg henabled
      rw [hfilter]
      by_cases hlast : rest = []
      · rw [if_pos hlast] at h
        obtain ⟨added, hkeys, hsub, hnone, hids⟩ := ih h
        refine ⟨added, ?_, hsub, hnone, ?_⟩
        · rw [hkeys, List.map_append, clearLastOutput_keys, List.map_append]
        · exact fun hne => hids fun x hx => hne x (List.mem_cons_of_mem op hx)
      · rw [if_neg hlast] at h
        obtain ⟨added, hkeys, hsub, hnone, hids⟩ := ih h
        exact ⟨added, hkeys, hsub, hnone,
          fun hne => hids fun x hx => hne x (List.mem_cons_of_mem op hx)⟩

/-- Where the last configured operator has no output, the last operator that is kept has none. -/
theorem collectOperators_last {ops : List PipelineOperator} :
    ∀ {i : Nat} {filteredOp r : List PipelineOperator}, ops ≠ [] →
      (∀ last ∈ ops.getLast?, last.output = "") →
      collectOperators env newUUID i ops filteredOp = .ok r →
      ∀ last ∈ r.getLast?, last.output = "" := by
  induction ops with
  | nil =>
    intro i filteredOp r hne
    exact absurd rfl hne
  | cons op rest ih =>
    intro i filteredOp r _ hlast h
    rw [collectOperators] at h
    cases rest with
    | nil =>
      have houtput : op.output = "" := hlast op rfl
      by_cases henabled : op.enabled = true
      · rw [if_pos henabled] at h
        cases hbuilt : operatorsOf env (newUUID i) op with
        | error failure =>
          rw [hbuilt] at h
          cases h
        | ok operators =>
          rw [hbuilt] at h
          obtain rfl := Except.ok.inj h
          obtain ⟨head, children, rfl, -, -, hhead, hchildren⟩ := operatorsOf_built hbuilt
          intro last hmem
          rw [List.getLast?_append_of_ne_nil _ (List.cons_ne_nil head children)] at hmem
          rcases List.mem_cons.1 (List.mem_of_getLast? hmem) with rfl | hchild
          · rw [hhead, houtput]
          · exact (hchildren last hchild).1
      · rw [if_neg henabled, if_pos rfl] at h
        obtain rfl := Except.ok.inj h
        exact clearLastOutput_last filteredOp
    | cons next rest =>
      have hlast' : ∀ last ∈ (next :: rest).getLast?, last.output = "" := by
        intro last hmem
        apply hlast
        rwa [List.getLast?_cons_cons]
      by_cases henabled : op.enabled = true
      · rw [if_pos henabled] at h
        cases hbuilt : operatorsOf env (newUUID i) op with
        | error failure =>
          rw [hbuilt] at h
          cases h
        | ok operators =>
          rw [hbuilt] at h
          exact ih (List.cons_ne_nil _ _) hlast' h
      · rw [if_neg henabled, if_neg (List.cons_ne_nil _ _)] at h
        exact ih (List.cons_ne_nil _ _) hlast' h

end Signoz.LogPipelines
