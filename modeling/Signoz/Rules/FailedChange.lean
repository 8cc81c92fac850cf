import Signoz.Rules.RuleChanges

/-!
# A change of a rule that fails

`EditRule` deploys the new definition before its transaction commits, and `PatchRule` before it
writes. When the commit or the write fails the database rolls back, and the memory does not: what
`PatchRule` calls restoring deploys the new definition once more.
`failed_change_leaves_running_iff` says exactly when a call that fails leaves what runs alone: when
it fails before it deploys, or when deploying changes nothing.
-/

namespace Signoz.Rules

open Signoz.Querier Signoz.Alertmanager Lib.FailingCalls

/-! ## What runs -/

section Running

variable {V Q : Type} {env : TaskEnv Q} {orgID id : String} {used : PostableRule V Q}
variable {m : Memory V Q}

/-- What the task and the rule of an id were built from. -/
def Memory.runningSpec (m : Memory V Q) (id : String) :
    Option (Task V Q) × Option (RuleObject V Q) :=
  ((m.tasks (prepareTaskName id)).map Task.spec, (m.rules id).map RuleObject.spec)

/-- Deploying the definition changes nothing: it is disabled and no task runs, or its task and its
rule are those that run. -/
def LeavesRunning (env : TaskEnv Q) (orgID id : String) (used : PostableRule V Q)
    (m : Memory V Q) : Prop :=
  if used.disabled then m.tasks (prepareTaskName id) = none
  else
    ∃ t, prepareTask env orgID used (prepareTaskName id) = .ok t ∧
      m.runningSpec id = (some t.spec, t.rules.head?.map RuleObject.spec)

/-- A task with one rule, of this id. -/
def Task.RunsOnly (t : Task V Q) (id : String) : Prop := ∃ rule, t.rules = [rule] ∧ rule.id = id

theorem runsOnly_of_spec {t t' : Task V Q} (hspec : t'.spec = t.spec) (h : t.RunsOnly id) :
    t'.RunsOnly id := by
  obtain ⟨rule, hrules, hid⟩ := h
  have hmap : t'.rules.map RuleObject.spec = [rule.spec] := by
    have hsame : t'.rules.map RuleObject.spec = t.rules.map RuleObject.spec :=
      congrArg Task.rules hspec
    rw [hsame, hrules, List.map_singleton]
  obtain ⟨rule', hrule', hsame⟩ := List.map_eq_singleton_iff.1 hmap
  have hid' : rule'.spec.id = rule.spec.id := congrArg RuleObject.id hsame
  exact ⟨rule', hrule', hid'.trans hid⟩

theorem prepareTask_runsOnly {t : Task V Q}
    (h : prepareTask env orgID used (prepareTaskName id) = .ok t) : t.RunsOnly id := by
  obtain ⟨frequency, type, -, -, -, rfl⟩ := prepareTask_eq_ok env h
  exact ⟨_, rfl, rfl⟩

/-- A task that is installed is what runs. -/
theorem install_runningSpec {t t' : Task V Q} (hspec : t'.spec = t.spec) (h : t.RunsOnly id) :
    (m.install (prepareTaskName id) t').runningSpec id =
      (some t.spec, t.rules.head?.map RuleObject.spec) := by
  obtain ⟨rule', hrules', hid'⟩ := runsOnly_of_spec hspec h
  have hhead : t.rules.head?.map RuleObject.spec = some rule'.spec := by
    have hmap : t.rules.map RuleObject.spec = t'.rules.map RuleObject.spec :=
      (congrArg Task.rules hspec).symm
    rw [← List.head?_map, hmap, hrules']
    rfl
  have hrule : (m.install (prepareTaskName id) t').rules id = some rule' := by
    rw [Memory.install, hrules']
    exact if_pos hid'.symm
  have htask : (m.install (prepareTaskName id) t').tasks (prepareTaskName id) = some t' := by
    rw [Memory.install_tasks]
    exact if_pos rfl
  rw [Memory.runningSpec, htask, hrule, hhead, Option.map_some, Option.map_some, hspec]

/-- What runs after a definition that is not disabled was deployed. -/
theorem deploy_runningSpec {t : Task V Q} (henabled : used.disabled = false)
    (hprepare : prepareTask env orgID used (prepareTaskName id) = .ok t) :
    (m.deploy env orgID used (prepareTaskName id)).runningSpec id =
      (some t.spec, t.rules.head?.map RuleObject.spec) := by
  have honly := prepareTask_runsOnly hprepare
  rw [Memory.deploy, henabled, if_neg Bool.false_ne_true, hprepare]
  cases m.tasks (prepareTaskName id) with
  | none => exact install_runningSpec rfl honly
  | some old => exact install_runningSpec (Task.copyState_spec env t old) honly

/-- Deploying leaves what runs alone exactly when it is to change nothing. -/
theorem deploy_runningSpec_iff (h : deployable env orgID used (prepareTaskName id) = true) :
    (m.deploy env orgID used (prepareTaskName id)).runningSpec id = m.runningSpec id ↔
      LeavesRunning env orgID id used m := by
  rw [LeavesRunning]
  cases hdisabled : used.disabled with
  | true =>
    rw [if_pos rfl, Memory.deploy, hdisabled, if_pos rfl]
    constructor
    · intro hsame
      have htask := congrArg Prod.fst hsame
      simp only [Memory.runningSpec, Memory.deleteTask_tasks, if_true, Option.map_none] at htask
      exact Option.map_eq_none_iff.1 htask.symm
    · intro hnone
      rw [Memory.deleteTask, hnone]
  | false =>
    obtain ⟨t, hprepare⟩ := prepareTask_of_deployable h hdisabled
    rw [if_neg Bool.false_ne_true, deploy_runningSpec hdisabled hprepare]
    constructor
    · exact fun hsame => ⟨t, hprepare, hsame.symm⟩
    · rintro ⟨t', hprepare', hsame⟩
      obtain rfl := Except.ok.inj (hprepare.symm.trans hprepare')
      exact hsame.symm

/-- A definition that was deployed leaves what runs alone when it is deployed again. -/
theorem leavesRunning_deploy (h : deployable env orgID used (prepareTaskName id) = true) :
    LeavesRunning env orgID id used (m.deploy env orgID used (prepareTaskName id)) := by
  rw [LeavesRunning]
  cases hdisabled : used.disabled with
  | true =>
    rw [if_pos rfl, Memory.deploy, hdisabled, if_pos rfl, Memory.deleteTask_tasks]
    exact if_pos rfl
  | false =>
    obtain ⟨t, hprepare⟩ := prepareTask_of_deployable h hdisabled
    rw [if_neg Bool.false_ne_true]
    exact ⟨t, hprepare, deploy_runningSpec hdisabled hprepare⟩

/-- What is deployed after the write has failed is the new definition again, or nothing: version
`v1` has lost its thresholds. -/
theorem restore_runningSpec
    (hrestore : deployable env orgID used.afterMarshal (prepareTaskName id) = true)
    (h : deployable env orgID used (prepareTaskName id) = true) :
    ((m.deploy env orgID used (prepareTaskName id)).deploy env orgID used.afterMarshal
        (prepareTaskName id)).runningSpec id =
      (m.deploy env orgID used (prepareTaskName id)).runningSpec id := by
  have hkeep := leavesRunning_deploy (m := m) h
  have hdisabled : used.afterMarshal.disabled = used.disabled := by
    rw [PostableRule.afterMarshal]
    split <;> rfl
  rw [deploy_runningSpec_iff hrestore, LeavesRunning, hdisabled]
  rw [LeavesRunning] at hkeep
  cases hused : used.disabled with
  | true =>
    rw [hused] at hkeep
    exact hkeep
  | false =>
    rw [hused] at hkeep
    rw [if_neg Bool.false_ne_true] at hkeep ⊢
    obtain ⟨t, hprepare⟩ := prepareTask_of_deployable hrestore (hdisabled.trans hused)
    obtain ⟨-, -, -, -, hthreshold, -⟩ := prepareTask_eq_ok env hprepare
    have hversion : used.schemaVersion ≠ defaultSchemaVersion := by
      intro hv1
      rw [PostableRule.afterMarshal, if_pos hv1, PostableRule.getRuleThreshold] at hthreshold
      cases hcondition : used.ruleCondition with
      | none =>
        rw [hcondition] at hthreshold
        cases hthreshold
      | some c =>
        rw [hcondition] at hthreshold
        cases hthreshold
    rw [PostableRule.afterMarshal, if_neg hversion]
    exact hkeep

end Running

/-! ## Changes that fail -/

section Changes

variable {V Q G B H : Type} [Float64 V] {env : ManagerEnv V Q G B H} {plan : CallPlan}
variable {orgID id : String} {w w' : World V Q G B} {change : RuleChange}

/-- The call gets as far as to deploy the definition, as `used`. -/
def RuleChange.Deploys (env : ManagerEnv V Q G B H) (plan : CallPlan) (orgID id : String)
    (w : World V Q G B) (used : PostableRule V Q) : RuleChange → Prop
  | edit ruleStr => ∃ row rule, EditDeploys env plan orgID ruleStr id w row rule used
  | patch ruleStr => ∃ row old rule, PatchDeploys env plan orgID ruleStr id w row old rule used

omit [Float64 V] in
theorem runningSpec_of_running {m m' : Memory V Q} (htasks : m'.tasks = m.tasks)
    (hrules : m'.rules = m.rules) (id : String) : m'.runningSpec id = m.runningSpec id := by
  rw [Memory.runningSpec, Memory.runningSpec, htasks, hrules]

omit [Float64 V] in
theorem leavesRunning_of_running {m m' : Memory V Q} {used : PostableRule V Q}
    (htasks : m'.tasks = m.tasks) (hrules : m'.rules = m.rules) :
    LeavesRunning env.task orgID id used m' ↔ LeavesRunning env.task orgID id used m := by
  rw [LeavesRunning, LeavesRunning, runningSpec_of_running htasks hrules, htasks]

omit [Float64 V] in
/-- A write that fails has left the memory as it was, and then the definition is deployed again. -/
theorem storePatched_error {row : StoredRule} {used : PostableRule V Q} {e : Failure}
    (h : storePatched env plan orgID row used w = .error e w') :
    w'.memory = w.memory ∨
      deployable env.task orgID used.afterMarshal (prepareTaskName row.id) = true ∧
        w'.memory = w.memory.deploy env.task orgID used.afterMarshal (prepareTaskName row.id) := by
  rw [storePatched] at h
  cases hstore : storeEditRule plan { row with data := used.marshalJSON env.codec }
      (fun _ => pure ()) w with
  | ok a s =>
    rw [hstore] at h
    cases h
  | error e' s =>
    rw [hstore] at h
    cases h
    have hmemory : s.memory = w.memory := by
      obtain ⟨-, rfl | ⟨k, hcallback, hsame⟩ | ⟨-, -, k, hcallback, hsame⟩⟩ :=
        runInTxCtx_eq_error hstore
      · rfl
      · rcases bind_eq_error.1 hcallback with hfail | ⟨_, l, -, hcallback⟩
        · rw [hsame, (ensure_eq_error.1 hfail).2.2]
        · rcases bind_eq_error.1 hcallback with hfail | ⟨_, l, -, hfail⟩
          · cases hfail
          · cases hfail
      · obtain ⟨-, hcallback⟩ := externalCall_bind_eq_ok.1 hcallback
        rw [modifyDatabase_bind_eq_ok] at hcallback
        rw [hsame, ← (pure_eq_ok.1 hcallback).2]
    rcases syncRuleStateWithTask_spec env orgID (prepareTaskName row.id) used.afterMarshal s with
      ⟨hok, hsync⟩ | ⟨-, e'', hsync⟩
    · rw [hsync, ← hmemory]
      exact Or.inr ⟨hok, rfl⟩
    · rw [hsync]
      exact Or.inl hmemory

/-- What runs after a call that has deployed the definition and fails. -/
theorem runningSpec_of_deploys {e : Failure} {used : PostableRule V Q}
    (hdeploys : change.Deploys env plan orgID id w used)
    (h : change.run env plan orgID id w = .error e w') :
    deployable env.task orgID used (prepareTaskName id) = true ∧
      ∃ m : Memory V Q, m.tasks = w.memory.tasks ∧ m.rules = w.memory.rules ∧
        w'.memory.runningSpec id =
          (m.deploy env.task orgID used (prepareTaskName id)).runningSpec id := by
  cases change with
  | edit ruleStr =>
    obtain ⟨row, rule, hdeploys⟩ := hdeploys
    have hbefore : (editedWorld env plan orgID ruleStr id row rule w).running = w.running :=
      afterRoutingWorld_running
    have hrun := editRule_of_deploys hdeploys
    rw [RuleChange.run] at h
    rw [h] at hrun
    split at hrun
    · cases hrun
      exact ⟨hdeploys.deploys, _, congrArg Prod.fst hbefore, congrArg Prod.snd hbefore, rfl⟩
    · cases hrun
  | patch ruleStr =>
    obtain ⟨row, old, rule, hdeploys⟩ := hdeploys
    have hrun := patchRule_of_deploys hdeploys
    have htaskName : prepareTaskName row.id = prepareTaskName id := by
      rw [storedRule_id hdeploys.stored]
    rw [RuleChange.run] at h
    rw [h] at hrun
    refine ⟨hdeploys.deploys, w.memory, rfl, rfl, ?_⟩
    rcases storePatched_error hrun.symm with hsame | ⟨hrestore, hsame⟩
    · rw [hsame]
      rfl
    · rw [htaskName] at hrestore hsame
      rw [hsame]
      exact restore_runningSpec hrestore hdeploys.deploys

/-- A change that fails leaves the task and the rule of the id as they were built, exactly when it
fails before it has deployed the definition, or deploying changes nothing. -/
theorem failed_change_leaves_running_iff {e : Failure}
    (h : change.run env plan orgID id w = .error e w') :
    w'.memory.runningSpec id = w.memory.runningSpec id ↔
      ∀ used, change.Deploys env plan orgID id w used →
        LeavesRunning env.task orgID id used w.memory := by
  constructor
  · intro hsame used hdeploys
    obtain ⟨hok, m, htasks, hrules, hspec⟩ := runningSpec_of_deploys hdeploys h
    rw [← leavesRunning_of_running htasks hrules, ← deploy_runningSpec_iff hok, ← hspec, hsame]
    exact (runningSpec_of_running htasks hrules id).symm
  · intro hleaves
    have hcases : w'.running = w.running ∨ ∃ used, change.Deploys env plan orgID id w used := by
      cases change with
      | edit ruleStr =>
        rcases editRule_error h with hsame | ⟨row, rule, used, hdeploys⟩
        · exact Or.inl hsame
        · exact Or.inr ⟨used, row, rule, hdeploys⟩
      | patch ruleStr =>
        rcases patchRule_error h with hsame | ⟨row, old, rule, used, hdeploys⟩
        · exact Or.inl hsame
        · exact Or.inr ⟨used, row, old, rule, hdeploys⟩
    rcases hcases with hsame | ⟨used, hdeploys⟩
    · exact runningSpec_of_running (congrArg Prod.fst hsame) (congrArg Prod.snd hsame) id
    · obtain ⟨hok, m, htasks, hrules, hspec⟩ := runningSpec_of_deploys hdeploys h
      rw [hspec, (deploy_runningSpec_iff hok).2
        ((leavesRunning_of_running htasks hrules).2 (hleaves used hdeploys))]
      exact runningSpec_of_running htasks hrules id

end Changes

/-! ## A commit that fails -/

/-- Only the commit fails. -/
def commitFails : CallPlan := ⟨fun call => call = .commit, id, List.Perm.refl⟩

/-- The names of the rules of a task. -/
def Task.ruleNames (t : Task ℚ Unit) : List String := t.rules.map fun r => r.definition.alertName

/-- The call fails, and the task of the rule has the new name. -/
theorem newName_fails :
    ∃ e w', newName.run cpuEnv commitFails "o1" "r1" (cpuWorld []) = .error e w' ∧
      (w'.memory.tasks (prepareTaskName "r1")).map Task.ruleNames = some ["CPU full"] := by
  have hrun : failsWith (newName.run cpuEnv commitFails "o1" "r1" (cpuWorld [])) (fun w' =>
      (w'.memory.tasks (prepareTaskName "r1")).map Task.ruleNames = some ["CPU full"]) = true := by
    rw [newName, RuleChange.run, editRule, parseRule_cpuText.2.1]
    decide +kernel
  obtain ⟨e, w', herror, htest⟩ := exists_of_failsWith hrun
  exact ⟨e, w', herror, of_decide_eq_true htest⟩

/-- A rule runs under its new name though the commit has failed. -/
theorem failed_change_runs_new_definition :
    ∃ e w', newName.run cpuEnv commitFails "o1" "r1" (cpuWorld []) = .error e w' ∧
      w'.memory.runningSpec "r1" ≠ (cpuWorld []).memory.runningSpec "r1" := by
  obtain ⟨e, w', herror, hname⟩ := newName_fails
  refine ⟨e, w', herror, ?_⟩
  intro hsame
  have htask := congrArg (fun p => p.1.map Task.ruleNames) hsame
  simp only [Memory.runningSpec, Option.map_map] at htask
  have hspec : (Task.ruleNames ∘ Task.spec : Task ℚ Unit → List String) = Task.ruleNames := by
    funext t
    change (t.rules.map RuleObject.spec).map _ = t.rules.map _
    rw [List.map_map]
    rfl
  rw [hspec, hname] at htask
  have hold : ((cpuWorld []).memory.tasks (prepareTaskName "r1")).map Task.ruleNames =
      some ["CPU high"] := by
    decide +kernel
  exact absurd (htask.trans hold) (by decide +kernel)

theorem failed_change_leaves_running_iff_newName :
    ∃ e w', newName.run cpuEnv commitFails "o1" "r1" (cpuWorld []) = .error e w' ∧
      (w'.memory.runningSpec "r1" = (cpuWorld []).memory.runningSpec "r1" ↔
        ∀ used, newName.Deploys cpuEnv commitFails "o1" "r1" (cpuWorld []) used →
          LeavesRunning cpuEnv.task "o1" "r1" used (cpuWorld []).memory) := by
  obtain ⟨e, w', herror, -⟩ := newName_fails
  exact ⟨e, w', herror, failed_change_leaves_running_iff herror⟩

end Signoz.Rules
