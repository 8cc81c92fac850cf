import Signoz.Rules.RuleChanges
import Signoz.Rules.StateHistory

/-!
# Alerts of a rule that is deployed again

A change of a rule puts a new task in the place of the old one, and `CopyState` hands the `Active`
map over. It matches rules by name and labels, and knows threshold and PromQL rules only.
`redeploy_keeps_alerts_iff` says exactly when no alert that is firing or recovering is lost: when
name and labels stay and the rule is no anomaly rule, or when there is no such alert.
-/

namespace Signoz.Rules

open Signoz.Querier Signoz.Alertmanager Lib.FailingCalls

/-! ## Alerts -/

section Alerts

variable {V Q G B H : Type} [Float64 V] {env : ManagerEnv V Q G B H} {plan : CallPlan}
variable {orgID id : String} {w w' : World V Q G B} {old : Task V Q} {d dOld : PostableRule V Q}

/-- An alert of the rule is firing or recovering, under this key. -/
def RuleObject.LiveAlert (rule : RuleObject V Q) (fp : Nat) (a : Alert V) : Prop :=
  rule.active.lookup fp = some a ∧ a.state.isLive = true

/-- Some alert of the task is firing or recovering. -/
def Task.HasLiveAlert (t : Task V Q) : Prop := ∃ rule ∈ t.rules, ∃ fp a, rule.LiveAlert fp a

/-- Every alert of the old task that is firing or recovering is in the new one, as it was. -/
def KeepsAlerts (old : Task V Q) (new : Option (Task V Q)) : Prop :=
  ∀ rule ∈ old.rules, ∀ fp a, rule.LiveAlert fp a →
    ∃ t, new = some t ∧ ∃ rule' ∈ t.rules, rule'.active.lookup fp = some a

omit [Float64 V] in
/-- A new rule that takes the state of an old one over has its alerts. -/
theorem copyState_active {type : TaskType} {rule fromRule : RuleObject V Q}
    (hrule : rule.definition.ruleType = type.copiedRuleType)
    (hfrom : fromRule.definition.ruleType = type.copiedRuleType) (hempty : rule.active = []) :
    (rule.copyState type fromRule).active = fromRule.active := by
  rw [RuleObject.copyState, if_neg (not_not_intro hrule), if_neg (not_not_intro hfrom)]
  change copyActive fromRule.active rule.active = fromRule.active
  rw [hempty]
  exact List.append_nil _

omit [Float64 V] in
/-- A rule of another type takes nothing over. -/
theorem copyState_of_ne {type : TaskType} {rule fromRule : RuleObject V Q}
    (hrule : rule.definition.ruleType ≠ type.copiedRuleType) :
    rule.copyState type fromRule = rule := by
  rw [RuleObject.copyState, if_pos hrule]

omit [Float64 V] in
/-- One rule against one rule: the state is handed over where name and labels agree. -/
theorem copyRules_singleton (type : TaskType) (rule fromRule : RuleObject V Q) :
    copyRules env.task type [fromRule] [rule] =
      if fromRule.nameAndLabels env.task = rule.nameAndLabels env.task then
        [rule.copyState type fromRule]
      else [rule] := by
  rw [copyRules, List.find?_cons]
  by_cases hname : fromRule.nameAndLabels env.task = rule.nameAndLabels env.task
  · rw [if_pos hname, decide_eq_true hname]
    rfl
  · rw [if_neg hname, decide_eq_false hname]
    rfl

omit [Float64 V] in
theorem copiedRuleType_of_taskType {ruleType : RuleType} {type : TaskType}
    (h : ruleType.taskType env.task = some type) :
    ruleType = type.copiedRuleType ↔ ruleType ≠ .anomaly := by
  cases ruleType with
  | threshold =>
    obtain rfl := Option.some.inj h
    exact ⟨fun _ => (nomatch ·), fun _ => rfl⟩
  | prom =>
    obtain rfl := Option.some.inj h
    exact ⟨fun _ => (nomatch ·), fun _ => rfl⟩
  | anomaly =>
    refine ⟨fun hcopied => ?_, fun hne => absurd rfl hne⟩
    cases type <;> cases hcopied
  | other value => cases h

omit [Float64 V] in
/-- The task of an enabled definition after a task of the same rule type: its rule has the alerts
of the old rule where name and labels agree and the type is not anomaly, and none elsewhere. -/
theorem deployedTask_active (hbuilt : BuiltFrom env old id dOld) (henabled : d.disabled = false)
    (htype : d.ruleType = dOld.ruleType)
    (hprepared : ∃ t, prepareTask env.task orgID d (prepareTaskName id) = .ok t) :
    ∃ fromRule new rule, old.rules = [fromRule] ∧ new.rules = [rule] ∧
      deployedTask env.task orgID d (prepareTaskName id) (some old) = some new ∧
      rule.active =
        if d.nameAndLabels env.task = dOld.nameAndLabels env.task ∧ d.ruleType ≠ .anomaly then
          fromRule.active
        else [] := by
  obtain ⟨fromRule, hfrom, hused, holdType⟩ := hbuilt.rules
  obtain ⟨t, hprepared⟩ := hprepared
  obtain ⟨frequency, type, -, hnewType, -, ht⟩ := prepareTask_eq_ok env.task hprepared
  have hsameType : old.type = type :=
    Option.some.inj (holdType.symm.trans (htype ▸ hnewType))
  have hfromName : fromRule.nameAndLabels env.task = dOld.nameAndLabels env.task :=
    hused.nameAndLabels
  have hfromType : fromRule.definition.ruleType = d.ruleType := hused.ruleType.trans htype.symm
  generalize hrule : (⟨id, orgID, d, [], false⟩ : RuleObject V Q) = rule at ht
  have hempty : rule.active = [] := by rw [← hrule]
  have hdefinition : rule.definition = d := by rw [← hrule]
  have hname : rule.nameAndLabels env.task = d.nameAndLabels env.task := by
    rw [RuleObject.nameAndLabels, hdefinition]
  have hcopied := copiedRuleType_of_taskType hnewType
  have hrules : (t.copyState env.task old).rules =
      if dOld.nameAndLabels env.task = d.nameAndLabels env.task then
        [rule.copyState type fromRule] else [rule] := by
    have hgType : t.type = type := by rw [ht]; rfl
    have hgRules : t.rules = [rule] := by rw [ht, ← hrule]; rfl
    rw [Task.copyState, if_neg (not_not_intro (hsameType.trans hgType.symm))]
    change copyRules env.task t.type old.rules t.rules = _
    rw [hgType, hgRules, hfrom, copyRules_singleton, hfromName, hname]
  have hdeployed : deployedTask env.task orgID d (prepareTaskName id) (some old) =
      some (t.copyState env.task old) := by
    rw [deployedTask, henabled, if_neg Bool.false_ne_true, hprepared]
  by_cases hsame : d.nameAndLabels env.task = dOld.nameAndLabels env.task
  · rw [if_pos hsame.symm] at hrules
    refine ⟨fromRule, _, _, hfrom, hrules, hdeployed, ?_⟩
    by_cases hanomaly : d.ruleType = .anomaly
    · rw [if_neg fun h => h.2 hanomaly, copyState_of_ne, hempty]
      rw [hdefinition]
      exact fun h => hcopied.1 h hanomaly
    · rw [if_pos ⟨hsame, hanomaly⟩]
      apply copyState_active _ _ hempty
      · rw [hdefinition]
        exact hcopied.2 hanomaly
      · rw [hfromType]
        exact hcopied.2 hanomaly
  · rw [if_neg (Ne.symm hsame)] at hrules
    refine ⟨fromRule, _, _, hfrom, hrules, hdeployed, ?_⟩
    rw [if_neg fun h => hsame h.1, hempty]

/-- A rule that is deployed again with a definition of the same rule type keeps every alert that
is firing or recovering, exactly when name and labels are the same and the rule is no anomaly
rule, or there is no such alert. -/
theorem redeploy_keeps_alerts_iff {change : RuleChange} {u : Unit}
    (hok : change.run env plan orgID id w = .ok u w')
    (hold : w.memory.tasks (prepareTaskName id) = some old) (hbuilt : BuiltFrom env old id dOld)
    (hd : change.definition env id w = some d) (henabled : d.disabled = false)
    (htype : d.ruleType = dOld.ruleType) :
    KeepsAlerts old (w'.memory.tasks (prepareTaskName id)) ↔
      (d.nameAndLabels env.task = dOld.nameAndLabels env.task ∧ d.ruleType ≠ .anomaly) ∨
        ¬ old.HasLiveAlert := by
  obtain ⟨row, text, rule, used, hrule, hchanged⟩ := ruleChange_ok hok
  obtain rfl := Option.some.inj (hd.symm.trans hrule)
  have husedEnabled : used.disabled = false := hchanged.usedAs.disabled.trans henabled
  have husedName := hchanged.usedAs.nameAndLabels
  have husedType := hchanged.usedAs.ruleType
  obtain ⟨fromRule, new, newRule, hfrom, hnew, hdeployed, hactive⟩ :=
    deployedTask_active hbuilt husedEnabled (husedType.trans htype)
      (hchanged.prepared husedEnabled)
  rw [husedName, husedType] at hactive
  have htask : w'.memory.tasks (prepareTaskName id) = some new := by
    rw [hchanged.tasks, hold]
    exact (if_pos rfl).trans hdeployed
  have hone : old.HasLiveAlert ↔ ∃ fp a, fromRule.LiveAlert fp a := by
    rw [Task.HasLiveAlert, hfrom]
    simp only [List.mem_singleton, exists_eq_left]
  rw [htask, KeepsAlerts, hfrom]
  constructor
  · intro hkeeps
    by_contra hnone
    obtain ⟨hcopied, hlive⟩ := not_or.1 hnone
    obtain ⟨fp, a, hlive⟩ := hone.1 (not_not.1 hlive)
    -- Nothing was copied, so this alert is lost.
    obtain ⟨t, ht, rule', hrule', hlookup⟩ :=
      hkeeps fromRule (List.mem_singleton_self _) fp a hlive
    obtain rfl := Option.some.inj ht
    rw [hnew] at hrule'
    obtain rfl := List.mem_singleton.1 hrule'
    rw [hactive, if_neg hcopied] at hlookup
    cases hlookup
  · rintro hkeep rule hmem fp a hlive
    obtain rfl := List.mem_singleton.1 hmem
    rcases hkeep with hcopied | hnone
    · refine ⟨new, rfl, newRule, ?_, ?_⟩
      · rw [hnew]
        exact List.mem_singleton_self _
      · rw [hactive, if_pos hcopied]
        exact hlive.1
    · exact absurd (hone.2 ⟨fp, a, hlive⟩) hnone

end Alerts

/-! ## A rule that gets another name while it fires -/

/-- An alert that fires. -/
def firingAlert : Alert ℚ where
  state := .firing
  labels := [⟨"host", "a"⟩]
  annotations := []
  queryResultLabels := [⟨"host", "a"⟩]
  generatorURL := ""
  receivers := ["ops"]
  value := 95
  activeAt := 0
  firedAt := some 0
  resolvedAt := none
  missing := false
  isRecovering := false

/-- The task of the rule, with the alert. -/
def firingTask : Task ℚ Unit := cpuTask [(7, firingAlert)]

/-- The rule runs, and its alert fires. -/
def firingWorld : World ℚ Unit Unit String := cpuWorld [(7, firingAlert)]

theorem cpuTask_built (active : ActiveMap ℚ) :
    BuiltFrom cpuEnv (cpuTask active) "r1" (cpuRule "CPU high" false false) :=
  ⟨"o1", _, _, UsedAs.refl _, rfl, rfl⟩

/-- The call succeeds, and leaves no alert in the task of the rule. -/
theorem newName_run :
    ∃ w', newName.run cpuEnv .smooth "o1" "r1" firingWorld = .ok () w' ∧
      ∀ t, w'.memory.tasks (prepareTaskName "r1") = some t → ∀ rule ∈ t.rules, rule.active = [] := by
  have hrun : endsWith (newName.run cpuEnv .smooth "o1" "r1" firingWorld) (fun w' =>
      (w'.memory.tasks (prepareTaskName "r1")).all fun t =>
        t.rules.all fun rule => rule.active.isEmpty) = true := by
    rw [newName, RuleChange.run, editRule, parseRule_cpuText.2.1]
    decide +kernel
  obtain ⟨u, w', hok, htest⟩ := exists_of_endsWith hrun
  refine ⟨w', hok, ?_⟩
  intro t ht rule hrule
  rw [ht] at htest
  exact List.isEmpty_iff.1 (List.all_eq_true.1 htest rule hrule)

/-- An alert that fires is lost when its rule gets another name. -/
theorem redeploy_drops_alerts :
    ∃ w', newName.run cpuEnv .smooth "o1" "r1" firingWorld = .ok () w' ∧
      firingWorld.memory.tasks (prepareTaskName "r1") = some firingTask ∧
      BuiltFrom cpuEnv firingTask "r1" (cpuRule "CPU high" false false) ∧
      newName.definition cpuEnv "r1" firingWorld = some (cpuRule "CPU full" false false) ∧
      ¬ KeepsAlerts firingTask (w'.memory.tasks (prepareTaskName "r1")) := by
  obtain ⟨w', hrun, hempty⟩ := newName_run
  refine ⟨w', hrun, rfl, cpuTask_built _, newName_definition _, ?_⟩
  intro hkeeps
  obtain ⟨t, ht, rule, hrule, hlookup⟩ :=
    hkeeps _ (List.mem_singleton_self _) 7 firingAlert ⟨rfl, rfl⟩
  rw [hempty t ht rule hrule] at hlookup
  cases hlookup

theorem redeploy_keeps_alerts_iff_newName :
    ∃ w', newName.run cpuEnv .smooth "o1" "r1" firingWorld = .ok () w' ∧
      (KeepsAlerts firingTask (w'.memory.tasks (prepareTaskName "r1")) ↔
        ((cpuRule "CPU full" false false).nameAndLabels cpuEnv.task =
            (cpuRule "CPU high" false false).nameAndLabels cpuEnv.task ∧
          (cpuRule "CPU full" false false).ruleType ≠ .anomaly) ∨
          ¬ firingTask.HasLiveAlert) := by
  obtain ⟨w', hrun, -⟩ := newName_run
  exact ⟨w', hrun,
    redeploy_keeps_alerts_iff hrun rfl (cpuTask_built _) (newName_definition _) rfl rfl⟩

end Signoz.Rules
