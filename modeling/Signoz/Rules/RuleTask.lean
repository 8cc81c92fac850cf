import Signoz.Rules.PostableRule

/-!
# Rule tasks

`rule_task.go`, `prom_rule_task.go` and the functions that prepare a task for a definition:
`defaultPrepareTaskFunc` of `manager.go`, and `PrepareTaskFunc` of the enterprise edition, which
has anomaly rules too. A new task takes over what `CopyState` finds in the task before it.

A rule keeps its thresholds, its evaluation and the rest of its definition from when it was made.
-/

namespace Signoz.Rules

open Signoz.Querier

/-! ## Data -/

/-- A task name, as `prepareTaskName` makes it. A rule id holds no `-groupname`, so
`RuleIDFromTaskName` reads the id back. -/
structure TaskName where
  ruleIDFromTaskName : String
deriving DecidableEq

/-- `prepareTaskName`. -/
def prepareTaskName (ruleID : String) : TaskName := ⟨ruleID⟩

/-- `TaskType`. -/
inductive TaskType where
  | prom
  | ch
deriving DecidableEq

/-- A rule of the manager: a `ThresholdRule`, a `PromRule` or an `AnomalyRule`, by the rule type of
its definition. -/
structure RuleObject (V Q : Type) where
  id : String
  orgID : String
  definition : PostableRule V Q
  active : ActiveMap V
  handledRestart : Bool

/-- `RuleTask` or `PromRuleTask`. -/
structure Task (V Q : Type) where
  name : TaskName
  type : TaskType
  frequency : Int
  rules : List (RuleObject V Q)

/-- What a task gets from elsewhere. -/
structure TaskEnv (Q : Type) where
  /-- The edition with anomaly rules. -/
  enterprise : Bool
  /-- `strconv.Quote`. -/
  quote : String → String
  /-- The queries hold the PromQL query that is selected. -/
  hasPqlQuery : Q → Bool

/-- Why no task can be prepared. -/
inductive PrepareError where
  | evaluation
  | unsupportedRuleType (ruleType : RuleType)
  | threshold
  | pqlQuery

section Tasks

variable {V Q : Type} (env : TaskEnv Q)

/-! ## Preparing a task -/

/-- The type of task that evaluates rules of a type. -/
def RuleType.taskType (ruleType : RuleType) : Option TaskType :=
  match ruleType with
  | .threshold => some .ch
  | .prom => some .prom
  | .anomaly => if env.enterprise then some .ch else none
  | .other _ => none

/-- `NewThresholdRule`, `NewPromRule` and `NewAnomalyRule`. -/
def newRule (id orgID : String) (p : PostableRule V Q) : Except PrepareError (RuleObject V Q) :=
  if p.getRuleThreshold.isNone then .error .threshold
  else if p.ruleType = .prom && !env.hasPqlQuery p.rest then .error .pqlQuery
  else .ok ⟨id, orgID, p, [], false⟩

def defaultFrequency : Int := minutes 1

/-- `newTask`. -/
def newTask (type : TaskType) (name : TaskName) (frequency : Int) (rules : List (RuleObject V Q)) :
    Task V Q :=
  ⟨name, type, if frequency = 0 then defaultFrequency else frequency, rules⟩

/-- `defaultPrepareTaskFunc` and `PrepareTaskFunc`. -/
def prepareTask (orgID : String) (p : PostableRule V Q) (taskName : TaskName) :
    Except PrepareError (Task V Q) :=
  match p.getFrequency with
  | none => .error .evaluation
  | some frequency =>
    match p.ruleType.taskType env with
    | none => .error (.unsupportedRuleType p.ruleType)
    | some type =>
      (newRule env taskName.ruleIDFromTaskName orgID p).map fun rule =>
        newTask type taskName frequency [rule]

/-! ## Copying the state of a task -/

/-- `FromMap`. -/
def fromMap (m : List (String × String)) : Labels := sortLabels (m.map fun p => ⟨p.1, p.2⟩)

/-- `String`. -/
def Labels.text (quote : String → String) (ls : Labels) : String :=
  "\x7b" ++ ", ".intercalate (ls.map fun l => l.name ++ "=" ++ quote l.value) ++ "\x7d"

/-- `nameAndLabels` of a rule with this definition. -/
def PostableRule.nameAndLabels (p : PostableRule V Q) : String :=
  p.alertName ++ (fromMap p.labels).text env.quote

/-- `nameAndLabels`. -/
def RuleObject.nameAndLabels (rule : RuleObject V Q) : String := rule.definition.nameAndLabels env

/-- The loop over the `Active` map: an entry of `far` replaces the one of `ar`. -/
def copyActive (far ar : ActiveMap V) : ActiveMap V :=
  far ++ ar.filter fun p => (far.lookup p.1).isNone

/-- The rule type that `CopyState` of a type of task asks for on both sides. -/
def TaskType.copiedRuleType : TaskType → RuleType
  | ch => .threshold
  | prom => .prom

/-- The state of a rule that `CopyState` hands over. -/
def RuleObject.copyState (type : TaskType) (rule fromRule : RuleObject V Q) : RuleObject V Q :=
  if rule.definition.ruleType ≠ type.copiedRuleType then rule
  else if fromRule.definition.ruleType ≠ type.copiedRuleType then rule
  else
    { rule with
      active := copyActive fromRule.active rule.active
      handledRestart := fromRule.handledRestart }

/-- The loop of `CopyState`: a rule is matched with the first rule of its name and labels that no
rule before it was matched with. -/
def copyRules (type : TaskType) :
    List (RuleObject V Q) → List (RuleObject V Q) → List (RuleObject V Q)
  | _, [] => []
  | left, rule :: rest =>
    let sameName := fun fromRule : RuleObject V Q =>
      decide (fromRule.nameAndLabels env = rule.nameAndLabels env)
    match left.find? sameName with
    | none => rule :: copyRules type left rest
    | some fromRule => rule.copyState type fromRule :: copyRules type (left.eraseP sameName) rest

/-- `CopyState`. A task of the other type is refused, which nobody looks at. -/
def Task.copyState (g fromTask : Task V Q) : Task V Q :=
  if fromTask.type ≠ g.type then g
  else { g with rules := copyRules env g.type fromTask.rules g.rules }

/-! ## What a task was built from -/

/-- A rule without what evaluations have left in it. -/
def RuleObject.spec (rule : RuleObject V Q) : RuleObject V Q :=
  { rule with active := [], handledRestart := false }

/-- A task without what evaluations have left in it. -/
def Task.spec (t : Task V Q) : Task V Q := { t with rules := t.rules.map RuleObject.spec }

@[simp] theorem RuleObject.copyState_spec (type : TaskType) (rule fromRule : RuleObject V Q) :
    (rule.copyState type fromRule).spec = rule.spec := by
  rw [RuleObject.copyState]
  split
  · rfl
  · split <;> rfl

theorem copyRules_spec (type : TaskType) (rules : List (RuleObject V Q)) :
    ∀ left : List (RuleObject V Q),
      (copyRules env type left rules).map RuleObject.spec = rules.map RuleObject.spec := by
  induction rules with
  | nil => exact fun left => rfl
  | cons rule rest ih =>
    intro left
    rw [copyRules]
    split
    · rw [List.map_cons, List.map_cons, ih]
    · rw [List.map_cons, List.map_cons, ih, RuleObject.copyState_spec]

/-- Copied state does not change what a task was built from. -/
@[simp] theorem Task.copyState_spec (g fromTask : Task V Q) :
    (g.copyState env fromTask).spec = g.spec := by
  rw [Task.copyState]
  split
  · rfl
  · rw [Task.spec, Task.spec, copyRules_spec]

/-- The task that is prepared for a definition, when one can be. -/
theorem prepareTask_eq_ok {orgID : String} {p : PostableRule V Q} {taskName : TaskName}
    {t : Task V Q} (h : prepareTask env orgID p taskName = .ok t) :
    ∃ frequency type, p.getFrequency = some frequency ∧ p.ruleType.taskType env = some type ∧
      p.getRuleThreshold.isSome = true ∧
      t = newTask type taskName frequency
        [⟨taskName.ruleIDFromTaskName, orgID, p, [], false⟩] := by
  rw [prepareTask] at h
  cases hfrequency : p.getFrequency with
  | none => rw [hfrequency] at h; cases h
  | some frequency =>
    cases htype : p.ruleType.taskType env with
    | none => rw [hfrequency] at h; simp only [htype] at h; cases h
    | some type =>
      rw [hfrequency] at h
      simp only [htype, newRule] at h
      split at h
      · cases h
      · rename_i hthreshold
        split at h
        · cases h
        · refine ⟨frequency, type, rfl, rfl, ?_, (Except.ok.inj h).symm⟩
          exact Option.isSome_iff_ne_none.2 fun hnone => hthreshold (by rw [hnone]; rfl)

end Tasks

end Signoz.Rules
