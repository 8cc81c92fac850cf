import Signoz.Alertmanager.Service
import Signoz.Rules.ManagerCalls

/-!
# What a change of a rule does

`Memory.deploy` on the map of tasks, and for each of the four calls on rules what a call that
succeeds has done. For `EditRule` and `PatchRule`, which can fail with the new definition already
deployed, `EditDeploys` and `PatchDeploys` say that a call gets that far.
-/

namespace Signoz.Rules

open Signoz.Querier Signoz.Alertmanager Lib.FailingCalls

/-! ## Deploying -/

section Deploy

variable {V Q : Type} {env : TaskEnv Q} {orgID : String} {rule : PostableRule V Q}
variable {taskName : TaskName} {m : Memory V Q}

/-- The task under the name of a definition that is deployed, after the task that was there. -/
def deployedTask (env : TaskEnv Q) (orgID : String) (rule : PostableRule V Q)
    (taskName : TaskName) (old : Option (Task V Q)) : Option (Task V Q) :=
  if rule.disabled then none
  else
    match prepareTask env orgID rule taskName with
    | .error _ => none
    | .ok newTask =>
      match old with
      | none => some newTask
      | some oldTask => some (newTask.copyState env oldTask)

@[simp] theorem Memory.install_tasks (m : Memory V Q) (taskName : TaskName) (t : Task V Q) :
    (m.install taskName t).tasks = fun n => if n = taskName then some t else m.tasks n := by
  rw [Memory.install, Memory.setTask, Memory.setRules_tasks]

@[simp] theorem Memory.deleteTask_tasks (m : Memory V Q) (taskName : TaskName) :
    (m.deleteTask taskName).tasks = fun n => if n = taskName then none else m.tasks n := by
  rw [Memory.deleteTask]
  cases htask : m.tasks taskName with
  | some task => rfl
  | none =>
    funext n
    by_cases hn : n = taskName
    · rw [if_pos hn, hn]
      exact htask
    · exact (if_neg hn).symm

/-- A definition that is not disabled is deployable when a task can be prepared for it. -/
theorem prepareTask_of_deployable (h : deployable env orgID rule taskName = true)
    (henabled : rule.disabled = false) : ∃ t, prepareTask env orgID rule taskName = .ok t := by
  rw [deployable, henabled, Bool.false_or] at h
  cases hprepare : prepareTask env orgID rule taskName with
  | error e =>
    rw [hprepare] at h
    cases h
  | ok t => exact ⟨t, rfl⟩

/-- Deploying changes the task of the name, and no other. -/
theorem deploy_tasks (h : deployable env orgID rule taskName = true) :
    (m.deploy env orgID rule taskName).tasks = fun n =>
      if n = taskName then deployedTask env orgID rule taskName (m.tasks taskName)
      else m.tasks n := by
  rw [Memory.deploy, deployedTask]
  cases hdisabled : rule.disabled with
  | true =>
    simp only [if_true]
    exact Memory.deleteTask_tasks m taskName
  | false =>
    obtain ⟨t, hprepare⟩ := prepareTask_of_deployable h hdisabled
    rw [hprepare]
    simp only [Bool.false_eq_true, if_false]
    cases m.tasks taskName with
    | none => exact Memory.install_tasks m taskName t
    | some old => exact Memory.install_tasks m taskName (t.copyState env old)

end Deploy

/-! ## The calls -/

section Changes

variable {V Q G B H : Type} {env : ManagerEnv V Q G B H} {plan : CallPlan}
variable {orgID ruleStr id : String} {w w' : World V Q G B}

@[simp] theorem afterRoutingWorld_rules {committed : Database G B} {rule : PostableRule V Q}
    {routes : List RoutePolicy} :
    (afterRoutingWorld env plan committed orgID id rule routes w).db.rules = w.db.rules := by
  rw [afterRoutingWorld]
  split
  · split <;> rfl
  · rfl

@[simp] theorem afterRoutingWorld_running {committed : Database G B} {rule : PostableRule V Q}
    {routes : List RoutePolicy} :
    (afterRoutingWorld env plan committed orgID id rule routes w).running = w.running := by
  have hsettings : ((w.memory.withSettings orgID id rule).tasks,
      (w.memory.withSettings orgID id rule).rules) = (w.memory.tasks, w.memory.rules) := by
    rw [Memory.withSettings_tasks, Memory.withSettings_rules]
  rw [afterRoutingWorld]
  split
  · split
    · rfl
    · exact hsettings
  · exact hsettings

theorem usedAs_afterRouting (rule : PostableRule V Q) :
    UsedAs env.sort rule (rule.afterRouting env) := by
  rw [PostableRule.afterRouting]
  split
  · exact (UsedAs.refl rule).sortThresholds.sortThresholds
  · exact UsedAs.refl rule

/-- The row in the table once a definition is written. -/
def World.withRules (w : World V Q G B) (rules : List StoredRule) : World V Q G B :=
  { w with db := w.db.setRules rules }

/-- The definition is deployed. -/
def World.deploy (env : ManagerEnv V Q G B H) (orgID id : String) (rule : PostableRule V Q)
    (w : World V Q G B) : World V Q G B :=
  { w with memory := w.memory.deploy env.task orgID rule (prepareTaskName id) }

section Written

variable [Float64 V]

/-- What a `CreateRule` that succeeds has read, checked and done. -/
structure RuleCreated (env : ManagerEnv V Q G B H) (plan : CallPlan) (orgID ruleStr id : String)
    (w w' : World V Q G B) (rule : PostableRule V Q) (task : Task V Q) : Prop where
  read : parseRule env.codec ruleStr = some rule
  valid : rule.validate env.codec = true
  fresh : ∀ r ∈ w.db.rules, r.id ≠ id
  routing : createRoutingAccepted env plan w.db orgID id (rule.sortThresholds env.sort) = true
  db : w'.db = (afterRoutingWorld env plan w.db orgID id (rule.sortThresholds env.sort)
    w.db.routes (w.withRules (w.db.rules ++ [⟨id, orgID, ruleStr⟩]))).db
  prepared : prepareTask env.task orgID ((rule.sortThresholds env.sort).afterRouting env)
    (prepareTaskName id) = .ok task
  tasks : w'.memory.tasks =
    fun n => if n = prepareTaskName id then some task else w.memory.tasks n

variable {u : Unit}

theorem createRule_ok (h : createRule env plan orgID ruleStr id w = .ok u w') :
    ∃ rule task, RuleCreated env plan orgID ruleStr id w w' rule task := by
  obtain ⟨-, h⟩ := externalCall_bind_eq_ok.1 h
  obtain ⟨checked, m, hcheck, h⟩ := bind_eq_ok.1 h
  obtain ⟨rule, hread, hvalid, -, rfl, rfl⟩ := checkRule_eq_ok.1 hcheck
  obtain ⟨-, -, h⟩ := runInTxCtx_eq_ok.1 h
  obtain ⟨-, h⟩ := externalCall_bind_eq_ok.1 h
  rw [get_bind_eq_ok, ensure_bind_eq_ok] at h
  obtain ⟨hfresh, h⟩ := h
  rw [modifyDatabase_bind_eq_ok] at h
  obtain ⟨used, m, hrouting, h⟩ := bind_eq_ok.1 h
  obtain ⟨haccepted, rfl, rfl⟩ := createRouting_eq_ok.1 hrouting
  obtain ⟨task, hprepared, -, rfl⟩ := addTask_eq_ok.1 h
  refine ⟨rule, task, hread, hvalid, ?_, haccepted, rfl, hprepared, ?_⟩
  · intro r hr
    exact of_decide_eq_true (List.all_eq_true.1 hfresh r hr)
  · rw [Memory.install_tasks]
    have hrunning : (afterRoutingWorld env plan w.db orgID id (rule.sortThresholds env.sort)
        w.db.routes (w.withRules (w.db.rules ++ [⟨id, orgID, ruleStr⟩]))).memory.tasks =
          w.memory.tasks := congrArg Prod.fst afterRoutingWorld_running
    funext n
    split
    · rfl
    · exact congrFun hrunning n

theorem RuleCreated.rules {rule : PostableRule V Q} {task : Task V Q}
    (h : RuleCreated env plan orgID ruleStr id w w' rule task) :
    w'.db.rules = w.db.rules ++ [⟨id, orgID, ruleStr⟩] := by
  rw [h.db, afterRoutingWorld_rules]
  rfl

/-- What the transaction of `EditRule` has written before the definition is deployed. -/
def editedWorld (env : ManagerEnv V Q G B H) (plan : CallPlan) (orgID ruleStr id : String)
    (row : StoredRule) (rule : PostableRule V Q) (w : World V Q G B) : World V Q G B :=
  afterRoutingWorld env plan w.db orgID id (rule.sortThresholds env.sort)
    (routesWithout orgID id w.db.routes)
    (w.withRules (updateRule { row with data := ruleStr } w.db.rules))

/-- `EditRule` gets as far as to deploy the definition: `rule` is read, and deployed as `used`. -/
structure EditDeploys (env : ManagerEnv V Q G B H) (plan : CallPlan) (orgID ruleStr id : String)
    (w : World V Q G B) (row : StoredRule) (rule used : PostableRule V Q) : Prop where
  claims : plan.fails .claims = false
  read : parseRule env.codec ruleStr = some rule
  valid : rule.validate env.codec = true
  channels : channelsAccepted env plan w.db orgID rule = true
  getsRow : plan.fails .getStoredRule = false
  stored : w.db.rules.find? (fun r => r.id = id) = some row
  begins : plan.fails .beginTx = false
  writes : plan.fails .writeRule = false
  routing : editRoutingAccepted env plan w.db orgID id (rule.sortThresholds env.sort) = true
  used_eq : (rule.sortThresholds env.sort).afterRouting env = used
  deploys : deployable env.task orgID used (prepareTaskName id) = true

variable {rules : List StoredRule}

/-- The rows of other ids are the same after an update. -/
theorem mem_updateRule_of_ne {row r : StoredRule} (h : r.id ≠ row.id) :
    r ∈ updateRule row rules ↔ r ∈ rules := by
  rw [updateRule, List.mem_map]
  constructor
  · rintro ⟨s, hs, hsr⟩
    split at hsr
    · exact absurd (congrArg StoredRule.id hsr.symm) h
    · exact hsr ▸ hs
  · intro hr
    exact ⟨r, hr, if_neg h⟩

/-- The row of the id is the one that was written. -/
theorem eq_of_mem_updateRule {row r : StoredRule} (hr : r ∈ updateRule row rules)
    (h : r.id = row.id) : r = row := by
  obtain ⟨s, -, hsr⟩ := List.mem_map.1 hr
  split at hsr
  · exact hsr.symm
  · rename_i hne
    exact absurd ((congrArg StoredRule.id hsr).trans h) hne

variable {row : StoredRule}

theorem storedRule_id (h : rules.find? (fun r => r.id = id) = some row) : row.id = id :=
  of_decide_eq_true (List.find?_some (p := fun r : StoredRule => decide (r.id = id)) h)

/-- A call that gets as far as to deploy the definition can only fail to commit. -/
theorem editRule_of_deploys {rule used : PostableRule V Q}
    (h : EditDeploys env plan orgID ruleStr id w row rule used) :
    editRule env plan orgID ruleStr id w =
      if plan.fails .commit then
        .error (.external .commit)
          { (editedWorld env plan orgID ruleStr id row rule w).deploy env orgID id used with
            db := w.db }
      else .ok () ((editedWorld env plan orgID ruleStr id row rule w).deploy env orgID id used) := by
  have htaskName : prepareTaskName row.id = prepareTaskName id := by rw [storedRule_id h.stored]
  have hcheck : checkRule env plan orgID (parseRule env.codec ruleStr) w =
      .ok (rule.sortThresholds env.sort) w :=
    checkRule_eq_ok.2 ⟨rule, h.read, h.valid, h.channels, rfl, rfl⟩
  have hrow : getStoredRule plan id w = .ok row w :=
    getStoredRule_eq_ok.2 ⟨h.getsRow, h.stored, rfl⟩
  have hcall : ∀ {call : ExternalCall}, plan.fails call = false →
      (externalCall plan call : ManagerM V Q G B Unit) w = .ok () w :=
    fun hfails => externalCall_eq_ok.2 ⟨hfails, rfl⟩
  rw [editRule, bind_of_ok (hcall h.claims), bind_of_ok hcheck, bind_of_ok hrow, storeEditRule,
    runInTxCtx, h.begins, if_neg Bool.false_ne_true, bind_of_ok (hcall h.writes)]
  have hcallback : ((modifyDatabase fun db : Database G B =>
      db.setRules (updateRule { row with data := ruleStr } db.rules)) >>= fun _ =>
        editRouting env plan w.db orgID id (rule.sortThresholds env.sort) >>= fun rule =>
          syncRuleStateWithTask env orgID (prepareTaskName row.id) rule) w =
        .ok () ((editedWorld env plan orgID ruleStr id row rule w).deploy env orgID id used) := by
    refine modifyDatabase_bind_eq_ok.2 (bind_eq_ok.2 ⟨used, _,
      editRouting_eq_ok.2 ⟨h.routing, h.used_eq, rfl⟩, ?_⟩)
    rw [htaskName]
    exact syncRuleStateWithTask_eq_ok.2 ⟨h.deploys, rfl⟩
  rw [hcallback]

theorem editRule_ok (h : editRule env plan orgID ruleStr id w = .ok u w') :
    ∃ row rule used, EditDeploys env plan orgID ruleStr id w row rule used ∧
      w' = (editedWorld env plan orgID ruleStr id row rule w).deploy env orgID id used := by
  obtain ⟨hclaims, h⟩ := externalCall_bind_eq_ok.1 h
  obtain ⟨checked, k, hcheck, h⟩ := bind_eq_ok.1 h
  obtain ⟨rule, hread, hvalid, hchannels, rfl, rfl⟩ := checkRule_eq_ok.1 hcheck
  obtain ⟨row, k, hrow, h⟩ := bind_eq_ok.1 h
  obtain ⟨hgets, hstored, rfl⟩ := getStoredRule_eq_ok.1 hrow
  obtain ⟨hbegins, -, h⟩ := runInTxCtx_eq_ok.1 h
  obtain ⟨hwrites, h⟩ := externalCall_bind_eq_ok.1 h
  rw [modifyDatabase_bind_eq_ok] at h
  obtain ⟨used, k, hrouting, h⟩ := bind_eq_ok.1 h
  obtain ⟨haccepted, hused, rfl⟩ := editRouting_eq_ok.1 hrouting
  have htaskName : prepareTaskName row.id = prepareTaskName id := by rw [storedRule_id hstored]
  rw [htaskName] at h
  obtain ⟨hdeploys, rfl⟩ := syncRuleStateWithTask_eq_ok.1 h
  exact ⟨row, rule, used, ⟨hclaims, hread, hvalid, hchannels, hgets, hstored, hbegins, hwrites,
    haccepted, hused, hdeploys⟩, rfl⟩

/-- An `EditRule` that fails has left the tasks alone, or it had deployed the definition. -/
theorem editRule_error {e : Failure} (h : editRule env plan orgID ruleStr id w = .error e w') :
    w'.running = w.running ∨
      ∃ row rule used, EditDeploys env plan orgID ruleStr id w row rule used := by
  rcases bind_eq_error.1 h with hfail | ⟨_, k, hcall, h⟩
  · exact Or.inl ((keeps_externalCall plan _).of_error hfail)
  obtain ⟨hclaims, rfl⟩ := externalCall_eq_ok.1 hcall
  rcases bind_eq_error.1 h with hfail | ⟨checked, k, hcheck, h⟩
  · exact Or.inl ((keeps_checkRule env plan orgID _).of_error hfail)
  obtain ⟨rule, hread, hvalid, hchannels, rfl, rfl⟩ := checkRule_eq_ok.1 hcheck
  rcases bind_eq_error.1 h with hfail | ⟨row, k, hrow, h⟩
  · exact Or.inl ((keeps_getStoredRule plan id).of_error hfail)
  obtain ⟨hgets, hstored, rfl⟩ := getStoredRule_eq_ok.1 hrow
  have hsame : ∀ {s : World V Q G B}, w'.memory = s.memory → s.running = w.running →
      w'.running = w.running := by
    intro s hmemory hrunning
    rw [← hrunning, World.running, World.running, hmemory]
  obtain ⟨-, rfl | ⟨s, hcallback, hmemory⟩ | ⟨hbegins, -, s, hcallback, hmemory⟩⟩ :=
    runInTxCtx_eq_error h
  · exact Or.inl rfl
  · -- The callback fails: what it calls before it deploys leaves the tasks alone.
    apply Or.inl
    apply hsame hmemory
    rcases bind_eq_error.1 hcallback with hfail | ⟨_, k, hwrite, hcallback⟩
    · exact (keeps_externalCall plan _).of_error hfail
    obtain ⟨-, rfl⟩ := externalCall_eq_ok.1 hwrite
    rcases bind_eq_error.1 hcallback with hfail | ⟨_, k, hmodify, hcallback⟩
    · exact (keeps_modifyDatabase _).of_error hfail
    have hk := (keeps_modifyDatabase _).of_ok hmodify
    rcases bind_eq_error.1 hcallback with hfail | ⟨used, l, hrouting, hcallback⟩
    · exact ((keeps_editRouting env plan _ orgID id _).of_error hfail).trans hk
    have hl := (keeps_editRouting env plan _ orgID id _).of_ok hrouting
    rw [syncRuleStateWithTask_eq_error hcallback]
    exact hl.trans hk
  · -- The commit fails: the callback has done all it does.
    apply Or.inr
    obtain ⟨hwrites, hcallback⟩ := externalCall_bind_eq_ok.1 hcallback
    rw [modifyDatabase_bind_eq_ok] at hcallback
    obtain ⟨used, k, hrouting, hcallback⟩ := bind_eq_ok.1 hcallback
    obtain ⟨haccepted, hused, rfl⟩ := editRouting_eq_ok.1 hrouting
    have htaskName : prepareTaskName row.id = prepareTaskName id := by
      rw [storedRule_id hstored]
    rw [htaskName] at hcallback
    obtain ⟨hdeploys, -⟩ := syncRuleStateWithTask_eq_ok.1 hcallback
    exact ⟨row, rule, used, ⟨hclaims, hread, hvalid, hchannels, hgets, hstored, hbegins, hwrites,
      haccepted, hused, hdeploys⟩⟩

/-- `PatchRule` gets as far as to deploy the definition: `old` is stored, `rule` is what the patch
makes of it, and it is deployed as `used`. -/
structure PatchDeploys (env : ManagerEnv V Q G B H) (plan : CallPlan) (orgID ruleStr id : String)
    (w : World V Q G B) (row : StoredRule) (old rule used : PostableRule V Q) : Prop where
  claims : plan.fails .claims = false
  getsRow : plan.fails .getStoredRule = false
  stored : w.db.rules.find? (fun r => r.id = id) = some row
  parses : parseRule env.codec row.data = some old
  read : old.unmarshalJSON env.codec ruleStr = some rule
  valid : rule.validate env.codec = true
  channels : channelsAccepted env plan w.db orgID rule = true
  used_eq : rule.sortThresholds env.sort = used
  deploys : deployable env.task orgID used (prepareTaskName id) = true

/-- The rows once a patched definition is written. -/
def patchedRules (env : ManagerEnv V Q G B H) (row : StoredRule) (used : PostableRule V Q)
    (w : World V Q G B) : List StoredRule :=
  updateRule { row with data := used.marshalJSON env.codec } w.db.rules

/-- A call that gets as far as to deploy the definition ends as writing it does. -/
theorem patchRule_of_deploys {old rule used : PostableRule V Q}
    (h : PatchDeploys env plan orgID ruleStr id w row old rule used) :
    patchRule env plan orgID ruleStr id w =
      storePatched env plan orgID row used (w.deploy env orgID id used) := by
  have hcheck : checkRule env plan orgID (old.unmarshalJSON env.codec ruleStr) w =
      .ok (rule.sortThresholds env.sort) w :=
    checkRule_eq_ok.2 ⟨rule, h.read, h.valid, h.channels, rfl, rfl⟩
  have hrow : getStoredRule plan id w = .ok row w :=
    getStoredRule_eq_ok.2 ⟨h.getsRow, h.stored, rfl⟩
  have hclaims : (externalCall plan .claims : ManagerM V Q G B Unit) w = .ok () w :=
    externalCall_eq_ok.2 ⟨h.claims, rfl⟩
  have hparse : (fromOption (parseRule env.codec row.data) .definition :
      ManagerM V Q G B (PostableRule V Q)) w = .ok old w :=
    fromOption_eq_ok.2 ⟨h.parses, rfl⟩
  have hsync : syncRuleStateWithTask env orgID (prepareTaskName id)
      (rule.sortThresholds env.sort) w = .ok () (w.deploy env orgID id used) := by
    rw [h.used_eq]
    exact syncRuleStateWithTask_eq_ok.2 ⟨h.deploys, rfl⟩
  rw [patchRule, bind_of_ok hclaims, bind_of_ok hrow, bind_of_ok hparse, bind_of_ok hcheck,
    bind_of_ok hsync, h.used_eq]

omit [Float64 V] in
/-- The write of a patched definition that succeeds. -/
theorem storePatched_ok {used : PostableRule V Q}
    (h : storePatched env plan orgID row used w = .ok u w') :
    w' = w.withRules (patchedRules env row used w) := by
  rw [storePatched] at h
  cases hstore : storeEditRule plan { row with data := used.marshalJSON env.codec }
      (fun _ => pure ()) w with
  | error e s =>
    rw [hstore] at h
    cases h
  | ok a s =>
    rw [hstore] at h
    cases h
    obtain ⟨-, -, hstore⟩ := runInTxCtx_eq_ok.1 hstore
    obtain ⟨-, hstore⟩ := externalCall_bind_eq_ok.1 hstore
    rw [modifyDatabase_bind_eq_ok] at hstore
    exact (pure_eq_ok.1 hstore).2.symm

theorem patchRule_ok (h : patchRule env plan orgID ruleStr id w = .ok u w') :
    ∃ row old rule used, PatchDeploys env plan orgID ruleStr id w row old rule used ∧
      w' = (w.withRules (patchedRules env row used w)).deploy env orgID id used := by
  obtain ⟨hclaims, h⟩ := externalCall_bind_eq_ok.1 h
  obtain ⟨row, k, hrow, h⟩ := bind_eq_ok.1 h
  obtain ⟨hgets, hstored, rfl⟩ := getStoredRule_eq_ok.1 hrow
  obtain ⟨old, hparses, h⟩ := fromOption_bind_eq_ok.1 h
  obtain ⟨checked, k, hcheck, h⟩ := bind_eq_ok.1 h
  obtain ⟨rule, hread, hvalid, hchannels, rfl, rfl⟩ := checkRule_eq_ok.1 hcheck
  obtain ⟨_, k, hsync, h⟩ := bind_eq_ok.1 h
  obtain ⟨hdeploys, rfl⟩ := syncRuleStateWithTask_eq_ok.1 hsync
  exact ⟨row, old, rule, _,
    ⟨hclaims, hgets, hstored, hparses, hread, hvalid, hchannels, rfl, hdeploys⟩,
    storePatched_ok h⟩

/-- A `PatchRule` that fails has left the tasks alone, or it had deployed the definition. -/
theorem patchRule_error {e : Failure} (h : patchRule env plan orgID ruleStr id w = .error e w') :
    w'.running = w.running ∨
      ∃ row old rule used, PatchDeploys env plan orgID ruleStr id w row old rule used := by
  rcases bind_eq_error.1 h with hfail | ⟨_, k, hcall, h⟩
  · exact Or.inl ((keeps_externalCall plan _).of_error hfail)
  obtain ⟨hclaims, rfl⟩ := externalCall_eq_ok.1 hcall
  rcases bind_eq_error.1 h with hfail | ⟨row, k, hrow, h⟩
  · exact Or.inl ((keeps_getStoredRule plan id).of_error hfail)
  obtain ⟨hgets, hstored, rfl⟩ := getStoredRule_eq_ok.1 hrow
  rcases bind_eq_error.1 h with hfail | ⟨old, k, hparse, h⟩
  · exact Or.inl ((keeps_fromOption _ _).of_error hfail)
  obtain ⟨hparses, rfl⟩ := fromOption_eq_ok.1 hparse
  rcases bind_eq_error.1 h with hfail | ⟨checked, k, hcheck, h⟩
  · exact Or.inl ((keeps_checkRule env plan orgID _).of_error hfail)
  obtain ⟨rule, hread, hvalid, hchannels, rfl, rfl⟩ := checkRule_eq_ok.1 hcheck
  rcases bind_eq_error.1 h with hfail | ⟨_, k, hsync, -⟩
  · rw [syncRuleStateWithTask_eq_error hfail]
    exact Or.inl rfl
  obtain ⟨hdeploys, -⟩ := syncRuleStateWithTask_eq_ok.1 hsync
  exact Or.inr ⟨row, old, rule, _,
    ⟨hclaims, hgets, hstored, hparses, hread, hvalid, hchannels, rfl, hdeploys⟩⟩

/-! ## Changes of a stored rule -/

/-- A call that changes a stored rule. -/
inductive RuleChange where
  | edit (ruleStr : String)
  | patch (ruleStr : String)

/-- The call. -/
def RuleChange.run (env : ManagerEnv V Q G B H) (plan : CallPlan) (orgID id : String) :
    RuleChange → ManagerM V Q G B Unit
  | edit ruleStr => editRule env plan orgID ruleStr id
  | patch ruleStr => patchRule env plan orgID ruleStr id

/-- The definition that the call reads: a new one, or the stored one with the patch over it. -/
def RuleChange.definition (env : ManagerEnv V Q G B H) (id : String) (w : World V Q G B) :
    RuleChange → Option (PostableRule V Q)
  | edit ruleStr => parseRule env.codec ruleStr
  | patch ruleStr =>
    (w.db.rules.find? fun r => r.id = id).bind fun row =>
      (parseRule env.codec row.data).bind fun old => old.unmarshalJSON env.codec ruleStr

/-- What a change that succeeds has done: `used` is deployed, and what is read back from the text
that is stored is `used`, up to uses. -/
structure RuleChanged (env : ManagerEnv V Q G B H) (orgID id : String) (w w' : World V Q G B)
    (row : StoredRule) (text : String) (rule used : PostableRule V Q) : Prop where
  stored : w.db.rules.find? (fun r => r.id = id) = some row
  rules : w'.db.rules = updateRule { row with data := text } w.db.rules
  usedAs : UsedAs env.sort rule used
  readBack : ∀ d, parseRule env.codec text = some d → UsedAs env.sort d used
  prepared : used.disabled = false →
    ∃ t, prepareTask env.task orgID used (prepareTaskName id) = .ok t
  tasks : w'.memory.tasks = fun n =>
    if n = prepareTaskName id then
      deployedTask env.task orgID used (prepareTaskName id) (w.memory.tasks (prepareTaskName id))
    else w.memory.tasks n

theorem ruleChange_ok {change : RuleChange} (h : change.run env plan orgID id w = .ok u w') :
    ∃ row text rule used, change.definition env id w = some rule ∧
      RuleChanged env orgID id w w' row text rule used := by
  cases change with
  | edit ruleStr =>
    obtain ⟨row, rule, used, hdeploys, rfl⟩ := editRule_ok h
    have hused : UsedAs env.sort rule used := by
      rw [← hdeploys.used_eq]
      exact (UsedAs.refl rule).sortThresholds.trans (usedAs_afterRouting _)
    refine ⟨row, ruleStr, rule, used, hdeploys.read,
      ⟨hdeploys.stored, afterRoutingWorld_rules, hused, ?_,
        prepareTask_of_deployable hdeploys.deploys, ?_⟩⟩
    · intro d hd
      obtain rfl := Option.some.inj (hdeploys.read.symm.trans hd)
      exact hused
    · have hbefore : (editedWorld env plan orgID ruleStr id row rule w).memory.tasks =
          w.memory.tasks := congrArg Prod.fst afterRoutingWorld_running
      rw [← hbefore]
      exact deploy_tasks hdeploys.deploys
  | patch ruleStr =>
    obtain ⟨row, old, rule, used, hdeploys, rfl⟩ := patchRule_ok h
    have hused : UsedAs env.sort rule used := by
      rw [← hdeploys.used_eq]
      exact (UsedAs.refl rule).sortThresholds
    refine ⟨row, used.marshalJSON env.codec, rule, used, ?_,
      ⟨hdeploys.stored, rfl, hused, ?_, prepareTask_of_deployable hdeploys.deploys,
        deploy_tasks hdeploys.deploys⟩⟩
    · rw [RuleChange.definition, hdeploys.stored, Option.bind_some, hdeploys.parses,
        Option.bind_some, hdeploys.read]
    · intro d hd
      obtain rfl := parseRule_marshalJSON env.codec env.sort_perm hdeploys.read hdeploys.valid
        hused hd
      exact UsedAs.refl d

end Written

/-- What a `DeleteRule` that succeeds has done: the configuration loses the inhibit rules that
`DeleteRuleIDInhibitor` finds, and what the call wrote to it before is written over. -/
structure RuleDeleted (env : ManagerEnv V Q G B H) (orgID id : String) (w w' : World V Q G B) :
    Prop where
  rules : w'.db.rules = w.db.rules.filter fun r => r.id ≠ id
  routes : w'.db.routes = routesWithout orgID id w.db.routes
  config : ∃ c, w.db.configs orgID = some c ∧
    w'.db.configs orgID = some (c.deleteRuleIDInhibitor env.regexpMatches id)
  tasks : w'.memory.tasks =
    fun n => if n = prepareTaskName id then none else w.memory.tasks n

theorem deleteRule_ok {u : Unit} (h : deleteRule env plan orgID id w = .ok u w') :
    RuleDeleted env orgID id w w' := by
  obtain ⟨-, h⟩ := externalCall_bind_eq_ok.1 h
  obtain ⟨row, k, hrow, h⟩ := bind_eq_ok.1 h
  obtain ⟨-, -, rfl⟩ := getStoredRule_eq_ok.1 hrow
  obtain ⟨-, -, h⟩ := runInTxCtx_eq_ok.1 h
  obtain ⟨-, h⟩ := externalCall_bind_eq_ok.1 h
  rw [modifyDatabase_bind_eq_ok] at h
  obtain ⟨c, k, hget, h⟩ := bind_eq_ok.1 h
  obtain ⟨-, -, rfl⟩ := getConfig_eq_ok.1 hget
  obtain ⟨matched, -, h⟩ := fromOption_bind_eq_ok.1 h
  obtain ⟨_, k, hset, h⟩ := bind_eq_ok.1 h
  obtain ⟨-, rfl⟩ := setConfig_eq_ok.1 hset
  obtain ⟨_, k, hnotify, h⟩ := bind_eq_ok.1 h
  obtain ⟨hdb, hrunning⟩ := deleteNotificationConfig_ok hnotify
  obtain ⟨_, l, hroutes, h⟩ := bind_eq_ok.1 h
  obtain ⟨-, -, -, rfl⟩ := deleteAllRoutePoliciesByName_eq_ok.1 hroutes
  obtain ⟨_, l, hinhibit, h⟩ := bind_eq_ok.1 h
  obtain ⟨-, c', hc', rfl⟩ := deleteAllInhibitRulesByRuleId_eq_ok.1 hinhibit
  rw [← modifyMemory_eq_ok.1 h]
  have htasks : k.memory.tasks = w.memory.tasks := congrArg Prod.fst hrunning
  refine ⟨?_, ?_, ⟨c', hc', if_pos rfl⟩, ?_⟩
  · exact congrArg Database.rules hdb
  · exact congrArg (fun db => routesWithout orgID id db.routes) hdb
  · rw [Memory.deleteTask_tasks]
    funext n
    exact congrArg (fun tasks : TaskName → Option (Task V Q) =>
      if n = prepareTaskName id then none else tasks n) htasks

end Changes

/-! ## What a task was built from -/

section Built

variable {V Q G B H : Type} {env : ManagerEnv V Q G B H} {t : Task V Q} {id : String}
variable {d e : PostableRule V Q}

/-- The task is one that was prepared for a definition, whatever its rules have been through. -/
def BuiltFrom (env : ManagerEnv V Q G B H) (t : Task V Q) (id : String) (d : PostableRule V Q) :
    Prop :=
  ∃ orgID used prepared, UsedAs env.sort d used ∧
    prepareTask env.task orgID used (prepareTaskName id) = .ok prepared ∧ t.spec = prepared.spec

theorem UsedAs.ruleType (h : UsedAs env.sort d e) : e.ruleType = d.ruleType :=
  h.eq_of_sortThresholds fun _ => rfl

theorem UsedAs.nameAndLabels (h : UsedAs env.sort d e) :
    e.nameAndLabels env.task = d.nameAndLabels env.task :=
  h.eq_of_sortThresholds fun _ => rfl

/-- A task that was built from a definition has one rule, with that definition. -/
theorem BuiltFrom.rules (h : BuiltFrom env t id d) :
    ∃ rule, t.rules = [rule] ∧ UsedAs env.sort d rule.definition ∧
      d.ruleType.taskType env.task = some t.type := by
  obtain ⟨orgID, used, prepared, hused, hprepared, hspec⟩ := h
  obtain ⟨frequency, type, -, htype, -, rfl⟩ := prepareTask_eq_ok env.task hprepared
  have hrules : t.rules.map RuleObject.spec =
      [RuleObject.spec ⟨id, orgID, used, [], false⟩] := congrArg Task.rules hspec
  obtain ⟨rule, hrule, hsame⟩ := List.map_eq_singleton_iff.1 hrules
  have hdefinition : rule.definition = used := congrArg RuleObject.definition hsame
  have htasktype : t.type = type := congrArg Task.type hspec
  refine ⟨rule, hrule, hdefinition ▸ hused, ?_⟩
  rw [htasktype, ← hused.ruleType]
  exact htype

end Built

/-! ## Calls one after another -/

section Runs

variable {V Q G B H : Type} [Float64 V]

/-- A call on the rules. The id of a new rule is the one that is generated for it. -/
inductive RuleCall where
  | create (ruleStr id : String)
  | change (change : RuleChange) (id : String)
  | delete (id : String)

/-- The call. -/
def RuleCall.run (env : ManagerEnv V Q G B H) (plan : CallPlan) (orgID : String) :
    RuleCall → ManagerM V Q G B Unit
  | create ruleStr id => createRule env plan orgID ruleStr id
  | change c id => c.run env plan orgID id
  | delete id => deleteRule env plan orgID id

/-- A call of an org, with what it meets. -/
structure PlannedCall where
  orgID : String
  plan : CallPlan
  call : RuleCall

/-- A call that succeeds is a step. -/
def callStep (env : ManagerEnv V Q G B H) (w : World V Q G B) (c : PlannedCall) :
    Option (World V Q G B) :=
  match c.call.run env c.plan c.orgID w with
  | .ok _ w' => some w'
  | .error _ _ => none

theorem callStep_eq_some {env : ManagerEnv V Q G B H} {w w' : World V Q G B} {c : PlannedCall} :
    callStep env w c = some w' ↔ c.call.run env c.plan c.orgID w = .ok () w' := by
  rw [callStep]
  cases c.call.run env c.plan c.orgID w with
  | ok u s =>
    constructor
    · rintro ⟨⟩
      rfl
    · rintro ⟨⟩
      rfl
  | error e s => exact ⟨fun h => (nomatch h), fun h => (nomatch h)⟩

end Runs

/-! ## A plain manager -/

/-- The order of `sort.Slice` on a short list. -/
def sortShort (l : List (BasicRuleThreshold ℚ)) : List (BasicRuleThreshold ℚ) :=
  l.insertionSort fun a b => sortsBefore b a = false

/-- A codec that knows some texts, each a complete definition. -/
def tableCodec (table : List (String × PostableRule ℚ Unit)) (h : table.lookup "" = none) :
    RuleCodec ℚ Unit where
  zero := ()
  decode _ text := table.lookup text
  encode _ := ""
  decode_encode r r' hr := by
    rw [h] at hr
    cases hr
  checksOnRead _ := true
  checksOnWrite _ := true

/-- The manager of the community edition over such a codec. -/
def plainManagerEnv (codec : RuleCodec ℚ Unit) :
    ManagerEnv ℚ Unit Unit String (Config Unit String) where
  codec := codec
  sort := sortShort
  sort_perm l := List.perm_insertionSort _ l
  task := ⟨false, fun s => "\"" ++ s ++ "\"", fun _ => false⟩
  config := plainConfigEnv
  regexpMatches _ _ := false
  compiles _ := true

/-- A threshold that alerts above a target, to the channel `ops`. -/
def aboveThreshold (name : String) (target : ℚ) : BasicRuleThreshold ℚ :=
  ⟨name, some target, "", none, .atleastOnce, .valueIsAbove, ["ops"]⟩

/-- A rule with two thresholds. -/
def cpuRule (alertName : String) (disabled usePolicy : Bool) : PostableRule ℚ Unit where
  alertName := alertName
  ruleType := .threshold
  evalWindow := 0
  frequency := 0
  ruleCondition := some
    { queryType := some .builder
      compareOperator := .other ""
      target := none
      alertOnAbsent := false
      matchType := .other ""
      targetUnit := ""
      thresholds := some [aboveThreshold "critical" 90, aboveThreshold "warning" 80] }
  labels := []
  disabled := disabled
  preferredChannels := []
  evaluation := some (.rolling (minutes 5) (minutes 1))
  schemaVersion := schemaVersionV2Alpha1
  notificationSettings := some ⟨[], ⟨false, 0, []⟩, usePolicy, 0⟩
  rest := ()

/-- The text of a threshold. -/
def thresholdText (name target : String) : String :=
  "\x7b\"name\": \"" ++ name ++ "\", \"target\": " ++ target ++
    ", \"matchType\": \"1\", \"op\": \"1\", \"channels\": [\"ops\"]\x7d"

/-- The text of such a rule; `disabled` and `usePolicy` are `true` or `false`. -/
def cpuText (alertName disabled usePolicy : String) : String :=
  "\x7b\"version\": \"v5\", \"schemaVersion\": \"v2alpha1\", \"alert\": \"" ++ alertName ++
    "\", \"ruleType\": \"threshold_rule\", \"disabled\": " ++ disabled ++
    ", \"condition\": \x7b\"compositeQuery\": \x7b\"queryType\": \"builder\", \"queries\": [" ++
    "\x7b\"type\": \"builder_query\", \"spec\": \x7b\"name\": \"A\", \"signal\": \"metrics\", " ++
    "\"aggregations\": [\x7b\"metricName\": \"cpu\"\x7d]\x7d\x7d]\x7d, " ++
    "\"thresholds\": \x7b\"kind\": \"basic\", \"spec\": [" ++ thresholdText "critical" "90" ++
    ", " ++ thresholdText "warning" "80" ++ "]\x7d\x7d, \"evaluation\": \x7b\"kind\": \"rolling\", " ++
    "\"spec\": \x7b\"evalWindow\": \"5m\", \"frequency\": \"1m\"\x7d\x7d, " ++
    "\"notificationSettings\": \x7b\"usePolicy\": " ++ usePolicy ++ "\x7d\x7d"

/-- A manager that reads some definitions of one rule. -/
def cpuEnv : ManagerEnv ℚ Unit Unit String (Config Unit String) :=
  plainManagerEnv (tableCodec
    [(cpuText "CPU high" "false" "false", cpuRule "CPU high" false false),
      (cpuText "CPU full" "false" "false", cpuRule "CPU full" false false),
      (cpuText "CPU high" "true" "false", cpuRule "CPU high" true false)] (by decide +kernel))

/-- The task of the rule, with these alerts. -/
def cpuTask (active : ActiveMap ℚ) : Task ℚ Unit :=
  ⟨prepareTaskName "r1", .ch, minutes 1,
    [⟨"r1", "o1", cpuRule "CPU high" false false, active, true⟩]⟩

/-- Another name for the rule. -/
def newName : RuleChange := .edit (cpuText "CPU full" "false" "false")

/-- Nothing is running. -/
def emptyMemory : Memory ℚ Unit := ⟨fun _ => none, fun _ => none, fun _ _ => none⟩

/-- An organisation `o1` with a channel and these rules. -/
def plainDatabase (rules : List StoredRule) : Database Unit String :=
  ⟨rules, [], [("o1", "ops")], fun o => if o = "o1" then some freshConfig else none⟩

/-- The rule is stored and runs, with these alerts. -/
def cpuWorld (active : ActiveMap ℚ) : World ℚ Unit Unit String :=
  ⟨plainDatabase [⟨"r1", "o1", cpuText "CPU high" "false" "false"⟩],
    emptyMemory.install (prepareTaskName "r1") (cpuTask active)⟩

/-- Texts that differ in names of one length, or in a flag, are different. -/
theorem cpuText_inj {alertName alertName' disabled disabled' usePolicy : String}
    (h : cpuText alertName disabled usePolicy = cpuText alertName' disabled' usePolicy)
    (hlength : alertName.toList.length = alertName'.toList.length) :
    alertName = alertName' ∧ disabled = disabled' := by
  unfold cpuText at h
  -- what stands behind the flag is the same in both
  iterate 12 replace h := (String.append_left_inj _).1 h
  generalize "\x7b\"version\": \"v5\", \"schemaVersion\": \"v2alpha1\", \"alert\": \"" = front at h
  generalize "\", \"ruleType\": \"threshold_rule\", \"disabled\": " = between at h
  have hchars := congrArg String.toList h
  simp only [String.toList_append, List.append_assoc] at hchars
  obtain ⟨hname, hrest⟩ := List.append_inj (List.append_cancel_left hchars) hlength
  exact ⟨String.toList_inj.1 hname, String.toList_inj.1 (List.append_cancel_left hrest)⟩

/-- The definitions that are read, without a comparison of the texts letter by letter. -/
theorem parseRule_cpuText :
    parseRule cpuEnv.codec (cpuText "CPU high" "false" "false") =
        some (cpuRule "CPU high" false false) ∧
      parseRule cpuEnv.codec (cpuText "CPU full" "false" "false") =
        some (cpuRule "CPU full" false false) ∧
      parseRule cpuEnv.codec (cpuText "CPU high" "true" "false") =
        some (cpuRule "CPU high" true false) := by
  have hread : ∀ text, parseRule cpuEnv.codec text =
      ((List.lookup text
        [(cpuText "CPU high" "false" "false", cpuRule "CPU high" false false),
          (cpuText "CPU full" "false" "false", cpuRule "CPU full" false false),
          (cpuText "CPU high" "true" "false", cpuRule "CPU high" true false)]).map
        PostableRule.processRuleDefaults).filter fun r => r.validateOnRead cpuEnv.codec :=
    fun _ => rfl
  have hnames : "CPU full" ≠ "CPU high" := by decide
  have hlength : "CPU full".toList.length = "CPU high".toList.length := by decide
  have hflags : "true" ≠ "false" := by decide
  have hfull : (cpuText "CPU full" "false" "false" == cpuText "CPU high" "false" "false") = false :=
    beq_eq_false_iff_ne.2 fun h => hnames (cpuText_inj h hlength).1
  have htrue : (cpuText "CPU high" "true" "false" == cpuText "CPU high" "false" "false") = false :=
    beq_eq_false_iff_ne.2 fun h => hflags (cpuText_inj h (Eq.refl _)).2
  have hboth : (cpuText "CPU high" "true" "false" == cpuText "CPU full" "false" "false") = false :=
    beq_eq_false_iff_ne.2 fun h => hnames.symm (cpuText_inj h hlength.symm).1
  refine ⟨?_, ?_, ?_⟩
  · rw [hread, List.lookup_cons, beq_self_eq_true]
    decide +kernel
  · rw [hread, List.lookup_cons, hfull, List.lookup_cons, beq_self_eq_true]
    decide +kernel
  · rw [hread, List.lookup_cons, htrue, List.lookup_cons, hboth, List.lookup_cons,
      beq_self_eq_true]
    decide +kernel

theorem newName_definition (active : ActiveMap ℚ) :
    newName.definition cpuEnv "r1" (cpuWorld active) = some (cpuRule "CPU full" false false) :=
  parseRule_cpuText.2.1

end Signoz.Rules
