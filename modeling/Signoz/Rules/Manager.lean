import Signoz.Alertmanager.Config
import Signoz.Lib.FailingCalls
import Signoz.Rules.RuleTask

/-!
# The rule manager

`manager.go` with what it calls: the rule store of `sqlrulestore`, the alertmanager provider of
`signozalertmanager` with its stores, and the transactions of `sqlstore`. A call of the manager
changes two things, the database and the memory of the process, and only the database rolls back.

Inside a transaction `BunDBCtx` reads and writes the transaction, and `BunDB` still reads what is
committed. The state of a computation is the database it writes; where a callback runs in a
transaction the committed database is an argument.
-/

namespace Signoz.Rules

open Signoz.Querier Signoz.Alertmanager Lib.FailingCalls

/-! ## Data -/

/-- A row of the table of rules. -/
structure StoredRule where
  id : String
  orgID : String
  data : String
deriving DecidableEq

/-- The tables. A channel is its org and its name; an org has one configuration. -/
structure Database (G B : Type) where
  rules : List StoredRule
  routes : List RoutePolicy
  channels : List (String × String)
  configs : String → Option (Config G B)

/-- The maps of the manager, and the notification settings of each org and rule. -/
structure Memory (V Q : Type) where
  tasks : TaskName → Option (Task V Q)
  rules : String → Option (RuleObject V Q)
  notificationConfigs : String → String → Option NotificationConfig

/-- Database and memory. -/
structure World (V Q G B : Type) where
  db : Database G B
  memory : Memory V Q

/-- What a configuration is read or written for. -/
inductive ConfigUse where
  | deleteRuleIDMatcher
  | deleteInhibitRules
  | createInhibitRules
deriving DecidableEq

/-- The calls that can fail for reasons of their own. -/
inductive ExternalCall where
  | claims
  | listOrgs
  | getStoredRules (orgID : String)
  | getStoredRule
  | listChannels
  | beginTx
  | writeRule
  | deleteRoutes
  | createRoutes
  | getConfig (use : ConfigUse)
  | setConfig (use : ConfigUse)
  | commit
deriving DecidableEq

/-- Why a call returns an error. -/
inductive Failure where
  | external (call : ExternalCall)
  | definition
  | invalidInput (message : String)
  | notFound (message : String)

/-- What is the same for all calls. -/
structure ManagerEnv (V Q G B H : Type) where
  codec : RuleCodec V Q
  /-- What `sortThresholds` does to a list of thresholds. -/
  sort : List (BasicRuleThreshold V) → List (BasicRuleThreshold V)
  sort_perm : ∀ l, (sort l).Perm l
  task : TaskEnv Q
  config : ConfigEnv G B H
  /-- A text matches an anchored regular expression. -/
  regexpMatches : String → String → Bool
  /-- The expression library compiles a text. -/
  compiles : String → Bool

/-- What one call meets: the calls of its own that fail, each of which it makes at most once, and
the order in which it visits the keys of a notification group. -/
structure CallPlan where
  fails : ExternalCall → Bool
  order : List String → List String
  order_perm : ∀ l, (order l).Perm l

/-- A call that nothing fails for. -/
def CallPlan.smooth : CallPlan := ⟨fun _ => false, id, List.Perm.refl⟩

/-- A computation of the manager. -/
abbrev ManagerM (V Q G B : Type) := EStateM Failure (World V Q G B)

section Calls

variable {V Q G B H : Type} [Float64 V] (env : ManagerEnv V Q G B H) (plan : CallPlan)

/-- The call fails when the plan says so. -/
def externalCall (call : ExternalCall) : ManagerM V Q G B Unit :=
  ensure (!plan.fails call) (.external call)

/-! ## The database -/

def Database.setRules (db : Database G B) (rules : List StoredRule) : Database G B :=
  { db with rules := rules }

def Database.setRoutes (db : Database G B) (routes : List RoutePolicy) : Database G B :=
  { db with routes := routes }

def Database.setConfig (db : Database G B) (orgID : String) (config : Config G B) :
    Database G B :=
  { db with configs := fun o => if o = orgID then some config else db.configs o }

def modifyDatabase (f : Database G B → Database G B) : ManagerM V Q G B Unit :=
  modify fun w => { w with db := f w.db }

def modifyMemory (f : Memory V Q → Memory V Q) : ManagerM V Q G B Unit :=
  modify fun w => { w with memory := f w.memory }

/-- `RunInTxCtx`, outside a transaction. -/
def runInTxCtx (cb : Database G B → ManagerM V Q G B Unit) : ManagerM V Q G B Unit := fun w =>
  if plan.fails .beginTx then .error (.external .beginTx) w
  else
    match cb w.db w with
    | .error e s => .error e { s with db := w.db }
    | .ok _ s =>
      if plan.fails .commit then .error (.external .commit) { s with db := w.db } else .ok () s

/-! ## Rule store -/

/-- `GetStoredRule`. -/
def getStoredRule (id : String) : ManagerM V Q G B StoredRule := do
  externalCall plan .getStoredRule
  let w ← get
  fromOption (w.db.rules.find? fun r => r.id = id) (.external .getStoredRule)

/-- `GetStoredRules`. -/
def getStoredRules (orgID : String) : ManagerM V Q G B (List StoredRule) := do
  externalCall plan (.getStoredRules orgID)
  let w ← get
  return w.db.rules.filter fun r => r.orgID = orgID

/-- `CreateRule` of the store; the id is the primary key. -/
def storeCreateRule (storedRule : StoredRule) (cb : Database G B → ManagerM V Q G B Unit) :
    ManagerM V Q G B Unit :=
  runInTxCtx plan fun committed => do
    externalCall plan .writeRule
    let w ← get
    ensure (w.db.rules.all fun r => r.id ≠ storedRule.id) (.external .writeRule)
    modifyDatabase fun db => db.setRules (db.rules ++ [storedRule])
    cb committed

/-- The row takes the place of the one of its id. -/
def updateRule (storedRule : StoredRule) (rules : List StoredRule) : List StoredRule :=
  rules.map fun r => if r.id = storedRule.id then storedRule else r

/-- `EditRule` of the store. -/
def storeEditRule (storedRule : StoredRule) (cb : Database G B → ManagerM V Q G B Unit) :
    ManagerM V Q G B Unit :=
  runInTxCtx plan fun committed => do
    externalCall plan .writeRule
    modifyDatabase fun db => db.setRules (updateRule storedRule db.rules)
    cb committed

/-- `DeleteRule` of the store. -/
def storeDeleteRule (id : String) (cb : Database G B → ManagerM V Q G B Unit) :
    ManagerM V Q G B Unit :=
  runInTxCtx plan fun committed => do
    externalCall plan .writeRule
    modifyDatabase fun db => db.setRules (db.rules.filter fun r => r.id ≠ id)
    cb committed

/-! ## Alertmanager -/

/-- `SetNotificationConfig`. -/
def setNotificationConfig (orgID ruleID : String) (config : NotificationConfig) :
    ManagerM V Q G B Unit := do
  ensure (orgID ≠ "" && ruleID ≠ "") (.invalidInput "no org or rule id provided")
  modifyMemory fun m =>
    { m with
      notificationConfigs := fun o r =>
        if o = orgID ∧ r = ruleID then some config else m.notificationConfigs o r }

/-- `DeleteNotificationConfig`. -/
def deleteNotificationConfig (orgID ruleID : String) : ManagerM V Q G B Unit := do
  ensure (orgID ≠ "" && ruleID ≠ "") (.invalidInput "no org or rule id provided")
  modifyMemory fun m =>
    { m with
      notificationConfigs := fun o r =>
        if o = orgID ∧ r = ruleID then none else m.notificationConfigs o r }

/-- `CreateRoutePolicies`. -/
def createRoutePolicies (orgID : String) (routeRequests : List PostableRoutePolicy) :
    ManagerM V Q G B Unit :=
  if routeRequests = [] then pure ()
  else do
    let routes := routeRequests.map (PostableRoutePolicy.routePolicy orgID)
    ensure (routeRequests.all (PostableRoutePolicy.validate env.compiles))
      (.invalidInput "invalid route policy")
    ensure (routes.all RoutePolicy.validate) (.invalidInput "invalid route policy")
    externalCall plan .createRoutes
    modifyDatabase fun db => db.setRoutes (db.routes ++ routes)

/-- The route policies but those of a name. -/
def routesWithout (orgID name : String) (routes : List RoutePolicy) : List RoutePolicy :=
  routes.filter fun r => !(r.orgID = orgID && r.name = name)

/-- `DeleteAllRoutePoliciesByName`. -/
def deleteAllRoutePoliciesByName (orgID name : String) : ManagerM V Q G B Unit := do
  ensure (orgID ≠ "") (.invalidInput "orgID cannot be empty")
  ensure (name ≠ "") (.invalidInput "name cannot be empty")
  externalCall plan .deleteRoutes
  modifyDatabase fun db => db.setRoutes (routesWithout orgID name db.routes)

/-- `UpdateAllRoutePoliciesByRuleId`. -/
def updateAllRoutePoliciesByRuleId (orgID ruleID : String) (routes : List PostableRoutePolicy) :
    ManagerM V Q G B Unit := do
  deleteAllRoutePoliciesByName plan orgID ruleID
  createRoutePolicies env plan orgID routes

/-- `Get` of the configuration store, which reads what is committed. -/
def getConfig (use : ConfigUse) (committed : Database G B) (orgID : String) :
    ManagerM V Q G B (Config G B) := do
  externalCall plan (.getConfig use)
  fromOption (committed.configs orgID)
    (.notFound ("cannot find alertmanager config for orgID " ++ orgID))

/-- `Set` of the configuration store, which writes the transaction. -/
def setConfig (use : ConfigUse) (orgID : String) (config : Config G B) :
    ManagerM V Q G B Unit := do
  externalCall plan (.setConfig use)
  modifyDatabase fun db => db.setConfig orgID config

/-- `CreateInhibitRules`. -/
def createInhibitRules (committed : Database G B) (orgID : String) (rules : List InhibitRule) :
    ManagerM V Q G B Unit := do
  let config ← getConfig plan .createInhibitRules committed orgID
  setConfig plan .createInhibitRules orgID (config.addInhibitRules rules)

/-- `DeleteAllInhibitRulesByRuleId`. -/
def deleteAllInhibitRulesByRuleId (committed : Database G B) (orgID ruleID : String) :
    ManagerM V Q G B Unit := do
  let config ← getConfig plan .deleteInhibitRules committed orgID
  setConfig plan .deleteInhibitRules orgID (config.deleteRuleIDInhibitor env.regexpMatches ruleID)

/-! ## Requests of a definition -/

/-- `GetRuleRouteRequest`, with the definition after it. -/
def ruleRouteRequest (rule : PostableRule V Q) (ruleID : String) :
    ManagerM V Q G B (List PostableRoutePolicy × PostableRule V Q) := do
  let request ← fromOption (rule.getRuleRouteRequest env.sort ruleID)
    (.invalidInput "rule threshold is nil")
  return (request, rule.sortThresholds env.sort)

/-- `GetInhibitRules`, with the definition after it. -/
def ruleInhibitRules (rule : PostableRule V Q) (ruleID : String) :
    ManagerM V Q G B (List InhibitRule × PostableRule V Q) := do
  let rules ← fromOption (rule.getInhibitRules env.sort plan.order ruleID)
    (.invalidInput "rule threshold is nil")
  return (rules, rule.sortThresholds env.sort)

/-- `validateChannels`, with the definition after it. -/
def validateChannels (orgID : String) (rule : PostableRule V Q) :
    ManagerM V Q G B (PostableRule V Q) := do
  let channels := rule.channels env.sort
  if channels = [] then return rule.sortThresholds env.sort
  else
    externalCall plan .listChannels
    let w ← get
    let unknown := channels.filter fun name => (orgID, name) ∉ w.db.channels
    ensure unknown.isEmpty (.invalidInput
      ("channels: the following channels do not exist: [" ++ " ".intercalate unknown ++ "]"))
    return rule.sortThresholds env.sort

/-- The channels of a definition are channels of the org. -/
def channelsAccepted (env : ManagerEnv V Q G B H) (plan : CallPlan) (db : Database G B)
    (orgID : String) (rule : PostableRule V Q) : Bool :=
  (rule.channels env.sort).isEmpty ||
    (!plan.fails .listChannels &&
      ((rule.channels env.sort).filter fun name => (orgID, name) ∉ db.channels).isEmpty)

/-! ## Tasks -/

/-- The rules take their places in the map. -/
def Memory.setRules (m : Memory V Q) (rules : List (RuleObject V Q)) : Memory V Q :=
  rules.foldl (fun m r => { m with rules := fun id => if id = r.id then some r else m.rules id }) m

/-- The task takes its place in the map. -/
def Memory.setTask (m : Memory V Q) (taskName : TaskName) (task : Task V Q) : Memory V Q :=
  { m with tasks := fun n => if n = taskName then some task else m.tasks n }

/-- The task and its rules take their places in the maps. -/
def Memory.install (m : Memory V Q) (taskName : TaskName) (task : Task V Q) : Memory V Q :=
  (m.setRules task.rules).setTask taskName task

/-- The task leaves the map, and so does the rule of its id. -/
def Memory.removeTask (m : Memory V Q) (taskName : TaskName) : Memory V Q :=
  { m with
    tasks := fun n => if n = taskName then none else m.tasks n
    rules := fun id => if id = taskName.ruleIDFromTaskName then none else m.rules id }

/-- `addTask`. The rules take their places even where there is a task of the name. -/
def addTask (orgID : String) (rule : PostableRule V Q) (taskName : TaskName) :
    ManagerM V Q G B Unit :=
  match prepareTask env.task orgID rule taskName with
  | .error _ => throw (.invalidInput "error loading rules, previous rule set restored")
  | .ok newTask => do
    modifyMemory fun m => m.setRules newTask.rules
    let w ← get
    ensure (w.memory.tasks taskName).isNone
      (.invalidInput "a rule with the same name already exists")
    modifyMemory fun m => m.setTask taskName newTask

/-- `editTask`. The rules in the map are those of the task, so they have the copied state too. -/
def editTask (orgID : String) (rule : PostableRule V Q) (taskName : TaskName) :
    ManagerM V Q G B Unit :=
  match prepareTask env.task orgID rule taskName with
  | .error _ =>
    throw (.invalidInput
      "error preparing rule with given parameters, previous rule set restored")
  | .ok newTask =>
    modifyMemory fun m =>
      m.install taskName
        (match m.tasks taskName with
        | none => newTask
        | some oldTask => newTask.copyState env.task oldTask)

/-- A task that is there leaves the maps. -/
def Memory.deleteTask (m : Memory V Q) (taskName : TaskName) : Memory V Q :=
  match m.tasks taskName with
  | none => m
  | some _ => m.removeTask taskName

/-- `deleteTask`. -/
def deleteTask (taskName : TaskName) : ManagerM V Q G B Unit :=
  modifyMemory fun m => m.deleteTask taskName

/-- `syncRuleStateWithTask`. -/
def syncRuleStateWithTask (orgID : String) (taskName : TaskName) (rule : PostableRule V Q) :
    ManagerM V Q G B Unit := do
  if rule.disabled then deleteTask taskName
  else
    let w ← get
    if (w.memory.tasks taskName).isNone then addTask env orgID rule taskName
    else editTask env orgID rule taskName

/-! ## The calls -/

/-- The notification settings of a definition; none are set where it has none. -/
def setNotificationSettings (orgID ruleID : String) (rule : PostableRule V Q) :
    ManagerM V Q G B Unit :=
  match rule.notificationSettings with
  | none => pure ()
  | some ns => setNotificationConfig orgID ruleID ns.getAlertManagerNotificationConfig

/-- The rule has notification settings, and does not leave routing to policies. -/
def PostableRule.routesItself (rule : PostableRule V Q) : Bool :=
  match rule.notificationSettings with
  | none => false
  | some ns => !ns.usePolicy

/-- The routing of a new rule, in `CreateRule`. -/
def createRouting (committed : Database G B) (orgID ruleID : String) (rule : PostableRule V Q) :
    ManagerM V Q G B (PostableRule V Q) := do
  setNotificationSettings orgID ruleID rule
  if rule.routesItself then
    let (request, rule) ← ruleRouteRequest env rule ruleID
    createRoutePolicies env plan orgID request
    let (inhibitRules, rule) ← ruleInhibitRules env plan rule ruleID
    createInhibitRules plan committed orgID inhibitRules
    return rule
  else return rule

/-- The routing of a rule that is edited, in `EditRule`. -/
def editRouting (committed : Database G B) (orgID ruleID : String) (rule : PostableRule V Q) :
    ManagerM V Q G B (PostableRule V Q) := do
  setNotificationSettings orgID ruleID rule
  if rule.routesItself then
    let (request, rule) ← ruleRouteRequest env rule ruleID
    updateAllRoutePoliciesByRuleId env plan orgID ruleID request
    deleteAllInhibitRulesByRuleId env plan committed orgID ruleID
    let (inhibitRules, rule) ← ruleInhibitRules env plan rule ruleID
    createInhibitRules plan committed orgID inhibitRules
    return rule
  else return rule

/-- The checks on a definition that was read, with the definition after them. -/
def checkRule (orgID : String) (read : Option (PostableRule V Q)) :
    ManagerM V Q G B (PostableRule V Q) := do
  let rule ← fromOption read .definition
  ensure (rule.validate env.codec) .definition
  validateChannels env plan orgID rule

/-- `CreateRule`, with the id it generates. -/
def createRule (orgID ruleStr id : String) : ManagerM V Q G B Unit := do
  externalCall plan .claims
  let rule ← checkRule env plan orgID (parseRule env.codec ruleStr)
  storeCreateRule plan ⟨id, orgID, ruleStr⟩ fun committed => do
    let rule ← createRouting env plan committed orgID id rule
    addTask env orgID rule (prepareTaskName id)

/-- `EditRule`. -/
def editRule (orgID ruleStr id : String) : ManagerM V Q G B Unit := do
  externalCall plan .claims
  let rule ← checkRule env plan orgID (parseRule env.codec ruleStr)
  let existingRule ← getStoredRule plan id
  storeEditRule plan { existingRule with data := ruleStr } fun committed => do
    let rule ← editRouting env plan committed orgID id rule
    syncRuleStateWithTask env orgID (prepareTaskName existingRule.id) rule

/-- The definition without the thresholds, as `MarshalJSON` leaves it where the version is `v1`:
the condition is shared with the copy that is written. -/
def PostableRule.afterMarshal (rule : PostableRule V Q) : PostableRule V Q :=
  if rule.schemaVersion = defaultSchemaVersion then
    { rule with ruleCondition := rule.ruleCondition.map fun c => { c with thresholds := none } }
  else rule

/-- The end of `PatchRule`, once the task is in: the definition is written, and where that fails
it is deployed again. -/
def storePatched (orgID : String) (storedJSON : StoredRule) (rule : PostableRule V Q) :
    ManagerM V Q G B Unit := fun w =>
  match storeEditRule plan { storedJSON with data := rule.marshalJSON env.codec }
      (fun _ => pure ()) w with
  | .ok _ s => .ok () s
  | .error e s =>
    .error e (finalState
      (syncRuleStateWithTask env orgID (prepareTaskName storedJSON.id) rule.afterMarshal s))

/-- `PatchRule`. -/
def patchRule (orgID ruleStr id : String) : ManagerM V Q G B Unit := do
  externalCall plan .claims
  let storedJSON ← getStoredRule plan id
  let storedRule ← fromOption (parseRule env.codec storedJSON.data) .definition
  let rule ← checkRule env plan orgID (storedRule.unmarshalJSON env.codec ruleStr)
  syncRuleStateWithTask env orgID (prepareTaskName id) rule
  storePatched env plan orgID storedJSON rule

/-- `DeleteRule`. -/
def deleteRule (orgID id : String) : ManagerM V Q G B Unit := do
  externalCall plan .claims
  let _ ← getStoredRule plan id
  storeDeleteRule plan id fun committed => do
    let cfg ← getConfig plan .deleteRuleIDMatcher committed orgID
    let cfg ← fromOption (cfg.deleteRuleIDMatcher env.config id)
      (.invalidInput "cannot remove the rule id from a route")
    setConfig plan .deleteRuleIDMatcher orgID cfg
    deleteNotificationConfig orgID id
    deleteAllRoutePoliciesByName plan orgID id
    deleteAllInhibitRulesByRuleId env plan committed orgID id
    deleteTask (prepareTaskName id)

/-! ## Starting -/

/-- What goes wrong with a rule at the start: its text, or its notification settings. -/
inductive LoadError where
  | definition (id : String)
  | notificationConfig (id : String)

/-- Whether a computation succeeds; the state it leaves stays. -/
def succeeds (x : ManagerM V Q G B Unit) : ManagerM V Q G B Bool := fun w =>
  match x w with
  | .ok _ s => .ok true s
  | .error _ s => .ok false s

/-- The body of the loop over the stored rules in `initiate`. A task that is not added is only
logged. -/
def loadRule (orgID : String) (rec : StoredRule) : ManagerM V Q G B (List LoadError) :=
  match parseRule env.codec rec.data with
  | none => return [.definition rec.id]
  | some parsedRule => do
    let isSet ← succeeds (setNotificationSettings orgID rec.id parsedRule)
    if !parsedRule.disabled then
      let _ ← succeeds (addTask env orgID parsedRule (prepareTaskName rec.id))
    return if isSet then [] else [.notificationConfig rec.id]

/-- The loop over the stored rules. -/
def loadRules (orgID : String) : List StoredRule → ManagerM V Q G B (List LoadError)
  | [] => return []
  | rec :: recs => do
    let errors ← loadRule env orgID rec
    let more ← loadRules orgID recs
    return errors ++ more

/-- The loop over the orgs, after these errors. An org without rules ends it, and `initiate`
returns no error. -/
def loadOrgs (loadErrors : List LoadError) : List String → ManagerM V Q G B (List LoadError)
  | [] => return loadErrors
  | org :: orgs => do
    let storedRules ← getStoredRules plan org
    if storedRules = [] then return []
    else
      let errors ← loadRules env org storedRules
      loadOrgs (loadErrors ++ errors) orgs

/-- `initiate`, with the orgs that `ListByOwnedKeyRange` lists: the errors it joins. -/
def initiate (orgs : List String) : ManagerM V Q G B (List LoadError) := do
  externalCall plan .listOrgs
  loadOrgs env plan [] orgs

end Calls

end Signoz.Rules
