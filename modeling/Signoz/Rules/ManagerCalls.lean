import Signoz.Rules.Manager

/-!
# What the calls of the manager do

For each computation of `Manager.lean` one lemma says when it succeeds and which state it leaves
then, and one says what it leaves alone whether or not it succeeds. `Memory.deploy` is what
`syncRuleStateWithTask` does to the memory.
-/

namespace Signoz.Rules

open Signoz.Querier Signoz.Alertmanager Lib.FailingCalls

section Calls

variable {V Q G B H : Type} {env : ManagerEnv V Q G B H} {plan : CallPlan}
variable {w w' : World V Q G B}

/-- The tasks and the rules of the manager. -/
def World.running (w : World V Q G B) :
    (TaskName → Option (Task V Q)) × (String → Option (RuleObject V Q)) :=
  (w.memory.tasks, w.memory.rules)

/-! ## Primitive calls -/

variable {u : Unit}

theorem externalCall_eq_ok {call : ExternalCall} :
    externalCall plan call w = .ok u w' ↔ plan.fails call = false ∧ w = w' := by
  rw [externalCall, ensure_eq_ok, Bool.not_eq_true']

theorem externalCall_bind_eq_ok {α : Type} {call : ExternalCall} {f : Unit → ManagerM V Q G B α}
    {a : α} :
    (externalCall plan call >>= f) w = .ok a w' ↔
      plan.fails call = false ∧ f () w = .ok a w' := by
  rw [externalCall, ensure_bind_eq_ok, Bool.not_eq_true']

theorem modifyDatabase_eq_ok {f : Database G B → Database G B} :
    modifyDatabase f w = .ok u w' ↔ { w with db := f w.db } = w' := modify_eq_ok

theorem modifyDatabase_bind_eq_ok {α : Type} {f : Database G B → Database G B}
    {g : Unit → ManagerM V Q G B α} {a : α} :
    (modifyDatabase f >>= g) w = .ok a w' ↔ g () { w with db := f w.db } = .ok a w' := Iff.rfl

theorem modifyMemory_eq_ok {f : Memory V Q → Memory V Q} :
    modifyMemory f w = .ok u w' ↔ { w with memory := f w.memory } = w' := modify_eq_ok

/-- A transaction that commits leaves what its callback left. -/
theorem runInTxCtx_eq_ok {cb : Database G B → ManagerM V Q G B Unit} :
    runInTxCtx plan cb w = .ok u w' ↔
      plan.fails .beginTx = false ∧ plan.fails .commit = false ∧ cb w.db w = .ok () w' := by
  rw [runInTxCtx]
  cases hbegin : plan.fails .beginTx with
  | true => exact ⟨fun h => (nomatch h), fun h => (nomatch h.1)⟩
  | false =>
    rw [if_neg Bool.false_ne_true]
    cases hcb : cb w.db w with
    | error e s => exact ⟨fun h => (nomatch h), fun h => (nomatch h.2.2)⟩
    | ok a s =>
      cases hcommit : plan.fails .commit with
      | true => exact ⟨fun h => (nomatch h), fun h => (nomatch h.2.1)⟩
      | false => exact ⟨fun h => ⟨rfl, rfl, h⟩, fun h => h.2.2⟩

/-- A transaction that fails leaves the memory as its callback left it. -/
theorem runInTxCtx_eq_error {cb : Database G B → ManagerM V Q G B Unit} {e : Failure}
    (h : runInTxCtx plan cb w = .error e w') :
    w'.db = w.db ∧
      (w' = w ∨ (∃ s, cb w.db w = .error e s ∧ w'.memory = s.memory) ∨
        plan.fails .beginTx = false ∧ plan.fails .commit = true ∧
          ∃ s, cb w.db w = .ok () s ∧ w'.memory = s.memory) := by
  rw [runInTxCtx] at h
  cases hbegin : plan.fails .beginTx with
  | true =>
    rw [hbegin, if_pos rfl] at h
    cases h
    exact ⟨rfl, Or.inl rfl⟩
  | false =>
    rw [hbegin, if_neg Bool.false_ne_true] at h
    cases hcb : cb w.db w with
    | error e' s =>
      rw [hcb] at h
      cases h
      exact ⟨rfl, Or.inr (Or.inl ⟨s, rfl, rfl⟩)⟩
    | ok a s =>
      rw [hcb] at h
      cases hcommit : plan.fails .commit with
      | true =>
        simp only [hcommit, if_true] at h
        cases h
        exact ⟨rfl, Or.inr (Or.inr ⟨rfl, rfl, s, rfl, rfl⟩)⟩
      | false =>
        simp only [hcommit, Bool.false_eq_true, if_false] at h
        cases h

/-! ## Rule store -/

theorem getStoredRule_eq_ok {id : String} {r : StoredRule} :
    getStoredRule plan id w = .ok r w' ↔
      plan.fails .getStoredRule = false ∧ w.db.rules.find? (fun r => r.id = id) = some r ∧
        w = w' := by
  rw [getStoredRule, externalCall_bind_eq_ok, get_bind_eq_ok, fromOption_eq_ok]

theorem getStoredRules_eq_ok {orgID : String} {rs : List StoredRule} :
    getStoredRules plan orgID w = .ok rs w' ↔
      plan.fails (.getStoredRules orgID) = false ∧
        w.db.rules.filter (fun r => r.orgID = orgID) = rs ∧ w = w' := by
  rw [getStoredRules, externalCall_bind_eq_ok, get_bind_eq_ok, pure_eq_ok]

/-! ## Alertmanager -/

/-- The ids that notification settings can be kept under. -/
def settingsAccepted (orgID ruleID : String) (rule : PostableRule V Q) : Bool :=
  rule.notificationSettings.isNone || (orgID ≠ "" && ruleID ≠ "")

/-- The notification settings of a definition take their place. -/
def Memory.withSettings (m : Memory V Q) (orgID ruleID : String) (rule : PostableRule V Q) :
    Memory V Q :=
  match rule.notificationSettings with
  | none => m
  | some ns =>
    { m with
      notificationConfigs := fun o r =>
        if o = orgID ∧ r = ruleID then some ns.getAlertManagerNotificationConfig
        else m.notificationConfigs o r }

@[simp] theorem Memory.withSettings_tasks (m : Memory V Q) (orgID ruleID : String)
    (rule : PostableRule V Q) : (m.withSettings orgID ruleID rule).tasks = m.tasks := by
  rw [Memory.withSettings]
  split <;> rfl

@[simp] theorem Memory.withSettings_rules (m : Memory V Q) (orgID ruleID : String)
    (rule : PostableRule V Q) : (m.withSettings orgID ruleID rule).rules = m.rules := by
  rw [Memory.withSettings]
  split <;> rfl

variable {orgID ruleID : String}

theorem setNotificationSettings_eq_ok {rule : PostableRule V Q} :
    setNotificationSettings orgID ruleID rule w = .ok u w' ↔
      settingsAccepted orgID ruleID rule = true ∧
        { w with memory := w.memory.withSettings orgID ruleID rule } = w' := by
  rw [setNotificationSettings, settingsAccepted, Memory.withSettings]
  cases rule.notificationSettings with
  | none => exact ⟨fun h => ⟨rfl, (pure_eq_ok.1 h).2⟩, fun h => pure_eq_ok.2 ⟨rfl, h.2⟩⟩
  | some ns =>
    simp only [setNotificationConfig]
    rw [ensure_bind_eq_ok, modifyMemory_eq_ok, Option.isNone_some, Bool.false_or]

theorem deleteNotificationConfig_ok (h : deleteNotificationConfig orgID ruleID w = .ok u w') :
    w'.db = w.db ∧ w'.running = w.running := by
  obtain ⟨-, h⟩ := ensure_bind_eq_ok.1 h
  rw [← modifyMemory_eq_ok.1 h]
  exact ⟨rfl, rfl⟩

/-- Requests that `CreateRoutePolicies` stores. -/
def routesAccepted (env : ManagerEnv V Q G B H) (plan : CallPlan) (orgID : String)
    (request : List PostableRoutePolicy) : Bool :=
  request.isEmpty ||
    (request.all (PostableRoutePolicy.validate env.compiles) &&
      (request.map (PostableRoutePolicy.routePolicy orgID)).all RoutePolicy.validate &&
      !plan.fails .createRoutes)

theorem createRoutePolicies_eq_ok {orgID : String} {request : List PostableRoutePolicy} :
    createRoutePolicies env plan orgID request w = .ok u w' ↔
      routesAccepted env plan orgID request = true ∧
        { w with
          db := w.db.setRoutes
            (w.db.routes ++ request.map (PostableRoutePolicy.routePolicy orgID)) } = w' := by
  rw [createRoutePolicies, routesAccepted]
  cases request with
  | nil =>
    have hsame : w.db.setRoutes (w.db.routes ++ []) = w.db := by
      rw [List.append_nil]
      rfl
    rw [if_pos rfl, pure_eq_ok, List.map_nil, hsame]
    exact ⟨fun h => ⟨rfl, h.2⟩, fun h => ⟨rfl, h.2⟩⟩
  | cons p ps =>
    rw [if_neg (List.cons_ne_nil p ps), ensure_bind_eq_ok, ensure_bind_eq_ok,
      externalCall_bind_eq_ok, modifyDatabase_eq_ok, List.isEmpty_cons, Bool.false_or,
      Bool.and_eq_true, Bool.and_eq_true, Bool.not_eq_true', and_assoc, and_assoc]

theorem deleteAllRoutePoliciesByName_eq_ok {orgID name : String} :
    deleteAllRoutePoliciesByName plan orgID name w = .ok u w' ↔
      orgID ≠ "" ∧ name ≠ "" ∧ plan.fails .deleteRoutes = false ∧
        { w with db := w.db.setRoutes (routesWithout orgID name w.db.routes) } = w' := by
  rw [deleteAllRoutePoliciesByName, ensure_bind_eq_ok, ensure_bind_eq_ok,
    externalCall_bind_eq_ok, modifyDatabase_eq_ok, decide_eq_true_iff, decide_eq_true_iff]

variable {use : ConfigUse} {committed : Database G B}

theorem getConfig_eq_ok {orgID : String} {c : Config G B} :
    getConfig plan use committed orgID w = .ok c w' ↔
      plan.fails (.getConfig use) = false ∧ committed.configs orgID = some c ∧ w = w' := by
  rw [getConfig, externalCall_bind_eq_ok, fromOption_eq_ok]

theorem setConfig_eq_ok {orgID : String} {c : Config G B} :
    setConfig plan use orgID c w = .ok u w' ↔
      plan.fails (.setConfig use) = false ∧ { w with db := w.db.setConfig orgID c } = w' := by
  rw [setConfig, externalCall_bind_eq_ok, modifyDatabase_eq_ok]

/-- The configuration of an org can be read and written. -/
def CallPlan.configWorks (plan : CallPlan) (use : ConfigUse) : Bool :=
  !plan.fails (.getConfig use) && !plan.fails (.setConfig use)

/-- A configuration that is read where it is committed, and written with a change. -/
theorem updateConfig_eq_ok {orgID : String} {f : Config G B → Config G B} :
    (getConfig plan use committed orgID >>= fun c => setConfig plan use orgID (f c)) w =
        .ok u w' ↔
      plan.configWorks use = true ∧
        ∃ c, committed.configs orgID = some c ∧
          { w with db := w.db.setConfig orgID (f c) } = w' := by
  rw [CallPlan.configWorks, Bool.and_eq_true, Bool.not_eq_true', Bool.not_eq_true', bind_eq_ok]
  constructor
  · rintro ⟨c, m, hget, hset⟩
    obtain ⟨hgets, hc, rfl⟩ := getConfig_eq_ok.1 hget
    obtain ⟨hsets, h⟩ := setConfig_eq_ok.1 hset
    exact ⟨⟨hgets, hsets⟩, c, hc, h⟩
  · rintro ⟨⟨hgets, hsets⟩, c, hc, h⟩
    exact ⟨c, w, getConfig_eq_ok.2 ⟨hgets, hc, rfl⟩, setConfig_eq_ok.2 ⟨hsets, h⟩⟩

theorem createInhibitRules_eq_ok {orgID : String} {rules : List InhibitRule} :
    createInhibitRules plan committed orgID rules w = .ok u w' ↔
      plan.configWorks .createInhibitRules = true ∧
        ∃ c, committed.configs orgID = some c ∧
          { w with db := w.db.setConfig orgID (c.addInhibitRules rules) } = w' :=
  updateConfig_eq_ok (f := fun c => c.addInhibitRules rules)

theorem deleteAllInhibitRulesByRuleId_eq_ok :
    deleteAllInhibitRulesByRuleId env plan committed orgID ruleID w = .ok u w' ↔
      plan.configWorks .deleteInhibitRules = true ∧
        ∃ c, committed.configs orgID = some c ∧
          { w with
            db := w.db.setConfig orgID (c.deleteRuleIDInhibitor env.regexpMatches ruleID) } = w' :=
  updateConfig_eq_ok (f := fun c => c.deleteRuleIDInhibitor env.regexpMatches ruleID)

/-! ## Routing -/

@[simp] theorem Database.setConfig_setConfig (db : Database G B) (orgID : String)
    (c c' : Config G B) : (db.setConfig orgID c).setConfig orgID c' = db.setConfig orgID c' := by
  rw [Database.setConfig, Database.setConfig, Database.setConfig]
  congr 1
  funext o
  split
  · rfl
  · rename_i h
    exact if_neg h

theorem ruleRouteRequest_eq_ok {rule : PostableRule V Q} {ruleID : String}
    {p : List PostableRoutePolicy × PostableRule V Q} :
    ruleRouteRequest env rule ruleID w = .ok p w' ↔
      ∃ request, rule.getRuleRouteRequest env.sort ruleID = some request ∧
        (request, rule.sortThresholds env.sort) = p ∧ w = w' := by
  rw [ruleRouteRequest, fromOption_bind_eq_ok]
  simp only [pure_eq_ok]

theorem ruleInhibitRules_eq_ok {rule : PostableRule V Q} {ruleID : String}
    {p : List InhibitRule × PostableRule V Q} :
    ruleInhibitRules env plan rule ruleID w = .ok p w' ↔
      ∃ rules, rule.getInhibitRules env.sort plan.order ruleID = some rules ∧
        (rules, rule.sortThresholds env.sort) = p ∧ w = w' := by
  rw [ruleInhibitRules, fromOption_bind_eq_ok]
  simp only [pure_eq_ok]

/-- What the routing of a rule leaves: its route policies after the others, and its inhibit rules
after those that were committed. -/
def routedWorld (env : ManagerEnv V Q G B H) (plan : CallPlan) (orgID ruleID : String)
    (rule : PostableRule V Q) (routes : List RoutePolicy) (c : Config G B)
    (w : World V Q G B) : World V Q G B where
  db := (w.db.setRoutes
      (routes ++ ((rule.getRuleRouteRequest env.sort ruleID).getD []).map
        (PostableRoutePolicy.routePolicy orgID))).setConfig orgID
      (c.addInhibitRules
        (((rule.sortThresholds env.sort).getInhibitRules env.sort plan.order ruleID).getD []))
  memory := w.memory.withSettings orgID ruleID rule

/-- The definition after its route policies and its inhibit rules were asked for. -/
def PostableRule.afterRouting (env : ManagerEnv V Q G B H) (rule : PostableRule V Q) :
    PostableRule V Q :=
  if rule.routesItself then (rule.sortThresholds env.sort).sortThresholds env.sort else rule

/-- The calls for the routing of a new rule succeed. -/
def createRoutingPasses (env : ManagerEnv V Q G B H) (plan : CallPlan) (committed : Database G B)
    (orgID ruleID : String) (rule : PostableRule V Q) : Bool :=
  match rule.getRuleRouteRequest env.sort ruleID with
  | none => false
  | some request =>
    routesAccepted env plan orgID request && plan.configWorks .createInhibitRules &&
      (committed.configs orgID).isSome

/-- The calls for the routing of a rule that is edited succeed. -/
def editRoutingPasses (env : ManagerEnv V Q G B H) (plan : CallPlan) (committed : Database G B)
    (orgID ruleID : String) (rule : PostableRule V Q) : Bool :=
  orgID ≠ "" && ruleID ≠ "" && !plan.fails .deleteRoutes && plan.configWorks .deleteInhibitRules &&
    createRoutingPasses env plan committed orgID ruleID rule

theorem getInhibitRules_isSome {rule : PostableRule V Q}
    {sort : List (BasicRuleThreshold V) → List (BasicRuleThreshold V)} {ruleID : String}
    {request : List PostableRoutePolicy} (order : List String → List String)
    (h : rule.getRuleRouteRequest sort ruleID = some request) :
    ∃ rules, (rule.sortThresholds sort).getInhibitRules sort order ruleID = some rules := by
  obtain ⟨ts, hts, -⟩ := Option.map_eq_some_iff.1 h
  rw [PostableRule.getInhibitRules, getRuleThreshold_sortThresholds, hts]
  exact ⟨_, rfl⟩

variable {rule rule' : PostableRule V Q}

/-- A rule that leaves its routing to policies: only its settings are set. -/
theorem settingsOnly_eq_ok :
    (setNotificationSettings orgID ruleID rule >>= fun _ => pure rule : ManagerM V Q G B _) w =
        .ok rule' w' ↔
      settingsAccepted orgID ruleID rule = true ∧ rule = rule' ∧
        { w with memory := w.memory.withSettings orgID ruleID rule } = w' := by
  rw [bind_eq_ok]
  constructor
  · rintro ⟨_, m, hset, h⟩
    obtain ⟨haccepted, rfl⟩ := setNotificationSettings_eq_ok.1 hset
    exact ⟨haccepted, pure_eq_ok.1 h⟩
  · rintro ⟨haccepted, h⟩
    exact ⟨(), _, setNotificationSettings_eq_ok.2 ⟨haccepted, rfl⟩, pure_eq_ok.2 h⟩

/-- The routing of a new rule that leaves it to policies. -/
theorem createRouting_eq_ok_of_policy (hroutes : rule.routesItself = false) :
    createRouting env plan committed orgID ruleID rule w = .ok rule' w' ↔
      settingsAccepted orgID ruleID rule = true ∧ rule = rule' ∧
        { w with memory := w.memory.withSettings orgID ruleID rule } = w' := by
  rw [createRouting]
  simp only [hroutes, Bool.false_eq_true, if_false]
  exact settingsOnly_eq_ok

/-- The routing of a rule that is edited and leaves it to policies. -/
theorem editRouting_eq_ok_of_policy (hroutes : rule.routesItself = false) :
    editRouting env plan committed orgID ruleID rule w = .ok rule' w' ↔
      settingsAccepted orgID ruleID rule = true ∧ rule = rule' ∧
        { w with memory := w.memory.withSettings orgID ruleID rule } = w' := by
  rw [editRouting]
  simp only [hroutes, Bool.false_eq_true, if_false]
  exact settingsOnly_eq_ok

/-- The routing of a new rule that has its own. -/
theorem createRouting_eq_ok_of_routes (hroutes : rule.routesItself = true) :
    createRouting env plan committed orgID ruleID rule w = .ok rule' w' ↔
      settingsAccepted orgID ruleID rule = true ∧
        createRoutingPasses env plan committed orgID ruleID rule = true ∧
        rule.afterRouting env = rule' ∧
        ∃ c, committed.configs orgID = some c ∧
          routedWorld env plan orgID ruleID rule w.db.routes c w = w' := by
  rw [createRouting, bind_eq_ok, createRoutingPasses, PostableRule.afterRouting, if_pos hroutes]
  simp only [hroutes, if_true]
  constructor
  · rintro ⟨_, m, hset, h⟩
    obtain ⟨haccepted, rfl⟩ := setNotificationSettings_eq_ok.1 hset
    obtain ⟨_, m, hask, h⟩ := bind_eq_ok.1 h
    obtain ⟨request, hrequest, rfl, rfl⟩ := ruleRouteRequest_eq_ok.1 hask
    obtain ⟨_, m, hcreate, h⟩ := bind_eq_ok.1 h
    obtain ⟨hpolicies, rfl⟩ := createRoutePolicies_eq_ok.1 hcreate
    obtain ⟨_, m, hask, h⟩ := bind_eq_ok.1 h
    obtain ⟨inhibit, hinhibit, rfl, rfl⟩ := ruleInhibitRules_eq_ok.1 hask
    obtain ⟨_, m, hconfig, h⟩ := bind_eq_ok.1 h
    obtain ⟨hworks, c, hc, rfl⟩ := createInhibitRules_eq_ok.1 hconfig
    obtain ⟨rfl, rfl⟩ := pure_eq_ok.1 h
    refine ⟨haccepted, ?_, rfl, c, hc, ?_⟩
    · rw [hrequest, hc]
      exact Bool.and_eq_true_iff.2 ⟨Bool.and_eq_true_iff.2 ⟨hpolicies, hworks⟩, rfl⟩
    · rw [routedWorld, hrequest, hinhibit]
      rfl
  · rintro ⟨haccepted, hpasses, rfl, c, hc, rfl⟩
    cases hrequest : rule.getRuleRouteRequest env.sort ruleID with
    | none =>
      rw [hrequest] at hpasses
      cases hpasses
    | some request =>
      rw [hrequest, hc] at hpasses
      simp only [Bool.and_eq_true] at hpasses
      obtain ⟨⟨hpolicies, hworks⟩, -⟩ := hpasses
      obtain ⟨inhibit, hinhibit⟩ := getInhibitRules_isSome plan.order hrequest
      refine ⟨(), _, setNotificationSettings_eq_ok.2 ⟨haccepted, rfl⟩, ?_⟩
      refine bind_eq_ok.2 ⟨_, _, ruleRouteRequest_eq_ok.2 ⟨request, hrequest, rfl, rfl⟩, ?_⟩
      refine bind_eq_ok.2 ⟨(), _, createRoutePolicies_eq_ok.2 ⟨hpolicies, rfl⟩, ?_⟩
      refine bind_eq_ok.2 ⟨_, _, ruleInhibitRules_eq_ok.2 ⟨inhibit, hinhibit, rfl, rfl⟩, ?_⟩
      refine bind_eq_ok.2 ⟨(), _, createInhibitRules_eq_ok.2 ⟨hworks, c, hc, rfl⟩, ?_⟩
      rw [routedWorld, hrequest, hinhibit]
      rfl

/-- The routing of a rule that is edited and has its own. -/
theorem editRouting_eq_ok_of_routes (hroutes : rule.routesItself = true) :
    editRouting env plan committed orgID ruleID rule w = .ok rule' w' ↔
      settingsAccepted orgID ruleID rule = true ∧
        editRoutingPasses env plan committed orgID ruleID rule = true ∧
        rule.afterRouting env = rule' ∧
        ∃ c, committed.configs orgID = some c ∧
          routedWorld env plan orgID ruleID rule (routesWithout orgID ruleID w.db.routes) c w =
            w' := by
  rw [editRouting, bind_eq_ok, editRoutingPasses, createRoutingPasses, PostableRule.afterRouting,
    if_pos hroutes]
  simp only [hroutes, if_true, updateAllRoutePoliciesByRuleId]
  constructor
  · rintro ⟨_, m, hset, h⟩
    obtain ⟨haccepted, rfl⟩ := setNotificationSettings_eq_ok.1 hset
    obtain ⟨_, m, hask, h⟩ := bind_eq_ok.1 h
    obtain ⟨request, hrequest, rfl, rfl⟩ := ruleRouteRequest_eq_ok.1 hask
    obtain ⟨_, m, hupdate, h⟩ := bind_eq_ok.1 h
    obtain ⟨_, m', hdelete, hcreate⟩ := bind_eq_ok.1 hupdate
    obtain ⟨horg, hid, hfails, rfl⟩ := deleteAllRoutePoliciesByName_eq_ok.1 hdelete
    obtain ⟨hpolicies, rfl⟩ := createRoutePolicies_eq_ok.1 hcreate
    obtain ⟨_, m, hremove, h⟩ := bind_eq_ok.1 h
    obtain ⟨hremoves, c', hc', rfl⟩ := deleteAllInhibitRulesByRuleId_eq_ok.1 hremove
    obtain ⟨_, m, hask, h⟩ := bind_eq_ok.1 h
    obtain ⟨inhibit, hinhibit, rfl, rfl⟩ := ruleInhibitRules_eq_ok.1 hask
    obtain ⟨_, m, hconfig, h⟩ := bind_eq_ok.1 h
    obtain ⟨hworks, c, hc, rfl⟩ := createInhibitRules_eq_ok.1 hconfig
    obtain ⟨rfl, rfl⟩ := pure_eq_ok.1 h
    refine ⟨haccepted, ?_, rfl, c, hc, ?_⟩
    · rw [hrequest, hc]
      simp only [Bool.and_eq_true, decide_eq_true_eq, Bool.not_eq_true']
      exact ⟨⟨⟨⟨horg, hid⟩, hfails⟩, hremoves⟩, ⟨hpolicies, hworks⟩, rfl⟩
    · rw [routedWorld, hrequest, hinhibit]
      -- What was removed is written over: the configuration is read where it is committed.
      simp only [Database.setConfig_setConfig]
      rfl
  · rintro ⟨haccepted, hpasses, rfl, c, hc, rfl⟩
    cases hrequest : rule.getRuleRouteRequest env.sort ruleID with
    | none =>
      rw [hrequest] at hpasses
      simp only [Bool.and_false, Bool.false_eq_true] at hpasses
    | some request =>
      rw [hrequest, hc] at hpasses
      simp only [Bool.and_eq_true, decide_eq_true_eq, Bool.not_eq_true'] at hpasses
      obtain ⟨⟨⟨⟨horg, hid⟩, hfails⟩, hremoves⟩, ⟨hpolicies, hworks⟩, -⟩ := hpasses
      obtain ⟨inhibit, hinhibit⟩ := getInhibitRules_isSome plan.order hrequest
      refine ⟨(), _, setNotificationSettings_eq_ok.2 ⟨haccepted, rfl⟩, ?_⟩
      refine bind_eq_ok.2 ⟨_, _, ruleRouteRequest_eq_ok.2 ⟨request, hrequest, rfl, rfl⟩, ?_⟩
      refine bind_eq_ok.2 ⟨(), _, bind_eq_ok.2 ⟨(), _,
        deleteAllRoutePoliciesByName_eq_ok.2 ⟨horg, hid, hfails, rfl⟩,
        createRoutePolicies_eq_ok.2 ⟨hpolicies, rfl⟩⟩, ?_⟩
      refine bind_eq_ok.2 ⟨(), _,
        deleteAllInhibitRulesByRuleId_eq_ok.2 ⟨hremoves, c, hc, rfl⟩, ?_⟩
      refine bind_eq_ok.2 ⟨_, _, ruleInhibitRules_eq_ok.2 ⟨inhibit, hinhibit, rfl, rfl⟩, ?_⟩
      refine bind_eq_ok.2 ⟨(), _, createInhibitRules_eq_ok.2 ⟨hworks, c, hc, rfl⟩, ?_⟩
      rw [routedWorld, hrequest, hinhibit]
      simp only [Database.setConfig_setConfig]
      rfl

/-- The calls of `CreateRule` that set up notifications and routing succeed. -/
def createRoutingAccepted (env : ManagerEnv V Q G B H) (plan : CallPlan)
    (committed : Database G B) (orgID ruleID : String) (rule : PostableRule V Q) : Bool :=
  settingsAccepted orgID ruleID rule &&
    (!rule.routesItself || createRoutingPasses env plan committed orgID ruleID rule)

/-- The calls of `EditRule` that set up notifications and routing succeed. -/
def editRoutingAccepted (env : ManagerEnv V Q G B H) (plan : CallPlan)
    (committed : Database G B) (orgID ruleID : String) (rule : PostableRule V Q) : Bool :=
  settingsAccepted orgID ruleID rule &&
    (!rule.routesItself || editRoutingPasses env plan committed orgID ruleID rule)

/-- What notifications and routing leave, where the route policies but those of the rule are
`routes`. -/
def afterRoutingWorld (env : ManagerEnv V Q G B H) (plan : CallPlan) (committed : Database G B)
    (orgID ruleID : String) (rule : PostableRule V Q) (routes : List RoutePolicy)
    (w : World V Q G B) : World V Q G B :=
  if rule.routesItself then
    match committed.configs orgID with
    | none => w
    | some c => routedWorld env plan orgID ruleID rule routes c w
  else { w with memory := w.memory.withSettings orgID ruleID rule }

/-- Where the calls succeed the configuration has been read, so it is there. -/
theorem configs_of_createRoutingPasses
    (h : createRoutingPasses env plan committed orgID ruleID rule = true) :
    ∃ c, committed.configs orgID = some c := by
  rw [createRoutingPasses] at h
  split at h
  · cases h
  · exact Option.isSome_iff_exists.1 (Bool.and_eq_true_iff.1 h).2

theorem createRouting_eq_ok :
    createRouting env plan committed orgID ruleID rule w = .ok rule' w' ↔
      createRoutingAccepted env plan committed orgID ruleID rule = true ∧
        rule.afterRouting env = rule' ∧
        afterRoutingWorld env plan committed orgID ruleID rule w.db.routes w = w' := by
  rw [createRoutingAccepted, afterRoutingWorld]
  cases hroutes : rule.routesItself with
  | false =>
    rw [createRouting_eq_ok_of_policy hroutes, PostableRule.afterRouting,
      if_neg (Bool.eq_false_iff.1 hroutes), if_neg Bool.false_ne_true, Bool.not_false,
      Bool.true_or, Bool.and_true]
  | true =>
    rw [createRouting_eq_ok_of_routes hroutes, if_pos rfl, Bool.not_true, Bool.false_or,
      Bool.and_eq_true, and_assoc]
    apply and_congr_right
    intro _
    apply and_congr_right
    intro hpasses
    apply and_congr_right
    intro _
    obtain ⟨c, hc⟩ := configs_of_createRoutingPasses hpasses
    rw [hc]
    constructor
    · rintro ⟨_, ⟨⟩, h⟩
      exact h
    · exact fun h => ⟨c, rfl, h⟩

theorem editRouting_eq_ok :
    editRouting env plan committed orgID ruleID rule w = .ok rule' w' ↔
      editRoutingAccepted env plan committed orgID ruleID rule = true ∧
        rule.afterRouting env = rule' ∧
        afterRoutingWorld env plan committed orgID ruleID rule
          (routesWithout orgID ruleID w.db.routes) w = w' := by
  rw [editRoutingAccepted, afterRoutingWorld]
  cases hroutes : rule.routesItself with
  | false =>
    rw [editRouting_eq_ok_of_policy hroutes, PostableRule.afterRouting,
      if_neg (Bool.eq_false_iff.1 hroutes), if_neg Bool.false_ne_true, Bool.not_false,
      Bool.true_or, Bool.and_true]
  | true =>
    rw [editRouting_eq_ok_of_routes hroutes, if_pos rfl, Bool.not_true, Bool.false_or,
      Bool.and_eq_true, and_assoc]
    apply and_congr_right
    intro _
    apply and_congr_right
    intro hpasses
    apply and_congr_right
    intro _
    obtain ⟨c, hc⟩ := configs_of_createRoutingPasses (Bool.and_eq_true_iff.1 hpasses).2
    rw [hc]
    constructor
    · rintro ⟨_, ⟨⟩, h⟩
      exact h
    · exact fun h => ⟨c, rfl, h⟩

/-! ## Checks and tasks -/

theorem validateChannels_eq_ok {orgID : String} :
    validateChannels env plan orgID rule w = .ok rule' w' ↔
      channelsAccepted env plan w.db orgID rule = true ∧ rule.sortThresholds env.sort = rule' ∧
        w = w' := by
  rw [validateChannels, channelsAccepted]
  cases hchannels : rule.channels env.sort with
  | nil =>
    simp only [if_true]
    rw [pure_eq_ok, List.isEmpty_nil, Bool.true_or]
    exact ⟨fun h => ⟨rfl, h⟩, fun h => h.2⟩
  | cons c cs =>
    simp only [reduceCtorEq, if_false]
    rw [externalCall_bind_eq_ok, get_bind_eq_ok, ensure_bind_eq_ok, pure_eq_ok,
      List.isEmpty_cons, Bool.false_or, Bool.and_eq_true, Bool.not_eq_true', and_assoc]

/-- A definition that `syncRuleStateWithTask` can deploy. -/
def deployable (env : TaskEnv Q) (orgID : String) (rule : PostableRule V Q) (taskName : TaskName) :
    Bool :=
  rule.disabled ||
    match prepareTask env orgID rule taskName with
    | .error _ => false
    | .ok _ => true

/-- What `syncRuleStateWithTask` does to the memory. -/
def Memory.deploy (env : TaskEnv Q) (orgID : String) (rule : PostableRule V Q)
    (taskName : TaskName) (m : Memory V Q) : Memory V Q :=
  if rule.disabled then m.deleteTask taskName
  else
    match prepareTask env orgID rule taskName with
    | .error _ => m
    | .ok newTask =>
      match m.tasks taskName with
      | none => m.install taskName newTask
      | some oldTask => m.install taskName (newTask.copyState env oldTask)

@[simp] theorem Memory.setRules_tasks (rules : List (RuleObject V Q)) :
    ∀ m : Memory V Q, (m.setRules rules).tasks = m.tasks := by
  induction rules with
  | nil => exact fun m => rfl
  | cons r rules ih =>
    intro m
    exact ih { m with rules := fun id => if id = r.id then some r else m.rules id }

variable {taskName : TaskName}

theorem addTask_eq_ok {orgID : String} {rule : PostableRule V Q} :
    addTask env orgID rule taskName w = .ok u w' ↔
      ∃ t, prepareTask env.task orgID rule taskName = .ok t ∧ w.memory.tasks taskName = none ∧
        { w with memory := w.memory.install taskName t } = w' := by
  rw [addTask]
  cases hprepare : prepareTask env.task orgID rule taskName with
  | error e =>
    constructor
    · exact fun h => absurd h throw_ne_ok
    · rintro ⟨t, h, -⟩
      cases h
  | ok t =>
    simp only [modifyMemory]
    rw [modify_bind_eq_ok, get_bind_eq_ok, ensure_bind_eq_ok, modify_eq_ok,
      Memory.setRules_tasks, Option.isNone_iff_eq_none]
    constructor
    · exact fun h => ⟨t, rfl, h⟩
    · rintro ⟨_, ⟨⟩, h⟩
      exact h

/-- `syncRuleStateWithTask` deploys the definition, or fails and leaves everything alone. -/
theorem syncRuleStateWithTask_spec (env : ManagerEnv V Q G B H) (orgID : String)
    (taskName : TaskName) (rule : PostableRule V Q) (w : World V Q G B) :
    deployable env.task orgID rule taskName = true ∧
        syncRuleStateWithTask env orgID taskName rule w =
          .ok () { w with memory := w.memory.deploy env.task orgID rule taskName } ∨
      deployable env.task orgID rule taskName = false ∧
        ∃ e, syncRuleStateWithTask env orgID taskName rule w = .error e w := by
  rw [syncRuleStateWithTask, Memory.deploy, deployable]
  cases hdisabled : rule.disabled with
  | true =>
    simp only [if_true]
    exact Or.inl ⟨rfl, modifyMemory_eq_ok.2 rfl⟩
  | false =>
    simp only [Bool.false_eq_true, if_false, Bool.false_or]
    cases htask : w.memory.tasks taskName with
    | none =>
      rw [get_bind_apply, htask]
      simp only [Option.isNone_none, if_true]
      cases hprepare : prepareTask env.task orgID rule taskName with
      | error pe =>
        refine Or.inr ⟨rfl, .invalidInput "error loading rules, previous rule set restored", ?_⟩
        rw [addTask, hprepare]
        rfl
      | ok t => exact Or.inl ⟨rfl, addTask_eq_ok.2 ⟨t, hprepare, htask, rfl⟩⟩
    | some old =>
      rw [get_bind_apply, htask]
      simp only [Option.isNone_some, Bool.false_eq_true, if_false]
      rw [editTask]
      cases prepareTask env.task orgID rule taskName with
      | error pe => exact Or.inr ⟨rfl, _, rfl⟩
      | ok t =>
        refine Or.inl ⟨rfl, modifyMemory_eq_ok.2 ?_⟩
        simp only [htask]

theorem syncRuleStateWithTask_eq_ok {orgID : String} {rule : PostableRule V Q} :
    syncRuleStateWithTask env orgID taskName rule w = .ok u w' ↔
      deployable env.task orgID rule taskName = true ∧
        { w with memory := w.memory.deploy env.task orgID rule taskName } = w' := by
  rcases syncRuleStateWithTask_spec env orgID taskName rule w with ⟨hok, h⟩ | ⟨herror, e, h⟩
  · rw [h]
    constructor
    · rintro ⟨⟩
      exact ⟨hok, rfl⟩
    · rintro ⟨-, rfl⟩
      rfl
  · rw [h, herror]
    exact ⟨fun h => (nomatch h), fun h => (nomatch h.1)⟩

/-- Where `syncRuleStateWithTask` fails it has done nothing. -/
theorem syncRuleStateWithTask_eq_error {orgID : String} {rule : PostableRule V Q} {e : Failure}
    (h : syncRuleStateWithTask env orgID taskName rule w = .error e w') : w' = w := by
  rcases syncRuleStateWithTask_spec env orgID taskName rule w with ⟨-, hok⟩ | ⟨-, e', herror⟩
  · rw [hok] at h
    cases h
  · rw [herror] at h
    cases h
    rfl

/-! ## Frames -/

theorem keeps_modifyDatabase (f : Database G B → Database G B) :
    Keeps World.running (modifyDatabase f : ManagerM V Q G B Unit) := keeps_modify fun _ => rfl

theorem keeps_externalCall (plan : CallPlan) (call : ExternalCall) :
    Keeps World.running (externalCall plan call : ManagerM V Q G B Unit) := keeps_ensure _ _

theorem keeps_getStoredRule (plan : CallPlan) (id : String) :
    Keeps World.running (getStoredRule plan id : ManagerM V Q G B StoredRule) :=
  (keeps_externalCall plan _).bind fun _ => keeps_get.bind fun _ => keeps_fromOption _ _

theorem keeps_setNotificationSettings (orgID ruleID : String) (rule : PostableRule V Q) :
    Keeps World.running (setNotificationSettings orgID ruleID rule : ManagerM V Q G B Unit) := by
  rw [setNotificationSettings]
  split
  · exact keeps_pure ()
  · exact (keeps_ensure _ _).bind fun _ => keeps_modify fun _ => rfl

theorem keeps_updateAllRoutePoliciesByRuleId (env : ManagerEnv V Q G B H) (plan : CallPlan)
    (orgID ruleID : String) (routes : List PostableRoutePolicy) :
    Keeps World.running
      (updateAllRoutePoliciesByRuleId env plan orgID ruleID routes : ManagerM V Q G B Unit) := by
  have hdelete : Keeps World.running
      (deleteAllRoutePoliciesByName plan orgID ruleID : ManagerM V Q G B Unit) :=
    (keeps_ensure _ _).bind fun _ => (keeps_ensure _ _).bind fun _ =>
      (keeps_externalCall plan _).bind fun _ => keeps_modifyDatabase _
  have hcreate : Keeps World.running
      (createRoutePolicies env plan orgID routes : ManagerM V Q G B Unit) := by
    apply Keeps.ite (keeps_pure ())
    exact (keeps_ensure _ _).bind fun _ => (keeps_ensure _ _).bind fun _ =>
      (keeps_externalCall plan _).bind fun _ => keeps_modifyDatabase _
  exact hdelete.bind fun _ => hcreate

theorem keeps_updateConfig (plan : CallPlan) (use : ConfigUse) (committed : Database G B)
    (orgID : String) (f : Config G B → Config G B) :
    Keeps World.running
      (getConfig plan use committed orgID >>= fun c => setConfig plan use orgID (f c) :
        ManagerM V Q G B Unit) := by
  have hget : Keeps World.running
      (getConfig plan use committed orgID : ManagerM V Q G B (Config G B)) :=
    (keeps_externalCall plan _).bind fun _ => keeps_fromOption _ _
  exact hget.bind fun c => (keeps_externalCall plan _).bind fun _ => keeps_modifyDatabase _

theorem keeps_editRouting (env : ManagerEnv V Q G B H) (plan : CallPlan)
    (committed : Database G B) (orgID ruleID : String) (rule : PostableRule V Q) :
    Keeps World.running (editRouting env plan committed orgID ruleID rule) := by
  apply (keeps_setNotificationSettings orgID ruleID rule).bind
  intro _
  apply Keeps.ite _ (keeps_pure _)
  apply Keeps.bind ((keeps_fromOption _ _).bind fun _ => keeps_pure _)
  rintro ⟨request, rule⟩
  apply (keeps_updateAllRoutePoliciesByRuleId env plan orgID ruleID request).bind
  intro _
  apply (keeps_updateConfig plan .deleteInhibitRules committed orgID _).bind
  intro _
  apply Keeps.bind ((keeps_fromOption _ _).bind fun _ => keeps_pure _)
  rintro ⟨inhibitRules, rule⟩
  exact (keeps_updateConfig plan .createInhibitRules committed orgID _).bind fun _ => keeps_pure _

theorem keeps_checkRule (env : ManagerEnv V Q G B H) (plan : CallPlan) (orgID : String)
    (read : Option (PostableRule V Q)) : Keeps World.running (checkRule env plan orgID read) := by
  apply (keeps_fromOption _ _).bind
  intro rule
  apply (keeps_ensure _ _).bind
  intro _
  apply Keeps.ite (keeps_pure _)
  exact (keeps_externalCall plan _).bind fun _ => keeps_get.bind fun _ =>
    (keeps_ensure _ _).bind fun _ => keeps_pure _

end Calls

/-! ## The calls -/

section Checked

variable {V Q G B H : Type} {env : ManagerEnv V Q G B H} {plan : CallPlan}
variable {w w' : World V Q G B}

theorem checkRule_eq_ok {orgID : String} {read : Option (PostableRule V Q)}
    {rule' : PostableRule V Q} :
    checkRule env plan orgID read w = .ok rule' w' ↔
      ∃ rule, read = some rule ∧ rule.validate env.codec = true ∧
        channelsAccepted env plan w.db orgID rule = true ∧ rule.sortThresholds env.sort = rule' ∧
        w = w' := by
  rw [checkRule, fromOption_bind_eq_ok]
  simp only [ensure_bind_eq_ok, validateChannels_eq_ok]

end Checked

end Signoz.Rules
