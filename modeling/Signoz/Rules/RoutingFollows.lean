import Signoz.Rules.RuleChanges

/-!
# Routing and stored rules

The route policies and the inhibit rules of the rules of an org. `RoutingFollows` says that they
are what `GetRuleRouteRequest` and `GetInhibitRules` compute from the stored definitions. The calls
keep it where they write all that changes: `EditRule` adds inhibit rules to those that are
committed, and leaves all routing in place for a definition that uses policies, and `PatchRule`
writes none at all.
-/

namespace Signoz.Rules

open Signoz.Querier Signoz.Alertmanager Lib.FailingCalls Lib.Runs

/-! ## Routing in place -/

/-- A matcher of the inhibit rule has the rule id. -/
def carriesRuleID (id : String) (rule : InhibitRule) : Bool :=
  (rule.sourceMatchers ++ rule.targetMatchers).any fun m => m = .equal labelRuleID id

/-- `DeleteRuleIDInhibitor` takes the inhibit rule out. -/
def removedWith (regexpMatches : String → String → Bool) (id : String) (rule : InhibitRule) :
    Bool :=
  matcherContainsRuleID regexpMatches rule.sourceMatchers id ||
    matcherContainsRuleID regexpMatches rule.targetMatchers id

/-- The route policies of a name. -/
def routesNamed (orgID name : String) (routes : List RoutePolicy) : List RoutePolicy :=
  routes.filter fun r => r.orgID = orgID && r.name = name

/-- Route policies and inhibit rules of a rule. -/
structure Routing where
  routes : List RoutePolicy
  inhibitRules : List InhibitRule

/-- No routing. -/
def Routing.none : Routing := ⟨[], []⟩

section InPlace

variable {G B : Type}

/-- The inhibit rules of an org. -/
def Database.inhibitRules (db : Database G B) (orgID : String) : List InhibitRule :=
  match db.configs orgID with
  | none => []
  | some c => c.inhibitRules

/-- The route policies named after a rule, and the inhibit rules that carry its id. -/
def Database.routing (db : Database G B) (orgID id : String) : Routing :=
  ⟨routesNamed orgID id db.routes, (db.inhibitRules orgID).filter (carriesRuleID id)⟩

theorem routesNamed_append (orgID name : String) (l k : List RoutePolicy) :
    routesNamed orgID name (l ++ k) = routesNamed orgID name l ++ routesNamed orgID name k :=
  List.filter_append l k

/-- Without the policies of a name there are none of it. -/
theorem routesNamed_routesWithout_self (orgID name : String) (routes : List RoutePolicy) :
    routesNamed orgID name (routesWithout orgID name routes) = [] := by
  rw [routesNamed, routesWithout, List.filter_filter]
  apply List.filter_eq_nil_iff.2
  intro r _
  cases decide (r.orgID = orgID) && decide (r.name = name) <;> exact Bool.false_ne_true

/-- Without the policies of a name those of another are the same. -/
theorem routesNamed_routesWithout_of_ne {orgID name name' : String} (hne : name' ≠ name)
    (routes : List RoutePolicy) :
    routesNamed orgID name' (routesWithout orgID name routes) = routesNamed orgID name' routes := by
  rw [routesNamed, routesWithout, routesNamed, List.filter_filter]
  apply List.filter_congr
  intro r _
  by_cases hname : r.name = name'
  · have hother : r.name ≠ name := fun h => hne (hname.symm.trans h)
    simp [hname, hne]
  · simp [hname]

end InPlace

/-! ## Routing of a definition -/

section Requested

variable {V Q : Type} {sort : List (BasicRuleThreshold V) → List (BasicRuleThreshold V)}

/-- The notification settings of a definition use policies. -/
def PostableRule.usesPolicies (rule : PostableRule V Q) : Bool :=
  match rule.notificationSettings with
  | none => false
  | some ns => ns.usePolicy

/-- Every route policy of a rule is named after it. -/
theorem routeRequests_name {id : String} {ts : List (BasicRuleThreshold V)} :
    ∀ request ∈ routeRequests sort id ts, request.name = id := by
  intro request hrequest
  obtain ⟨receiver, -, rfl⟩ := List.mem_map.1 hrequest
  rfl

/-- An inhibit rule of a rule carries its id and no other. -/
theorem carriesRuleID_inhibitRuleOf (groups : List String) (id source target id' : String) :
    carriesRuleID id' (inhibitRuleOf groups id source target) = decide (id = id') := by
  have hne : labelThresholdName ≠ labelRuleID := by decide
  simp [carriesRuleID, inhibitRuleOf, hne]

theorem inhibitRulesOf_filter_self (groups : List String) (id : String) :
    ∀ receivers : List RuleReceivers,
      (inhibitRulesOf groups id receivers).filter (carriesRuleID id) =
        inhibitRulesOf groups id receivers
  | [] => rfl
  | [_] => rfl
  | source :: target :: rest => by
    rw [inhibitRulesOf, List.filter_cons, carriesRuleID_inhibitRuleOf, decide_eq_true rfl,
      if_pos rfl, inhibitRulesOf_filter_self groups id (target :: rest)]

theorem inhibitRulesOf_filter_of_ne (groups : List String) {id id' : String} (hne : id' ≠ id) :
    ∀ receivers : List RuleReceivers,
      (inhibitRulesOf groups id receivers).filter (carriesRuleID id') = []
  | [] => rfl
  | [_] => rfl
  | source :: target :: rest => by
    rw [inhibitRulesOf, List.filter_cons, carriesRuleID_inhibitRuleOf,
      decide_eq_false hne.symm, if_neg Bool.false_ne_true,
      inhibitRulesOf_filter_of_ne groups hne (target :: rest)]

variable {G B H : Type} {env : ManagerEnv V Q G B H} {plan : CallPlan}
variable {orgID id : String} {d rule : PostableRule V Q}

/-- What `EditRule` and `CreateRule` ask for. -/
def requestedRouting (env : ManagerEnv V Q G B H) (plan : CallPlan) (orgID id : String)
    (rule : PostableRule V Q) : Routing where
  routes := ((rule.getRuleRouteRequest env.sort id).getD []).map
    (PostableRoutePolicy.routePolicy orgID)
  inhibitRules :=
    ((rule.sortThresholds env.sort).getInhibitRules env.sort plan.order id).getD []

/-- The routing is the one of the definition. The thresholds may have been sorted some times
before, and the keys of the notification group come in any order. -/
structure Follows (env : ManagerEnv V Q G B H) (orgID id : String) (d : PostableRule V Q)
    (routing : Routing) : Prop where
  policies : d.usesPolicies = true → routing = .none
  routes : d.usesPolicies = false → ∃ request, d.getRuleRouteRequest env.sort id = some request ∧
    routing.routes.Perm (request.map (PostableRoutePolicy.routePolicy orgID))
  inhibitRules : d.usesPolicies = false → ∃ e order, UsedAs env.sort d e ∧
    (∀ l : List String, (order l).Perm l) ∧
      e.getInhibitRules env.sort order id = some routing.inhibitRules

/-- What is asked for with a definition that has thresholds is its routing. -/
theorem follows_requestedRouting {ts : List (BasicRuleThreshold V)}
    (hts : d.getRuleThreshold = some ts) (hown : d.usesPolicies = false)
    (hused : UsedAs env.sort d rule) :
    Follows env orgID id d (requestedRouting env plan orgID id rule) := by
  obtain ⟨us, hus, hperm⟩ := hused.getRuleThreshold env.sort_perm hts
  refine ⟨?_, fun _ => ?_, fun _ => ?_⟩
  · intro hpolicies
    rw [hown] at hpolicies
    cases hpolicies
  · refine ⟨routeRequests env.sort id ts, ?_, ?_⟩
    · rw [PostableRule.getRuleRouteRequest, hts, Option.map_some]
    · rw [requestedRouting, PostableRule.getRuleRouteRequest, hus, Option.map_some,
        Option.getD_some]
      apply List.Perm.map
      apply List.Perm.map
      apply List.Perm.map
      exact ((env.sort_perm us).trans hperm).trans (env.sort_perm ts).symm
  · refine ⟨rule.sortThresholds env.sort, plan.order, hused.sortThresholds, plan.order_perm, ?_⟩
    rw [requestedRouting, PostableRule.getInhibitRules, getRuleThreshold_sortThresholds, hus]
    rfl

/-- What is asked for is named after the rule and carries its id. -/
theorem requestedRouting_self (env : ManagerEnv V Q G B H) (plan : CallPlan) (orgID id : String)
    (rule : PostableRule V Q) :
    routesNamed orgID id (requestedRouting env plan orgID id rule).routes =
        (requestedRouting env plan orgID id rule).routes ∧
      (requestedRouting env plan orgID id rule).inhibitRules.filter (carriesRuleID id) =
        (requestedRouting env plan orgID id rule).inhibitRules := by
  rw [requestedRouting, PostableRule.getRuleRouteRequest, PostableRule.getInhibitRules,
    getRuleThreshold_sortThresholds]
  cases rule.getRuleThreshold with
  | none => exact ⟨rfl, rfl⟩
  | some ts =>
    refine ⟨?_, inhibitRulesOf_filter_self _ id _⟩
    apply List.filter_eq_self.2
    intro r hr
    obtain ⟨request, hrequest, rfl⟩ := List.mem_map.1 hr
    have hname : request.name = id := routeRequests_name request hrequest
    simp [PostableRoutePolicy.routePolicy, hname]

/-- What is asked for has nothing to do with another rule. -/
theorem requestedRouting_of_ne (env : ManagerEnv V Q G B H) (plan : CallPlan) (orgID : String)
    (rule : PostableRule V Q) {id' : String} (hne : id' ≠ id) :
    routesNamed orgID id' (requestedRouting env plan orgID id rule).routes = [] ∧
      (requestedRouting env plan orgID id rule).inhibitRules.filter (carriesRuleID id') = [] := by
  rw [requestedRouting, PostableRule.getRuleRouteRequest, PostableRule.getInhibitRules,
    getRuleThreshold_sortThresholds]
  cases rule.getRuleThreshold with
  | none => exact ⟨rfl, rfl⟩
  | some ts =>
    refine ⟨?_, inhibitRulesOf_filter_of_ne _ hne _⟩
    apply List.filter_eq_nil_iff.2
    intro r hr
    obtain ⟨request, hrequest, rfl⟩ := List.mem_map.1 hr
    have hname : request.name = id := routeRequests_name request hrequest
    simp [PostableRoutePolicy.routePolicy, hname, hne.symm]

end Requested

/-! ## Definitions that are validated -/

section Validated

variable {V Q : Type} [Float64 V] (codec : RuleCodec V Q)

/-- A definition that was read and validated has thresholds and notification settings. -/
theorem settings_of_validate {old r : PostableRule V Q} {text : String}
    (hread : old.unmarshalJSON codec text = some r) (hvalid : r.validate codec = true) :
    (∃ ts, r.getRuleThreshold = some ts) ∧ r.notificationSettings.isSome = true := by
  obtain ⟨read, -, rfl⟩ := unmarshalJSON_eq_some codec hread
  obtain ⟨c, hc, hq⟩ := condition_of_validate codec hvalid
  generalize hr : read.processRuleDefaults = r at hc hvalid ⊢
  have hfilled : Filled r c := by
    rw [← hr] at hc ⊢
    exact filled_processRuleDefaults hc hq
  by_cases hv1 : r.schemaVersion = defaultSchemaVersion
  · rw [← hfilled.derived hv1]
    exact ⟨⟨_, rfl⟩, rfl⟩
  · rw [PostableRule.validate, hc] at hvalid
    simp only [if_neg hv1, Bool.and_eq_true] at hvalid
    have hv2 := hvalid.2
    split at hv2
    · rw [PostableRule.validateV2Alpha1, Bool.and_eq_true, Bool.and_eq_true] at hv2
      obtain ⟨⟨hts, -⟩, hns⟩ := hv2
      refine ⟨?_, ?_⟩
      · rw [PostableRule.getRuleThreshold, hc]
        exact Option.isSome_iff_exists.1 hts
      · cases hsettings : r.notificationSettings with
        | none =>
          rw [hsettings] at hns
          cases hns
        | some ns => rfl
    · cases hv2

end Validated

/-! ## What the calls do to the routing -/

section Calls

variable {V Q G B H : Type} {env : ManagerEnv V Q G B H} {plan : CallPlan}
variable {orgID id id' : String} {rule : PostableRule V Q} {routes : List RoutePolicy}
variable {rules : List StoredRule} {w w' : World V Q G B}

/-- The routing of a rule that has its own: what is asked for comes after what is left, and after
the inhibit rules that are committed. -/
theorem afterRoutingWorld_own (hown : rule.routesItself = true)
    (hconfig : (w.db.configs orgID).isSome = true) :
    (afterRoutingWorld env plan w.db orgID id rule routes (w.withRules rules)).db.routing orgID id' =
      ⟨routesNamed orgID id' (routes ++ (requestedRouting env plan orgID id rule).routes),
        (w.db.inhibitRules orgID ++ (requestedRouting env plan orgID id rule).inhibitRules).filter
          (carriesRuleID id')⟩ := by
  obtain ⟨c, hc⟩ := Option.isSome_iff_exists.1 hconfig
  have hbefore : w.db.inhibitRules orgID = c.inhibitRules := by rw [Database.inhibitRules, hc]
  rw [afterRoutingWorld, if_pos hown, hc, hbefore, Database.routing, Database.inhibitRules]
  simp only [routedWorld, Database.setConfig, if_true]
  rfl

/-- A rule that leaves routing to policies leaves all routing in place. -/
theorem afterRoutingWorld_policies (hpolicies : rule.routesItself = false) :
    (afterRoutingWorld env plan w.db orgID id rule routes (w.withRules rules)).db.routing orgID id' =
      w.db.routing orgID id' := by
  rw [afterRoutingWorld, if_neg (Bool.eq_false_iff.1 hpolicies)]
  rfl

/-- The routing of another rule stays. -/
theorem afterRoutingWorld_other (hne : id' ≠ id)
    (hconfig : rule.routesItself = true → (w.db.configs orgID).isSome = true)
    (hroutes : routesNamed orgID id' routes = routesNamed orgID id' w.db.routes) :
    (afterRoutingWorld env plan w.db orgID id rule routes (w.withRules rules)).db.routing orgID id' =
      w.db.routing orgID id' := by
  cases hown : rule.routesItself with
  | false => exact afterRoutingWorld_policies hown
  | true =>
    obtain ⟨hnone, hnone'⟩ := requestedRouting_of_ne env plan orgID rule hne
    rw [afterRoutingWorld_own hown (hconfig hown), routesNamed_append, List.filter_append, hnone,
      hnone', List.append_nil, List.append_nil, hroutes]
    rfl

variable {committed : Database G B}

theorem config_of_createRoutingPasses
    (h : createRoutingPasses env plan committed orgID id rule = true) :
    (committed.configs orgID).isSome = true := by
  rw [createRoutingPasses] at h
  split at h
  · cases h
  · exact (Bool.and_eq_true_iff.1 h).2

theorem config_of_createRoutingAccepted
    (h : createRoutingAccepted env plan committed orgID id rule = true)
    (hown : rule.routesItself = true) : (committed.configs orgID).isSome = true := by
  rw [createRoutingAccepted, hown, Bool.not_true, Bool.false_or, Bool.and_eq_true] at h
  exact config_of_createRoutingPasses h.2

theorem config_of_editRoutingAccepted
    (h : editRoutingAccepted env plan committed orgID id rule = true)
    (hown : rule.routesItself = true) : (committed.configs orgID).isSome = true := by
  rw [editRoutingAccepted, hown, Bool.not_true, Bool.false_or, Bool.and_eq_true, editRoutingPasses,
    Bool.and_eq_true] at h
  exact config_of_createRoutingPasses h.2.2

/-- A rule with notification settings has routing of its own or uses policies. -/
theorem routesItself_eq (h : rule.notificationSettings.isSome = true) :
    rule.routesItself = !rule.usesPolicies := by
  obtain ⟨ns, hns⟩ := Option.isSome_iff_exists.1 h
  rw [PostableRule.routesItself, PostableRule.usesPolicies, hns]

end Calls

/-! ## The invariant -/

section Follow

variable {V Q G B H : Type} [Float64 V] {env : ManagerEnv V Q G B H} {plan : CallPlan}
variable {orgID id : String} {deleted deleted' : List String} {w w' : World V Q G B}

/-- The routing of each stored rule of the org is the one of its definition, and what was deleted
has none. -/
structure RoutingFollows (env : ManagerEnv V Q G B H) (orgID : String) (deleted : List String)
    (w : World V Q G B) : Prop where
  stored : ∀ r ∈ w.db.rules, r.orgID = orgID → ∀ d, parseRule env.codec r.data = some d →
    Follows env orgID r.id d (w.db.routing orgID r.id)
  deleted : ∀ id ∈ deleted, (∀ r ∈ w.db.rules, r.id ≠ id) → w.db.routing orgID id = .none

/-- What a call on one rule has to keep: the routing of the others, and what it makes of its
own. -/
structure KeepsRouting (env : ManagerEnv V Q G B H) (orgID id : String) (w w' : World V Q G B) :
    Prop where
  /-- The other rules are the same. -/
  rules : ∀ r : StoredRule, r.id ≠ id → (r ∈ w'.db.rules ↔ r ∈ w.db.rules)
  others : ∀ r ∈ w.db.rules, r.orgID = orgID → r.id ≠ id →
    w'.db.routing orgID r.id = w.db.routing orgID r.id
  gone : ∀ id', id' ≠ id → w.db.routing orgID id' = .none → w'.db.routing orgID id' = .none
  own : ∀ r ∈ w'.db.rules, r.orgID = orgID → r.id = id → ∀ d, parseRule env.codec r.data = some d →
    Follows env orgID id d (w'.db.routing orgID id)

/-- The step of the invariant, for the id of the call. -/
theorem RoutingFollows.step (h : RoutingFollows env orgID deleted w)
    (hkeeps : KeepsRouting env orgID id w w') (hsub : ∀ id' ∈ deleted', id' ≠ id → id' ∈ deleted)
    (hgone : id ∈ deleted' → (∀ r ∈ w'.db.rules, r.id ≠ id) → w'.db.routing orgID id = .none) :
    RoutingFollows env orgID deleted' w' := by
  refine ⟨?_, ?_⟩
  · intro r hr horg d hd
    by_cases hid : r.id = id
    · rw [hid]
      exact hkeeps.own r hr horg hid d hd
    · have hbefore : r ∈ w.db.rules := (hkeeps.rules r hid).1 hr
      rw [hkeeps.others r hbefore horg hid]
      exact h.stored r hbefore horg d hd
  · intro id' hid' hnot
    by_cases hid : id' = id
    · subst hid
      exact hgone hid' hnot
    · apply hkeeps.gone id' hid
      apply h.deleted id' (hsub id' hid' hid)
      intro r hr heq
      have hne : r.id ≠ id := fun h => hid (heq.symm.trans h)
      exact hnot r ((hkeeps.rules r hne).2 hr) heq

/-- A definition that was read and validated gets its routing where what is left in place is
empty: everything if it uses policies, and else what the new routing is added to. -/
theorem follows_afterRouting {old rule : PostableRule V Q} {text : String}
    {routes : List RoutePolicy} {rules : List StoredRule}
    (hread : old.unmarshalJSON env.codec text = some rule)
    (hvalid : rule.validate env.codec = true)
    (hconfig : (rule.sortThresholds env.sort).routesItself = true →
      (w.db.configs orgID).isSome = true)
    (hpolicies : rule.usesPolicies = true → w.db.routing orgID id = .none)
    (hown : rule.usesPolicies = false →
      routesNamed orgID id routes = [] ∧ (w.db.routing orgID id).inhibitRules = []) :
    Follows env orgID id rule
      ((afterRoutingWorld env plan w.db orgID id (rule.sortThresholds env.sort) routes
        (w.withRules rules)).db.routing orgID id) := by
  obtain ⟨⟨ts, hts⟩, hsettings⟩ := settings_of_validate env.codec hread hvalid
  have hused : UsedAs env.sort rule (rule.sortThresholds env.sort) :=
    (UsedAs.refl rule).sortThresholds
  have hroutes : (rule.sortThresholds env.sort).routesItself = !rule.usesPolicies :=
    routesItself_eq hsettings
  cases huses : rule.usesPolicies with
  | true =>
    rw [huses] at hroutes
    rw [afterRoutingWorld_policies hroutes, hpolicies huses]
    refine ⟨fun _ => rfl, ?_, ?_⟩
    · exact fun h => absurd (huses.symm.trans h) Bool.false_ne_true.symm
    · exact fun h => absurd (huses.symm.trans h) Bool.false_ne_true.symm
  | false =>
    rw [huses] at hroutes
    obtain ⟨hleft, hinhibit⟩ := hown huses
    have hcarried : (w.db.inhibitRules orgID).filter (carriesRuleID id) = [] := hinhibit
    obtain ⟨hself, hself'⟩ :=
      requestedRouting_self env plan orgID id (rule.sortThresholds env.sort)
    rw [afterRoutingWorld_own hroutes (hconfig hroutes), routesNamed_append, List.filter_append,
      hleft, hcarried, hself, hself', List.nil_append, List.nil_append]
    exact follows_requestedRouting hts huses hused

variable {ruleStr : String}

/-- A new rule gets its routing where none carries its id. -/
theorem keepsRouting_create {rule : PostableRule V Q} {task : Task V Q}
    (hcreated : RuleCreated env plan orgID ruleStr id w w' rule task)
    (hfree : w.db.routing orgID id = .none) : KeepsRouting env orgID id w w' := by
  have hconfig : (rule.sortThresholds env.sort).routesItself = true →
      (w.db.configs orgID).isSome = true :=
    fun hown => config_of_createRoutingAccepted hcreated.routing hown
  have hrules := hcreated.rules
  have hother : ∀ id', id' ≠ id → w'.db.routing orgID id' = w.db.routing orgID id' := by
    intro id' hne
    rw [hcreated.db]
    exact afterRoutingWorld_other hne hconfig rfl
  refine ⟨?_, fun r _ _ hid => hother r.id hid, fun id' hid h => (hother id' hid).trans h, ?_⟩
  · intro r hid
    rw [hrules, List.mem_append, List.mem_singleton]
    refine ⟨fun h => h.resolve_right ?_, Or.inl⟩
    rintro rfl
    exact hid rfl
  · intro r hr _ hid d hd
    rw [hrules, List.mem_append, List.mem_singleton] at hr
    obtain rfl := hr.resolve_left fun hbefore => hcreated.fresh r hbefore hid
    obtain rfl := Option.some.inj (hcreated.read.symm.trans hd)
    rw [hcreated.db]
    have hempty := Routing.mk.inj hfree
    exact follows_afterRouting hcreated.read hcreated.valid hconfig (fun _ => hfree)
      fun _ => hempty

/-- An edited rule gets its routing where no inhibit rule carries its id, and where nothing does
if it uses policies. -/
theorem keepsRouting_edit {row : StoredRule} {rule used : PostableRule V Q}
    (hdeploys : EditDeploys env plan orgID ruleStr id w row rule used)
    (hdb : w'.db = (editedWorld env plan orgID ruleStr id row rule w).db)
    (hpolicies : rule.usesPolicies = true → w.db.routing orgID id = .none)
    (hown : rule.usesPolicies = false → (w.db.routing orgID id).inhibitRules = []) :
    KeepsRouting env orgID id w w' := by
  have hrow : row.id = id := storedRule_id hdeploys.stored
  have hconfig : (rule.sortThresholds env.sort).routesItself = true →
      (w.db.configs orgID).isSome = true :=
    fun hown => config_of_editRoutingAccepted hdeploys.routing hown
  have hrules : w'.db.rules = updateRule { row with data := ruleStr } w.db.rules := by
    rw [hdb, editedWorld, afterRoutingWorld_rules]
    rfl
  have hother : ∀ id', id' ≠ id → w'.db.routing orgID id' = w.db.routing orgID id' := by
    intro id' hne
    rw [hdb]
    exact afterRoutingWorld_other hne hconfig (routesNamed_routesWithout_of_ne hne _)
  refine ⟨?_, fun r _ _ hid => hother r.id hid, fun id' hid h => (hother id' hid).trans h, ?_⟩
  · intro r hid
    rw [hrules, mem_updateRule_of_ne]
    exact fun h => hid (h.trans hrow)
  · intro r hr _ hid d hd
    rw [hrules] at hr
    obtain rfl := eq_of_mem_updateRule hr (hid.trans hrow.symm)
    obtain rfl := Option.some.inj (hdeploys.read.symm.trans hd)
    rw [hdb]
    exact follows_afterRouting hdeploys.read hdeploys.valid hconfig hpolicies fun h =>
      ⟨routesNamed_routesWithout_self orgID id _, hown h⟩

/-- A patched rule has its routing where that is the one in place. -/
theorem keepsRouting_patch {row : StoredRule} {old rule used : PostableRule V Q}
    (hdeploys : PatchDeploys env plan orgID ruleStr id w row old rule used)
    (hdb : w'.db = (w.withRules (patchedRules env row used w)).db)
    (hplace : Follows env orgID id (rule.sortThresholds env.sort) (w.db.routing orgID id)) :
    KeepsRouting env orgID id w w' := by
  have hrow : row.id = id := storedRule_id hdeploys.stored
  have hrules : w'.db.rules =
      updateRule { row with data := used.marshalJSON env.codec } w.db.rules := by
    rw [hdb]
    rfl
  have hsame : ∀ id', w'.db.routing orgID id' = w.db.routing orgID id' := by
    intro id'
    rw [hdb]
    rfl
  refine ⟨?_, fun r _ _ _ => hsame r.id, fun id' _ h => (hsame id').trans h, ?_⟩
  · intro r hid
    rw [hrules, mem_updateRule_of_ne]
    exact fun h => hid (h.trans hrow)
  · intro r hr _ hid d hd
    rw [hrules] at hr
    obtain rfl := eq_of_mem_updateRule hr (hid.trans hrow.symm)
    have hused : UsedAs env.sort rule used := by
      rw [← hdeploys.used_eq]
      exact (UsedAs.refl rule).sortThresholds
    obtain rfl := parseRule_marshalJSON env.codec env.sort_perm hdeploys.read hdeploys.valid hused hd
    rw [hsame, ← hdeploys.used_eq]
    exact hplace

/-- `DeleteRuleIDInhibitor` for an id takes no inhibit rule out that carries the id of another
stored rule. -/
def DeletesOwn (env : ManagerEnv V Q G B H) (orgID id : String) (w : World V Q G B) : Prop :=
  ∀ rule ∈ w.db.inhibitRules orgID, removedWith env.regexpMatches id rule = true →
    ∀ r ∈ w.db.rules, r.orgID = orgID → r.id ≠ id → carriesRuleID r.id rule = false

omit [Float64 V] in
/-- What carries an id is taken out with it. -/
theorem removedWith_of_carries {regexpMatches : String → String → Bool} {rule : InhibitRule}
    (h : carriesRuleID id rule = true) : removedWith regexpMatches id rule = true := by
  obtain ⟨m, hm, heq⟩ := List.any_eq_true.1 h
  obtain rfl := of_decide_eq_true heq
  have hmatches : (Matcher.equal labelRuleID id).matches regexpMatches id = true :=
    decide_eq_true rfl
  rw [removedWith, Bool.or_eq_true]
  rcases List.mem_append.1 hm with hsource | htarget
  · exact Or.inl (List.any_eq_true.2 ⟨_, hsource, hmatches⟩)
  · exact Or.inr (List.any_eq_true.2 ⟨_, htarget, hmatches⟩)

omit [Float64 V] in
/-- The inhibit rules after a rule is deleted are those that are not taken out with it. -/
theorem inhibitRules_of_deleted (hdeleted : RuleDeleted env orgID id w w') :
    w'.db.inhibitRules orgID =
      (w.db.inhibitRules orgID).filter fun rule => !removedWith env.regexpMatches id rule := by
  obtain ⟨c, hc, hc'⟩ := hdeleted.config
  rw [Database.inhibitRules, hc', Database.inhibitRules, hc]
  apply List.filter_congr
  intro rule _
  rw [removedWith, Bool.not_or]

omit [Float64 V] in
/-- A deleted rule has no routing. -/
theorem routing_of_deleted (hdeleted : RuleDeleted env orgID id w w') :
    w'.db.routing orgID id = .none := by
  rw [Database.routing, hdeleted.routes, routesNamed_routesWithout_self,
    inhibitRules_of_deleted hdeleted, List.filter_filter]
  refine congrArg (Routing.mk []) (List.filter_eq_nil_iff.2 ?_)
  intro rule _ hboth
  obtain ⟨hcarries, hkept⟩ := Bool.and_eq_true_iff.1 hboth
  rw [removedWith_of_carries hcarries] at hkept
  cases hkept

theorem keepsRouting_delete (hdeleted : RuleDeleted env orgID id w w')
    (hown : DeletesOwn env orgID id w) : KeepsRouting env orgID id w w' := by
  have hrouting : ∀ id', id' ≠ id → w'.db.routing orgID id' =
      ⟨routesNamed orgID id' w.db.routes, ((w.db.inhibitRules orgID).filter
        (carriesRuleID id')).filter fun rule => !removedWith env.regexpMatches id rule⟩ := by
    intro id' hne
    rw [Database.routing, hdeleted.routes, routesNamed_routesWithout_of_ne hne,
      inhibitRules_of_deleted hdeleted, List.filter_filter, List.filter_filter]
    simp only [Bool.and_comm]
  refine ⟨?_, ?_, ?_, ?_⟩
  · intro r hid
    rw [hdeleted.rules, List.mem_filter]
    exact ⟨And.left, fun h => ⟨h, decide_eq_true hid⟩⟩
  · intro r hr horg hid
    rw [hrouting r.id hid]
    refine congrArg (Routing.mk _) (List.filter_eq_self.2 ?_)
    intro rule hrule
    obtain ⟨hmem, hcarries⟩ := List.mem_filter.1 hrule
    by_contra hremoved
    have hfalse := hown rule hmem (Bool.not_not_eq.1 (by simpa using hremoved)) r hr horg hid
    rw [hfalse] at hcarries
    cases hcarries
  · intro id' hid hnone
    obtain ⟨hroutes, hinhibit⟩ := Routing.mk.inj hnone
    rw [hrouting id' hid, hroutes, hinhibit]
    rfl
  · intro r hr _ hid d _
    rw [hdeleted.rules] at hr
    exact absurd hid (of_decide_eq_true (List.mem_filter.1 hr).2)

/-- The condition on a call: a new id is new to the routing, an edit has nothing in place that it
does not replace, a patch has in place what the patched definition asks for, and a deletion takes
no inhibit rule of another stored rule. -/
def MeetsRouting (env : ManagerEnv V Q G B H) (w : World V Q G B) (c : PlannedCall) : Prop :=
  match c.call with
  | .create _ id => w.db.routing c.orgID id = .none
  | .change (.edit ruleStr) id => ∀ d, parseRule env.codec ruleStr = some d →
      (d.usesPolicies = true → w.db.routing c.orgID id = .none) ∧
        (d.usesPolicies = false → (w.db.routing c.orgID id).inhibitRules = [])
  | .change (.patch ruleStr) id => ∀ d, (RuleChange.patch ruleStr).definition env id w = some d →
      Follows env c.orgID id (d.sortThresholds env.sort) (w.db.routing c.orgID id)
  | .delete id => DeletesOwn env c.orgID id w

/-- The id of a rule that a call deletes. -/
def PlannedCall.deletedID (c : PlannedCall) : Option String :=
  match c.call with
  | .delete id => some id
  | _ => none

/-- The ids that calls delete. -/
def deletedIDs (calls : List PlannedCall) : List String := calls.filterMap PlannedCall.deletedID

/-- A call that meets the condition keeps the invariant. -/
theorem routingFollows_step {c : PlannedCall} {calls : List PlannedCall}
    (h : RoutingFollows env c.orgID (deletedIDs calls) w) (hmeets : MeetsRouting env w c)
    (hstep : callStep env w c = some w') :
    RoutingFollows env c.orgID (deletedIDs (calls ++ [c])) w' := by
  have hdeleted : deletedIDs (calls ++ [c]) = deletedIDs calls ++ c.deletedID.toList := by
    rw [deletedIDs, List.filterMap_append]
    cases hid : c.deletedID <;> simp [deletedIDs, hid]
  have hrun := callStep_eq_some.1 hstep
  obtain ⟨orgID, plan, call⟩ := c
  rw [hdeleted]
  -- A rule that the call leaves stored is not among those that are gone.
  have hstays : ∀ {id r}, KeepsRouting env orgID id w w' → r ∈ w'.db.rules → r.id = id →
      RoutingFollows env orgID (deletedIDs calls ++ []) w' := by
    intro id r hkeeps hr hid
    rw [List.append_nil]
    exact h.step hkeeps (fun _ hid' _ => hid') fun _ hnot => absurd hid (hnot r hr)
  cases call with
  | create ruleStr id =>
    obtain ⟨rule, task, hcreated⟩ := createRule_ok hrun
    have hmem : (⟨id, orgID, ruleStr⟩ : StoredRule) ∈ w'.db.rules := by
      rw [hcreated.rules]
      exact List.mem_append_right _ (List.mem_singleton_self _)
    exact hstays (keepsRouting_create hcreated hmeets) hmem rfl
  | change change id =>
    obtain ⟨row, text, rule, used, hdefinition, hchanged⟩ := ruleChange_ok hrun
    have hrow : row.id = id := storedRule_id hchanged.stored
    have hmem : { row with data := text } ∈ w'.db.rules := by
      rw [hchanged.rules]
      exact List.mem_map.2 ⟨row, List.mem_of_find?_eq_some hchanged.stored, if_pos rfl⟩
    cases change with
    | edit ruleStr =>
      obtain ⟨row', rule', used', hdeploys, hw'⟩ := editRule_ok hrun
      obtain ⟨hpolicies, hown⟩ := hmeets rule' hdeploys.read
      have hdb : w'.db = (editedWorld env plan orgID ruleStr id row' rule' w).db := by
        rw [hw']
        rfl
      exact hstays (keepsRouting_edit hdeploys hdb hpolicies hown) hmem hrow
    | patch ruleStr =>
      obtain ⟨row', old, rule', used', hdeploys, hw'⟩ := patchRule_ok hrun
      have hpatched : (RuleChange.patch ruleStr).definition env id w = some rule' := by
        rw [RuleChange.definition, hdeploys.stored, Option.bind_some, hdeploys.parses,
          Option.bind_some, hdeploys.read]
      have hdb : w'.db = (w.withRules (patchedRules env row' used' w)).db := by
        rw [hw']
        rfl
      exact hstays (keepsRouting_patch hdeploys hdb (hmeets rule' hpatched)) hmem hrow
  | delete id =>
    have hgone := deleteRule_ok hrun
    refine h.step (keepsRouting_delete hgone hmeets) ?_ fun _ _ => routing_of_deleted hgone
    intro id' hid' hne
    rcases List.mem_append.1 hid' with hbefore | hnow
    · exact hbefore
    · exact absurd (List.mem_singleton.1 hnow) hne

/-- In a run of calls of one org that all meet the condition, the routing follows the stored
definitions, and what was deleted has none. -/
theorem routing_follows_rules (hstart : RoutingFollows env orgID [] w) (calls : List PlannedCall)
    (horg : ∀ c ∈ calls, c.orgID = orgID)
    (hmeets : StepsMeet (callStep env) (MeetsRouting env) w calls)
    (hcalls : exec (callStep env) w calls = some w') :
    RoutingFollows env orgID (deletedIDs calls) w' := by
  have hrun := exec_invariant_of_stepsMeet
    (I := fun done m => (∀ c ∈ done, c.orgID = orgID) → RoutingFollows env orgID (deletedIDs done) m)
    (fun _ => hstart) ?_ calls w' hmeets hcalls
  · exact hrun horg
  · intro done m c t hdone hmeet hstep horgs
    have hc : c.orgID = orgID := horgs c (List.mem_append_right _ (List.mem_singleton_self c))
    have hbefore := hdone fun b hb => horgs b (List.mem_append_left _ hb)
    subst hc
    exact routingFollows_step hbefore hmeet hstep

end Follow

/-! ## A rule that is created and edited -/

theorem length_inhibitRulesOf (groups : List String) (id : String) :
    ∀ receivers : List RuleReceivers,
      (inhibitRulesOf groups id receivers).length = receivers.length - 1
  | [] => rfl
  | [_] => rfl
  | source :: target :: rest => by
    rw [inhibitRulesOf, List.length_cons, length_inhibitRulesOf groups id (target :: rest)]
    rfl

/-- A definition has one inhibit rule fewer than thresholds. -/
theorem Follows.length_inhibitRules {V Q G B H : Type} {env : ManagerEnv V Q G B H}
    {orgID id : String} {d : PostableRule V Q} {routing : Routing}
    {ts : List (BasicRuleThreshold V)} (h : Follows env orgID id d routing)
    (hown : d.usesPolicies = false) (hts : d.getRuleThreshold = some ts) :
    routing.inhibitRules.length = ts.length - 1 := by
  obtain ⟨e, order, hused, -, hrules⟩ := h.inhibitRules hown
  obtain ⟨us, hus, hperm⟩ := hused.getRuleThreshold env.sort_perm hts
  rw [PostableRule.getInhibitRules, hus, Option.map_some] at hrules
  rw [← Option.some.inj hrules, getInhibitRules, length_inhibitRulesOf, getRuleReceivers, List.length_map,
    (env.sort_perm us).length_eq, hperm.length_eq]

/-- A rule is created. -/
def createCPU : PlannedCall := ⟨"o1", .smooth, .create (cpuText "CPU high" "false" "false") "r1"⟩

/-- The rule gets another name. -/
def renameCPU : PlannedCall := ⟨"o1", .smooth, .change newName "r1"⟩

/-- Nothing is stored. -/
def emptyWorld : World ℚ Unit Unit String := ⟨plainDatabase [], emptyMemory⟩

theorem routingFollows_emptyWorld : RoutingFollows cpuEnv "o1" [] emptyWorld :=
  ⟨fun _ hr => (nomatch hr), fun _ hid => (nomatch hid)⟩

/-- After the edit the rule has the inhibit rule of before and that of its definition. -/
theorem edit_doubles_inhibitRules :
    RoutingFollows cpuEnv "o1" [] emptyWorld ∧
      ∃ w', exec (callStep cpuEnv) emptyWorld [createCPU, renameCPU] = some w' ∧
        ¬ RoutingFollows cpuEnv "o1" (deletedIDs [createCPU, renameCPU]) w' := by
  refine ⟨routingFollows_emptyWorld, ?_⟩
  have hrun : endsWith ((createRule cpuEnv .smooth "o1" (cpuText "CPU high" "false" "false") "r1" >>=
      fun _ => editRule cpuEnv .smooth "o1" (cpuText "CPU full" "false" "false") "r1") emptyWorld)
        (fun w => decide ((w.db.routing "o1" "r1").inhibitRules.length = 2)) = true := by
    rw [createRule, editRule, parseRule_cpuText.1, parseRule_cpuText.2.1]
    decide +kernel
  obtain ⟨u, w', hboth, hlength⟩ := exists_of_endsWith hrun
  obtain ⟨v, m, hcreate, hedit⟩ := bind_eq_ok.1 hboth
  have hcalls : exec (callStep cpuEnv) emptyWorld [createCPU, renameCPU] = some w' := by
    have hfirst : callStep cpuEnv emptyWorld createCPU = some m := callStep_eq_some.2 hcreate
    have hsecond : callStep cpuEnv m renameCPU = some w' := callStep_eq_some.2 hedit
    rw [exec_cons _ hfirst, exec_cons _ hsecond, exec_nil]
  refine ⟨w', hcalls, fun hfollows => ?_⟩
  have hread := parseRule_cpuText.2.1
  have hmem : (⟨"r1", "o1", cpuText "CPU full" "false" "false"⟩ : StoredRule) ∈ w'.db.rules := by
    obtain ⟨rule, task, hcreated⟩ := createRule_ok hcreate
    obtain ⟨row, d, used, hdeploys, rfl⟩ := editRule_ok hedit
    have hrow := hdeploys.stored
    rw [hcreated.rules] at hrow
    obtain rfl := Option.some.inj hrow
    show _ ∈ (editedWorld _ _ _ _ _ _ _ _).db.rules
    rw [editedWorld, afterRoutingWorld_rules]
    show _ ∈ updateRule _ m.db.rules
    rw [hcreated.rules]
    exact List.mem_singleton_self _
  have hone := (hfollows.stored _ hmem rfl _ hread).length_inhibitRules rfl rfl
  rw [of_decide_eq_true hlength] at hone
  exact absurd hone (by decide)

/-- A rule is created and deleted. -/
theorem routing_follows_rules_cpu :
    ∃ w', exec (callStep cpuEnv) emptyWorld [createCPU, ⟨"o1", .smooth, .delete "r1"⟩] = some w' ∧
      RoutingFollows cpuEnv "o1" (deletedIDs [createCPU, ⟨"o1", .smooth, .delete "r1"⟩]) w' := by
  have hrun : (exec (callStep cpuEnv) emptyWorld
      [createCPU, ⟨"o1", .smooth, .delete "r1"⟩]).isSome = true := by
    decide +kernel
  obtain ⟨w', hcalls⟩ := Option.isSome_iff_exists.1 hrun
  refine ⟨w', hcalls, routing_follows_rules routingFollows_emptyWorld _ ?_ ?_ hcalls⟩
  · decide
  · refine ⟨rfl, fun m hm => ⟨?_, fun _ _ => trivial⟩⟩
    -- No other rule is stored.
    intro rule _ _ r hr _ hne
    obtain ⟨created, task, hcreated⟩ := createRule_ok (callStep_eq_some.1 hm)
    rw [hcreated.rules] at hr
    exact absurd (congrArg StoredRule.id (List.mem_singleton.1 hr)) hne

end Signoz.Rules
