import Signoz.Rules.RuleChanges

/-!
# Tasks and stored rules

The tasks that `initiate` starts, and what the calls on rules do to them. `TasksMirror` says that
the tasks are those of the enabled rules. Two places leave it: the loop over the orgs ends at the
first org without rules, and `CreateRule` adds a task for a disabled definition.
-/

namespace Signoz.Rules

open Signoz.Querier Signoz.Alertmanager Lib.FailingCalls Lib.Runs

/-! ## Starting -/

section Start

variable {V Q G B H : Type} {env : ManagerEnv V Q G B H} {plan : CallPlan}
variable {orgID id : String} {w w' : World V Q G B}

/-- The database and the tasks. -/
def World.tasksAndDatabase (w : World V Q G B) :
    (TaskName → Option (Task V Q)) × Database G B :=
  (w.memory.tasks, w.db)

theorem succeeds_eq_ok {x : ManagerM V Q G B Unit} {b : Bool} :
    succeeds x w = .ok b w' ↔
      x w = .ok () w' ∧ b = true ∨ (∃ e, x w = .error e w') ∧ b = false := by
  rw [succeeds]
  cases x w with
  | ok u s =>
    constructor
    · rintro ⟨⟩
      exact Or.inl ⟨rfl, rfl⟩
    · rintro (⟨⟨⟩, rfl⟩ | ⟨⟨e, h⟩, -⟩)
      · rfl
      · cases h
  | error e s =>
    constructor
    · rintro ⟨⟩
      exact Or.inr ⟨⟨e, rfl⟩, rfl⟩
    · rintro (⟨h, -⟩ | ⟨⟨e, ⟨⟩⟩, rfl⟩)
      · cases h
      · rfl

/-- Whether or not the settings are accepted, tasks and database stay. -/
theorem setNotificationSettings_succeeds {rule : PostableRule V Q} {b : Bool}
    (h : succeeds (setNotificationSettings orgID id rule) w = .ok b w') :
    w'.tasksAndDatabase = w.tasksAndDatabase := by
  have hkeeps : Keeps World.tasksAndDatabase
      (setNotificationSettings orgID id rule : ManagerM V Q G B Unit) := by
    rw [setNotificationSettings]
    split
    · exact keeps_pure ()
    · exact (keeps_ensure _ _).bind fun _ => keeps_modify fun _ => rfl
  rcases succeeds_eq_ok.1 h with ⟨h, -⟩ | ⟨⟨e, h⟩, -⟩
  · exact hkeeps.of_ok h
  · exact hkeeps.of_error h

/-- The tasks once a task is added to them: it takes the place of none. -/
def orTask (tasks : TaskName → Option (Task V Q)) (taskName : TaskName) (task : Option (Task V Q)) :
    TaskName → Option (Task V Q) :=
  fun n => if n = taskName then (tasks n).or task else tasks n

theorem orTask_none (tasks : TaskName → Option (Task V Q)) (taskName : TaskName) :
    orTask tasks taskName none = tasks := by
  funext n
  rw [orTask, Option.or_none, ite_self]

theorem orTask_of_some {tasks : TaskName → Option (Task V Q)} {taskName : TaskName}
    {old : Task V Q} (h : tasks taskName = some old) (task : Option (Task V Q)) :
    orTask tasks taskName task = tasks := by
  funext n
  by_cases hn : n = taskName
  · rw [orTask, if_pos hn, hn, h, Option.some_or]
  · rw [orTask, if_neg hn]

theorem orTask_of_free {tasks : TaskName → Option (Task V Q)} {taskName : TaskName}
    (h : tasks taskName = none) (task : Task V Q) :
    orTask tasks taskName (some task) = fun n => if n = taskName then some task else tasks n := by
  funext n
  by_cases hn : n = taskName
  · rw [orTask, if_pos hn, if_pos hn, hn, h, Option.none_or]
  · rw [orTask, if_neg hn, if_neg hn]

/-- A task that is added takes the place of none, and a task that is not leaves them all. -/
theorem addTask_succeeds {rule : PostableRule V Q} {taskName : TaskName} {b : Bool}
    (h : succeeds (addTask env orgID rule taskName) w = .ok b w') :
    w'.tasksAndDatabase =
      (orTask w.memory.tasks taskName (prepareTask env.task orgID rule taskName).toOption,
        w.db) := by
  rcases succeeds_eq_ok.1 h with ⟨h, -⟩ | ⟨⟨e, h⟩, -⟩
  · obtain ⟨t, hprepare, hfree, rfl⟩ := addTask_eq_ok.1 h
    rw [World.tasksAndDatabase, Memory.install_tasks, hprepare]
    exact congrArg (·, w.db) (orTask_of_free hfree t).symm
  · rw [addTask] at h
    cases hprepare : prepareTask env.task orgID rule taskName with
    | error pe =>
      rw [hprepare] at h
      cases h
      exact congrArg (·, w.db) (orTask_none _ _).symm
    | ok t =>
      simp only [hprepare, modifyMemory] at h
      -- The rules of the task are in the map already when the name turns out to be taken.
      rcases bind_eq_error.1 h with hmodify | ⟨_, m, hmodify, h⟩
      · cases hmodify
      obtain rfl := modify_eq_ok.1 hmodify
      rw [get_bind_apply, Memory.setRules_tasks] at h
      cases htask : w.memory.tasks taskName with
      | none =>
        rw [htask] at h
        cases h
      | some old =>
        rw [htask] at h
        cases h
        rw [World.tasksAndDatabase, Memory.setRules_tasks]
        exact congrArg (·, w.db) (orTask_of_some htask _).symm

section Loaded

variable [Float64 V]

/-- The task that loading a stored rule adds. -/
def startedTask (env : ManagerEnv V Q G B H) (rec : StoredRule) : Option (Task V Q) :=
  match parseRule env.codec rec.data with
  | none => none
  | some parsedRule =>
    if parsedRule.disabled then none
    else (prepareTask env.task rec.orgID parsedRule (prepareTaskName rec.id)).toOption

theorem startedTask_of_parse {rec : StoredRule} {d : PostableRule V Q}
    (h : parseRule env.codec rec.data = some d) :
    startedTask env rec =
      if d.disabled then none
      else (prepareTask env.task rec.orgID d (prepareTaskName rec.id)).toOption := by
  rw [startedTask, h]

/-- The tasks once a stored rule is loaded. -/
def loadTask (env : ManagerEnv V Q G B H) (tasks : TaskName → Option (Task V Q))
    (rec : StoredRule) : TaskName → Option (Task V Q) :=
  orTask tasks (prepareTaskName rec.id) (startedTask env rec)

/-- Loading a rule changes its own task, and nothing in the database. -/
theorem loadRule_ok {rec : StoredRule} {errors : List LoadError} (horg : rec.orgID = orgID)
    (h : loadRule env orgID rec w = .ok errors w') :
    w'.tasksAndDatabase = (loadTask env w.memory.tasks rec, w.db) := by
  subst horg
  rw [loadRule] at h
  rw [loadTask]
  cases hparse : parseRule env.codec rec.data with
  | none =>
    rw [hparse] at h
    obtain ⟨-, rfl⟩ := pure_eq_ok.1 h
    rw [startedTask, hparse]
    exact congrArg (·, w.db) (orTask_none _ _).symm
  | some parsedRule =>
    simp only [hparse] at h
    rw [startedTask_of_parse hparse]
    obtain ⟨isSet, m, hset, h⟩ := bind_eq_ok.1 h
    have hm := setNotificationSettings_succeeds hset
    have htasks : m.memory.tasks = w.memory.tasks := congrArg Prod.fst hm
    have hdb : m.db = w.db := congrArg Prod.snd hm
    cases hdisabled : parsedRule.disabled with
    | true =>
      simp only [hdisabled, Bool.not_true, Bool.false_eq_true, if_false] at h
      obtain ⟨-, rfl⟩ := pure_eq_ok.1 h
      rw [hm, if_pos rfl]
      exact congrArg (·, w.db) (orTask_none _ _).symm
    | false =>
      simp only [hdisabled, Bool.not_false, if_true] at h
      obtain ⟨added, l, hadd, h⟩ := bind_eq_ok.1 h
      obtain ⟨-, rfl⟩ := pure_eq_ok.1 h
      rw [addTask_succeeds hadd, htasks, hdb, if_neg Bool.false_ne_true]

/-- Loading rules is loading one after the other. -/
theorem loadRules_ok :
    ∀ {recs : List StoredRule} {w : World V Q G B} {errors : List LoadError},
      (∀ rec ∈ recs, rec.orgID = orgID) → loadRules env orgID recs w = .ok errors w' →
        w'.tasksAndDatabase = (recs.foldl (loadTask env) w.memory.tasks, w.db) := by
  intro recs
  induction recs with
  | nil =>
    intro w errors _ h
    obtain ⟨-, rfl⟩ := pure_eq_ok.1 h
    rfl
  | cons rec recs ih =>
    intro w errors horg h
    obtain ⟨horgHead, horgs⟩ := List.forall_mem_cons.1 horg
    rw [loadRules] at h
    obtain ⟨first, m, hfirst, h⟩ := bind_eq_ok.1 h
    obtain ⟨more, l, hmore, h⟩ := bind_eq_ok.1 h
    obtain ⟨-, rfl⟩ := pure_eq_ok.1 h
    have hm := loadRule_ok horgHead hfirst
    have htasks : m.memory.tasks = loadTask env w.memory.tasks rec := congrArg Prod.fst hm
    have hdb : m.db = w.db := congrArg Prod.snd hm
    rw [ih horgs hmore, htasks, hdb, List.foldl_cons]

/-- The stored rules of an org. -/
def rulesOf (rules : List StoredRule) (org : String) : List StoredRule :=
  rules.filter fun r => r.orgID = org

/-- The orgs that the loop gets to before it ends at one without rules. -/
def reachedOrgs (rules : List StoredRule) (orgs : List String) : List String :=
  orgs.takeWhile fun org => rulesOf rules org ≠ []

/-- The loop loads the rules of the orgs that it gets to. -/
theorem loadOrgs_ok :
    ∀ {orgs : List String} {w : World V Q G B} {loadErrors errors : List LoadError},
      loadOrgs env plan loadErrors orgs w = .ok errors w' →
        w'.tasksAndDatabase =
          (((reachedOrgs w.db.rules orgs).flatMap (rulesOf w.db.rules)).foldl (loadTask env)
            w.memory.tasks, w.db) := by
  intro orgs
  induction orgs with
  | nil =>
    intro w loadErrors errors h
    obtain ⟨-, rfl⟩ := pure_eq_ok.1 h
    rfl
  | cons org orgs ih =>
    intro w loadErrors errors h
    rw [loadOrgs] at h
    obtain ⟨storedRules, m, hget, h⟩ := bind_eq_ok.1 h
    obtain ⟨-, hstored, rfl⟩ := getStoredRules_eq_ok.1 hget
    obtain rfl : rulesOf w.db.rules org = storedRules := hstored
    by_cases hnone : rulesOf w.db.rules org = []
    · rw [if_pos hnone] at h
      obtain ⟨-, rfl⟩ := pure_eq_ok.1 h
      have hstop : reachedOrgs w.db.rules (org :: orgs) = [] :=
        List.takeWhile_cons_of_neg (by simpa using hnone)
      rw [hstop]
      rfl
    · rw [if_neg hnone] at h
      obtain ⟨loaded, m, hload, h⟩ := bind_eq_ok.1 h
      have hm := loadRules_ok (fun rec hrec => of_decide_eq_true (List.mem_filter.1 hrec).2) hload
      have htasks : m.memory.tasks =
          (rulesOf w.db.rules org).foldl (loadTask env) w.memory.tasks := congrArg Prod.fst hm
      have hdb : m.db = w.db := congrArg Prod.snd hm
      have hgoes : reachedOrgs w.db.rules (org :: orgs) =
          org :: reachedOrgs w.db.rules orgs :=
        List.takeWhile_cons_of_pos (by simpa using hnone)
      rw [ih h, htasks, hdb, hgoes, List.flatMap_cons, List.foldl_append]

theorem initiate_ok {orgs : List String} {errors : List LoadError}
    (h : initiate env plan orgs w = .ok errors w') :
    w'.tasksAndDatabase =
      (((reachedOrgs w.db.rules orgs).flatMap (rulesOf w.db.rules)).foldl (loadTask env)
        w.memory.tasks, w.db) := by
  obtain ⟨-, h⟩ := externalCall_bind_eq_ok.1 h
  exact loadOrgs_ok h

/-! ## The task of one rule -/

/-- Among rules where no other has its id, a rule decides its own task. -/
theorem foldl_loadTask {r : StoredRule} :
    ∀ {recs : List StoredRule} (tasks : TaskName → Option (Task V Q)),
      (∀ rec ∈ recs, rec.id = r.id → rec = r) →
        recs.foldl (loadTask env) tasks (prepareTaskName r.id) =
          if r ∈ recs then (tasks (prepareTaskName r.id)).or (startedTask env r)
          else tasks (prepareTaskName r.id) := by
  intro recs
  induction recs with
  | nil => exact fun tasks _ => rfl
  | cons rec recs ih =>
    intro tasks hunique
    obtain ⟨hhead, hrest⟩ := List.forall_mem_cons.1 hunique
    rw [List.foldl_cons, ih _ hrest]
    by_cases hid : rec.id = r.id
    · obtain rfl := hhead hid
      have hload : loadTask env tasks rec (prepareTaskName rec.id) =
          (tasks (prepareTaskName rec.id)).or (startedTask env rec) := if_pos rfl
      rw [hload, if_pos List.mem_cons_self, Option.or_assoc, Option.or_self, ite_self]
    · have hload : loadTask env tasks rec (prepareTaskName r.id) = tasks (prepareTaskName r.id) :=
        if_neg fun h => hid (TaskName.mk.inj h).symm
      have hmem : r ∈ rec :: recs ↔ r ∈ recs :=
        ⟨fun h => (List.mem_cons.1 h).resolve_left fun h => hid (congrArg StoredRule.id h.symm),
          List.mem_cons_of_mem rec⟩
      simp only [hload, hmem]

end Loaded

end Start

/-! ## The invariant -/

section Mirror

variable {V Q G B H : Type} [Float64 V] {env : ManagerEnv V Q G B H} {plan : CallPlan}
variable {orgID id : String} {w w' : World V Q G B}

/-- The stored rule reads as this definition, and a task can be prepared for it. -/
def StoredRule.Prepares (env : ManagerEnv V Q G B H) (r : StoredRule) (d : PostableRule V Q) :
    Prop :=
  parseRule env.codec r.data = some d ∧
    ∃ t, prepareTask env.task r.orgID d (prepareTaskName r.id) = .ok t

/-- What the map of tasks should hold for a rule with this definition. -/
structure Mirrors (env : ManagerEnv V Q G B H) (task : Option (Task V Q)) (id : String)
    (d : PostableRule V Q) : Prop where
  present : task.isSome = true ↔ d.disabled = false
  built : ∀ t, task = some t → BuiltFrom env t id d

/-- The tasks are those of the enabled rules, each built from the stored definition. -/
def TasksMirror (env : ManagerEnv V Q G B H) (w : World V Q G B) : Prop :=
  ∀ r ∈ w.db.rules, ∀ d, r.Prepares env d → Mirrors env (w.memory.tasks (prepareTaskName r.id)) r.id d

omit [Float64 V] in
theorem mirrors_none {d : PostableRule V Q} : Mirrors env none id d ↔ d.disabled = true := by
  constructor
  · intro h
    by_contra henabled
    exact absurd (h.present.2 (Bool.eq_false_iff.2 henabled)) Bool.false_ne_true
  · intro hdisabled
    refine ⟨?_, fun t h => (nomatch h)⟩
    rw [hdisabled]
    exact ⟨fun h => (nomatch h), fun h => (nomatch h)⟩

omit [Float64 V] in
/-- A task of an enabled definition mirrors it when it was prepared for it. -/
theorem mirrors_some {d used : PostableRule V Q} {t prepared : Task V Q}
    (henabled : d.disabled = false) (hused : UsedAs env.sort d used)
    (hprepared : prepareTask env.task orgID used (prepareTaskName id) = .ok prepared)
    (hspec : t.spec = prepared.spec) : Mirrors env (some t) id d := by
  refine ⟨⟨fun _ => henabled, fun _ => rfl⟩, ?_⟩
  rintro t ⟨⟩
  exact ⟨orgID, used, prepared, hused, hprepared, hspec⟩

omit [Float64 V] in
/-- A definition that is deployed is mirrored, whatever task was there. -/
theorem mirrors_deployedTask {d used : PostableRule V Q} (hused : UsedAs env.sort d used)
    (hprepared : used.disabled = false →
      ∃ t, prepareTask env.task orgID used (prepareTaskName id) = .ok t)
    (old : Option (Task V Q)) :
    Mirrors env (deployedTask env.task orgID used (prepareTaskName id) old) id d := by
  rw [deployedTask]
  cases hdisabled : used.disabled with
  | true =>
    rw [if_pos rfl, mirrors_none, ← hused.disabled]
    exact hdisabled
  | false =>
    obtain ⟨t, ht⟩ := hprepared hdisabled
    have henabled : d.disabled = false := hused.disabled.symm.trans hdisabled
    rw [if_neg Bool.false_ne_true, ht]
    cases old with
    | none => exact mirrors_some henabled hused ht rfl
    | some old => exact mirrors_some henabled hused ht (Task.copyState_spec env.task t old)

/-- The rules that are enabled belong to orgs that the loop of `initiate` gets to. -/
def ReachesEnabled (env : ManagerEnv V Q G B H) (orgs : List String) (rules : List StoredRule) :
    Prop :=
  ∀ r ∈ rules, ∀ d, r.Prepares env d → d.disabled = false → r.orgID ∈ reachedOrgs rules orgs

/-- After a start from nothing the tasks mirror the rules exactly when `initiate` gets to the orgs
of all enabled rules. -/
theorem initiate_tasksMirror_iff {orgs : List String} {errors : List LoadError}
    (hempty : w.memory.tasks = fun _ => none) (hids : (w.db.rules.map StoredRule.id).Nodup)
    (h : initiate env plan orgs w = .ok errors w') :
    TasksMirror env w' ↔ ReachesEnabled env orgs w.db.rules := by
  have hw' := initiate_ok h
  have hdb : w'.db = w.db := congrArg Prod.snd hw'
  have htask : ∀ r ∈ w.db.rules, w'.memory.tasks (prepareTaskName r.id) =
      if r.orgID ∈ reachedOrgs w.db.rules orgs then startedTask env r else none := by
    intro r hr
    have htasks : w'.memory.tasks =
        ((reachedOrgs w.db.rules orgs).flatMap (rulesOf w.db.rules)).foldl (loadTask env)
          w.memory.tasks := congrArg Prod.fst hw'
    have hreached : r ∈ (reachedOrgs w.db.rules orgs).flatMap (rulesOf w.db.rules) ↔
        r.orgID ∈ reachedOrgs w.db.rules orgs := by
      simp [rulesOf, hr]
    rw [htasks, foldl_loadTask, hempty, Option.none_or]
    · simp only [hreached]
    · intro rec hrec hid
      obtain ⟨org, -, hrec⟩ := List.mem_flatMap.1 hrec
      exact List.inj_on_of_nodup_map hids (List.mem_filter.1 hrec).1 hr hid
  rw [TasksMirror, ReachesEnabled, hdb]
  apply forall_congr'
  intro r
  apply forall_congr'
  intro hr
  apply forall_congr'
  intro d
  apply forall_congr'
  rintro ⟨hparse, t, ht⟩
  rw [htask r hr, startedTask_of_parse hparse, ht]
  by_cases hreached : r.orgID ∈ reachedOrgs w.db.rules orgs
  · rw [if_pos hreached]
    refine ⟨fun _ _ => hreached, fun _ => ?_⟩
    cases hdisabled : d.disabled with
    | true => exact mirrors_none.2 hdisabled
    | false => exact mirrors_some hdisabled (UsedAs.refl d) ht rfl
  · rw [if_neg hreached, mirrors_none]
    constructor
    · intro hdisabled henabled
      rw [hdisabled] at henabled
      cases henabled
    · intro himp
      by_contra hdisabled
      exact hreached (himp (Bool.eq_false_iff.2 hdisabled))

/-- A `CreateRule` of this call has a definition that is not disabled. -/
def CreatesEnabled (env : ManagerEnv V Q G B H) (c : PlannedCall) : Prop :=
  match c.call with
  | .create ruleStr _ => ∀ d, parseRule env.codec ruleStr = some d → d.disabled = false
  | _ => True

omit [Float64 V] in
/-- The mirror of the other rules is not touched. -/
theorem mirrors_of_other {tasks : TaskName → Option (Task V Q)} {r : StoredRule}
    {task : Option (Task V Q)} {d : PostableRule V Q} (hid : r.id ≠ id)
    (h : Mirrors env (tasks (prepareTaskName r.id)) r.id d) :
    Mirrors env (if prepareTaskName r.id = prepareTaskName id then task
      else tasks (prepareTaskName r.id)) r.id d := by
  have hname : prepareTaskName r.id ≠ prepareTaskName id := fun h => hid (TaskName.mk.inj h)
  rw [if_neg hname]
  exact h

theorem tasksMirror_create {ruleStr : String} {rule : PostableRule V Q} {task : Task V Q}
    (hmirror : TasksMirror env w) (henabled : rule.disabled = false)
    (hcreated : RuleCreated env plan orgID ruleStr id w w' rule task) : TasksMirror env w' := by
  intro r hr d hd
  rw [hcreated.rules] at hr
  rw [hcreated.tasks]
  rcases List.mem_append.1 hr with hr | hr
  · exact mirrors_of_other (hcreated.fresh r hr) (hmirror r hr d hd)
  · obtain rfl := List.mem_singleton.1 hr
    obtain rfl := Option.some.inj (hcreated.read.symm.trans hd.1)
    simp only [if_true]
    exact mirrors_some henabled ((UsedAs.refl rule).sortThresholds.trans (usedAs_afterRouting _))
      hcreated.prepared rfl

theorem tasksMirror_change {row : StoredRule} {text : String} {rule used : PostableRule V Q}
    (hmirror : TasksMirror env w) (hchanged : RuleChanged env orgID id w w' row text rule used) :
    TasksMirror env w' := by
  have hrow : row.id = id := storedRule_id hchanged.stored
  intro r hr d hd
  rw [hchanged.rules] at hr
  rw [hchanged.tasks]
  by_cases hid : r.id = id
  · obtain rfl := eq_of_mem_updateRule hr (hid.trans hrow.symm)
    simp only [hrow, if_true]
    exact mirrors_deployedTask (hchanged.readBack d hd.1) hchanged.prepared _
  · rw [mem_updateRule_of_ne] at hr
    · exact mirrors_of_other hid (hmirror r hr d hd)
    · exact fun h => hid (h.trans hrow)

theorem tasksMirror_delete (hmirror : TasksMirror env w)
    (hdeleted : RuleDeleted env orgID id w w') : TasksMirror env w' := by
  intro r hr d hd
  rw [hdeleted.rules] at hr
  rw [hdeleted.tasks]
  obtain ⟨hr, hid⟩ := List.mem_filter.1 hr
  exact mirrors_of_other (of_decide_eq_true hid) (hmirror r hr d hd)

/-- Every call keeps the mirror, but a `CreateRule` with a disabled definition. -/
theorem tasksMirror_step {c : PlannedCall} (hmirror : TasksMirror env w)
    (hcreates : CreatesEnabled env c) (h : callStep env w c = some w') : TasksMirror env w' := by
  obtain ⟨callOrg, callPlan, call⟩ := c
  have hrun := callStep_eq_some.1 h
  cases call with
  | create ruleStr id =>
    obtain ⟨rule, task, hcreated⟩ := createRule_ok hrun
    exact tasksMirror_create hmirror (hcreates rule hcreated.read) hcreated
  | change change id =>
    obtain ⟨row, text, rule, used, -, hchanged⟩ := ruleChange_ok hrun
    exact tasksMirror_change hmirror hchanged
  | delete id => exact tasksMirror_delete hmirror (deleteRule_ok hrun)

/-- After a start from nothing that gets to the orgs of all enabled rules, and after any calls of
which none creates a disabled rule, the tasks are those of the enabled rules. -/
theorem tasks_mirror_rules {orgs : List String} {errors : List LoadError}
    (hempty : w.memory.tasks = fun _ => none) (hids : (w.db.rules.map StoredRule.id).Nodup)
    (hreached : ReachesEnabled env orgs w.db.rules)
    (hstart : initiate env plan orgs w = .ok errors w') (calls : List PlannedCall)
    (hcreates : StepsMeet (callStep env) (fun _ c => CreatesEnabled env c) w' calls)
    {wEnd : World V Q G B} (hcalls : exec (callStep env) w' calls = some wEnd) :
    TasksMirror env wEnd := by
  apply exec_invariant_of_stepsMeet (I := fun _ w => TasksMirror env w) _ _ calls wEnd hcreates hcalls
  · exact (initiate_tasksMirror_iff hempty hids hstart).2 hreached
  · exact fun _ m c t hm hmeet hstep => tasksMirror_step hm hmeet hstep

end Mirror

/-! ## Runs of the plain manager -/

/-- The manager starts with these orgs and rules, and takes the calls. -/
def startAndCall (orgs : List String) (rules : List StoredRule) (calls : List PlannedCall) :
    Option (World ℚ Unit Unit String) :=
  match initiate cpuEnv .smooth orgs ⟨plainDatabase rules, emptyMemory⟩ with
  | .ok _ w => exec (callStep cpuEnv) w calls
  | .error _ _ => none

theorem exists_of_startAndCall {orgs : List String} {rules : List StoredRule}
    {calls : List PlannedCall} {test : World ℚ Unit Unit String → Bool}
    (h : (startAndCall orgs rules calls).any test = true) :
    ∃ errors w' wEnd,
      initiate cpuEnv .smooth orgs ⟨plainDatabase rules, emptyMemory⟩ = .ok errors w' ∧
        exec (callStep cpuEnv) w' calls = some wEnd ∧ test wEnd = true := by
  rw [startAndCall] at h
  cases hstart : initiate cpuEnv .smooth orgs ⟨plainDatabase rules, emptyMemory⟩ with
  | error e s =>
    rw [hstart] at h
    cases h
  | ok errors w' =>
    rw [hstart] at h
    obtain ⟨wEnd, hcalls, htest⟩ := (Option.any_eq_true _ _).1 h
    exact ⟨errors, w', wEnd, rfl, hcalls, htest⟩

/-- A rule in its row. -/
def cpuRow (id disabled : String) : StoredRule := ⟨id, "o1", cpuText "CPU high" disabled "false"⟩

theorem cpuRow_prepares_enabled (id : String) :
    (cpuRow id "false").Prepares cpuEnv (cpuRule "CPU high" false false) :=
  ⟨parseRule_cpuText.1, _, rfl⟩

theorem cpuRow_prepares_disabled (id : String) :
    (cpuRow id "true").Prepares cpuEnv (cpuRule "CPU high" true false) :=
  ⟨parseRule_cpuText.2.2, _, rfl⟩

/-- An org without rules before the org of an enabled rule, and the rule has no task. A disabled
rule is created, and has one. -/
theorem tasks_leave_rules :
    (∃ errors w' wEnd,
      initiate cpuEnv .smooth ["o0", "o1"] ⟨plainDatabase [cpuRow "r1" "false"], emptyMemory⟩ =
          .ok errors w' ∧
        exec (callStep cpuEnv) w' [] = some wEnd ∧ ¬ TasksMirror cpuEnv wEnd) ∧
      ∃ errors w' wEnd,
        initiate cpuEnv .smooth ["o1"] ⟨plainDatabase [], emptyMemory⟩ = .ok errors w' ∧
          exec (callStep cpuEnv) w'
              [⟨"o1", .smooth, .create (cpuText "CPU high" "true" "false") "r1"⟩] = some wEnd ∧
            ¬ TasksMirror cpuEnv wEnd := by
  constructor
  · have hrun : (startAndCall ["o0", "o1"] [cpuRow "r1" "false"] []).any (fun w =>
        (w.memory.tasks (prepareTaskName "r1")).isNone) = true := by
      decide +kernel
    obtain ⟨errors, w', wEnd, hstart, hcalls, hnone⟩ := exists_of_startAndCall hrun
    refine ⟨errors, w', wEnd, hstart, hcalls, fun hmirror => ?_⟩
    obtain rfl := Option.some.inj hcalls
    have hdb : w'.db = plainDatabase [cpuRow "r1" "false"] := congrArg Prod.snd (initiate_ok hstart)
    have hmem : cpuRow "r1" "false" ∈ w'.db.rules := by
      rw [hdb]
      exact List.mem_singleton_self _
    have hsome := (hmirror _ hmem _ (cpuRow_prepares_enabled "r1")).present.2 rfl
    exact Option.not_isSome_iff_eq_none.2 (Option.isNone_iff_eq_none.1 hnone) hsome
  · have hstart : initiate cpuEnv .smooth ["o1"] ⟨plainDatabase [], emptyMemory⟩ =
        .ok [] ⟨plainDatabase [], emptyMemory⟩ := rfl
    have hrun : endsWith (createRule cpuEnv .smooth "o1" (cpuText "CPU high" "true" "false") "r1"
        ⟨plainDatabase [], emptyMemory⟩) (fun w =>
          (w.memory.tasks (prepareTaskName "r1")).isSome) = true := by
      rw [createRule, parseRule_cpuText.2.2]
      decide +kernel
    obtain ⟨u, wEnd, hcreate, hsome⟩ := exists_of_endsWith hrun
    have hcall : callStep cpuEnv _ ⟨"o1", .smooth,
      .create (cpuText "CPU high" "true" "false") "r1"⟩ = some wEnd := callStep_eq_some.2 hcreate
    have hcalls := exec_cons [] hcall
    refine ⟨[], _, wEnd, hstart, hcalls, fun hmirror => ?_⟩
    obtain ⟨rule, task, hcreated⟩ := createRule_ok hcreate
    have hmem : cpuRow "r1" "true" ∈ wEnd.db.rules := by
      rw [hcreated.rules]
      exact List.mem_append_right _ (List.mem_singleton_self _)
    exact absurd ((hmirror _ hmem _ (cpuRow_prepares_disabled "r1")).present.1 hsome)
      (fun h => nomatch h)

/-- A rule is loaded and renamed, another is created and deleted. -/
theorem tasks_mirror_rules_cpu :
    ∃ wEnd, (startAndCall ["o1"] [cpuRow "r1" "false"]
        [⟨"o1", .smooth, .create (cpuText "CPU high" "false" "false") "r2"⟩,
          ⟨"o1", .smooth, .change newName "r1"⟩, ⟨"o1", .smooth, .delete "r2"⟩]) = some wEnd ∧
      TasksMirror cpuEnv wEnd := by
  have hrun : (startAndCall ["o1"] [cpuRow "r1" "false"]
      [⟨"o1", .smooth, .create (cpuText "CPU high" "false" "false") "r2"⟩,
        ⟨"o1", .smooth, .change newName "r1"⟩, ⟨"o1", .smooth, .delete "r2"⟩]).any
          (fun _ => true) = true := by
    decide +kernel
  obtain ⟨errors, w', wEnd, hstart, hcalls, -⟩ := exists_of_startAndCall hrun
  have hids : ([cpuRow "r1" "false"].map StoredRule.id).Nodup := List.nodup_singleton _
  refine ⟨wEnd, ?_, tasks_mirror_rules
    (w := ⟨plainDatabase [cpuRow "r1" "false"], emptyMemory⟩) rfl hids ?_ hstart _ ?_ hcalls⟩
  · rw [startAndCall, hstart]
    exact hcalls
  · intro r hr d hd henabled
    obtain rfl := List.mem_singleton.1 hr
    have horg : (cpuRow "r1" "false").orgID ∈ reachedOrgs [cpuRow "r1" "false"] ["o1"] := by
      decide +kernel
    exact horg
  · refine ⟨?_, fun _ _ => ⟨trivial, fun _ _ => ⟨trivial, fun _ _ => trivial⟩⟩⟩
    intro d hd
    obtain rfl := Option.some.inj ((cpuRow_prepares_enabled "r2").1.symm.trans hd)
    rfl

end Signoz.Rules
