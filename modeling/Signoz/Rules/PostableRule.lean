import Signoz.Alertmanager.RoutePolicy
import Signoz.Rules.Eval
import Signoz.Rules.InhibitRules

/-!
# Rule definitions

`PostableRule` of `api_params.go`: the definition of a rule as it is posted, stored and read back.
A definition of schema version `v1` has its threshold, evaluation and notification settings derived
by `processRuleDefaults` and not stored. A definition that was written is read back the same
(`parseRule_marshalJSON`).

The manager hands the queries and texts of a definition on and does not look at them; they are the
field `rest`.
-/

namespace Signoz.Rules

open Signoz.Querier Signoz.Alertmanager

/-! ## Data -/

/-- `RuleType`; the empty value is not set. -/
inductive RuleType where
  | threshold
  | prom
  | anomaly
  | other (value : String)
deriving DecidableEq

/-- `QueryType` of a composite query. -/
inductive QueryType where
  | builder
  | clickHouseSQL
  | promQL
  | other (value : String)
deriving DecidableEq

/-- `RuleCondition`, with the type of its composite query if it has one. -/
structure RuleCondition (V : Type) where
  queryType : Option QueryType
  compareOperator : CompareOperator
  target : Option V
  alertOnAbsent : Bool
  matchType : MatchType
  targetUnit : String
  /-- `Thresholds`, all of the basic kind. -/
  thresholds : Option (List (BasicRuleThreshold V))
deriving DecidableEq

/-- `EvaluationEnvelope` of the two kinds. -/
inductive Evaluation where
  | rolling (evalWindow frequency : Int)
  | cumulative (schedule : String) (frequency : Int) (timezone : String)
deriving DecidableEq

/-- `GetFrequency`. -/
def Evaluation.getFrequency : Evaluation → Int
  | rolling _ frequency => frequency
  | cumulative _ frequency _ => frequency

/-- `Renotify`. -/
structure Renotify where
  enabled : Bool
  renotifyInterval : Int
  alertStates : List AlertState
deriving DecidableEq

/-- `NotificationSettings`. -/
structure NotificationSettings where
  groupBy : List String
  renotify : Renotify
  usePolicy : Bool
  newGroupEvalDelay : Int
deriving DecidableEq

/-- `PostableRule`. A duration that is not set is zero. -/
structure PostableRule (V Q : Type) where
  alertName : String
  ruleType : RuleType
  evalWindow : Int
  frequency : Int
  ruleCondition : Option (RuleCondition V)
  labels : List (String × String)
  disabled : Bool
  preferredChannels : List String
  evaluation : Option Evaluation
  schemaVersion : String
  notificationSettings : Option NotificationSettings
  /-- Queries, annotations and texts. -/
  rest : Q
deriving DecidableEq

def defaultSchemaVersion : String := "v1"

def schemaVersionV2Alpha1 : String := "v2alpha1"

def criticalThresholdName : String := "critical"

/-- A definition with nothing set. -/
def PostableRule.zero {V Q : Type} (rest : Q) : PostableRule V Q :=
  ⟨"", .other "", 0, 0, none, [], false, [], none, "", none, rest⟩

section Definitions

variable {V Q : Type}

/-! ## Defaults -/

/-- Nanoseconds of minutes. -/
def minutes (n : Int) : Int := n * 60 * 10 ^ 9

/-- The defaults of window and frequency, for all schema versions but `v2alpha1`. -/
def PostableRule.defaultWindow (r : PostableRule V Q) : PostableRule V Q :=
  if r.schemaVersion = schemaVersionV2Alpha1 then r
  else
    { r with
      evalWindow := if r.evalWindow = 0 then minutes 5 else r.evalWindow
      frequency := if r.frequency = 0 then minutes 1 else r.frequency }

/-- The rule type that follows from the query type. -/
def RuleType.default (ruleType : RuleType) (queryType : QueryType) : RuleType :=
  match queryType with
  | .builder => if ruleType = .other "" then .threshold else ruleType
  | .promQL => .prom
  | _ => ruleType

variable [Float64 V]

open Float64 in
/-- The threshold of a definition of version `v1`. For an anomaly rule that compares below, the
target is negated. -/
def PostableRule.v1Threshold (r : PostableRule V Q) (c : RuleCondition V) : BasicRuleThreshold V where
  name := (r.labels.lookup "severity").getD criticalThresholdName
  targetValue :=
    if r.ruleType = .anomaly ∧ c.compareOperator = .valueIsBelow then
      c.target.map fun t => mul (ofInt (-1)) t
    else c.target
  targetUnit := c.targetUnit
  recoveryTarget := none
  matchType := c.matchType
  compareOperator := c.compareOperator
  channels := r.preferredChannels

/-- The notification settings of a definition of version `v1`. -/
def v1NotificationSettings (c : RuleCondition V) : NotificationSettings where
  groupBy := []
  renotify := ⟨true, minutes 240, .firing :: if c.alertOnAbsent then [.noData] else []⟩
  usePolicy := false
  newGroupEvalDelay := 0

/-- The part of a definition of version `v1` that is derived from the rest. -/
def PostableRule.deriveV1 (r : PostableRule V Q) (c : RuleCondition V) : PostableRule V Q :=
  { r with
    ruleCondition := some { c with thresholds := some [r.v1Threshold c] }
    evaluation := some (.rolling r.evalWindow r.frequency)
    notificationSettings := some (v1NotificationSettings c) }

/-- `processRuleDefaults`. -/
def PostableRule.processRuleDefaults (r : PostableRule V Q) : PostableRule V Q :=
  let r := if r.schemaVersion = "" then { r with schemaVersion := defaultSchemaVersion } else r
  let r := r.defaultWindow
  match r.ruleCondition with
  | none => r
  | some c =>
    match c.queryType with
    | none => r
    | some queryType =>
      let r := { r with ruleType := r.ruleType.default queryType }
      if r.schemaVersion = defaultSchemaVersion then r.deriveV1 c else r

/-- What `MarshalJSON` leaves out of a definition of version `v1`. -/
def PostableRule.strip (r : PostableRule V Q) : PostableRule V Q :=
  if r.schemaVersion = defaultSchemaVersion then
    { r with
      ruleCondition := r.ruleCondition.map fun c => { c with thresholds := none }
      evaluation := none
      schemaVersion := ""
      notificationSettings := none }
  else r

/-! ## Reading and writing -/

/-- The JSON codec of the fields, with the checks that read data the manager does not look at. -/
structure RuleCodec (V Q : Type) where
  /-- The rest of a definition with nothing set. -/
  zero : Q
  /-- Read a text over a definition: fields that are not in the text stay. -/
  decode : PostableRule V Q → String → Option (PostableRule V Q)
  encode : PostableRule V Q → String
  /-- What is read back is what was written. -/
  decode_encode : ∀ r r', decode (.zero zero) (encode r) = some r' → r' = r
  /-- The checks of `validate` and of `Validate` on versions, names, queries and templates. -/
  checksOnRead : PostableRule V Q → Bool
  checksOnWrite : PostableRule V Q → Bool

variable (codec : RuleCodec V Q)

/-- `validate`, as whether it finds no error. -/
def PostableRule.validateOnRead (r : PostableRule V Q) : Bool :=
  r.ruleCondition.isSome && codec.checksOnRead r

/-- `UnmarshalJSON` over a definition. -/
def PostableRule.unmarshalJSON (r : PostableRule V Q) (text : String) :
    Option (PostableRule V Q) :=
  ((codec.decode r text).map PostableRule.processRuleDefaults).filter fun r =>
    r.validateOnRead codec

/-- Reading a text as a new definition. -/
def parseRule (text : String) : Option (PostableRule V Q) :=
  (PostableRule.zero codec.zero).unmarshalJSON codec text

/-- `MarshalJSON`. -/
def PostableRule.marshalJSON (r : PostableRule V Q) : String := codec.encode r.strip

omit [Float64 V] in
/-- `validateV1`, as whether it finds no error. -/
def PostableRule.validateV1 (c : RuleCondition V) : Bool :=
  c.target.isSome && c.compareOperator ≠ .other "" && c.compareOperator.validate.isEmpty &&
    c.matchType ≠ .other "" && c.matchType.validate.isEmpty

omit [Float64 V] in
/-- `validateV2Alpha1`. -/
def PostableRule.validateV2Alpha1 (r : PostableRule V Q) (c : RuleCondition V) : Bool :=
  c.thresholds.isSome && r.evaluation.isSome &&
    match r.notificationSettings with
    | none => false
    | some ns => !ns.renotify.enabled || 0 < ns.renotify.renotifyInterval

omit [Float64 V] in
/-- `Validate`. -/
def PostableRule.validate (r : PostableRule V Q) : Bool :=
  match r.ruleCondition with
  | none => false
  | some c =>
    r.alertName ≠ "" && c.queryType.isSome && codec.checksOnWrite r &&
      if r.schemaVersion = defaultSchemaVersion then validateV1 c
      else if r.schemaVersion = schemaVersionV2Alpha1 then r.validateV2Alpha1 c
      else false

/-! ## Reading back what was written -/

/-- `sortThresholds` on the thresholds of a definition, which every use of them does in place. -/
def PostableRule.sortThresholds (sort : List (BasicRuleThreshold V) → List (BasicRuleThreshold V))
    (r : PostableRule V Q) : PostableRule V Q :=
  { r with
    ruleCondition := r.ruleCondition.map fun c => { c with thresholds := c.thresholds.map sort } }

/-- A definition after some uses of its thresholds. -/
def UsedAs (sort : List (BasicRuleThreshold V) → List (BasicRuleThreshold V))
    (r s : PostableRule V Q) : Prop := ∃ n : Nat, s = (PostableRule.sortThresholds sort)^[n] r

/-- Window and frequency are set, where they have defaults. -/
def PostableRule.HasWindow (r : PostableRule V Q) : Prop :=
  r.schemaVersion = schemaVersionV2Alpha1 ∨ (r.evalWindow ≠ 0 ∧ r.frequency ≠ 0)

/-- A definition whose defaults are in. -/
structure Filled (r : PostableRule V Q) (c : RuleCondition V) : Prop where
  condition : r.ruleCondition = some c
  version : r.schemaVersion ≠ ""
  window : r.HasWindow
  type : ∃ queryType, c.queryType = some queryType ∧ r.ruleType.default queryType = r.ruleType
  derived : r.schemaVersion = defaultSchemaVersion → r.deriveV1 c = r

variable {r : PostableRule V Q}

omit [Float64 V] in
theorem PostableRule.HasWindow.defaultWindow (h : r.HasWindow) :
    r.defaultWindow = r := by
  rw [PostableRule.defaultWindow]
  split
  · rfl
  · obtain ⟨hwindow, hfrequency⟩ := h.resolve_left ‹_›
    rw [if_neg hwindow, if_neg hfrequency]

theorem ite_zero_ne_zero {a d : Int} (hd : d ≠ 0) : (if a = 0 then d else a) ≠ 0 := by
  split
  · exact hd
  · assumption

omit [Float64 V] in
theorem hasWindow_defaultWindow (r : PostableRule V Q) : r.defaultWindow.HasWindow := by
  have hwindow : minutes 5 ≠ 0 := by decide
  have hfrequency : minutes 1 ≠ 0 := by decide
  rw [PostableRule.defaultWindow]
  split
  · exact Or.inl ‹_›
  · exact Or.inr ⟨ite_zero_ne_zero hwindow, ite_zero_ne_zero hfrequency⟩

theorem RuleType.default_default (ruleType : RuleType) (queryType : QueryType) :
    (ruleType.default queryType).default queryType = ruleType.default queryType := by
  cases queryType with
  | builder =>
    simp only [RuleType.default]
    split <;> rfl
  | promQL => rfl
  | clickHouseSQL => rfl
  | other value => rfl

omit [Float64 V] in
@[simp] theorem defaultWindow_schemaVersion (r : PostableRule V Q) :
    r.defaultWindow.schemaVersion = r.schemaVersion := by
  rw [PostableRule.defaultWindow]
  split <;> rfl

variable {c : RuleCondition V}

/-- The defaults of a definition with a query are in after `processRuleDefaults`. -/
theorem filled_processRuleDefaults (hc : r.processRuleDefaults.ruleCondition = some c)
    (hq : c.queryType.isSome = true) :
    Filled r.processRuleDefaults c := by
  rw [PostableRule.processRuleDefaults] at hc ⊢
  generalize hr : (if r.schemaVersion = "" then { r with schemaVersion := defaultSchemaVersion }
    else r).defaultWindow = s at hc ⊢
  have hversion : defaultSchemaVersion ≠ "" := by decide
  have hs : s.schemaVersion ≠ "" := by
    rw [← hr, defaultWindow_schemaVersion]
    split
    · exact hversion
    · assumption
  have hwindow : s.HasWindow := by
    rw [← hr]
    exact hasWindow_defaultWindow _
  cases hcondition : s.ruleCondition with
  | none =>
    simp only [hcondition] at hc
    cases hc
  | some d =>
    cases hd : d.queryType with
    | none =>
      -- Without a query the condition stays, so it has no query.
      simp only [hcondition, hd] at hc
      obtain rfl := Option.some.inj hc
      rw [hd] at hq
      cases hq
    | some queryType =>
      have htype := RuleType.default_default s.ruleType queryType
      simp only [hcondition, hd] at hc ⊢
      split at hc
      · rename_i hv1
        obtain rfl := Option.some.inj hc
        rw [if_pos hv1]
        exact ⟨rfl, hs, hwindow, ⟨queryType, hd, htype⟩, fun _ => rfl⟩
      · rename_i hv1
        obtain rfl := Option.some.inj hc
        rw [if_neg hv1]
        exact ⟨rfl, hs, hwindow, ⟨queryType, hd, htype⟩, fun h => absurd h hv1⟩

/-- A definition is read back as it was before it was stripped. -/
theorem Filled.processRuleDefaults_strip (h : Filled r c) : r.strip.processRuleDefaults = r := by
  obtain ⟨queryType, hq, htype⟩ := h.type
  have hversion := h.version
  have hwindow := h.window
  have hderived := h.derived
  obtain ⟨alertName, ruleType, evalWindow, frequency, ruleCondition, labels, disabled,
    preferredChannels, evaluation, schemaVersion, notificationSettings, rest⟩ := r
  obtain rfl : ruleCondition = some c := h.condition
  obtain ⟨_, compareOperator, target, alertOnAbsent, matchType, targetUnit, thresholds⟩ := c
  obtain rfl : _ = some queryType := hq
  have htype : ruleType.default queryType = ruleType := htype
  by_cases hv1 : schemaVersion = defaultSchemaVersion
  · subst hv1
    -- What was left out is derived from the rest, as it was before.
    have hbare : (⟨alertName, ruleType, evalWindow, frequency,
        some ⟨some queryType, compareOperator, target, alertOnAbsent, matchType, targetUnit, none⟩,
        labels, disabled, preferredChannels, none, defaultSchemaVersion, none, rest⟩ :
          PostableRule V Q).HasWindow := hwindow
    rw [PostableRule.strip, if_pos rfl, PostableRule.processRuleDefaults, if_pos rfl]
    simp only [Option.map_some]
    rw [hbare.defaultWindow]
    simp only [htype, if_true]
    exact hderived rfl
  · rw [PostableRule.strip, if_neg hv1, PostableRule.processRuleDefaults, if_neg hversion,
      hwindow.defaultWindow]
    simp only [htype, if_neg hv1]

variable {sort : List (BasicRuleThreshold V) → List (BasicRuleThreshold V)}

/-- Thresholds that are sorted in place leave the defaults in. -/
theorem Filled.sortThresholds (hsort : ∀ l, (sort l).Perm l) (h : Filled r c) :
    Filled (r.sortThresholds sort) { c with thresholds := c.thresholds.map sort } := by
  obtain ⟨queryType, hq, htype⟩ := h.type
  have hcondition := h.condition
  refine ⟨?_, h.version, h.window, ⟨queryType, hq, htype⟩, ?_⟩
  · rw [PostableRule.sortThresholds, hcondition, Option.map_some]
  · intro hv1
    have hderived := h.derived hv1
    -- Version `v1` has one threshold, so there is nothing to sort.
    have hone : c.thresholds = some [r.v1Threshold c] := by
      have hsame := congrArg PostableRule.ruleCondition hderived
      rw [hcondition] at hsame
      exact (congrArg RuleCondition.thresholds (Option.some.inj hsame)).symm
    have hsorted : c.thresholds.map sort = c.thresholds := by
      rw [hone, Option.map_some, List.perm_singleton.1 (hsort [r.v1Threshold c])]
    have hkeep : r.sortThresholds sort = r := by
      rw [PostableRule.sortThresholds, hcondition, Option.map_some, hsorted]
      exact congrArg (fun o => { r with ruleCondition := o }) hcondition.symm
    rw [hkeep, hsorted]
    exact hderived

/-- Uses of a definition leave the defaults in. -/
theorem Filled.usedAs (hsort : ∀ l, (sort l).Perm l) {r s : PostableRule V Q} (h : Filled r c)
    (hused : UsedAs sort r s) : ∃ d, Filled s d := by
  obtain ⟨n, rfl⟩ := hused
  induction n generalizing r c with
  | zero => exact ⟨c, h⟩
  | succ n ih =>
    rw [Function.iterate_succ_apply]
    exact ih (h.sortThresholds hsort)

omit [Float64 V] in
/-- A definition that passes `Validate` has a condition with a query. -/
theorem condition_of_validate (h : r.validate codec = true) :
    ∃ c, r.ruleCondition = some c ∧ c.queryType.isSome = true := by
  rw [PostableRule.validate] at h
  cases hc : r.ruleCondition with
  | none =>
    simp only [hc, Bool.false_eq_true] at h
  | some c =>
    simp only [hc, Bool.and_eq_true] at h
    exact ⟨c, rfl, h.1.1.2⟩

/-- A text that is read over a definition gives one with its defaults in. -/
theorem unmarshalJSON_eq_some {old r : PostableRule V Q} {text : String}
    (h : old.unmarshalJSON codec text = some r) :
    ∃ read, codec.decode old text = some read ∧ r = read.processRuleDefaults := by
  obtain ⟨hread, -⟩ := Option.filter_eq_some_iff.1 h
  obtain ⟨read, hdecode, rfl⟩ := Option.map_eq_some_iff.1 hread
  exact ⟨read, hdecode, rfl⟩

/-- A definition that was read, validated, used and written is read back the same. -/
theorem parseRule_marshalJSON (hsort : ∀ l, (sort l).Perm l) {old r s r' : PostableRule V Q}
    {text : String} (hread : old.unmarshalJSON codec text = some r)
    (hvalid : r.validate codec = true) (hused : UsedAs sort r s)
    (hback : parseRule codec (s.marshalJSON codec) = some r') :
    r' = s := by
  obtain ⟨read, -, rfl⟩ := unmarshalJSON_eq_some codec hread
  obtain ⟨c, hc, hq⟩ := condition_of_validate codec hvalid
  obtain ⟨d, hfilled⟩ := (filled_processRuleDefaults hc hq).usedAs hsort hused
  obtain ⟨stripped, hdecode, rfl⟩ := unmarshalJSON_eq_some codec hback
  obtain rfl := codec.decode_encode _ _ hdecode
  exact hfilled.processRuleDefaults_strip

end Definitions

/-! ## What a definition asks of the alertmanager -/

section Requests

variable {V Q : Type}

/-- `GetAlertManagerNotificationConfig`. -/
def NotificationSettings.getAlertManagerNotificationConfig (ns : NotificationSettings) :
    NotificationConfig :=
  let interval := fun state =>
    if ns.renotify.alertStates.contains state then ns.renotify.renotifyInterval else 0
  if ns.renotify.enabled then
    newNotificationConfig ns.groupBy (interval .firing) (interval .noData) ns.usePolicy
  else newNotificationConfig ns.groupBy (hours 8760) (hours 8760) ns.usePolicy

/-- `GetRuleThreshold` of the thresholds of a definition. -/
def PostableRule.getRuleThreshold (r : PostableRule V Q) : Option (List (BasicRuleThreshold V)) :=
  r.ruleCondition.bind RuleCondition.thresholds

/-- `GetEvaluation`, of an envelope that was read; a definition without one would panic. -/
def PostableRule.getFrequency (r : PostableRule V Q) : Option Int :=
  r.evaluation.map Evaluation.getFrequency

variable (sort : List (BasicRuleThreshold V) → List (BasicRuleThreshold V))

/-- `Channels`. -/
def PostableRule.channels (r : PostableRule V Q) : List String :=
  match r.getRuleThreshold with
  | none => []
  | some thresholds =>
    ((getRuleReceivers (sort thresholds)).flatMap RuleReceivers.channels).dedup

/-- `GetRuleRouteRequest`, of a rule with thresholds. -/
def routeRequests (ruleID : String) (thresholds : List (BasicRuleThreshold V)) :
    List PostableRoutePolicy :=
  (getRuleReceivers (sort thresholds)).map fun receiver =>
    { expression := labelThresholdName ++ " == \"" ++ receiver.name ++ "\" && " ++ labelRuleID ++
        " == \"" ++ ruleID ++ "\""
      expressionKind := .rule
      channels := receiver.channels
      name := ruleID
      description := "Auto-generated route for rule " ++ ruleID
      tags := ["auto-generated", "rule-based"] }

/-- `GetRuleRouteRequest`. -/
def PostableRule.getRuleRouteRequest (r : PostableRule V Q) (ruleID : String) :
    Option (List PostableRoutePolicy) :=
  r.getRuleThreshold.map (routeRequests sort ruleID)

/-- The keys of the notification group of a definition. -/
def PostableRule.groups (r : PostableRule V Q) : List String :=
  match r.notificationSettings with
  | none => []
  | some ns => ns.getAlertManagerNotificationConfig.notificationGroup

/-- `GetInhibitRules`, where `order` is the order in which the keys of the notification group are
visited. -/
def PostableRule.getInhibitRules (order : List String → List String) (r : PostableRule V Q)
    (ruleID : String) : Option (List InhibitRule) :=
  r.getRuleThreshold.map fun thresholds =>
    Rules.getInhibitRules (order r.groups) ruleID (sort thresholds)

end Requests

/-! ## Uses of a definition -/

section Uses

variable {V Q : Type} {sort : List (BasicRuleThreshold V) → List (BasicRuleThreshold V)}
variable {r s t : PostableRule V Q}

theorem UsedAs.refl (r : PostableRule V Q) : UsedAs sort r r := ⟨0, rfl⟩

theorem UsedAs.sortThresholds (h : UsedAs sort r s) : UsedAs sort r (s.sortThresholds sort) := by
  obtain ⟨n, rfl⟩ := h
  exact ⟨n + 1, (Function.iterate_succ_apply' _ n r).symm⟩

theorem UsedAs.trans (hrs : UsedAs sort r s) (hst : UsedAs sort s t) : UsedAs sort r t := by
  obtain ⟨n, rfl⟩ := hrs
  obtain ⟨m, rfl⟩ := hst
  exact ⟨m + n, (Function.iterate_add_apply _ m n r).symm⟩

/-- What does not read the thresholds is the same after a use. -/
theorem UsedAs.eq_of_sortThresholds {α : Type} {f : PostableRule V Q → α}
    (hf : ∀ d : PostableRule V Q, f (d.sortThresholds sort) = f d) (h : UsedAs sort r s) :
    f s = f r := by
  obtain ⟨n, rfl⟩ := h
  induction n with
  | zero => rfl
  | succ n ih =>
    rw [Function.iterate_succ_apply', hf]
    exact ih

theorem UsedAs.disabled (h : UsedAs sort r s) : s.disabled = r.disabled :=
  h.eq_of_sortThresholds fun _ => rfl

theorem getRuleThreshold_sortThresholds (d : PostableRule V Q) :
    (d.sortThresholds sort).getRuleThreshold = d.getRuleThreshold.map sort := by
  rw [PostableRule.getRuleThreshold, PostableRule.getRuleThreshold, PostableRule.sortThresholds]
  cases d.ruleCondition <;> rfl

theorem UsedAs.getRuleThreshold (hsort : ∀ l, (sort l).Perm l) (h : UsedAs sort r s)
    {ts : List (BasicRuleThreshold V)} (hr : r.getRuleThreshold = some ts) :
    ∃ us, s.getRuleThreshold = some us ∧ us.Perm ts := by
  obtain ⟨n, rfl⟩ := h
  induction n with
  | zero => exact ⟨ts, hr, List.Perm.refl ts⟩
  | succ n ih =>
    obtain ⟨us, hus, hperm⟩ := ih
    refine ⟨sort us, ?_, (hsort us).trans hperm⟩
    rw [Function.iterate_succ_apply', getRuleThreshold_sortThresholds, hus, Option.map_some]

end Uses

end Signoz.Rules
