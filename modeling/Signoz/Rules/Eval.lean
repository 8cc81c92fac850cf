import Signoz.Lib.Runs
import Signoz.Rules.Threshold

/-!
# Evaluating a rule

`Eval` of `threshold_rule.go` and `prom_rule.go` with the parts of `base_rule.go` they use. One
evaluation turns query results into samples, samples into alerts keyed by the hash of their expanded
labels, merges these into the `Active` map, and then visits every entry of the map. Every change of
state is an item of the state history, whose fingerprint is the hash of the raw query labels.

The two kinds of rule run the same code up to three details, which `RuleKind` selects. Times are in
nanoseconds. What the code gets from elsewhere (templates, formatting, hashing, the sort) is in
`RuleEnv`, and what may differ from one evaluation to the next (the query result, the filter for new
series, the order in which a map is visited) is in `EvalInput`.
-/

namespace Signoz.Rules

open Signoz.Querier Lib.KeyedFold

/-! ## Data -/

/-- `AlertState`. -/
inductive AlertState where
  | inactive
  | pending
  | recovering
  | firing
  | noData
  | disabled
deriving DecidableEq

/-- `Severity`. -/
def AlertState.severity : AlertState → Nat
  | inactive => 0
  | pending => 1
  | recovering => 2
  | firing => 3
  | noData => 4
  | disabled => 5

/-- `Alert`, with the fields an evaluation reads or writes. A time that is zero is `none`. -/
structure Alert (V : Type) where
  state : AlertState
  labels : Labels
  annotations : Labels
  queryResultLabels : Labels
  generatorURL : String
  receivers : List String
  value : V
  activeAt : Int
  firedAt : Option Int
  resolvedAt : Option Int
  missing : Bool
  isRecovering : Bool

/-- `RuleStateHistory`; the labels are stored as their JSON text. -/
structure HistoryItem (V : Type) where
  ruleID : String
  ruleName : String
  state : AlertState
  stateChanged : Bool
  unixMilli : Int
  labels : Labels
  fingerprint : Nat
  value : V
  overallState : AlertState
  overallStateChanged : Bool

/-- The `Active` map. -/
abbrev ActiveMap (V : Type) := List (Nat × Alert V)

/-- `ThresholdRule` or `PromRule`. -/
inductive RuleKind where
  | threshold
  | prom

/-- `BaseRule`, with the fields an evaluation reads and does not write. -/
structure BaseRule (V : Type) where
  kind : RuleKind
  id : String
  name : String
  generatorURL : String
  unit : String
  labels : Labels
  thresholds : List (BasicRuleThreshold V)
  alertOnAbsent : Bool
  /-- `AbsentFor`, as a duration. -/
  absentFor : Int
  requireMinPoints : Bool
  requiredNumPoints : Int
  newGroupEvalDelay : Int
  holdDuration : Int
  sendUnmatched : Bool

/-- What an evaluation gets from elsewhere. -/
structure RuleEnv (V : Type) where
  lower : String → String
  sum64 : List String → Nat
  /-- What `sortThresholds` does to a list of thresholds. -/
  sort : List (BasicRuleThreshold V) → List (BasicRuleThreshold V)
  sort_perm : ∀ l, (sort l).Perm l
  /-- The formatter of the rule's unit, given the unit of the value. -/
  format : V → String → String
  /-- Expand a template for the labels, the value and the threshold of a sample. -/
  expand : Labels → String → String → String → String
  /-- The expanded annotations of a sample with the links to related logs or traces. -/
  annotationsOf : Int → Sample V → Labels
  formatTime : Int → String

/-- An order in which a map is visited. -/
structure MapOrder (V : Type) where
  visit : ActiveMap V → ActiveMap V
  perm : ∀ m, (visit m).Perm m

/-- What one evaluation sees. -/
structure EvalInput (V : Type) where
  ts : Int
  /-- The series of the selected query, or `none` when the query fails. -/
  series : Option (List (TimeSeries V))
  /-- `FilterNewSeries`, with `none` for an error. -/
  filterNewSeries : List (TimeSeries V) → Option (List (TimeSeries V))
  order : MapOrder V

/-- The fields of `BaseRule` an evaluation writes, with the recorded history. -/
structure EvalState (V : Type) where
  active : ActiveMap V
  lastTimestampWithDatapoints : Option Int
  history : List (HistoryItem V)

/-- A rule before its first evaluation. -/
def EvalState.new {V : Type} : EvalState V := ⟨[], none, []⟩

section Eval

variable {V : Type} [Float64 V] (env : RuleEnv V) (rule : BaseRule V)

open Float64

/-! ## Query results to samples -/

/-- `ActiveAlertsLabelFP`: the fingerprints of all entries, whatever their state. -/
def activeAlertsLabelFP (active : ActiveMap V) : List Nat :=
  active.map fun p => p.2.queryResultLabels.hash env.sum64

/-- The last data points are less than `AbsentFor` old. -/
def dataIsRecent (last : Option Int) (ts : Int) : Bool :=
  match last with
  | some t => ts < t + rule.absentFor
  | none => false

/-- The sample of the missing data alert. -/
def missingDataSample (last : Option Int) : Sample V :=
  let lbls : Labels :=
    match last with
    | some t => ((newBuilder []).set labelLastSeen (env.formatTime t)).labels
    | none => []
  { Sample.ofValue (ofInt 0) lbls with isMissing := true }

/-- `HandleMissingDataAlert`: the new last timestamp and the sample of the missing data alert. -/
def handleMissingDataAlert (last : Option Int) (ts : Int) (hasData : Bool) :
    Option Int × Option (Sample V) :=
  let last := if hasData then some ts else last
  if !rule.alertOnAbsent || dataIsRecent rule last ts then (last, none)
  else (last, some (missingDataSample env last))

/-- `ShouldEval`. -/
def shouldEval (series : TimeSeries V) : Bool :=
  !rule.requireMinPoints || rule.requiredNumPoints ≤ series.values.length

/-- The series that are evaluated: without the new ones, where these are to be skipped, and without
those with too few points. -/
def seriesToEval (input : EvalInput V) (series : List (TimeSeries V)) : List (TimeSeries V) :=
  let toProcess :=
    if 0 < rule.newGroupEvalDelay then (input.filterNewSeries series).getD series else series
  toProcess.filter (shouldEval rule)

/-- What `Threshold.Eval` is told about a state. -/
def evalDataOf (active : ActiveMap V) : EvalData :=
  ⟨activeAlertsLabelFP env active, rule.sendUnmatched⟩

/-- The samples of the series that are evaluated. -/
def samplesOf (active : ActiveMap V) (toEval : List (TimeSeries V)) : List (Sample V) :=
  toEval.flatMap fun s =>
    evalThresholds env.lower env.sum64 env.sort rule.thresholds s rule.unit (evalDataOf env rule active)

/-- `buildAndRunQuery`, after a query that returned these series: the new last timestamp and the
samples. -/
def samplesOfQuery (state : EvalState V) (input : EvalInput V) (series : List (TimeSeries V)) :
    Option Int × List (Sample V) :=
  let (last, missing) :=
    handleMissingDataAlert env rule state.lastTimestampWithDatapoints input.ts (!series.isEmpty)
  match missing with
  | some smpl => (last, [smpl])
  | none => (last, samplesOf env rule state.active (seriesToEval rule input series))

/-! ## Samples to alerts -/

/-- The builder over the labels of a sample. -/
def sampleBuilder (metric : Labels) : Builder :=
  let b := (newBuilder metric).delete metricNameLabel
  match rule.kind with
  | .threshold => b.delete temporalityLabel
  | .prom => b

/-- The labels of the alert of a sample. -/
def alertLabels (smpl : Sample V) : Labels :=
  let value := env.format smpl.v rule.unit
  let threshold := env.format smpl.target smpl.targetUnit
  let lb := rule.labels.foldl
    (fun lb l => lb.set l.name (env.expand smpl.metric value threshold l.value))
    (sampleBuilder rule smpl.metric)
  let lb := ((lb.set alertNameLabel rule.name).set alertRuleIDLabel rule.id).set ruleSourceLabel
    rule.generatorURL
  let lb :=
    if smpl.isMissing then
      (lb.set alertNameLabel ("[No data] " ++ rule.name)).set noDataLabel "true"
    else lb
  lb.labels

/-- The key of the alert of a sample. -/
def alertKey (smpl : Sample V) : Nat := (alertLabels env rule smpl).hash env.sum64

/-- `ruleReceiverMap`: of thresholds of one name the last counts. -/
def receiversFor (thresholdName : String) : List String :=
  (((getRuleReceivers (env.sort rule.thresholds)).reverse.find? fun r =>
    r.name = thresholdName).map RuleReceivers.channels).getD []

/-- The alert of a sample. -/
def newAlert (ts : Int) (smpl : Sample V) : Alert V where
  state := .pending
  labels := alertLabels env rule smpl
  annotations := env.annotationsOf ts smpl
  queryResultLabels := (sampleBuilder rule smpl.metric).labels
  generatorURL := rule.generatorURL
  receivers :=
    receiversFor env rule (((alertLabels env rule smpl).find labelThresholdName).getD "")
  value := smpl.v
  activeAt := ts
  firedAt := none
  resolvedAt := none
  missing := smpl.isMissing
  isRecovering := smpl.isRecovering

/-- The alerts of the samples, by key. -/
def alertsOf (ts : Int) (samples : List (Sample V)) : List (Nat × Alert V) :=
  samples.map fun smpl => (alertKey env rule smpl, newAlert env rule ts smpl)

/-! ## Alerts to the active map -/

/-- An entry that is not inactive takes over the new value and flags, another is replaced. -/
def mergeAlert (existing a : Alert V) : Alert V :=
  if existing.state = .inactive then a
  else
    { existing with
      value := a.value
      annotations := a.annotations
      isRecovering := a.isRecovering
      missing := a.missing
      receivers :=
        match existing.labels.find labelThresholdName with
        | some v => receiversFor env rule v
        | none => existing.receivers }

/-- The loop over `alerts`. -/
def mergeActive (active : ActiveMap V) (alerts : List (Nat × Alert V)) : ActiveMap V :=
  accumulate id (mergeAlert env rule) active alerts

/-- `ResolvedRetention`. -/
def resolvedRetention : Int := 15 * 60 * 10 ^ 9

/-- The item that an entry adds to the history. -/
def historyItem (ts : Int) (a : Alert V) (state : AlertState) (value : V) : HistoryItem V where
  ruleID := rule.id
  ruleName := rule.name
  state := state
  stateChanged := true
  unixMilli := ts / 10 ^ 6
  labels := a.queryResultLabels
  fingerprint := a.queryResultLabels.hash env.sum64
  value := value
  overallState := .inactive
  overallStateChanged := false

/-- An entry resolved longer ago than the retention time. -/
def expired (ts : Int) (a : Alert V) : Bool :=
  match a.resolvedAt with
  | some t => resolvedRetention < ts - t
  | none => false

/-- An entry that was not inactive resolves. -/
def resolveAlert (ts : Int) (a : Alert V) : Alert V :=
  if a.state = .inactive then a else { a with state := .inactive, resolvedAt := some ts }

/-- The value in the item of an entry that resolves. -/
def resolvedValue (a : Alert V) : V :=
  match rule.kind with
  | .threshold => a.value
  | .prom => ofInt 0

/-- An entry without a sample: a pending one and an expired one leave the map, and every one that
was not inactive is recorded as resolved. -/
def visitMissing (ts : Int) (a : Alert V) : Option (Alert V) × List (HistoryItem V) :=
  (if a.state = .pending || expired ts a then none else some (resolveAlert ts a),
    if a.state = .inactive then []
    else [historyItem env rule ts a .inactive (resolvedValue rule a)])

/-- A pending entry whose hold duration is over. -/
def firesNow (ts : Int) (a : Alert V) : Bool :=
  a.state = .pending && rule.holdDuration ≤ ts - a.activeAt

/-- The first change of state of an entry with a sample: pending to firing. -/
def fireStep (ts : Int) (a : Alert V) : Alert V × List (HistoryItem V) :=
  if firesNow rule ts a then
    ({ a with state := .firing, firedAt := some ts },
      [historyItem env rule ts a (if a.missing then .noData else .firing) a.value])
  else (a, [])

/-- The second one: firing to recovering or back. -/
def recoverStep (ts : Int) (a : Alert V) : Alert V × List (HistoryItem V) :=
  if a.state = .firing && a.isRecovering then
    ({ a with state := .recovering }, [historyItem env rule ts a .recovering a.value])
  else if a.state = .recovering && !a.isRecovering && !a.missing then
    ({ a with state := .firing }, [historyItem env rule ts a .firing a.value])
  else (a, [])

/-- An entry with a sample. -/
def visitPresent (ts : Int) (a : Alert V) : Alert V × List (HistoryItem V) :=
  let (fired, items) := fireStep env rule ts a
  let (after, more) := recoverStep env rule ts fired
  (after, items ++ more)

/-- The loop body over the `Active` map: what becomes of an entry and what it adds to the
history. -/
def visitEntry (ts : Int) (resultFPs : List Nat) (p : Nat × Alert V) :
    Option (Alert V) × List (HistoryItem V) :=
  if resultFPs.contains p.1 then
    let (after, items) := visitPresent env rule ts p.2
    (some after, items)
  else visitMissing env rule ts p.2

/-- The `Active` map after the loop. -/
def visitActive (ts : Int) (resultFPs : List Nat) (merged : ActiveMap V) : ActiveMap V :=
  merged.filterMap fun p => (visitEntry env rule ts resultFPs p).1.map fun a => (p.1, a)

/-- The items of the loop, in the order in which it visits the map. -/
def itemsToAdd (ts : Int) (resultFPs : List Nat) (visited : ActiveMap V) : List (HistoryItem V) :=
  visited.flatMap fun p => (visitEntry env rule ts resultFPs p).2

/-- `State`: the most severe state of an entry. -/
def overallStateOf (active : ActiveMap V) : AlertState :=
  active.foldl (fun m p => if m.severity < p.2.state.severity then p.2.state else m) .inactive

/-- `RecordRuleStateHistory` after a restart has been handled: of the items of one fingerprint the
last is stored. -/
def recordRuleStateHistory (history items : List (HistoryItem V)) : List (HistoryItem V) :=
  history ++
    (accumulate id (fun _ item => item) [] (items.map fun i => (i.fingerprint, i))).map Prod.snd

/-! ## Eval -/

/-- The part of an evaluation after the alerts are known. -/
def applyAlerts (state : EvalState V) (input : EvalInput V) (last : Option Int)
    (alerts : List (Nat × Alert V)) : EvalState V :=
  let resultFPs := alerts.map Prod.fst
  let merged := mergeActive env rule state.active alerts
  let active := visitActive env rule input.ts resultFPs merged
  let currentState := overallStateOf active
  let items := (itemsToAdd env rule input.ts resultFPs (input.order.visit merged)).map fun item =>
    { item with
      overallState := currentState
      overallStateChanged := currentState ≠ overallStateOf state.active }
  ⟨active, last, recordRuleStateHistory state.history items⟩

/-- The error for two samples with one key. -/
def duplicateAlertError : String :=
  match rule.kind with
  | .threshold =>
    "duplicate alert found, vector contains metrics with the same labelset after applying " ++
      "alert labels"
  | .prom => "vector contains metrics with the same labelset after applying alert labels"

/-- `Eval`: the new state, with the number of active alerts or an error. -/
def eval (state : EvalState V) (input : EvalInput V) : EvalState V × Except String Nat :=
  match input.series with
  | none => (state, .error "query failed")
  | some series =>
    let (last, samples) := samplesOfQuery env rule state input series
    let alerts := alertsOf env rule input.ts samples
    if (alerts.map Prod.fst).Nodup then
      let after := applyAlerts env rule state input last alerts
      (after, .ok after.active.length)
    else
      ({ state with lastTimestampWithDatapoints := last },
        .error (duplicateAlertError rule))

/-- An evaluation as a step: it always leads to a state, also when it fails. -/
def evalStep (state : EvalState V) (input : EvalInput V) : Option (EvalState V) :=
  some (eval env rule state input).1

/-- The samples of an evaluation whose query succeeds. -/
def evalSamples (state : EvalState V) (input : EvalInput V) : List (Sample V) :=
  match input.series with
  | none => []
  | some series => (samplesOfQuery env rule state input series).2

/-- The keys of the entries that have a sample in an evaluation. -/
def evalKeys (state : EvalState V) (input : EvalInput V) : List Nat :=
  (evalSamples env rule state input).map (alertKey env rule)

/-- The map after the loop over `alerts`. -/
def evalMerged (state : EvalState V) (input : EvalInput V) : ActiveMap V :=
  mergeActive env rule state.active (alertsOf env rule input.ts (evalSamples env rule state input))

end Eval

/-! ## What an evaluation does to one entry -/

section Entries

variable {V : Type} {env : RuleEnv V} {rule : BaseRule V}

/-- Looking up a key after a loop over alerts of distinct keys. -/
theorem mergeActive_lookup {active : ActiveMap V} {alerts : List (Nat × Alert V)}
    (hkeys : (alerts.map Prod.fst).Nodup) (k : Nat) :
    (mergeActive env rule active alerts).lookup k =
      match alerts.lookup k with
      | none => active.lookup k
      | some a => some ((active.lookup k).elim a fun x => mergeAlert env rule x a) := by
  rw [mergeActive, lookup_accumulate, itemsOf_eq_lookup hkeys]
  cases alerts.lookup k with
  | none => cases active.lookup k <;> rfl
  | some a => cases active.lookup k <;> rfl

theorem map_fst_alertsOf (env : RuleEnv V) (rule : BaseRule V) (ts : Int)
    (samples : List (Sample V)) :
    (alertsOf env rule ts samples).map Prod.fst = samples.map (alertKey env rule) := by
  rw [alertsOf, List.map_map]
  rfl

variable {ts : Int} {k : Nat}

/-- With distinct keys, the alert under a key is that of the sample with the key. -/
theorem alertsOf_lookup {samples : List (Sample V)}
    (hkeys : (samples.map (alertKey env rule)).Nodup) {a : Alert V} :
    (alertsOf env rule ts samples).lookup k = some a ↔
      ∃ smpl ∈ samples, alertKey env rule smpl = k ∧ newAlert env rule ts smpl = a := by
  rw [← map_fst_alertsOf env rule ts samples] at hkeys
  rw [← mem_iff_lookup hkeys, alertsOf, List.mem_map]
  simp only [Prod.mk.injEq]

theorem alertsOf_lookup_eq_none {samples : List (Sample V)} :
    (alertsOf env rule ts samples).lookup k = none ↔ k ∉ samples.map (alertKey env rule) := by
  rw [← map_fst_alertsOf env rule ts samples]
  constructor
  · intro hnone hmem
    obtain ⟨p, hp, rfl⟩ := List.mem_map.1 hmem
    have := List.lookup_eq_none_iff.1 hnone p hp
    simp at this
  · exact lookup_eq_none_of_notMem

@[simp] theorem recoverStep_firedAt (ts : Int) (a : Alert V) :
    (recoverStep env rule ts a).1.firedAt = a.firedAt := by
  unfold recoverStep
  split
  · rfl
  · split <;> rfl

@[simp] theorem recoverStep_missing (ts : Int) (a : Alert V) :
    (recoverStep env rule ts a).1.missing = a.missing := by
  unfold recoverStep
  split
  · rfl
  · split <;> rfl

/-- An entry with a sample takes the time of the evaluation as its firing time exactly when it
fires in it. -/
theorem visitPresent_firedAt (ts : Int) (a : Alert V) :
    (visitPresent env rule ts a).1.firedAt =
      if firesNow rule ts a then some ts else a.firedAt := by
  simp only [visitPresent, recoverStep_firedAt, fireStep]
  split <;> rfl

theorem visitPresent_missing (ts : Int) (a : Alert V) :
    (visitPresent env rule ts a).1.missing = a.missing := by
  simp only [visitPresent, recoverStep_missing, fireStep]
  split <;> rfl

variable [Float64 V]

/-- The entries after the loop are those that it keeps, as it leaves them. -/
theorem mem_visitActive {fps : List Nat} {merged : ActiveMap V} {a' : Alert V} :
    (k, a') ∈ visitActive env rule ts fps merged ↔
      ∃ a, (k, a) ∈ merged ∧ (visitEntry env rule ts fps (k, a)).1 = some a' := by
  rw [visitActive, List.mem_filterMap]
  constructor
  · rintro ⟨⟨j, a⟩, hmem, hvisit⟩
    obtain ⟨b, hb, heq⟩ := Option.map_eq_some_iff.1 hvisit
    obtain ⟨rfl, rfl⟩ := Prod.mk.inj heq
    exact ⟨a, hmem, hb⟩
  · rintro ⟨a, hmem, hvisit⟩
    exact ⟨(k, a), hmem, by rw [hvisit]; rfl⟩

theorem nodup_visitActive {fps : List Nat} {merged : ActiveMap V}
    (hmerged : (merged.map Prod.fst).Nodup) :
    ((visitActive env rule ts fps merged).map Prod.fst).Nodup := by
  have hsub : List.Sublist ((visitActive env rule ts fps merged).map Prod.fst)
      (merged.map Prod.fst) := by
    rw [visitActive]
    induction merged with
    | nil => exact List.Sublist.slnil
    | cons p rest ih =>
      rw [List.map_cons, List.nodup_cons] at hmerged
      rw [List.filterMap_cons]
      cases (visitEntry env rule ts fps p).1 with
      | none => exact (ih hmerged.2).cons _
      | some a => exact (ih hmerged.2).cons_cons _
  exact hsub.nodup hmerged

variable {state : EvalState V}

theorem nodup_evalMerged (input : EvalInput V) (hactive : (state.active.map Prod.fst).Nodup) :
    ((evalMerged env rule state input).map Prod.fst).Nodup :=
  nodup_keys_accumulate id (mergeAlert env rule) _ hactive

/-- An entry without a sample keeps its firing time. -/
theorem visitMissing_firedAt {a a' : Alert V} (h : (visitMissing env rule ts a).1 = some a') :
   a'.firedAt = a.firedAt := by
  simp only [visitMissing] at h
  split at h
  · cases h
  · obtain rfl := Option.some.inj h
    rw [resolveAlert]
    split <;> rfl

/-- An evaluation fails and leaves map and history alone, or its keys are distinct and it visits
the merged map. -/
theorem eval_cases (env : RuleEnv V) (rule : BaseRule V) (state : EvalState V)
    (input : EvalInput V) :
    ((eval env rule state input).1.active = state.active ∧
        (eval env rule state input).1.history = state.history ∧
        (input.series = none ∨ ¬ (evalKeys env rule state input).Nodup)) ∨
      (input.series ≠ none ∧ (evalKeys env rule state input).Nodup ∧
        ∃ last, (eval env rule state input).1 =
          applyAlerts env rule state input last
            (alertsOf env rule input.ts (evalSamples env rule state input))) := by
  cases hseries : input.series with
  | none =>
    left
    simp only [eval, hseries, true_or, and_self]
  | some series =>
    have hsamples : evalSamples env rule state input =
        (samplesOfQuery env rule state input series).2 := by
      simp only [evalSamples, hseries]
    have hfst := map_fst_alertsOf env rule input.ts
      (evalSamples env rule state input)
    by_cases hkeys : (evalKeys env rule state input).Nodup
    · right
      refine ⟨Option.some_ne_none series, hkeys,
        (samplesOfQuery env rule state input series).1, ?_⟩
      rw [evalKeys, ← hfst, hsamples] at hkeys
      simp only [eval, hseries, if_pos hkeys, hsamples]
    · left
      have hkeys' := hkeys
      rw [evalKeys, ← hfst, hsamples] at hkeys'
      simp only [eval, hseries, if_neg hkeys']
      exact ⟨trivial, trivial, Or.inr hkeys⟩

/-- The map after an evaluation that does not fail. -/
theorem applyAlerts_active (state : EvalState V) (input : EvalInput V) (last : Option Int) :
    (applyAlerts env rule state input last
        (alertsOf env rule input.ts (evalSamples env rule state input))).active =
      visitActive env rule input.ts (evalKeys env rule state input)
        (evalMerged env rule state input) := by
  rw [applyAlerts, map_fst_alertsOf]
  rfl

/-- An entry without a sample is in the merged map as it was before. -/
theorem mem_evalMerged_of_notMem {input : EvalInput V} (hactive : (state.active.map Prod.fst).Nodup)
    (hkeys : (evalKeys env rule state input).Nodup) (hk : k ∉ evalKeys env rule state input)
    {x : Alert V} :
    (k, x) ∈ evalMerged env rule state input ↔ (k, x) ∈ state.active := by
  have hfst := map_fst_alertsOf env rule input.ts
    (evalSamples env rule state input)
  have hnone : (alertsOf env rule input.ts (evalSamples env rule state input)).lookup k = none :=
    alertsOf_lookup_eq_none.2 hk
  rw [mem_iff_lookup (nodup_evalMerged input hactive), mem_iff_lookup hactive, evalMerged,
    mergeActive_lookup (by rw [hfst]; exact hkeys), hnone]

/-- What the loop makes of an entry: with a sample it is visited as merged, without one it is the
old entry, resolved. -/
theorem mem_visited_iff {input : EvalInput V} (hactive : (state.active.map Prod.fst).Nodup)
    (hkeys : (evalKeys env rule state input).Nodup) {a : Alert V} :
    (k, a) ∈ visitActive env rule input.ts (evalKeys env rule state input)
        (evalMerged env rule state input) ↔
      (k ∈ evalKeys env rule state input ∧ ∃ b, (k, b) ∈ evalMerged env rule state input ∧
        (visitPresent env rule input.ts b).1 = a) ∨
      (k ∉ evalKeys env rule state input ∧ ∃ x, (k, x) ∈ state.active ∧
        (visitMissing env rule input.ts x).1 = some a) := by
  rw [mem_visitActive]
  by_cases hk : k ∈ evalKeys env rule state input
  · simp only [visitEntry, List.contains_iff_mem.2 hk, if_true, Option.some.injEq, hk, true_and,
      not_true_eq_false, false_and, or_false]
  · have hnot : (evalKeys env rule state input).contains k = false := by
      simpa using hk
    simp only [visitEntry, hnot, Bool.false_eq_true, if_false, hk, false_and, false_or,
      not_false_eq_true, true_and, mem_evalMerged_of_notMem hactive hkeys hk]

/-- The distinct keys of the map are kept by every evaluation. -/
theorem nodup_eval (input : EvalInput V) (hactive : (state.active.map Prod.fst).Nodup) :
    ((eval env rule state input).1.active.map Prod.fst).Nodup := by
  rcases eval_cases env rule state input with ⟨hsame, -, -⟩ | ⟨-, -, last, heval⟩
  · rw [hsame]
    exact hactive
  · rw [heval, applyAlerts_active]
    exact nodup_visitActive (nodup_evalMerged input hactive)

end Entries

end Signoz.Rules
