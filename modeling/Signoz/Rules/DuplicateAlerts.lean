import Signoz.Rules.Hysteresis
import Signoz.Rules.RuleChanges

/-!
# Evaluations that find a duplicate alert

The labels of an alert are those of its series with the name of the threshold and a severity, less
two internal labels, overwritten by the expanded rule labels and by three fixed names. Two samples
may end up with the same labels, and then the evaluation fails. `alertLabels_eq_iff` says when they
do, and `eval_duplicate_iff` when an evaluation of a definition that was read and validated fails
this way: when two samples agree in everything that goes into their labels, or when the hash of
different labels is the same. Neither the names of thresholds nor the names of rule labels are
checked against this, so a definition may pass and fail in every evaluation
(`valid_rules_find_duplicates`).
-/

namespace Signoz.Rules

open Signoz.Querier

/-! ## Rules of definitions -/

/-- What a rule has from the texts of its definition and from the options of the manager. -/
structure RuleSettings where
  generatorURL : String
  unit : String
  absentFor : Int
  requireMinPoints : Bool
  requiredNumPoints : Int
  sendUnmatched : Bool

variable {V Q : Type}

/-- `NewBaseRule`. No option sets the hold duration. -/
def PostableRule.newBaseRule (kind : RuleKind) (id : String) (settings : RuleSettings)
    (p : PostableRule V Q) : Option (BaseRule V) :=
  match p.ruleCondition, p.evaluation with
  | some condition, some _ =>
    condition.thresholds.map fun threshold =>
      { kind := kind
        id := id
        name := p.alertName
        generatorURL := settings.generatorURL
        unit := settings.unit
        labels := fromMap p.labels
        thresholds := threshold
        alertOnAbsent := condition.alertOnAbsent
        absentFor := settings.absentFor
        requireMinPoints := settings.requireMinPoints
        requiredNumPoints := settings.requiredNumPoints
        newGroupEvalDelay :=
          (p.notificationSettings.map NotificationSettings.newGroupEvalDelay).getD 0
        holdDuration := 0
        sendUnmatched := settings.sendUnmatched }
  | _, _ => none

/-- `NewThresholdRule`. -/
def PostableRule.newThresholdRule (id : String) (settings : RuleSettings) (p : PostableRule V Q) :
    Option (BaseRule V) :=
  p.newBaseRule .threshold id settings

/-! ## What goes into the labels of an alert -/

/-- The labels that are dropped. -/
def droppedNames : List String := [metricNameLabel, temporalityLabel]

/-- The labels that every alert of a rule has. -/
def fixedNames : List String := [alertNameLabel, alertRuleIDLabel, ruleSourceLabel]

/-- The text of a rule label, expanded for a sample. -/
def expandFor (env : RuleEnv V) (rule : BaseRule V) (smpl : Sample V) (text : String) : String :=
  env.expand smpl.metric (env.format smpl.v rule.unit) (env.format smpl.target smpl.targetUnit) text

/-- Two samples agree in what goes into their alert labels: in the labels that are neither dropped
nor overwritten, and in the expanded rule labels. -/
structure SameSources (env : RuleEnv V) (rule : BaseRule V) (x y : Sample V) : Prop where
  kept : ∀ n, n ∉ droppedNames → n ∉ fixedNames → n ∉ rule.labels.map Label.name →
    x.metric.find n = y.metric.find n
  expanded : ∀ n text, n ∉ fixedNames → rule.labels.find n = some text →
    expandFor env rule x text = expandFor env rule y text

/-- Different alert labels with the same hash. -/
def HashCollision (env : RuleEnv V) (rule : BaseRule V) (samples : List (Sample V)) : Prop :=
  ∃ x ∈ samples, ∃ y ∈ samples, alertLabels env rule x ≠ alertLabels env rule y ∧
    alertKey env rule x = alertKey env rule y

/-- The labels of a series with printed values. -/
def printedLabels (labels : List Querier.Label) : Labels :=
  labels.map fun label => ⟨label.name, label.value.text⟩

/-- The names at which the labels of a series do not reach the alert. -/
def replacedNames (rule : BaseRule V) : List String :=
  droppedNames ++ fixedNames ++ [labelThresholdName, labelSeverityName] ++
    rule.labels.map Label.name

/-- The label sets of two series differ, by name and printed value. -/
def LabelsDiffer (a b : TimeSeries V) : Prop :=
  ∃ n, (printedLabels a.labels).find n ≠ (printedLabels b.labels).find n

/-- They differ at a name that reaches the alert. -/
def SeriesApart (rule : BaseRule V) (a b : TimeSeries V) : Prop :=
  ∃ n ∉ replacedNames rule, (printedLabels a.labels).find n ≠ (printedLabels b.labels).find n

/-- The name of the threshold tells two thresholds apart, or the severity does. -/
def ThresholdsApart (lower : String → String) (names : List String)
    (a b : BasicRuleThreshold V) : Prop :=
  (labelThresholdName ∉ names ∧ a.name ≠ b.name) ∨
    (labelSeverityName ∉ names ∧ lower a.name ≠ lower b.name)

/-- The alerts of a definition tell its thresholds apart. -/
def PostableRule.TellsThresholdsApart (lower : String → String) (p : PostableRule V Q) : Prop :=
  ∀ thresholds, p.getRuleThreshold = some thresholds →
    thresholds.Pairwise (ThresholdsApart lower (p.labels.map Prod.fst))

/-- `FilterNewSeries` leaves series out and changes none. -/
def EvalInput.LeavesOut (input : EvalInput V) : Prop :=
  ∀ series kept, input.filterNewSeries series = some kept → kept.Sublist series

/-! ## The labels of a sample -/

section SampleLabels

theorem namesDiffer_foldl_set {α : Type} (name value : α → String) (ls : List α) {b : Builder}
    (h : b.NamesDiffer) : (ls.foldl (fun lb l => lb.set (name l) (value l)) b).NamesDiffer := by
  induction ls generalizing b with
  | nil => exact h
  | cons l rest ih => exact ih (h.set (name l) (value l))

/-- After a loop that sets labels, a name has the value that was set last. -/
theorem find_foldl_set {α : Type} (name value : α → String) (ls : List α) {b : Builder}
    (h : b.NamesDiffer) (n : String) :
    (ls.foldl (fun lb l => lb.set (name l) (value l)) b).find n =
      (Labels.find (ls.map fun l => ⟨name l, value l⟩) n).or (b.find n) := by
  induction ls generalizing b with
  | nil => rw [List.foldl_nil, List.map_nil, find_nil, Option.none_or]
  | cons l rest ih =>
    rw [List.foldl_cons, ih (h.set (name l) (value l)), Builder.find_set h, List.map_cons,
      find_cons, Option.or_assoc]
    congr 1
    by_cases hn : n = name l
    · rw [if_pos hn, if_pos hn.symm, Option.some_or]
    · rw [if_neg hn, if_neg (Ne.symm hn), Option.none_or]

variable (lower : String → String) (labels : List Querier.Label) (thresholdName : String)

theorem nodup_prepareSampleLabelsForRule :
    ((prepareSampleLabelsForRule lower labels thresholdName).map Label.name).Nodup := by
  have hempty : (newBuilder []).NamesDiffer := Builder.namesDiffer_newBuilder List.nodup_nil
  have hloop := namesDiffer_foldl_set Querier.Label.name (fun l => l.value.text) labels hempty
  exact ((hloop.set _ _).set _ _).nodup_labels

/-- The labels of a sample: those of the series, with threshold name and severity. -/
theorem find_prepareSampleLabelsForRule (n : String) :
    (prepareSampleLabelsForRule lower labels thresholdName).find n =
      if n = labelSeverityName then some (lower thresholdName)
      else if n = labelThresholdName then some thresholdName
      else (printedLabels labels).find n := by
  have hempty : (newBuilder []).NamesDiffer := Builder.namesDiffer_newBuilder List.nodup_nil
  have hloop := namesDiffer_foldl_set Querier.Label.name (fun l => l.value.text) labels hempty
  have hbase : (newBuilder []).find n = none := Builder.find_newBuilder [] n
  rw [prepareSampleLabelsForRule, ((hloop.set _ _).set _ _).find_labels,
    Builder.find_set (hloop.set _ _), Builder.find_set hloop, find_foldl_set _ _ _ hempty, hbase,
    Option.or_none]
  rfl

end SampleLabels

/-! ## The labels of an alert -/

section AlertLabels

variable {env : RuleEnv V} {rule : BaseRule V} {x y smpl : Sample V}

theorem namesDiffer_sampleBuilder (rule : BaseRule V) {metric : Labels}
    (h : (metric.map Label.name).Nodup) :
    (sampleBuilder rule metric).NamesDiffer := by
  have hbase := (Builder.namesDiffer_newBuilder h).delete metricNameLabel
  rw [sampleBuilder]
  split
  · exact hbase.delete temporalityLabel
  · exact hbase

theorem find_sampleBuilder (hkind : rule.kind = .threshold) (metric : Labels) (n : String) :
    (sampleBuilder rule metric).find n = if n ∈ droppedNames then none else metric.find n := by
  simp only [sampleBuilder, hkind, Builder.find_delete, Builder.find_newBuilder, droppedNames,
    List.mem_cons, List.not_mem_nil, or_false]
  by_cases htemporality : n = temporalityLabel
  · simp only [htemporality, if_true, or_true]
  · simp only [htemporality, if_false, or_false]

/-- The builder over the labels of a sample after the loop over the rule labels. -/
theorem namesDiffer_ruleLabels (env : RuleEnv V) (rule : BaseRule V)
    (h : (smpl.metric.map Label.name).Nodup) :
    (rule.labels.foldl (fun lb l => lb.set l.name (expandFor env rule smpl l.value))
      (sampleBuilder rule smpl.metric)).NamesDiffer :=
  namesDiffer_foldl_set Label.name (fun l => expandFor env rule smpl l.value) rule.labels
    (namesDiffer_sampleBuilder rule h)

theorem find_map_value (f : String → String) (ls : Labels) (n : String) :
    Labels.find (ls.map fun l => ⟨l.name, f l.value⟩) n = (ls.find n).map f := by
  induction ls with
  | nil => rfl
  | cons a rest ih =>
    rw [List.map_cons, find_cons, find_cons, ih, Option.map_or]
    congr 1
    split <;> rfl

/-- The labels of the alert of a sample that is not for missing data. -/
theorem find_alertLabels (hkind : rule.kind = .threshold)
    (hmetric : (smpl.metric.map Label.name).Nodup) (hmissing : smpl.isMissing = false)
    (n : String) :
    (alertLabels env rule smpl).find n =
      if n = ruleSourceLabel then some rule.generatorURL
      else if n = alertRuleIDLabel then some rule.id
      else if n = alertNameLabel then some rule.name
      else ((rule.labels.find n).map (expandFor env rule smpl)).or
        (if n ∈ droppedNames then none else smpl.metric.find n) := by
  have hrule := namesDiffer_ruleLabels env rule hmetric
  have hloop := find_foldl_set Label.name (fun l => expandFor env rule smpl l.value) rule.labels
    (namesDiffer_sampleBuilder rule hmetric) n
  rw [find_map_value, find_sampleBuilder hkind] at hloop
  have hlabels : alertLabels env rule smpl =
      ((((rule.labels.foldl (fun lb l => lb.set l.name (expandFor env rule smpl l.value))
        (sampleBuilder rule smpl.metric)).set alertNameLabel rule.name).set alertRuleIDLabel
          rule.id).set ruleSourceLabel rule.generatorURL).labels := by
    rw [alertLabels, hmissing]
    rfl
  rw [hlabels, (((hrule.set _ _).set _ _).set _ _).find_labels,
    Builder.find_set ((hrule.set _ _).set _ _), Builder.find_set (hrule.set _ _),
    Builder.find_set hrule, hloop]

theorem nodup_alertLabels (hmetric : (smpl.metric.map Label.name).Nodup) :
    ((alertLabels env rule smpl).map Label.name).Nodup := by
  have hfixed := (((namesDiffer_ruleLabels env rule hmetric).set alertNameLabel
    rule.name).set alertRuleIDLabel rule.id).set ruleSourceLabel rule.generatorURL
  simp only [alertLabels]
  split
  · exact ((hfixed.set _ _).set _ _).nodup_labels
  · exact hfixed.nodup_labels

theorem setLabel_ne_nil (n v : String) (ls : Labels) : setLabel n v ls ≠ [] := by
  cases ls with
  | nil => exact List.cons_ne_nil _ _
  | cons a rest =>
    rw [setLabel]
    split <;> exact List.cons_ne_nil _ _

/-- The labels of an alert are sorted. -/
theorem sorted_alertLabels (env : RuleEnv V) (rule : BaseRule V) (smpl : Sample V) :
    (alertLabels env rule smpl).Pairwise fun a b => a.name ≤ b.name := by
  have hsorted : ∀ (b : Builder) (n v : String),
      (b.set n v).labels.Pairwise fun a b => a.name ≤ b.name := by
    intro b n v
    have hadd : ¬ ((b.set n v).del = [] ∧ (b.set n v).add = []) :=
      fun h => setLabel_ne_nil n v b.add h.2
    rw [Builder.labels, if_neg hadd]
    exact List.pairwise_insertionSort _ _
  simp only [alertLabels]
  split
  · exact hsorted _ _ _
  · exact hsorted _ _ _

/-- Sorted labels with different names that read the same are the same. -/
theorem eq_of_find_eq {ls ls' : Labels} (h : (ls.map Label.name).Nodup)
    (h' : (ls'.map Label.name).Nodup) (hsorted : ls.Pairwise fun a b => a.name ≤ b.name)
    (hsorted' : ls'.Pairwise fun a b => a.name ≤ b.name)
    (hfind : ∀ n, ls.find n = ls'.find n) : ls = ls' := by
  have hperm : ls.Perm ls' := by
    rw [List.perm_ext_iff_of_nodup (List.Nodup.of_map _ h) (List.Nodup.of_map _ h')]
    intro l
    rw [← find_eq_some_iff (n := l.name) (v := l.value) h,
      ← find_eq_some_iff (n := l.name) (v := l.value) h', hfind]
  refine hperm.eq_of_pairwise ?_ hsorted hsorted'
  intro a b ha hb hab hba
  exact List.inj_on_of_nodup_map h ha (hperm.mem_iff.2 hb) (le_antisymm hab hba)

/-- The labels of two alerts are the same exactly when their samples agree in what goes into
them. -/
theorem alertLabels_eq_iff (hkind : rule.kind = .threshold)
    (hx : (x.metric.map Label.name).Nodup) (hy : (y.metric.map Label.name).Nodup)
    (hxm : x.isMissing = false) (hym : y.isMissing = false) :
    alertLabels env rule x = alertLabels env rule y ↔ SameSources env rule x y := by
  have hfixed : ∀ n, n ∉ fixedNames ↔
      n ≠ ruleSourceLabel ∧ n ≠ alertRuleIDLabel ∧ n ≠ alertNameLabel := by
    intro n
    simp only [fixedNames, List.mem_cons, List.not_mem_nil, or_false, not_or, ne_eq]
    constructor
    · rintro ⟨h1, h2, h3⟩
      exact ⟨h3, h2, h1⟩
    · rintro ⟨h1, h2, h3⟩
      exact ⟨h3, h2, h1⟩
  constructor
  · intro heq
    -- At a name that is not fixed the labels show what was expanded or kept.
    have hfind : ∀ n, n ∉ fixedNames →
        ((rule.labels.find n).map (expandFor env rule x)).or
            (if n ∈ droppedNames then none else x.metric.find n) =
          ((rule.labels.find n).map (expandFor env rule y)).or
            (if n ∈ droppedNames then none else y.metric.find n) := by
      intro n hn
      obtain ⟨h1, h2, h3⟩ := (hfixed n).1 hn
      have h := congrArg (fun ls => Labels.find ls n) heq
      simp only [find_alertLabels hkind hx hxm, find_alertLabels hkind hy hym, h1, h2, h3,
        if_false] at h
      exact h
    refine ⟨?_, ?_⟩
    · intro n hdropped hn hrule
      have h := hfind n hn
      simp only [find_eq_none_iff.2 hrule, Option.map_none, Option.none_or, hdropped,
        if_false] at h
      exact h
    · intro n text hn htext
      have h := hfind n hn
      simp only [htext, Option.map_some, Option.some_or, Option.some.injEq] at h
      exact h
  · intro hsame
    refine eq_of_find_eq (nodup_alertLabels hx) (nodup_alertLabels hy)
      (sorted_alertLabels env rule x) (sorted_alertLabels env rule y) ?_
    intro n
    rw [find_alertLabels hkind hx hxm, find_alertLabels hkind hy hym]
    split
    · rfl
    · split
      · rfl
      · split
        · rfl
        · rename_i h1 h2 h3
          have hn := (hfixed n).2 ⟨h1, h2, h3⟩
          cases htext : rule.labels.find n with
          | some text =>
            simp only [Option.map_some, Option.some_or, hsame.expanded n text hn htext]
          | none =>
            simp only [Option.map_none, Option.none_or]
            split
            · rfl
            · rename_i hdropped
              exact hsame.kept n hdropped hn (find_eq_none_iff.1 htext)

end AlertLabels

/-! ## The samples of an evaluation -/

section Samples

variable [Float64 V] {env : RuleEnv V} {rule : BaseRule V}

/-- A sample of a series that alerts has its labels. -/
theorem shouldAlertWithTarget_metric (lower : String → String) (b : BasicRuleThreshold V)
    (series : TimeSeries V) (target : V) :
    (b.shouldAlertWithTarget lower series target).2 = true →
      (b.shouldAlertWithTarget lower series target).1.metric =
        prepareSampleLabelsForRule lower series.labels b.name := by
  simp only [BasicRuleThreshold.shouldAlertWithTarget]
  split
  · intro h
    cases h
  · split
    · split
      · exact fun _ => rfl
      · intro h
        cases h
    · split
      · intro h
        cases h
      · exact fun _ => rfl
    · exact fun _ => rfl
    · exact fun _ => rfl
    · exact fun _ => rfl
    · intro h
      cases h

/-- What a threshold makes of a series: a sample with its labels, not for missing data. -/
theorem evalThreshold_metric {series : TimeSeries V} {evalData : EvalData}
    {t : BasicRuleThreshold V} {smpl : Sample V}
    (h : evalThreshold env.lower env.sum64 series rule.unit evalData t = some smpl) :
    smpl.metric = prepareSampleLabelsForRule env.lower series.labels t.name ∧
      smpl.isMissing = false := by
  simp only [evalThreshold] at h
  split at h
  · rename_i halert
    obtain rfl := Option.some.inj h
    exact ⟨shouldAlertWithTarget_metric env.lower t series _ halert,
      (shouldAlertWithTarget_flags env.lower t series _).1⟩
  · split at h
    · obtain ⟨v, -, rfl⟩ := Option.map_eq_some_iff.1 h
      exact ⟨rfl, rfl⟩
    · split at h
      · cases h
      · split at h
        · split at h
          · rename_i hrecovers
            obtain rfl := Option.some.inj h
            exact ⟨shouldAlertWithTarget_metric env.lower t series _ hrecovers,
              (shouldAlertWithTarget_flags env.lower t series _).1⟩
          · cases h
        · cases h

/-- An evaluation has one sample, for missing data, or the samples of the series. -/
theorem evalSamples_cases (env : RuleEnv V) (rule : BaseRule V) (state : EvalState V)
    {input : EvalInput V}
    {series : List (TimeSeries V)} (hseries : input.series = some series) :
    (∃ smpl, evalSamples env rule state input = [smpl]) ∨
      evalSamples env rule state input =
        samplesOf env rule state.active (seriesToEval rule input series) := by
  have hsamples : evalSamples env rule state input =
      (samplesOfQuery env rule state input series).2 := by
    simp only [evalSamples, hseries]
  rw [hsamples]
  cases halert : (handleMissingDataAlert env rule state.lastTimestampWithDatapoints input.ts
      (!series.isEmpty)).2 with
  | some smpl =>
    simp only [samplesOfQuery, halert]
    exact Or.inl ⟨smpl, rfl⟩
  | none =>
    simp only [samplesOfQuery, halert]
    exact Or.inr trivial

theorem mem_samplesOf {active : ActiveMap V} {toEval : List (TimeSeries V)} {smpl : Sample V}
    (h : smpl ∈ samplesOf env rule active toEval) :
    (smpl.metric.map Label.name).Nodup ∧ smpl.isMissing = false := by
  obtain ⟨s, -, hs⟩ := List.mem_flatMap.1 h
  obtain ⟨t, -, ht⟩ := List.mem_filterMap.1 hs
  obtain ⟨hmetric, hmissing⟩ := evalThreshold_metric ht
  rw [hmetric]
  exact ⟨nodup_prepareSampleLabelsForRule env.lower s.labels t.name, hmissing⟩

omit [Float64 V] in
/-- Samples of thresholds that the alerts tell apart differ in what goes into their labels. -/
theorem not_sameSources_of_thresholds {s s' : TimeSeries V} {t t' : BasicRuleThreshold V}
    {x y : Sample V} (hx : x.metric = prepareSampleLabelsForRule env.lower s.labels t.name)
    (hy : y.metric = prepareSampleLabelsForRule env.lower s'.labels t'.name)
    (hapart : ThresholdsApart env.lower (rule.labels.map Label.name) t t') :
    ¬ SameSources env rule x y := by
  intro hsame
  rcases hapart with ⟨hfree, hne⟩ | ⟨hfree, hne⟩
  · have h := hsame.kept labelThresholdName (by decide) (by decide) hfree
    have hname : labelThresholdName ≠ labelSeverityName := by decide
    rw [hx, hy, find_prepareSampleLabelsForRule, find_prepareSampleLabelsForRule, if_neg hname,
      if_neg hname, if_pos rfl, if_pos rfl] at h
    exact hne (Option.some.inj h)
  · have h := hsame.kept labelSeverityName (by decide) (by decide) hfree
    rw [hx, hy, find_prepareSampleLabelsForRule, find_prepareSampleLabelsForRule, if_pos rfl,
      if_pos rfl] at h
    exact hne (Option.some.inj h)

omit [Float64 V] in
/-- So do samples of series that differ at a name that reaches the alert. -/
theorem not_sameSources_of_series {s s' : TimeSeries V} {t t' : BasicRuleThreshold V}
    {x y : Sample V} (hx : x.metric = prepareSampleLabelsForRule env.lower s.labels t.name)
    (hy : y.metric = prepareSampleLabelsForRule env.lower s'.labels t'.name)
    (hapart : SeriesApart rule s s') : ¬ SameSources env rule x y := by
  intro hsame
  obtain ⟨n, hn, hne⟩ := hapart
  simp only [replacedNames, List.mem_append, List.mem_cons, List.not_mem_nil, or_false,
    not_or] at hn
  obtain ⟨⟨⟨hdropped, hfixed⟩, hthreshold, hseverity⟩, hrule⟩ := hn
  have h := hsame.kept n hdropped hfixed hrule
  rw [hx, hy, find_prepareSampleLabelsForRule, find_prepareSampleLabelsForRule, if_neg hseverity,
    if_neg hseverity, if_neg hthreshold, if_neg hthreshold] at h
  exact hne h

omit [Float64 V] in
theorem pairwise_seriesToEval {R : TimeSeries V → TimeSeries V → Prop} {input : EvalInput V}
    (hfilter : input.LeavesOut) {series : List (TimeSeries V)} (h : series.Pairwise R) :
    (seriesToEval rule input series).Pairwise R := by
  refine List.Pairwise.filter _ ?_
  split
  · cases hkept : input.filterNewSeries series with
    | none => exact h
    | some kept => exact h.sublist (hfilter series kept hkept)
  · exact h

/-- The samples of series and thresholds that are told apart differ pairwise in what goes into their
labels. -/
theorem pairwise_samplesOf (active : ActiveMap V) {toEval : List (TimeSeries V)}
    (hseries : toEval.Pairwise (SeriesApart rule))
    (hthresholds : rule.thresholds.Pairwise
      (ThresholdsApart env.lower (rule.labels.map Label.name))) :
    (samplesOf env rule active toEval).Pairwise fun x y => ¬ SameSources env rule x y := by
  have hsymm : ∀ {a b : BasicRuleThreshold V},
      ThresholdsApart env.lower (rule.labels.map Label.name) a b →
        ThresholdsApart env.lower (rule.labels.map Label.name) b a :=
    fun h => h.imp (fun h => ⟨h.1, h.2.symm⟩) fun h => ⟨h.1, h.2.symm⟩
  have hsorted := (List.Perm.pairwise_iff hsymm (env.sort_perm rule.thresholds)).2 hthresholds
  rw [samplesOf, List.pairwise_flatMap]
  constructor
  · -- The samples of one series come from different thresholds.
    intro s _
    rw [evalThresholds, List.pairwise_filterMap]
    refine hsorted.imp ?_
    intro t t' hapart x hx y hy
    exact not_sameSources_of_thresholds (evalThreshold_metric hx).1 (evalThreshold_metric hy).1
      hapart
  · refine hseries.imp ?_
    intro s s' hapart x hx y hy
    obtain ⟨t, -, ht⟩ := List.mem_filterMap.1 hx
    obtain ⟨t', -, ht'⟩ := List.mem_filterMap.1 hy
    exact not_sameSources_of_series (evalThreshold_metric ht).1 (evalThreshold_metric ht').1 hapart

end Samples

/-! ## Failing evaluations -/

section Failing

variable [Float64 V] {env : RuleEnv V} {rule : BaseRule V}
variable {state : EvalState V} {input : EvalInput V} {series : List (TimeSeries V)}

theorem eval_eq_error_iff (hseries : input.series = some series) :
    (eval env rule state input).2 = .error (duplicateAlertError rule) ↔
      ¬ (evalKeys env rule state input).Nodup := by
  have hsamples : evalSamples env rule state input =
      (samplesOfQuery env rule state input series).2 := by
    simp only [evalSamples, hseries]
  have hfst := map_fst_alertsOf env rule input.ts (evalSamples env rule state input)
  rw [hsamples] at hfst
  rw [evalKeys, hsamples, ← hfst]
  simp only [eval, hseries]
  split
  · rename_i hkeys
    simp only [hkeys, not_true_eq_false, reduceCtorEq]
  · rename_i hkeys
    simp only [hkeys, not_false_eq_true]

omit [Float64 V] in
theorem SameSources.refl (x : Sample V) : SameSources env rule x x :=
  ⟨fun _ _ _ _ => rfl, fun _ _ _ _ => rfl⟩

omit [Float64 V] in
/-- Keys differ pairwise exactly when labels do and no hashes collide. -/
theorem nodup_alertKey_iff {samples : List (Sample V)} :
    (samples.map (alertKey env rule)).Nodup ↔
      (samples.Pairwise fun x y => alertLabels env rule x ≠ alertLabels env rule y) ∧
        ¬ HashCollision env rule samples := by
  have hkey : ∀ {x y : Sample V}, alertLabels env rule x = alertLabels env rule y →
      alertKey env rule x = alertKey env rule y := by
    intro x y h
    rw [alertKey, alertKey, h]
  constructor
  · intro hkeys
    refine ⟨?_, ?_⟩
    · exact (List.pairwise_map.1 hkeys).imp fun hne heq => hne (hkey heq)
    · rintro ⟨x, hx, y, hy, hne, heq⟩
      -- One key is one sample, which has one set of labels.
      exact hne (congrArg _ (List.inj_on_of_nodup_map hkeys hx hy heq))
  · rintro ⟨hlabels, hcollision⟩
    refine List.pairwise_map.2 (hlabels.imp_of_mem ?_)
    intro x y hx hy hne heq
    exact hcollision ⟨x, hx, y, hy, hne, heq⟩

/-- An evaluation finds a duplicate alert exactly when two samples agree in what goes into their
labels, or hashes collide. -/
theorem eval_eq_error_iff_sameSources (env : RuleEnv V) (state : EvalState V)
    (hkind : rule.kind = .threshold)
    (hseries : input.series = some series) :
    (eval env rule state input).2 = .error (duplicateAlertError rule) ↔
      ¬ ((evalSamples env rule state input).Pairwise fun x y => ¬ SameSources env rule x y) ∨
        HashCollision env rule (evalSamples env rule state input) := by
  have hlabels : ∀ x ∈ evalSamples env rule state input, ∀ y ∈ evalSamples env rule state input,
      (alertLabels env rule x = alertLabels env rule y ↔ SameSources env rule x y) := by
    intro x hx y hy
    rcases evalSamples_cases env rule state hseries with
      ⟨smpl, hone⟩ | hmany
    · -- The missing data alert is alone.
      rw [hone, List.mem_singleton] at hx hy
      rw [hx, hy]
      exact iff_of_true rfl (SameSources.refl smpl)
    · rw [hmany] at hx hy
      exact alertLabels_eq_iff hkind (mem_samplesOf hx).1 (mem_samplesOf hy).1 (mem_samplesOf hx).2
        (mem_samplesOf hy).2
  have hpairwise : ((evalSamples env rule state input).Pairwise fun x y =>
        alertLabels env rule x ≠ alertLabels env rule y) ↔
      (evalSamples env rule state input).Pairwise fun x y => ¬ SameSources env rule x y :=
    List.Pairwise.iff_of_mem fun {x y} hx hy => not_congr (hlabels x hx y hy)
  rw [eval_eq_error_iff hseries, evalKeys, nodup_alertKey_iff, hpairwise, not_and_or, not_not]

end Failing

/-! ## Definitions that were read and validated -/

section Definitions

variable [Float64 V] (env : RuleEnv V) (codec : RuleCodec V Q)

theorem map_name_fromMap (m : List (String × String)) :
    ((fromMap m).map Label.name).Perm (m.map Prod.fst) := by
  have hperm := (perm_sortLabels (m.map fun p => (⟨p.1, p.2⟩ : Label))).map Label.name
  rw [List.map_map] at hperm
  exact hperm

omit [Float64 V] in
theorem newThresholdRule_eq_some (id : String) (settings : RuleSettings) {p : PostableRule V Q}
    {c : RuleCondition V} {thresholds : List (BasicRuleThreshold V)} {evaluation : Evaluation}
    (hc : p.ruleCondition = some c) (hthresholds : c.thresholds = some thresholds)
    (hevaluation : p.evaluation = some evaluation) :
    ∃ rule, p.newThresholdRule id settings = some rule ∧ rule.kind = .threshold ∧
      p.getRuleThreshold = some rule.thresholds ∧ rule.labels = fromMap p.labels := by
  simp only [PostableRule.newThresholdRule, PostableRule.newBaseRule,
    PostableRule.getRuleThreshold, hc, hevaluation, hthresholds, Option.map_some,
    Option.bind_some]
  exact ⟨_, rfl, rfl, rfl, rfl⟩

omit [Float64 V] in
/-- A definition that was validated has one of the two versions. -/
theorem schemaVersion_of_validate {r : PostableRule V Q} (hvalid : r.validate codec = true) :
    r.schemaVersion = defaultSchemaVersion ∨ r.schemaVersion = schemaVersionV2Alpha1 := by
  rw [PostableRule.validate] at hvalid
  split at hvalid
  · cases hvalid
  · by_cases hv1 : r.schemaVersion = defaultSchemaVersion
    · exact Or.inl hv1
    · by_cases hv2 : r.schemaVersion = schemaVersionV2Alpha1
      · exact Or.inr hv2
      · simp only [if_neg hv1, if_neg hv2, Bool.and_false, Bool.false_eq_true] at hvalid

/-- A definition that was read and validated has thresholds and an evaluation. -/
theorem parts_of_validate {old r : PostableRule V Q} {text : String}
    (hread : old.unmarshalJSON codec text = some r) (hvalid : r.validate codec = true) :
    ∃ c thresholds evaluation, r.ruleCondition = some c ∧ c.thresholds = some thresholds ∧
      r.evaluation = some evaluation := by
  obtain ⟨c, hc, hq⟩ := condition_of_validate codec hvalid
  obtain ⟨read, -, rfl⟩ := unmarshalJSON_eq_some codec hread
  have hfilled := filled_processRuleDefaults hc hq
  generalize read.processRuleDefaults = r at *
  rcases schemaVersion_of_validate codec hvalid with hv1 | hv2
  · -- Both were derived from the other fields.
    have hderived := hfilled.derived hv1
    have hcondition := congrArg PostableRule.ruleCondition hderived
    have hevaluation := congrArg PostableRule.evaluation hderived
    rw [hc] at hcondition
    exact ⟨c, _, _, hc, (congrArg RuleCondition.thresholds (Option.some.inj hcondition)).symm,
      hevaluation.symm⟩
  · have hversions : schemaVersionV2Alpha1 ≠ defaultSchemaVersion := by decide
    simp only [PostableRule.validate, hc, hv2, if_neg hversions, if_true,
      PostableRule.validateV2Alpha1, Bool.and_eq_true] at hvalid
    obtain ⟨thresholds, hthresholds⟩ := Option.isSome_iff_exists.1 hvalid.2.1.1
    obtain ⟨evaluation, hevaluation⟩ := Option.isSome_iff_exists.1 hvalid.2.1.2
    exact ⟨c, thresholds, evaluation, hc, hthresholds, hevaluation⟩

/-- The one threshold of a definition of version `v1` is told apart. -/
theorem tellsThresholdsApart_of_v1 (lower : String → String) {old r : PostableRule V Q}
    {text : String} (hread : old.unmarshalJSON codec text = some r)
    (hvalid : r.validate codec = true) (hv1 : r.schemaVersion = defaultSchemaVersion) :
    r.TellsThresholdsApart lower := by
  obtain ⟨c, hc, hq⟩ := condition_of_validate codec hvalid
  obtain ⟨read, -, rfl⟩ := unmarshalJSON_eq_some codec hread
  have hderived := (filled_processRuleDefaults hc hq).derived hv1
  generalize read.processRuleDefaults = r at *
  intro thresholds hthresholds
  rw [← hderived] at hthresholds
  obtain rfl : [r.v1Threshold c] = thresholds := Option.some.inj hthresholds
  exact List.pairwise_singleton _ _

/-- An evaluation of a definition that was read and validated finds a duplicate alert exactly when
two samples agree in what goes into their alert labels, or hashes collide. With thresholds that the
alerts tell apart and series that differ at names that reach the alerts, only the latter is left. -/
theorem eval_duplicate_iff (id : String) (settings : RuleSettings) {old r : PostableRule V Q}
    {text : String} (hread : old.unmarshalJSON codec text = some r)
    (hvalid : r.validate codec = true) :
    ∃ rule, r.newThresholdRule id settings = some rule ∧
      ∀ (state : EvalState V) (input : EvalInput V) (series : List (TimeSeries V)),
        input.series = some series →
        ((eval env rule state input).2 = .error (duplicateAlertError rule) ↔
          ¬ ((evalSamples env rule state input).Pairwise fun x y => ¬ SameSources env rule x y) ∨
            HashCollision env rule (evalSamples env rule state input)) ∧
        ((r.schemaVersion = schemaVersionV2Alpha1 → r.TellsThresholdsApart env.lower) →
          input.LeavesOut → series.Pairwise (SeriesApart rule) →
            ((eval env rule state input).2 = .error (duplicateAlertError rule) ↔
              HashCollision env rule (evalSamples env rule state input))) := by
  obtain ⟨c, thresholds, evaluation, hc, hthresholds, hevaluation⟩ :=
    parts_of_validate codec hread hvalid
  obtain ⟨rule, hrule, hkind, hget, hlabels⟩ :=
    newThresholdRule_eq_some id settings hc hthresholds hevaluation
  refine ⟨rule, hrule, ?_⟩
  intro state input series hseries
  have herror := eval_eq_error_iff_sameSources env state hkind hseries
  refine ⟨herror, ?_⟩
  intro htells hfilter hdiffer
  have hapart : r.TellsThresholdsApart env.lower := by
    rcases schemaVersion_of_validate codec hvalid with hv1 | hv2
    · exact tellsThresholdsApart_of_v1 codec env.lower hread hvalid hv1
    · exact htells hv2
  rw [herror]
  have hnames : (rule.labels.map Label.name).Perm (r.labels.map Prod.fst) :=
    hlabels ▸ map_name_fromMap r.labels
  have hpairwise : rule.thresholds.Pairwise
      (ThresholdsApart env.lower (rule.labels.map Label.name)) := by
    refine (hapart rule.thresholds hget).imp ?_
    intro t t' h
    rw [ThresholdsApart, hnames.mem_iff, hnames.mem_iff]
    exact h
  apply or_iff_right
  rw [not_not]
  rcases evalSamples_cases env rule state hseries with
    ⟨smpl, hone⟩ | hmany
  · rw [hone]
    exact List.pairwise_singleton _ _
  · rw [hmany]
    exact pairwise_samplesOf state.active (pairwise_seriesToEval hfilter hdiffer) hpairwise

end Definitions

/-! ## A disk alert -/

/-- A definition with these rule labels and two thresholds, the second of this name. -/
def diskRule (labels : List (String × String)) (second : String) : PostableRule ℚ Unit :=
  { cpuRule "disk full" false false with
    labels := labels
    ruleCondition := some
      { queryType := some .builder
        compareOperator := .other ""
        target := none
        alertOnAbsent := false
        matchType := .other ""
        targetUnit := ""
        thresholds := some [aboveThreshold "critical" 90, aboveThreshold second 80] } }

/-- The text of such a definition; the labels are a JSON object. -/
def diskText (labels second : String) : String :=
  "\x7b\"version\": \"v5\", \"schemaVersion\": \"v2alpha1\", \"alert\": \"disk full\", " ++
    "\"ruleType\": \"threshold_rule\", \"labels\": " ++ labels ++
    ", \"condition\": \x7b\"compositeQuery\": \x7b\"queryType\": \"builder\", \"queries\": [" ++
    "\x7b\"type\": \"builder_query\", \"spec\": \x7b\"name\": \"A\", \"signal\": \"metrics\", " ++
    "\"aggregations\": [\x7b\"metricName\": \"disk\"\x7d]\x7d\x7d]\x7d, " ++
    "\"thresholds\": \x7b\"kind\": \"basic\", \"spec\": [" ++ thresholdText "critical" "90" ++
    ", " ++ thresholdText second "80" ++ "]\x7d\x7d, \"evaluation\": \x7b\"kind\": \"rolling\", " ++
    "\"spec\": \x7b\"evalWindow\": \"5m\", \"frequency\": \"1m\"\x7d\x7d, " ++
    "\"notificationSettings\": \x7b\"usePolicy\": false\x7d\x7d"

/-- What stands between the two parts of the text that vary. -/
theorem diskText_eq :
    ∃ front m₁ m₂ m₃ m₄ m₅ m₆ m₇ m₈ m₉ m₁₀ m₁₁ m₁₂ m₁₃ : String, ∀ labels second,
      diskText labels second = front ++ labels ++ m₁ ++ m₂ ++ m₃ ++ m₄ ++ m₅ ++ m₆ ++
        (m₇ ++ second ++ m₈ ++ m₉ ++ m₁₀) ++ m₁₁ ++ m₁₂ ++ m₁₃ :=
  ⟨_, _, _, _, _, _, _, _, _, _, _, _, _, _, fun _ _ => rfl⟩

/-- Texts are told apart by their lengths, without a comparison letter by letter. -/
theorem diskText_beq_eq_false {labels labels' second second' : String}
    (h : labels.length + second.length ≠ labels'.length + second'.length) :
    (diskText labels second == diskText labels' second') = false := by
  refine beq_eq_false_iff_ne.2 fun heq => h ?_
  obtain ⟨front, m₁, m₂, m₃, m₄, m₅, m₆, m₇, m₈, m₉, m₁₀, m₁₁, m₁₂, m₁₃,
    hparts⟩ := diskText_eq
  rw [hparts, hparts] at heq
  have hlength := congrArg String.length heq
  simp only [String.length_append] at hlength
  omega

/-- A codec that knows three of them. -/
def diskCodec : RuleCodec ℚ Unit :=
  tableCodec
    [(diskText "\x7b\x7d" "warning", diskRule [] "warning"),
      (diskText "\x7b\x7d" "critical", diskRule [] "critical"),
      (diskText "\x7b\"host\": \"any\"\x7d" "warning", diskRule [("host", "any")] "warning")]
    (by decide +kernel)

def diskSettings : RuleSettings := ⟨"", "", 0, false, 0, false⟩

/-- The disk of a host is at 95. -/
def diskOf (host : String) : TimeSeries ℚ := ⟨[⟨"host", .str host⟩], [⟨0, 95, false⟩]⟩

def diskInput (hosts : List String) : EvalInput ℚ :=
  ⟨60 * 10 ^ 9, some (hosts.map diskOf), some, inOrder⟩

/-- A text is read as a definition that passes `Validate`, as do its thresholds, and yet its
evaluation of series with different labels finds a duplicate alert. -/
structure FindsDuplicate (text : String) (r : PostableRule ℚ Unit) (hosts : List String) :
    Prop where
  read : parseRule diskCodec text = some r
  valid : r.validate diskCodec = true
  thresholds : (r.getRuleThreshold.map validateThresholds) = some []
  differ : (hosts.map diskOf).Pairwise LabelsDiffer
  fails : ∃ rule, r.newThresholdRule "r1" diskSettings = some rule ∧
    (eval plainEnv rule .new (diskInput hosts)).2 = .error (duplicateAlertError rule)

theorem parseRule_diskText :
    parseRule diskCodec (diskText "\x7b\x7d" "warning") = some (diskRule [] "warning") ∧
      parseRule diskCodec (diskText "\x7b\x7d" "critical") = some (diskRule [] "critical") ∧
      parseRule diskCodec (diskText "\x7b\"host\": \"any\"\x7d" "warning") =
        some (diskRule [("host", "any")] "warning") := by
  have hread : ∀ text, parseRule diskCodec text =
      ((List.lookup text
        [(diskText "\x7b\x7d" "warning", diskRule [] "warning"),
          (diskText "\x7b\x7d" "critical", diskRule [] "critical"),
          (diskText "\x7b\"host\": \"any\"\x7d" "warning",
            diskRule [("host", "any")] "warning")]).map
        PostableRule.processRuleDefaults).filter fun r => r.validateOnRead diskCodec :=
    fun _ => rfl
  have hcritical : (diskText "\x7b\x7d" "critical" == diskText "\x7b\x7d" "warning") = false :=
    diskText_beq_eq_false (by decide)
  have hhost : (diskText "\x7b\"host\": \"any\"\x7d" "warning" ==
      diskText "\x7b\x7d" "warning") = false :=
    diskText_beq_eq_false (by decide)
  have hboth : (diskText "\x7b\"host\": \"any\"\x7d" "warning" ==
      diskText "\x7b\x7d" "critical") = false :=
    diskText_beq_eq_false (by decide)
  refine ⟨?_, ?_, ?_⟩
  · rw [hread, List.lookup_cons, beq_self_eq_true]
    decide +kernel
  · rw [hread, List.lookup_cons, hcritical, List.lookup_cons, beq_self_eq_true]
    decide +kernel
  · rw [hread, List.lookup_cons, hhost, List.lookup_cons, hboth, List.lookup_cons,
      beq_self_eq_true]
    decide +kernel

/-- Two thresholds of one name make one series two alerts with the same labels; a rule label with
the name of a series label makes two series one. -/
theorem valid_rules_find_duplicates :
    FindsDuplicate (diskText "\x7b\x7d" "critical") (diskRule [] "critical") ["a"] ∧
      FindsDuplicate (diskText "\x7b\"host\": \"any\"\x7d" "warning")
        (diskRule [("host", "any")] "warning") ["a", "b"] := by
  constructor
  · exact ⟨parseRule_diskText.2.1, by decide +kernel, by decide +kernel,
      List.pairwise_singleton _ _, _, rfl, by decide +kernel⟩
  · refine ⟨parseRule_diskText.2.2, by decide +kernel, by decide +kernel, ?_, _, rfl,
      by decide +kernel⟩
    exact List.pairwise_pair.2 ⟨"host", by decide⟩

/-- With two thresholds of different names and no rule labels, hosts do not get in the way of each
other. -/
theorem eval_duplicate_iff_disk :
    ∃ rule, (diskRule [] "warning").newThresholdRule "r1" diskSettings = some rule ∧
      ((eval plainEnv rule .new (diskInput ["a", "bb"])).2 = .error (duplicateAlertError rule) ↔
        HashCollision plainEnv rule (evalSamples plainEnv rule .new (diskInput ["a", "bb"]))) := by
  have hread : (PostableRule.zero ()).unmarshalJSON diskCodec (diskText "\x7b\x7d" "warning") =
      some (diskRule [] "warning") := parseRule_diskText.1
  obtain ⟨rule, hrule, hevals⟩ :=
    eval_duplicate_iff plainEnv diskCodec "r1" diskSettings hread (by decide +kernel)
  refine ⟨rule, hrule, (hevals .new (diskInput ["a", "bb"]) _ rfl).2 ?_ ?_ ?_⟩
  · intro _ thresholds hthresholds
    obtain rfl := Option.some.inj hthresholds
    exact List.pairwise_pair.2 (Or.inl ⟨List.not_mem_nil, by decide⟩)
  · intro series kept hkept
    obtain rfl := Option.some.inj hkept
    exact List.Sublist.refl _
  · obtain rfl := Option.some.inj hrule
    exact List.pairwise_pair.2 ⟨"host", by decide, by decide⟩

end Signoz.Rules
