import Mathlib.Tactic.Linarith
import Signoz.Alertmanager.InhibitRule
import Signoz.Rules.Threshold

/-!
# Inhibit rules of a rule

`GetInhibitRules` of `api_params.go` lets each threshold of a rule, in the order of
`sortThresholds`, inhibit the next one. The order compares raw targets, firing compares targets in
the unit of the rule, so a threshold can inhibit a more severe one when target units differ.
`inhibits_downward_iff` says exactly when it cannot: when raw targets that compare one way compare
the same way in the unit of the rule.
-/

namespace Signoz.Rules

open Signoz.Querier Signoz.Alertmanager

section Emit

variable {V : Type}

/-- The inhibit rule of two consecutive receivers. -/
def inhibitRuleOf (groups : List String) (ruleID source target : String) : InhibitRule where
  sourceMatchers := [.equal labelThresholdName source, .equal labelRuleID ruleID]
  targetMatchers := [.equal labelThresholdName target, .equal labelRuleID ruleID]
  equal := groups

/-- The loop of `GetInhibitRules` over the receivers. -/
def inhibitRulesOf (groups : List String) (ruleID : String) : List RuleReceivers → List InhibitRule
  | source :: target :: rest =>
    inhibitRuleOf groups ruleID source.name target.name ::
      inhibitRulesOf groups ruleID (target :: rest)
  | _ => []

/-- `GetInhibitRules` on thresholds that are sorted, where `groups` are the keys of the
notification group in the order in which its map yields them. -/
def getInhibitRules (groups : List String) (ruleID : String)
    (sorted : List (BasicRuleThreshold V)) : List InhibitRule :=
  inhibitRulesOf groups ruleID (getRuleReceivers sorted)

/-- The rules emitted are those of the consecutive thresholds. -/
theorem getInhibitRules_getElem? (groups : List String) (ruleID : String) :
    ∀ (sorted : List (BasicRuleThreshold V)) (i : Nat),
      (getInhibitRules groups ruleID sorted)[i]? =
        (sorted[i]?.bind fun s => sorted[i + 1]?.map fun t =>
          inhibitRuleOf groups ruleID s.name t.name)
  | [], i => by simp [getInhibitRules, getRuleReceivers, inhibitRulesOf]
  | [s], i => by
    cases i with
    | zero => rfl
    | succ i => simp [getInhibitRules, getRuleReceivers, inhibitRulesOf]
  | s :: t :: rest, i => by
    cases i with
    | zero => rfl
    | succ i => exact getInhibitRules_getElem? groups ruleID (t :: rest) i

end Emit

/-! ## Severity -/

/-- A target `a` is at least as severe as a target `b`: whatever passes `a` passes `b`. -/
def AtLeastAsSevere (op : CompareOperator) (a b : ℚ) : Prop :=
  if op = .valueIsBelow ∨ op = .valueBelowOrEq then a ≤ b else b ≤ a

/-- The operators with an order of severity. -/
def IsOrdered (op : CompareOperator) : Prop :=
  op = .valueIsAbove ∨ op = .valueAboveOrEq ∨ op = .valueIsBelow ∨ op = .valueBelowOrEq

instance (op : CompareOperator) (a b : ℚ) : Decidable (AtLeastAsSevere op a b) := by
  unfold AtLeastAsSevere
  infer_instance

section Severity

variable {op : CompareOperator} {a b c : ℚ}

theorem atLeastAsSevere_below (h : op = .valueIsBelow ∨ op = .valueBelowOrEq) :
    AtLeastAsSevere op a b ↔ a ≤ b := by
  rw [AtLeastAsSevere, if_pos h]

theorem atLeastAsSevere_above (h : ¬ (op = .valueIsBelow ∨ op = .valueBelowOrEq)) :
    AtLeastAsSevere op a b ↔ b ≤ a := by
  rw [AtLeastAsSevere, if_neg h]

theorem AtLeastAsSevere.refl (op : CompareOperator) (a : ℚ) : AtLeastAsSevere op a a := by
  by_cases h : op = .valueIsBelow ∨ op = .valueBelowOrEq
  · exact (atLeastAsSevere_below h).2 (le_refl a)
  · exact (atLeastAsSevere_above h).2 (le_refl a)

theorem AtLeastAsSevere.trans (hab : AtLeastAsSevere op a b) (hbc : AtLeastAsSevere op b c) :
    AtLeastAsSevere op a c := by
  by_cases h : op = .valueIsBelow ∨ op = .valueBelowOrEq
  · rw [atLeastAsSevere_below h] at hab hbc ⊢
    exact le_trans hab hbc
  · rw [atLeastAsSevere_above h] at hab hbc ⊢
    exact le_trans hbc hab

theorem AtLeastAsSevere.total (op : CompareOperator) (a b : ℚ) :
    AtLeastAsSevere op a b ∨ AtLeastAsSevere op b a := by
  by_cases h : op = .valueIsBelow ∨ op = .valueBelowOrEq
  · rw [atLeastAsSevere_below h, atLeastAsSevere_below h]
    exact le_total a b
  · rw [atLeastAsSevere_above h, atLeastAsSevere_above h]
    exact le_total b a

/-- A value that passes the more severe target passes the other. -/
theorem matchesCompareOp_mono (hop : IsOrdered op) (h : AtLeastAsSevere op a b) (value : ℚ)
    (hfires : matchesCompareOp op value a = true) : matchesCompareOp op value b = true := by
  rcases hop with rfl | rfl | rfl | rfl
  · have hba : b ≤ a := (atLeastAsSevere_above (by decide)).1 h
    have hlt : a < value := of_decide_eq_true hfires
    exact decide_eq_true (lt_of_le_of_lt hba hlt)
  · have hba : b ≤ a := (atLeastAsSevere_above (by decide)).1 h
    have hle : a ≤ value := of_decide_eq_true hfires
    exact decide_eq_true (le_trans hba hle)
  · have hab : a ≤ b := (atLeastAsSevere_below (by decide)).1 h
    have hlt : value < a := of_decide_eq_true hfires
    exact decide_eq_true (lt_of_lt_of_le hlt hab)
  · have hab : a ≤ b := (atLeastAsSevere_below (by decide)).1 h
    have hle : value ≤ a := of_decide_eq_true hfires
    exact decide_eq_true (le_trans hle hab)

/-- A value that passes the first target alone, when the first is not the more severe. -/
theorem exists_matches_first_only (hop : IsOrdered op) (h : ¬ AtLeastAsSevere op a b) :
    ∃ value, matchesCompareOp op value a = true ∧ matchesCompareOp op value b = false := by
  rcases hop with rfl | rfl | rfl | rfl
  · -- Above: the other target lies above this one, and not above itself.
    have hlt : a < b := not_le.1 fun hba => h ((atLeastAsSevere_above (by decide)).2 hba)
    exact ⟨b, decide_eq_true hlt, decide_eq_false (lt_irrefl b)⟩
  · -- Above or equal: this target passes itself.
    have hlt : a < b := not_le.1 fun hba => h ((atLeastAsSevere_above (by decide)).2 hba)
    exact ⟨a, decide_eq_true (le_refl a), decide_eq_false (not_le.2 hlt)⟩
  · have hlt : b < a := not_le.1 fun hab => h ((atLeastAsSevere_below (by decide)).2 hab)
    exact ⟨b, decide_eq_true hlt, decide_eq_false (lt_irrefl b)⟩
  · have hlt : b < a := not_le.1 fun hab => h ((atLeastAsSevere_below (by decide)).2 hab)
    exact ⟨a, decide_eq_true (le_refl a), decide_eq_false (not_le.2 hlt)⟩

end Severity

/-! ## Which series fire -/

/-- Whether a series with these values fires, by canonical operator and match type. -/
def fires (op : CompareOperator) (matchType : MatchType) (values : List (TimeSeriesValue ℚ))
    (target : ℚ) : Bool :=
  !values.isEmpty &&
    match matchType with
    | .atleastOnce => values.any fun smpl => matchesCompareOp op smpl.value target
    | .allTheTimes => values.all fun smpl => matchesCompareOp op smpl.value target
    | .onAverage =>
      matchesCompareOp op (Float64.div (sumAndCount values).1 (sumAndCount values).2) target
    | .inTotal => matchesCompareOp op (sumAndCount values).1 target
    | .last =>
      matchesCompareOp op ((values.getLast?.map TimeSeriesValue.value).getD Float64.nan) target
    | _ => false

theorem shouldAlertWithTarget_fires (lower : String → String) (b : BasicRuleThreshold ℚ)
    (series : TimeSeries ℚ) (target : ℚ) :
    (b.shouldAlertWithTarget lower series target).2 =
      fires b.compareOperator.normalize b.matchType.normalize series.values target := by
  cases hempty : series.values.isEmpty with
  | true => simp only [BasicRuleThreshold.shouldAlertWithTarget, fires, hempty, if_true]; rfl
  | false =>
    simp only [BasicRuleThreshold.shouldAlertWithTarget, fires, hempty, Bool.not_false,
      Bool.true_and]
    cases hmatch : b.matchType.normalize with
    | atleastOnce =>
      -- The loop stops at the first value that matches, if any does.
      cases hfind : series.values.find? fun smpl =>
          matchesCompareOp b.compareOperator.normalize smpl.value target with
      | some smpl =>
        have hany := List.any_eq_true.2
          ⟨smpl, List.mem_of_find?_eq_some hfind, List.find?_some hfind⟩
        simp only [hany]
        rfl
      | none =>
        have hnone := List.find?_eq_none.1 hfind
        simpa [hfind] using hnone
    | allTheTimes =>
      cases hfind : series.values.find? fun smpl =>
          negatesCompareOp b.compareOperator.normalize smpl.value target with
      | some smpl =>
        have hmem := List.mem_of_find?_eq_some hfind
        have hneg := List.find?_some hfind
        simp only [negatesCompareOp, Bool.not_eq_true'] at hneg
        simpa [hfind] using ⟨smpl, hmem, hneg⟩
      | none =>
        have hnone := List.find?_eq_none.1 hfind
        simpa [hfind, negatesCompareOp] using hnone
    | _ => rfl

section Fires

variable {op : CompareOperator} {matchType : MatchType} {a b : ℚ}

/-- A series that fires the more severe target fires the other. -/
theorem fires_mono (hop : IsOrdered op) (h : AtLeastAsSevere op a b)
    (values : List (TimeSeriesValue ℚ)) (hfires : fires op matchType values a = true) :
    fires op matchType values b = true := by
  have hmono := matchesCompareOp_mono hop h
  unfold fires at hfires ⊢
  rw [Bool.and_eq_true] at hfires ⊢
  obtain ⟨hsome, hfires⟩ := hfires
  refine ⟨hsome, ?_⟩
  cases matchType with
  | atleastOnce =>
    obtain ⟨smpl, hmem, hmatch⟩ := List.any_eq_true.1 hfires
    exact List.any_eq_true.2 ⟨smpl, hmem, hmono smpl.value hmatch⟩
  | allTheTimes =>
    apply List.all_eq_true.2
    intro smpl hmem
    exact hmono smpl.value (List.all_eq_true.1 hfires smpl hmem)
  | onAverage => exact hmono _ hfires
  | inTotal => exact hmono _ hfires
  | last => exact hmono _ hfires
  | _ => cases hfires

/-- The five match types agree on a series of one value. -/
theorem fires_single (hmatch : matchType.normalize.validate = []) (v : ℚ) (target : ℚ) :
    fires op matchType.normalize [⟨0, v, false⟩] target = matchesCompareOp op v target := by
  have hsum : sumAndCount ([⟨0, v, false⟩] : List (TimeSeriesValue ℚ)) = (0 + v, 0 + 1) := rfl
  have havg : Float64.div (0 + v) (0 + 1 : ℚ) = v := by
    show (0 + v) / (0 + 1 : ℚ) = v
    rw [zero_add, zero_add, div_one]
  cases hm : matchType.normalize with
  | atleastOnce => simp [fires]
  | allTheTimes => simp [fires]
  | onAverage => simp only [fires, hsum, havg]; rfl
  | inTotal => simp only [fires, hsum, zero_add]; rfl
  | last => rfl
  | other m => rw [hm] at hmatch; cases hmatch
  | _ => cases matchType <;> cases hm

end Fires

/-! ## Inhibition -/

/-- Inhibition only silences the less severe threshold: in whatever order `sortThresholds` leaves
the list, a rule that `GetInhibitRules` emits is that of a source threshold and a target threshold
such that every series that fires the source fires the target. -/
def InhibitsDownward (lower : String → String) (unit : String)
    (ts : List (BasicRuleThreshold ℚ)) : Prop :=
  ∀ sorted, SortedThresholds ts sorted → ∀ groups ruleID i rule,
    (getInhibitRules groups ruleID sorted)[i]? = some rule →
      ∃ s t, sorted[i]? = some s ∧ sorted[i + 1]? = some t ∧
        rule = inhibitRuleOf groups ruleID s.name t.name ∧
        ∀ series, (s.shouldAlert lower series unit).2 = true →
          (t.shouldAlert lower series unit).2 = true

/-- Targets that compare one way as raw numbers compare the same way in the unit of the rule. -/
def RawOrderKept (op : CompareOperator) (unit : String) (ts : List (BasicRuleThreshold ℚ)) :
    Prop :=
  ∀ s ∈ ts, ∀ t ∈ ts, AtLeastAsSevere op (s.target s.targetUnit) (t.target t.targetUnit) →
    AtLeastAsSevere op (s.target unit) (t.target unit)

section Inhibits

variable {op : CompareOperator} {matchType : MatchType} {ts : List (BasicRuleThreshold ℚ)}

/-- The raw order of severity, as a relation on thresholds. -/
abbrev RawSevere (op : CompareOperator) (s t : BasicRuleThreshold ℚ) : Prop :=
  AtLeastAsSevere op (s.target s.targetUnit) (t.target t.targetUnit)

/-- The comparison function of the sort, for a shared ordered operator. -/
theorem sortsBefore_eq_false_iff (hop : IsOrdered op) {s t : BasicRuleThreshold ℚ}
    (ht : t.compareOperator.normalize = op) : sortsBefore t s = false ↔ RawSevere op s t := by
  rcases hop with rfl | rfl | rfl | rfl
  · rw [RawSevere, atLeastAsSevere_above (by decide), sortsBefore, ht]
    exact decide_eq_false_iff_not.trans not_lt
  · rw [RawSevere, atLeastAsSevere_above (by decide), sortsBefore, ht]
    exact decide_eq_false_iff_not.trans not_lt
  · rw [RawSevere, atLeastAsSevere_below (by decide), sortsBefore, ht]
    exact decide_eq_false_iff_not.trans not_lt
  · rw [RawSevere, atLeastAsSevere_below (by decide), sortsBefore, ht]
    exact decide_eq_false_iff_not.trans not_lt

theorem sortedThresholds_iff (hop : IsOrdered op)
    (hops : ∀ t ∈ ts, t.compareOperator.normalize = op) {sorted : List (BasicRuleThreshold ℚ)} :
    SortedThresholds ts sorted ↔ sorted.Perm ts ∧ sorted.Pairwise (RawSevere op) := by
  constructor
  · intro h
    refine ⟨h.perm, h.ordered.imp_of_mem ?_⟩
    intro s t _ ht hsort
    exact (sortsBefore_eq_false_iff hop (hops t (h.perm.mem_iff.1 ht))).1 hsort
  · rintro ⟨hperm, hordered⟩
    refine ⟨hperm, hordered.imp_of_mem ?_⟩
    intro s t _ ht hraw
    exact (sortsBefore_eq_false_iff hop (hops t (hperm.mem_iff.1 ht))).2 hraw

/-- An order that `sortThresholds` may choose in which a threshold comes before another that is
not raw more severe. -/
theorem exists_sorted_before (hop : IsOrdered op)
    (hops : ∀ t ∈ ts, t.compareOperator.normalize = op) {s t : BasicRuleThreshold ℚ}
    (hs : s ∈ ts) (ht : t ∈ ts) (hne : s ≠ t) (hraw : RawSevere op s t) :
    ∃ sorted, SortedThresholds ts sorted ∧ List.Sublist [s, t] sorted := by
  have htotal : Std.Total (RawSevere op) := ⟨fun _ _ => AtLeastAsSevere.total op _ _⟩
  have htrans : IsTrans (BasicRuleThreshold ℚ) (RawSevere op) := ⟨fun _ _ _ => .trans⟩
  -- The sort keeps the order of two thresholds that come in it already.
  have hperm : (s :: ts.erase s).Perm ts := (List.perm_cons_erase hs).symm
  have hpair : List.Sublist [s, t] (s :: ts.erase s) := by
    apply List.Sublist.cons_cons
    exact List.singleton_sublist.2 ((List.mem_erase_of_ne hne.symm).2 ht)
  refine ⟨(s :: ts.erase s).insertionSort (RawSevere op), ?_, ?_⟩
  · apply (sortedThresholds_iff hop hops).2
    exact ⟨(List.perm_insertionSort _ _).trans hperm, List.pairwise_insertionSort _ _⟩
  · exact List.pair_sublist_insertionSort hraw hpair

/-- Severity in the unit of the rule is what firing needs. -/
theorem shouldAlert_mono_iff (hop : IsOrdered op) (lower : String → String) (unit : String)
    {s t : BasicRuleThreshold ℚ} (hvalid : s.matchType.validate = [])
    (hsop : s.compareOperator.normalize = op) (htop : t.compareOperator.normalize = op)
    (hmatch : s.matchType.normalize = t.matchType.normalize) :
    (∀ series, (s.shouldAlert lower series unit).2 = true →
        (t.shouldAlert lower series unit).2 = true) ↔
      AtLeastAsSevere op (s.target unit) (t.target unit) := by
  simp only [BasicRuleThreshold.shouldAlert, shouldAlertWithTarget_fires, hsop, htop, ← hmatch]
  constructor
  · intro hfires
    by_contra hnot
    -- A series of the one value that passes the first target alone.
    obtain ⟨v, hfirst, hsecond⟩ := exists_matches_first_only hop hnot
    have hsingle := hfires ⟨[], [⟨0, v, false⟩]⟩
    have hcanonical : s.matchType.normalize.validate = [] := by
      cases hm : s.matchType with
      | other m => rw [hm] at hvalid; cases hvalid
      | _ => rfl
    rw [fires_single hcanonical, fires_single hcanonical, hfirst, hsecond] at hsingle
    exact Bool.false_ne_true (hsingle rfl)
  · intro hsevere series hfires
    exact fires_mono hop hsevere series.values hfires

/-- The emitted rules relate consecutive thresholds, so inhibition goes downward when severity in
the unit of the rule falls along every order of the sort. -/
theorem inhibitsDownward_iff_chain (hop : IsOrdered op) (lower : String → String) (unit : String)
    (hvalid : ∀ t ∈ ts, t.matchType.validate = [])
    (hops : ∀ t ∈ ts, t.compareOperator.normalize = op)
    (hmatch : ∀ t ∈ ts, t.matchType.normalize = matchType) :
    InhibitsDownward lower unit ts ↔
      ∀ sorted, SortedThresholds ts sorted →
        sorted.IsChain fun s t => AtLeastAsSevere op (s.target unit) (t.target unit) := by
  constructor
  · intro h sorted hsorted
    apply List.isChain_iff_getElem.2
    intro i hi
    have hs : sorted[i]? = some sorted[i] := List.getElem?_eq_getElem _
    have ht : sorted[i + 1]? = some sorted[i + 1] := List.getElem?_eq_getElem _
    have hrule := getInhibitRules_getElem? [] "" sorted i
    rw [hs, ht] at hrule
    obtain ⟨s, t, hs', ht', -, hfires⟩ := h sorted hsorted [] "" i _ hrule
    obtain rfl := Option.some.inj (hs.symm.trans hs')
    obtain rfl := Option.some.inj (ht.symm.trans ht')
    have hsmem := hsorted.perm.mem_iff.1 (List.getElem_mem (Nat.lt_of_succ_lt hi))
    have htmem := hsorted.perm.mem_iff.1 (List.getElem_mem hi)
    exact (shouldAlert_mono_iff hop lower unit (hvalid _ hsmem) (hops _ hsmem) (hops _ htmem)
      ((hmatch _ hsmem).trans (hmatch _ htmem).symm)).1 hfires
  · intro h sorted hsorted groups ruleID i rule hrule
    rw [getInhibitRules_getElem?] at hrule
    obtain ⟨s, hs, hrule⟩ := Option.bind_eq_some_iff.1 hrule
    obtain ⟨t, ht, hrule⟩ := Option.map_eq_some_iff.1 hrule
    refine ⟨s, t, hs, ht, hrule.symm, ?_⟩
    have hsmem := hsorted.perm.mem_iff.1 (List.mem_of_getElem? hs)
    have htmem := hsorted.perm.mem_iff.1 (List.mem_of_getElem? ht)
    apply (shouldAlert_mono_iff hop lower unit (hvalid _ hsmem) (hops _ hsmem) (hops _ htmem)
      ((hmatch _ hsmem).trans (hmatch _ htmem).symm)).2
    obtain ⟨hi, rfl⟩ := List.getElem?_eq_some_iff.1 ht
    obtain ⟨hi', rfl⟩ := List.getElem?_eq_some_iff.1 hs
    exact List.isChain_iff_getElem.1 (h sorted hsorted) i hi

end Inhibits

theorem validate_of_validateThresholds {ts : List (BasicRuleThreshold ℚ)}
    (h : validateThresholds ts = []) : ∀ t ∈ ts, t.validate = [] := by
  intro t ht
  have hne : ts ≠ [] := List.ne_nil_of_mem ht
  rw [validateThresholds, if_neg hne] at h
  exact List.flatMap_eq_nil_iff.1 h t ht

/-- For thresholds that `Validate` accepts and that share an ordered compare operator and a match
type, inhibition only silences the less severe threshold exactly when the order of the raw targets
is kept by the conversion to the unit of the rule. -/
theorem inhibits_downward_iff (lower : String → String) (unit : String) (op : CompareOperator)
    (matchType : MatchType) (ts : List (BasicRuleThreshold ℚ))
    (hvalid : validateThresholds ts = []) (hop : IsOrdered op)
    (hops : ∀ t ∈ ts, t.compareOperator.normalize = op)
    (hmatch : ∀ t ∈ ts, t.matchType.normalize = matchType) :
    InhibitsDownward lower unit ts ↔ RawOrderKept op unit ts := by
  have hmatches : ∀ t ∈ ts, t.matchType.validate = [] := fun t ht =>
    (List.append_eq_nil_iff.1 (validate_of_validateThresholds hvalid t ht)).2
  rw [inhibitsDownward_iff_chain hop lower unit hmatches hops hmatch]
  constructor
  · intro h s hs t ht hraw
    by_cases heq : s = t
    · subst heq
      exact AtLeastAsSevere.refl op _
    · -- Severity falls along a sorted order that has `s` before `t`.
      obtain ⟨sorted, hsorted, hbefore⟩ := exists_sorted_before hop hops hs ht heq hraw
      have htrans : IsTrans (BasicRuleThreshold ℚ) fun s t =>
          AtLeastAsSevere op (s.target unit) (t.target unit) := ⟨fun _ _ _ => .trans⟩
      have hpairs := (List.isChain_iff_pairwise.1 (h sorted hsorted)).sublist hbefore
      exact List.rel_of_pairwise_cons hpairs (List.mem_singleton.2 rfl)
  · intro hkept sorted hsorted
    obtain ⟨hperm, hordered⟩ := (sortedThresholds_iff hop hops).1 hsorted
    apply List.Pairwise.isChain
    apply hordered.imp_of_mem
    intro s t hs ht hraw
    exact hkept s (hperm.mem_iff.1 hs) t (hperm.mem_iff.1 ht) hraw

/-! ## Mixed and shared target units -/

/-- A critical threshold of one second and a warning threshold of 500 milliseconds. -/
def mixedUnits : List (BasicRuleThreshold ℚ) :=
  [⟨"critical", some 1, "s", none, .last, .valueIsAbove, []⟩,
    ⟨"warning", some 500, "ms", none, .last, .valueIsAbove, []⟩]

/-- The raw order: 500 before 1. -/
theorem sortedThresholds_mixedUnits : SortedThresholds mixedUnits mixedUnits.reverse where
  perm := List.reverse_perm mixedUnits
  ordered := by decide +kernel

/-- The warning inhibits the critical alert, which a series at 600 milliseconds does not fire. -/
theorem warning_inhibits_critical :
    validateThresholds mixedUnits = [] ∧
      getInhibitRules ["ruleId"] "r1" mixedUnits.reverse =
        [inhibitRuleOf ["ruleId"] "r1" "warning" "critical"] ∧
      ¬ InhibitsDownward id "ms" mixedUnits := by
  refine ⟨by decide +kernel, rfl, ?_⟩
  intro h
  obtain ⟨s, t, hs, ht, -, hfires⟩ :=
    h mixedUnits.reverse sortedThresholds_mixedUnits ["ruleId"] "r1" 0 _ rfl
  obtain rfl := Option.some.inj hs
  obtain rfl := Option.some.inj ht
  have hwarning := hfires ⟨[], [⟨0, 600, false⟩]⟩ (by decide +kernel)
  exact absurd hwarning (by decide +kernel)

theorem inhibits_downward_iff_mixedUnits :
    InhibitsDownward id "ms" mixedUnits ↔ RawOrderKept .valueIsAbove "ms" mixedUnits :=
  inhibits_downward_iff id "ms" .valueIsAbove .last mixedUnits (by decide +kernel) (Or.inl rfl)
    (by decide +kernel) (by decide +kernel)

end Signoz.Rules
