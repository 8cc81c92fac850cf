import Signoz.Querier.Formula

/-!
# Partial points through post-processing

A point whose value was computed from a partial point should itself be marked partial, so that
`evaluableValues` leaves it out. `readsThrough` says which input points an output point of a list
of functions is computed from (`applyFunctions_value_congr`: its value depends on no other), and
`PartialsMarked` is the property. The medians rebuild their points without the flag, the
accumulating functions and the running difference mix a point with earlier ones, and a formula
never sets the flag.
-/

namespace Signoz.Querier

section Flags

/-- The number of points that a function leaves. -/
def FunctionName.lengthAfter (name : FunctionName) (len : Nat) : Nat :=
  if name = .runningDiff then len - 1 else len

/-- How many points a list of functions drops from the front of a long enough series. -/
def runningDiffs (names : List FunctionName) : Nat := names.count .runningDiff

/-- Output point `j` of a list of functions is computed from input point `i`. -/
def readsThrough : List FunctionName → Nat → Nat → Nat → Prop
  | [], _, i, j => i = j
  | name :: names, len, i, j =>
    ∃ m, m < name.lengthAfter len ∧ name.reads len i m ∧
      readsThrough names (name.lengthAfter len) m j

/-- Some median of the list meets a series of at least its window. -/
def MedianTakesEffect : List FunctionName → Nat → Prop
  | [], _ => False
  | name :: names, len =>
    (∃ n ∈ name.medianWindow, n ≤ len) ∨ MedianTakesEffect names (name.lengthAfter len)

/-- Some function of the list mixes a point with points before it. -/
def MixesPoints (names : List FunctionName) : Prop :=
  ∃ name ∈ names, name = .runningDiff ∨ name.accumulates

/-- The flags that a list of functions leaves. -/
def flagsThrough (names : List FunctionName) (flags : List Bool) : List Bool :=
  names.foldl (fun flags name => name.flagsAfter flags) flags

/-- When a list of functions keeps the marks of partial points: it drops every point, or there
are none to mark, or no median rebuilds the points and, if points are mixed, every point that is
kept and comes after a partial one is partial. -/
def KeepsMarks (names : List FunctionName) (flags : List Bool) : Prop :=
  flags.length ≤ runningDiffs names ∨ (∀ i : Nat, flags[i]? ≠ some true) ∨
    (¬MedianTakesEffect names flags.length ∧
      (MixesPoints names → ∀ i j : Nat, i ≤ j → runningDiffs names ≤ j → j < flags.length →
        flags[i]? = some true → flags[j]? = some true))

theorem runningDiffs_cons (name : FunctionName) (names : List FunctionName) :
    runningDiffs (name :: names) =
      runningDiffs names + if name = .runningDiff then 1 else 0 := by
  simp [runningDiffs, List.count_cons]

theorem length_flagsThrough (names : List FunctionName) (flags : List Bool) :
    (flagsThrough names flags).length = flags.length - runningDiffs names := by
  induction names generalizing flags with
  | nil => rfl
  | cons name names ih =>
    have hcons : flagsThrough (name :: names) flags =
      flagsThrough names (name.flagsAfter flags) := rfl
    rw [hcons, ih, FunctionName.length_flagsAfter, runningDiffs_cons]
    split_ifs <;> omega

variable {names : List FunctionName} {flags : List Bool}

/-- Without an effective median the flags stay with their points. -/
theorem flagsThrough_of_not_median (h : ¬MedianTakesEffect names flags.length) :
    flagsThrough names flags = flags.drop (runningDiffs names) := by
  induction names generalizing flags with
  | nil => simp [flagsThrough, runningDiffs]
  | cons name names ih =>
    rw [MedianTakesEffect, not_or] at h
    have hcons : flagsThrough (name :: names) flags =
      flagsThrough names (name.flagsAfter flags) := rfl
    have hlen : (name.flagsAfter flags).length = name.lengthAfter flags.length :=
      FunctionName.length_flagsAfter name flags
    rw [hcons, ih (by rw [hlen]; exact h.2), runningDiffs_cons]
    by_cases hdiff : name = .runningDiff
    · subst hdiff
      simp [FunctionName.flagsAfter, FunctionName.medianWindow, Nat.add_comm]
    · have hkeep : name.flagsAfter flags = flags := by
        unfold FunctionName.flagsAfter
        cases hw : name.medianWindow with
        | none => simp [hdiff]
        | some n =>
          have hn : ¬n ≤ flags.length := fun hle => h.1 ⟨n, hw, hle⟩
          simp [Nat.lt_of_not_le hn]
      rw [hkeep, if_neg hdiff, Nat.add_zero]

variable {name : FunctionName}

theorem flagsAfter_of_unmarked (h : ∀ b ∈ flags, b = false) :
   ∀ b ∈ name.flagsAfter flags, b = false := by
  unfold FunctionName.flagsAfter
  split
  · split
    · exact h
    · simp
  · split
    · exact fun b hb => h b (List.mem_of_mem_tail hb)
    · exact h

theorem flagsThrough_of_unmarked (h : ∀ b ∈ flags, b = false) :
   ∀ b ∈ flagsThrough names flags, b = false := by
  induction names generalizing flags with
  | nil => exact h
  | cons name names ih => exact ih (flagsAfter_of_unmarked h)

/-- After an effective median no point is marked any more. -/
theorem flagsThrough_of_median (h : MedianTakesEffect names flags.length) :
   ∀ b ∈ flagsThrough names flags, b = false := by
  induction names generalizing flags with
  | nil => exact h.elim
  | cons name names ih =>
    have hlen : (name.flagsAfter flags).length = name.lengthAfter flags.length :=
      FunctionName.length_flagsAfter name flags
    rcases h with ⟨n, hw, hn⟩ | h
    · refine @flagsThrough_of_unmarked names _ ?_
      have hw' : name.medianWindow = some n := hw
      simp [FunctionName.flagsAfter, hw', Nat.not_lt.2 hn]
    · exact ih (by rw [hlen]; exact h)

/-- Every point of a series is read for some point that a function leaves. -/
theorem reads_surjective (name : FunctionName) {len i : Nat} (hi : i < len)
    (hlen : 0 < name.lengthAfter len) : ∃ m < name.lengthAfter len, name.reads len i m := by
  by_cases hdiff : name = .runningDiff
  · subst hdiff
    simp only [FunctionName.lengthAfter, if_true] at hlen ⊢
    by_cases hlast : i < len - 1
    · exact ⟨i, hlast, Or.inl rfl⟩
    · exact ⟨len - 2, by omega, Or.inr (by omega)⟩
  · simp only [FunctionName.lengthAfter, if_neg hdiff] at hlen ⊢
    refine ⟨i, hi, ?_⟩
    unfold FunctionName.reads
    split
    · split_ifs
      · rfl
      · omega
    · rw [if_neg hdiff]
      split_ifs
      · exact Nat.le_refl i
      · rfl

theorem readsThrough_surjective (names : List FunctionName) {len i : Nat} (hi : i < len)
    (hlen : runningDiffs names < len) : ∃ j < len - runningDiffs names,
      readsThrough names len i j := by
  induction names generalizing len i with
  | nil => exact ⟨i, by simpa [runningDiffs] using hi, rfl⟩
  | cons name names ih =>
    rw [runningDiffs_cons] at hlen ⊢
    have hafter : runningDiffs names < name.lengthAfter len := by
      unfold FunctionName.lengthAfter
      split_ifs at hlen ⊢ <;> omega
    obtain ⟨m, hm, hread⟩ := reads_surjective name hi (Nat.zero_lt_of_lt hafter)
    obtain ⟨j, hj, hthrough⟩ := ih hm hafter
    refine ⟨j, ?_, m, hm, hread, hthrough⟩
    unfold FunctionName.lengthAfter at hj
    split_ifs at hj ⊢ <;> omega

theorem reads_of_accumulates (h : name.accumulates) (len i j : Nat) :
    name.reads len i j ↔ i ≤ j := by
  cases name <;> simp [FunctionName.accumulates] at h <;> rfl

theorem reads_self {len : Nat} (hdiff : name ≠ .runningDiff) (hacc : ¬name.accumulates)
    (hmed : ∀ n ∈ name.medianWindow, len < n) (i j : Nat) :
    name.reads len i j ↔ i = j := by
  unfold FunctionName.reads
  split
  · rename_i n hw
    rw [if_pos (Or.inl (hmed n hw))]
  · rw [if_neg hdiff, if_neg hacc]

/-- Without an effective median, an output point is computed from the points up to its own if
some function accumulates, and otherwise from its own point and as many before it as points were
dropped. -/
theorem readsThrough_iff {len j : Nat} (hmed : ¬MedianTakesEffect names len)
    (hj : j + runningDiffs names < len) (i : Nat) :
    readsThrough names len i j ↔
      i ≤ j + runningDiffs names ∧ ((∃ name ∈ names, name.accumulates) ∨ j ≤ i) := by
  induction names generalizing len i with
  | nil =>
    simp only [readsThrough, runningDiffs, List.count_nil, List.not_mem_nil, false_and,
      exists_false, false_or]
    omega
  | cons name names ih =>
    rw [MedianTakesEffect, not_or] at hmed
    rw [runningDiffs_cons] at hj ⊢
    have hafter : j + runningDiffs names < name.lengthAfter len := by
      unfold FunctionName.lengthAfter
      split_ifs at hj ⊢ <;> omega
    simp only [readsThrough, ih hmed.2 hafter, List.exists_mem_cons_iff]
    by_cases hdiff : name = .runningDiff
    · subst hdiff
      have hacc : ¬FunctionName.accumulates .runningDiff = true := by decide
      simp only [↓reduceIte, hacc, Bool.false_eq_true, false_or]
      constructor
      · rintro ⟨m, -, hread, hle, hfrom⟩
        have hread' : i = m ∨ i = m + 1 := hread
        exact ⟨by omega, hfrom.imp id (by omega)⟩
      · rintro ⟨hle, hfrom⟩
        by_cases hlast : i ≤ j + runningDiffs names
        · exact ⟨i, by omega, Or.inl rfl, hlast, hfrom⟩
        · exact ⟨j + runningDiffs names, hafter, Or.inr (by omega), le_rfl,
            Or.inr (Nat.le_add_right j _)⟩
    · rw [if_neg hdiff, Nat.add_zero]
      by_cases hacc : name.accumulates
      · simp only [reads_of_accumulates hacc, hacc, true_or, and_true]
        constructor
        · rintro ⟨m, -, hread, hle, -⟩
          exact hread.trans hle
        · exact fun hle => ⟨j + runningDiffs names, hafter, hle, le_rfl,
            Or.inr (Nat.le_add_right j _)⟩
      · have hself := reads_self hdiff hacc
          (fun n hw => Nat.lt_of_not_le fun hle => hmed.1 ⟨n, hw, hle⟩)
        simp only [hself, hacc, Bool.false_eq_true, false_or]
        constructor
        · rintro ⟨m, -, rfl, hle, hfrom⟩
          exact ⟨hle, hfrom⟩
        · exact fun ⟨hle, hfrom⟩ => ⟨i, by omega, rfl, hle, hfrom⟩

/-- When points are mixed without an effective median, the mark of a point spreads to all later
points that are kept. -/
theorem marked_of_le (hmed : ¬MedianTakesEffect names flags.length) (hmix : MixesPoints names)
    (hmarks : ∀ i j : Nat, j + runningDiffs names < flags.length →
      readsThrough names flags.length i j → flags[i]? = some true →
        flags[j + runningDiffs names]? = some true) :
    ∀ (d i j : Nat), j - i = d → i ≤ j → runningDiffs names ≤ j → j < flags.length →
      flags[i]? = some true → flags[j]? = some true := by
  intro d
  induction d using Nat.strong_induction_on with
  | _ d ih =>
    intro i j hd hij hk hj hi
    have hcancel : j - runningDiffs names + runningDiffs names = j := by omega
    have hdirect : (∃ name ∈ names, name.accumulates) ∨ j - runningDiffs names ≤ i →
        flags[j]? = some true := by
      intro hfrom
      have hread : readsThrough names flags.length i (j - runningDiffs names) :=
        (readsThrough_iff hmed (by omega) i).2 ⟨by omega, hfrom⟩
      simpa only [hcancel] using hmarks i _ (by omega) hread hi
    by_cases hnear : j - runningDiffs names ≤ i
    · exact hdirect (Or.inr hnear)
    · obtain ⟨name, hname, hdiff | hacc⟩ := hmix
      · -- the point that many steps later is computed from point `i`, and lies before `j`
        have hpos : 0 < runningDiffs names := List.count_pos_iff.2 (hdiff ▸ hname)
        have hread : readsThrough names flags.length i i :=
          (readsThrough_iff hmed (by omega) i).2 ⟨by omega, Or.inr le_rfl⟩
        have hnext := hmarks i i (by omega) hread hi
        exact ih (j - (i + runningDiffs names)) (by omega) _ j rfl (by omega) hk hj hnext
      · exact hdirect (Or.inl ⟨name, hname, hacc⟩)

/-- The marks survive a list of functions exactly under `KeepsMarks`. -/
theorem flagsThrough_marked_iff (names : List FunctionName) (flags : List Bool) :
    (∀ i j, j < (flagsThrough names flags).length → readsThrough names flags.length i j →
      flags[i]? = some true → (flagsThrough names flags)[j]? = some true) ↔
      KeepsMarks names flags := by
  rw [length_flagsThrough]
  by_cases hdrop : flags.length ≤ runningDiffs names
  · exact ⟨fun _ => Or.inl hdrop, fun _ i j hj => by omega⟩
  by_cases hnone : ∀ i : Nat, flags[i]? ≠ some true
  · exact ⟨fun _ => Or.inr (Or.inl hnone), fun _ i j _ _ hi => absurd hi (hnone i)⟩
  by_cases hmed : MedianTakesEffect names flags.length
  · constructor
    · intro hmarks
      push Not at hnone
      obtain ⟨i, hi⟩ := hnone
      have hlt : i < flags.length := (List.getElem?_eq_some_iff.1 hi).1
      obtain ⟨j, hj, hread⟩ := readsThrough_surjective names hlt (by omega)
      have hmark := hmarks i j hj hread hi
      exact absurd (flagsThrough_of_median hmed true (List.mem_of_getElem? hmark)) (by decide)
    · rintro (h | h | ⟨h, -⟩)
      · exact absurd h hdrop
      · exact absurd h hnone
      · exact absurd hmed h
  rw [flagsThrough_of_not_median hmed]
  simp only [List.getElem?_drop, Nat.add_comm (runningDiffs names)]
  constructor
  · intro hmarks
    refine Or.inr (Or.inr ⟨hmed, fun hmix i j hij hk hj hi => ?_⟩)
    refine marked_of_le hmed hmix (fun i j hj hread hi => hmarks i j (by omega) hread hi)
      (j - i) i j rfl hij hk hj hi
  · rintro (h | h | ⟨-, hspread⟩) i j hj hread hi
    · exact absurd h hdrop
    · exact absurd hi (h i)
    · obtain ⟨hle, hfrom⟩ := (readsThrough_iff hmed (by omega) i).1 hread
      by_cases hmix : MixesPoints names
      · exact hspread hmix i _ hle (by omega) (by omega) hi
      · have hdiffs : runningDiffs names = 0 :=
          List.count_eq_zero.2 fun hmem => hmix ⟨_, hmem, Or.inl rfl⟩
        have hself : i = j := by
          rcases hfrom with ⟨name, hname, hacc⟩ | hfrom
          · exact absurd ⟨name, hname, Or.inr hacc⟩ hmix
          · omega
        rw [hdiffs, Nat.add_zero, ← hself]
        exact hi

end Flags

section Functions

variable {V : Type} [Float64 V]

/-- The names of the functions of a list. -/
def functionNames (functions : List (Function V)) : List FunctionName := functions.map Function.name

theorem partialFlags_applyFunctions {functions : List (Function V)}
    (hfill : ∀ fn ∈ functions, fn.name ≠ .fillZero) (values : List (TimeSeriesValue V)) :
    partialFlags (applyFunctionsToValues functions values) =
      flagsThrough (functionNames functions) (partialFlags values) := by
  induction functions generalizing values with
  | nil => rfl
  | cons fn fns ih =>
    have hcons : applyFunctionsToValues (fn :: fns) values =
      applyFunctionsToValues fns (applyFunction fn values) := rfl
    rw [hcons, ih (fun g hg => hfill g (List.mem_cons_of_mem fn hg)),
      partialFlags_applyFunction (hfill fn List.mem_cons_self)]
    rfl

/-- The value of an output point of a list of functions depends only on the values of the input
points it is computed from. -/
theorem applyFunctions_value_congr {functions : List (Function V)}
    (hfill : ∀ fn ∈ functions, fn.name ≠ .fillZero) {vs ws : List (TimeSeriesValue V)}
    (hlen : vs.length = ws.length) {j : Nat}
    (hread : ∀ i, readsThrough (functionNames functions) vs.length i j →
      valueAt vs i = valueAt ws i) :
    valueAt (applyFunctionsToValues functions vs) j =
      valueAt (applyFunctionsToValues functions ws) j := by
  induction functions generalizing vs ws with
  | nil => exact hread j rfl
  | cons fn fns ih =>
    have hfn := hfill fn List.mem_cons_self
    have hafter : ∀ values : List (TimeSeriesValue V),
        (applyFunction fn values).length = fn.name.lengthAfter values.length :=
      length_applyFunction hfn
    refine ih (fun g hg => hfill g (List.mem_cons_of_mem fn hg)) ?_ fun m hm => ?_
    · rw [hafter, hafter, hlen]
    · by_cases hlt : m < fn.name.lengthAfter vs.length
      · refine applyFunction_value_congr hfn hlen fun i hi => hread i ⟨m, hlt, hi, ?_⟩
        rwa [hafter] at hm
      · have hnone : ∀ values : List (TimeSeriesValue V), values.length = vs.length →
            valueAt (applyFunction fn values) m = none := by
          intro values hv
          have hge : (applyFunction fn values).length ≤ m := by
            rw [hafter, hv]
            exact Nat.le_of_not_lt hlt
          simp [valueAt, List.getElem?_eq_none hge]
        rw [hnone vs rfl, hnone ws hlen.symm]

/-- Every point that is computed from a partial point is partial. -/
def PartialsMarked (functions : List (Function V)) (values : List (TimeSeriesValue V)) : Prop :=
  ∀ (i j : Nat) (p q : TimeSeriesValue V), values[i]? = some p →
    (applyFunctionsToValues functions values)[j]? = some q →
    readsThrough (functionNames functions) values.length i j → p.isPartial → q.isPartial

theorem partialsMarked_iff {functions : List (Function V)}
    (hfill : ∀ fn ∈ functions, fn.name ≠ .fillZero) (values : List (TimeSeriesValue V)) :
    PartialsMarked functions values ↔
      KeepsMarks (functionNames functions) (partialFlags values) := by
  rw [← flagsThrough_marked_iff, ← partialFlags_applyFunctions hfill]
  simp only [PartialsMarked, partialFlags, List.getElem?_map, List.length_map]
  constructor
  · intro h i j hj hread hi
    obtain ⟨p, hp, hpart⟩ := Option.map_eq_some_iff.1 hi
    rw [List.getElem?_eq_getElem hj, Option.map_some, Option.some_inj]
    exact h i j p _ hp (List.getElem?_eq_getElem hj) hread hpart
  · intro h i j p q hp hq hread hpart
    have hj := (List.getElem?_eq_some_iff.1 hq).1
    have hmark := h i j hj hread (by rw [hp, Option.map_some, hpart])
    rwa [hq, Option.map_some, Option.some_inj] at hmark

/-- Marked points are not offered to alert evaluation. -/
theorem not_mem_evaluableValues {ts : TimeSeries V} {q : TimeSeriesValue V} (h : q.isPartial) :
    q ∉ ts.evaluableValues := by
  intro hq
  simp [TimeSeries.evaluableValues, h] at hq

end Functions

section Formulas

variable {V : Type} [Float64 V]

/-- The points whose values a formula reads for a label set at a timestamp. -/
def FormulaEvaluator.inputsAt (fe : FormulaEvaluator) (lookup : SeriesLookup V)
    (targetLabels : List Label) (timestamp : Int) : List (TimeSeriesValue V) :=
  fe.vars.filterMap fun v => pointAt (variableData lookup targetLabels v) timestamp

/-- The timestamps at which a formula has a value: every variable has a point or may default to
zero, and the expression gives a finite number. -/
def FormulaEvaluator.valuedTimestamps (fe : FormulaEvaluator) (lib : Govaluate V)
    (lookup : SeriesLookup V) (targetLabels : List Label) : List Int :=
  (fe.timestamps lookup targetLabels).filter fun timestamp =>
    (fe.valueAtTimestamp lib lookup targetLabels timestamp).isSome

/-- After the functions of a formula, every point that is computed from a formula value that was
computed from a partial point is partial. -/
def FormulaPartialsMarked (fe : FormulaEvaluator) (lib : Govaluate V) (lookup : SeriesLookup V)
    (targetLabels : List Label) (functions : List (Function V)) : Prop :=
  ∀ series, fe.evaluateForLabelSet lib lookup targetLabels = some series →
    ∀ (i j : Nat) (p q : TimeSeriesValue V), series.values[i]? = some p →
      (applyFunctionsToValues functions series.values)[j]? = some q →
      readsThrough (functionNames functions) series.values.length i j →
      ∀ input ∈ fe.inputsAt lookup targetLabels p.timestamp, input.isPartial → q.isPartial

/-- The points of a formula, one for each timestamp with a value. -/
theorem evaluateForLabelSet_values {fe : FormulaEvaluator} {lib : Govaluate V}
    {lookup : SeriesLookup V} {targetLabels : List Label} {series : TimeSeries V}
    (h : fe.evaluateForLabelSet lib lookup targetLabels = some series) :
    series.values.map TimeSeriesValue.timestamp = fe.valuedTimestamps lib lookup targetLabels ∧
      ∀ p ∈ series.values, p.isPartial = false := by
  unfold FormulaEvaluator.evaluateForLabelSet at h
  simp only at h
  split_ifs at h
  obtain rfl := Option.some.inj h
  constructor
  · simp only [List.map_filterMap, FormulaEvaluator.valuedTimestamps, Option.map_map,
      Function.comp_def]
    rw [← List.filterMap_eq_filter]
    refine List.filterMap_congr fun t _ => ?_
    cases hv : fe.valueAtTimestamp lib lookup targetLabels t <;> simp [Option.guard, hv]
  · intro p hp
    obtain ⟨t, -, ht⟩ := List.mem_filterMap.1 hp
    obtain ⟨v, -, rfl⟩ := Option.map_eq_some_iff.1 ht
    rfl

theorem evaluateForLabelSet_eq_none {fe : FormulaEvaluator} {lib : Govaluate V}
    {lookup : SeriesLookup V} {targetLabels : List Label}
    (h : fe.evaluateForLabelSet lib lookup targetLabels = none) :
    fe.valuedTimestamps lib lookup targetLabels = [] := by
  unfold FormulaEvaluator.evaluateForLabelSet at h
  simp only [ite_eq_left_iff, reduceCtorEq, imp_false, not_not, List.isEmpty_iff,
    List.filterMap_eq_nil_iff, Option.map_eq_none_iff] at h
  refine List.filter_eq_nil_iff.2 fun t ht => ?_
  simp [h t ht]

/-- A formula keeps the marks exactly when its functions drop all its points or no partial point
is read at a timestamp where it has a value: it never sets the flag. -/
theorem formulaPartialsMarked_iff {functions : List (Function V)}
    (hfill : ∀ fn ∈ functions, fn.name ≠ .fillZero) (fe : FormulaEvaluator) (lib : Govaluate V)
    (lookup : SeriesLookup V) (targetLabels : List Label) :
    FormulaPartialsMarked fe lib lookup targetLabels functions ↔
      (fe.valuedTimestamps lib lookup targetLabels).length ≤
          runningDiffs (functionNames functions) ∨
        ∀ t ∈ fe.valuedTimestamps lib lookup targetLabels,
          ∀ input ∈ fe.inputsAt lookup targetLabels t, input.isPartial = false := by
  cases hseries : fe.evaluateForLabelSet lib lookup targetLabels with
  | none =>
    rw [evaluateForLabelSet_eq_none hseries]
    simp [FormulaPartialsMarked, hseries]
  | some series =>
    obtain ⟨htimes, hunmarked⟩ := evaluateForLabelSet_values hseries
    rw [← htimes, List.length_map]
    have hflags : ∀ q ∈ applyFunctionsToValues functions series.values,
        q.isPartial = false := by
      have hnone : ∀ b ∈ partialFlags series.values, b = false := by
        intro b hb
        obtain ⟨p, hp, rfl⟩ := List.mem_map.1 hb
        exact hunmarked p hp
      intro q hq
      refine @flagsThrough_of_unmarked (functionNames functions) _ hnone _ ?_
      rw [← partialFlags_applyFunctions hfill]
      exact List.mem_map_of_mem hq
    have hlength : (applyFunctionsToValues functions series.values).length =
        series.values.length - runningDiffs (functionNames functions) := by
      rw [← length_partialFlags, partialFlags_applyFunctions hfill, length_flagsThrough,
        length_partialFlags]
    constructor
    · intro hmarks
      by_cases hdrop : series.values.length ≤ runningDiffs (functionNames functions)
      · exact Or.inl hdrop
      · refine Or.inr fun t ht input hinput => ?_
        obtain ⟨p, hp, rfl⟩ := List.mem_map.1 ht
        obtain ⟨i, hi, rfl⟩ := List.getElem_of_mem hp
        obtain ⟨j, hj, hread⟩ :=
          readsThrough_surjective (functionNames functions) hi (by omega)
        have hj' : j < (applyFunctionsToValues functions series.values).length := by omega
        by_contra hpart
        have hmark := hmarks series hseries i j _ _ (List.getElem?_eq_getElem hi)
          (List.getElem?_eq_getElem hj') hread input hinput (by simpa using hpart)
        exact absurd hmark (by simp [hflags _ (List.getElem_mem hj')])
    · rintro (hdrop | hinputs) series' hseries' i j p q hp hq hread input hinput hpart
      · obtain rfl : series = series' := Option.some.inj (hseries.symm.trans hseries')
        have hj := (List.getElem?_eq_some_iff.1 hq).1
        omega
      · obtain rfl : series = series' := Option.some.inj (hseries.symm.trans hseries')
        have hfalse := hinputs p.timestamp
          (List.mem_map_of_mem (List.mem_of_getElem? hp)) input hinput
        exact absurd hpart (by simp [hfalse])

/-- Exactly when partial points stay marked, through a list of functions and through a formula
with its functions. Marked points are never offered to alert evaluation. -/
theorem partialPoints_marked_iff {functions : List (Function V)}
    (hfill : ∀ fn ∈ functions, fn.name ≠ .fillZero) :
    (∀ values : List (TimeSeriesValue V), PartialsMarked functions values ↔
      KeepsMarks (functionNames functions) (partialFlags values)) ∧
    (∀ (lib : Govaluate V) (simpleFold : Char → Char) (fe : FormulaEvaluator)
      (timeSeriesData : List (String × TimeSeriesData V)) (targetLabels : List Label),
      FormulaPartialsMarked fe lib (fe.buildSeriesLookup simpleFold timeSeriesData) targetLabels
          functions ↔
        (fe.valuedTimestamps lib (fe.buildSeriesLookup simpleFold timeSeriesData)
            targetLabels).length ≤ runningDiffs (functionNames functions) ∨
          ∀ t ∈ fe.valuedTimestamps lib (fe.buildSeriesLookup simpleFold timeSeriesData)
              targetLabels,
            ∀ input ∈ fe.inputsAt (fe.buildSeriesLookup simpleFold timeSeriesData) targetLabels t,
              input.isPartial = false) ∧
    (∀ (ts : TimeSeries V) (q : TimeSeriesValue V), q.isPartial → q ∉ ts.evaluableValues) :=
  ⟨partialsMarked_iff hfill,
    fun lib _ fe _ targetLabels => formulaPartialsMarked_iff hfill fe lib _ targetLabels,
    fun _ _ => not_mem_evaluableValues⟩

end Formulas

/-! ## A partial point that is offered to alert evaluation -/

/-- Three points of a minute each, the last of them partial. -/
def lastPartial : List (TimeSeriesValue (Option Rat)) :=
  [⟨0, some 5, false⟩, ⟨60000, some 5, false⟩, ⟨120000, some 2, true⟩]

/-- A cumulative sum does not read what comes later. -/
theorem applyFunctions_value_congr_cumulativeSum :
    valueAt (applyFunctionsToValues [⟨.cumulativeSum, []⟩] lastPartial) 1 =
      valueAt (applyFunctionsToValues [⟨.cumulativeSum, []⟩]
        (lastPartial.take 2 ++ [⟨120000, none, false⟩])) 1 := by
  refine applyFunctions_value_congr (by decide) (by rfl) ?_
  rintro i ⟨m, -, hread, rfl⟩
  have hle : i ≤ 1 := hread
  obtain rfl | rfl : i = 0 ∨ i = 1 := by omega
  · rfl
  · rfl

/-- `median3` copies the partial last point of a series of three without its flag. -/
theorem median_unmarks_partial_point :
    ¬∀ (functions : List (Function (Option Rat))), (∀ fn ∈ functions, fn.name ≠ .fillZero) →
      ∀ values : List (TimeSeriesValue (Option Rat)), PartialsMarked functions values := by
  intro hmarked
  have hread : readsThrough (functionNames [(⟨.median3, []⟩ : Function (Option Rat))])
      lastPartial.length 2 2 :=
    ⟨2, by decide, by simp [FunctionName.reads, FunctionName.medianWindow], rfl⟩
  have hout : (applyFunctionsToValues [⟨.median3, []⟩] lastPartial)[2]? =
      some ⟨120000, some 2, false⟩ := by decide +kernel
  have hpart := hmarked [⟨.median3, []⟩] (by decide) lastPartial 2 2 _ _ rfl hout hread rfl
  exact absurd hpart (by decide)

/-- The running difference of the same points keeps the mark of the last one. -/
theorem partialPoints_marked_runningDiff :
    PartialsMarked [(⟨.runningDiff, []⟩ : Function (Option Rat))] lastPartial := by
  have hlast : ∀ j < 3, ∀ i ≤ j, (partialFlags lastPartial)[i]? = some true →
      (partialFlags lastPartial)[j]? = some true := by decide
  refine ((partialPoints_marked_iff (by decide)).1 lastPartial).2 (Or.inr (Or.inr ⟨?_, ?_⟩))
  · simp [MedianTakesEffect, functionNames, FunctionName.medianWindow]
  · exact fun _ i j hij _ hj hi => hlast j hj i hij hi

end Signoz.Querier
