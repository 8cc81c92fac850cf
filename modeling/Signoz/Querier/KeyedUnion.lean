import Signoz.Querier.ExecuteWithCache

/-!
# Merging as a keyed union

`mergeTimeSeriesResults` puts the series of one aggregation index and series key together. A series
that is extended by others shows at every timestamp the first point any of them has there
(`find?_foldl_mergeSeries`), so data merged from series without repeated timestamps is the union of
its inputs, earlier inputs first (`Grouped.keyedUnion`, `mergeTimeSeriesResults_keyedUnion`).
-/

namespace Signoz.Querier

open Lib.KeyedFold

section KeyedUnion

variable {V : Type}

/-- `d` is the union of the inputs by aggregation index and series key: one series for each key that
occurs, in the order of time, with every timestamp that an input has for the key, and there the point
of the first input that has it. -/
structure KeyedUnion (inputs : List (TimeSeriesData V)) (d : TimeSeriesData V) : Prop where
  one : ∀ i k, (∃ input ∈ inputs, ∃ s, ((i, k), s) ∈ input.keyed) →
    ∃ s, itemsOf (i, k) d.keyed = [s]
  only : ∀ i k s, ((i, k), s) ∈ d.keyed → ∃ input ∈ inputs, ∃ s', ((i, k), s') ∈ input.keyed
  ascending : ∀ i k, (d.points i k).Pairwise fun p q => p.timestamp < q.timestamp
  timestamps : ∀ i k t, (∃ p ∈ d.points i k, p.timestamp = t) ↔
    ∃ input ∈ inputs, ∃ p ∈ input.points i k, p.timestamp = t
  value : ∀ i k, ∀ p ∈ d.points i k, ∃ before input behind, inputs = before ++ input :: behind ∧
    (input.points i k).find? (fun q => q.timestamp = p.timestamp) = some p ∧
    ∀ earlier ∈ before, ∀ q ∈ earlier.points i k, q.timestamp ≠ p.timestamp

/-! ## One key -/

/-- A merged series has the points it had, and new ones where it had none. -/
theorem find?_mergeValues (existing fresh : List (TimeSeriesValue V)) (t : Int) :
    (mergeValues existing fresh).find? (fun p => p.timestamp = t) =
      (existing ++ fresh).find? fun p => p.timestamp = t := by
  rw [mergeValues, List.find?_append, List.find?_append]
  cases hfind : existing.find? fun p => p.timestamp = t with
  | some p => rfl
  | none =>
    have hnone : ∀ p ∈ existing, p.timestamp ≠ t := by simpa using List.find?_eq_none.1 hfind
    have hkeep : ∀ p : TimeSeriesValue V, p.timestamp = t →
        (!(existing.map TimeSeriesValue.timestamp).contains p.timestamp) = true := by
      intro p hp
      simp only [Bool.not_eq_true', List.contains_eq_mem, decide_eq_false_iff_not, List.mem_map]
      rintro ⟨q, hq, hqp⟩
      exact hnone q hq (hqp.trans hp)
    rw [Option.none_or, Option.none_or, List.find?_filter]
    congr 1
    funext p
    by_cases hp : p.timestamp = t
    · rw [hkeep p hp]
      simp
    · simp [hp]

/-- A series extended by others has at each timestamp the first of their points. -/
theorem find?_foldl_mergeSeries (ss : List (TimeSeries V)) (t : Int) : ∀ s : TimeSeries V,
    (ss.foldl mergeSeries s).values.find? (fun p => p.timestamp = t) =
      ((s :: ss).flatMap TimeSeries.values).find? fun p => p.timestamp = t := by
  induction ss with
  | nil =>
    intro s
    simp
  | cons a ss ih =>
    intro s
    have hstep := find?_mergeValues s.values a.values t
    rw [List.foldl_cons, ih (mergeSeries s a), List.flatMap_cons, List.find?_append, mergeSeries,
      hstep, ← List.find?_append, List.append_assoc]
    rfl

/-- Where timestamps do not repeat, a point is the first of its timestamp. -/
theorem find?_of_nodup {values : List (TimeSeriesValue V)}
    (hnodup : (values.map TimeSeriesValue.timestamp).Nodup) {p : TimeSeriesValue V}
    (hp : p ∈ values) : values.find? (fun q => q.timestamp = p.timestamp) = some p := by
  induction values with
  | nil => cases hp
  | cons a values ih =>
    rw [List.map_cons, List.nodup_cons] at hnodup
    rcases List.mem_cons.1 hp with rfl | hp
    · exact List.find?_cons_of_pos (by simp)
    · have hne : a.timestamp ≠ p.timestamp := fun heq =>
        hnodup.1 (List.mem_map.2 ⟨p, hp, heq.symm⟩)
      rw [List.find?_cons_of_neg (by simpa using hne)]
      exact ih hnodup.2 hp

/-- Sorting orders points by time, strictly where timestamps do not repeat. -/
theorem pairwise_sortByTimestamp {values : List (TimeSeriesValue V)}
    (hnodup : (values.map TimeSeriesValue.timestamp).Nodup) :
    (sortByTimestamp values).Pairwise fun p q => p.timestamp < q.timestamp := by
  have hsorted : (sortByTimestamp values).Pairwise fun p q => p.timestamp ≤ q.timestamp :=
    List.pairwise_insertionSort _ values
  have hne : (sortByTimestamp values).Pairwise fun p q => p.timestamp ≠ q.timestamp :=
    List.pairwise_map.1 (((sortByTimestamp_perm values).map _).nodup_iff.2 hnodup)
  exact hsorted.imp₂ (fun p q hle hne => lt_of_le_of_ne hle hne) hne

/-! ## All keys -/

/-- The first point of a list of inputs comes from the first input that has one. -/
theorem exists_first_input {inputs : List (TimeSeriesData V)} {i : Nat} {k : String} {t : Int}
    {p : TimeSeriesValue V}
    (h : (inputs.flatMap fun input => input.points i k).find? (fun q => q.timestamp = t) = some p) :
    ∃ before input behind, inputs = before ++ input :: behind ∧
      (input.points i k).find? (fun q => q.timestamp = t) = some p ∧
      ∀ earlier ∈ before, ∀ q ∈ earlier.points i k, q.timestamp ≠ t := by
  induction inputs with
  | nil => cases h
  | cons input inputs ih =>
    rw [List.flatMap_cons, List.find?_append] at h
    cases hfind : (input.points i k).find? fun q => q.timestamp = t with
    | some q =>
      rw [hfind, Option.some_or] at h
      exact ⟨[], input, inputs, rfl, hfind.trans h, fun earlier he => by cases he⟩
    | none =>
      rw [hfind, Option.none_or] at h
      obtain ⟨before, found, behind, rfl, hfound, hbefore⟩ := ih h
      refine ⟨input :: before, found, behind, rfl, hfound, ?_⟩
      intro earlier he
      rcases List.mem_cons.1 he with rfl | he
      · simpa using List.find?_eq_none.1 hfind
      · exact hbefore earlier he

/-- Data that splits up the merged series is the union of its inputs. -/
theorem Grouped.keyedUnion {inputs : List (TimeSeriesData V)} {d : TimeSeriesData V}
    (h : Grouped inputs d)
    (hdistinct : ∀ input ∈ inputs, ∀ e ∈ input.keyed,
      (e.2.values.map TimeSeriesValue.timestamp).Nodup) : KeyedUnion inputs d := by
  have hmem : ∀ i k s, s ∈ inputs.flatMap (fun input => itemsOf (i, k) input.keyed) ↔
      ∃ input ∈ inputs, ((i, k), s) ∈ input.keyed := by
    intro i k s
    simp only [List.mem_flatMap, mem_itemsOf]
  have hseries : ∀ i k, ∀ s ∈ inputs.flatMap (fun input => itemsOf (i, k) input.keyed),
      (s.values.map TimeSeriesValue.timestamp).Nodup := by
    intro i k s hs
    obtain ⟨input, hinput, hkeyed⟩ := (hmem i k s).1 hs
    exact hdistinct input hinput _ hkeyed
  have hpoints : ∀ i k, inputs.flatMap (fun input => input.points i k) =
      (inputs.flatMap fun input => itemsOf (i, k) input.keyed).flatMap TimeSeries.values := by
    intro i k
    rw [List.flatMap_assoc]
    rfl
  refine ⟨?_, ?_, ?_, ?_, ?_⟩
  · rintro i k ⟨input, hinput, s, hs⟩
    have hin := (hmem i k s).2 ⟨input, hinput, hs⟩
    rw [h.itemsOf_keyed]
    cases hl : inputs.flatMap fun input => itemsOf (i, k) input.keyed with
    | nil =>
      rw [hl] at hin
      cases hin
    | cons first rest => exact ⟨_, rfl⟩
  · intro i k s hs
    have hs' := mem_itemsOf.2 hs
    rw [h.itemsOf_keyed] at hs'
    cases hl : inputs.flatMap fun input => itemsOf (i, k) input.keyed with
    | nil =>
      rw [hl] at hs'
      cases hs'
    | cons first rest =>
      obtain ⟨input, hinput, hkeyed⟩ := (hmem i k first).1 (hl ▸ List.mem_cons_self)
      exact ⟨input, hinput, first, hkeyed⟩
  · intro i k
    rw [h.points]
    cases hl : inputs.flatMap fun input => itemsOf (i, k) input.keyed with
    | nil => exact List.Pairwise.nil
    | cons first rest =>
      exact pairwise_sortByTimestamp (nodup_foldl_mergeSeries rest first (hl ▸ hseries i k))
  · intro i k t
    constructor
    · rintro ⟨p, hp, rfl⟩
      obtain ⟨input, hinput, hpi⟩ := h.merges.sub i k p hp
      exact ⟨input, hinput, p, hpi, rfl⟩
    · rintro ⟨input, hinput, p, hp, rfl⟩
      exact h.merges.cover i k input hinput p hp
  · intro i k p hp
    apply exists_first_input
    rw [h.points] at hp
    rw [hpoints]
    cases hl : inputs.flatMap fun input => itemsOf (i, k) input.keyed with
    | nil =>
      rw [hl] at hp
      cases hp
    | cons first rest =>
      rw [hl] at hp
      have hnodup := nodup_foldl_mergeSeries rest first (hl ▸ hseries i k)
      rw [← find?_foldl_mergeSeries]
      exact find?_of_nodup hnodup (mem_sortByTimestamp.1 hp)

/-- `mergeTimeSeriesResults` is the keyed union of the cached data and the fresh results, in this
order. -/
theorem mergeTimeSeriesResults_keyedUnion (cachedValue : Option (TimeSeriesData V))
    (freshResults : List (Result V))
    (hdistinct : ∀ input ∈
      cachedValue.toList ++ freshResults.filterMap (fun r => r.value.timeSeriesData),
      ∀ e ∈ input.keyed, (e.2.values.map TimeSeriesValue.timestamp).Nodup) :
    KeyedUnion (cachedValue.toList ++ freshResults.filterMap fun r => r.value.timeSeriesData)
      (mergeTimeSeriesResults cachedValue freshResults) :=
  (mergeTimeSeriesResults_grouped cachedValue freshResults).keyedUnion hdistinct

end KeyedUnion

/-- One series with the given points. -/
def oneSeries {V : Type} (values : List (TimeSeriesValue V)) : TimeSeriesData V :=
  ⟨"A", [⟨0, "", "", [⟨[], values⟩]⟩]⟩

/-- Cached and fresh points that overlap at one timestamp. -/
theorem overlapping_keyedUnion :
    KeyedUnion [oneSeries [⟨0, 1, false⟩, ⟨60, 2, false⟩], oneSeries [⟨60, 3, true⟩, ⟨30, 4, false⟩]]
      (mergeTimeSeriesResults (some (oneSeries [⟨0, 1, false⟩, ⟨60, 2, false⟩]))
        [⟨.timeSeries, .timeSeries (oneSeries [⟨60, 3, true⟩, ⟨30, 4, false⟩]), .zero, [], ""⟩]) :=
  mergeTimeSeriesResults_keyedUnion (some (oneSeries [⟨0, 1, false⟩, ⟨60, 2, false⟩]))
    [⟨.timeSeries, .timeSeries (oneSeries [⟨60, 3, true⟩, ⟨30, 4, false⟩]), .zero, [], ""⟩]
    (by simp [oneSeries, TimeSeriesData.keyed])

end Signoz.Querier
