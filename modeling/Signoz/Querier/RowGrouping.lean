import Signoz.Querier.RowReading

/-!
# Rows grouped by their labels

`readAsTimeSeries` should put the points of two rows for one aggregation into one series exactly
when the rows agree on every label column, and lose no finite value. It does so exactly when
(`readAsTimeSeries_groups_iff`)

* no two rows that differ in a label column have sorted label values that fall into the same pieces
  at commas (`Separated`),
* and every finite value is in a cell that the switch lists, in a row with a timestamp other than
  the epoch, before no other value of its aggregation (`RowSafe`), and not in the last aggregation
  that an `int` can count (`Countable`).
-/

namespace Signoz.Querier

open Lib.KeyedFold Lib.SplitOn

section

variable {V : Type} [Float64 V]

/-! ## When the rows are grouped by their labels -/

/-- Rows with a finite value for one aggregation agree on the label columns when their sorted label
texts fall into the same pieces at commas. -/
def Separated (queryWindow : Option TimeRange) (stepMs : Nat) (rows : Rows V) : Prop :=
  ∀ a, ∀ row ∈ rows.rows, ∀ row' ∈ rows.rows,
    rowPoints queryWindow stepMs rows.columns a row ≠ [] →
    rowPoints queryWindow stepMs rows.columns a row' ≠ [] →
    pieces ',' (labelTexts rows.columns row) = pieces ',' (labelTexts rows.columns row') →
      labelValues rows.columns row = labelValues rows.columns row'

/-- A finite value is in a listed cell, the last of its aggregation there, and the timestamp of its
row is not the epoch. -/
structure RowSafe (columns : List Column) (row : List (Slot V)) : Prop where
  listed : ∀ p ∈ unreadValues columns row, isFinite p.2 = false
  last : ∀ a, ∀ v ∈ (itemsOf a (readValues columns row)).dropLast, isFinite v = false
  timed : ∀ p ∈ readValues columns row, isFinite p.2 = true → rowTimestamp (cellsOf columns row) ≠ 0

/-- The finite values are for aggregations below the largest `int`. -/
def Countable (columns : List Column) (row : List (Slot V)) : Prop :=
  ∀ p ∈ readValues columns row, isFinite p.2 = true → p.1 < 2 ^ 63 - 1

/-- When the rows are grouped by their labels and nothing is lost. -/
structure GroupingSafe (queryWindow : Option TimeRange) (stepMs : Nat) (rows : Rows V) : Prop where
  separated : Separated queryWindow stepMs rows
  rowSafe : ∀ row ∈ rows.rows, RowSafe rows.columns row
  countable : ∀ row ∈ rows.rows, Countable rows.columns row

/-- The series of an aggregation. -/
def TimeSeriesData.seriesOf (d : TimeSeriesData V) (a : Nat) : List (TimeSeries V) :=
  (d.aggregations.filter fun b => b.index = a).flatMap AggregationBucket.series

/-- `place` says which series of an aggregation the points of a row are in: every series consists of
the points of its rows, and rows are placed together exactly when they agree on the label
columns. -/
structure PartitionsRows (queryWindow : Option TimeRange) (stepMs : Nat) (rows : Rows V) (a : Nat)
    (series : List (TimeSeries V)) (place : List (Slot V) → Nat) : Prop where
  inside : ∀ row ∈ rows.rows, rowPoints queryWindow stepMs rows.columns a row ≠ [] →
    place row < series.length
  values : ∀ i s, series[i]? = some s → s.values =
    (rows.rows.filter fun row => place row = i).flatMap (rowPoints queryWindow stepMs rows.columns a)
  together : ∀ row ∈ rows.rows, ∀ row' ∈ rows.rows,
    rowPoints queryWindow stepMs rows.columns a row ≠ [] →
    rowPoints queryWindow stepMs rows.columns a row' ≠ [] →
      (place row = place row' ↔ labelValues rows.columns row = labelValues rows.columns row')

/-- There is a result, and the series of each aggregation partition the rows by their labels. -/
def GroupsByLabels (queryWindow : Option TimeRange) (stepMs : Nat) (rows : Rows V)
    (queryName : String) : Prop :=
  ∃ d, readAsTimeSeries rows queryWindow stepMs queryName = some d ∧
    ∀ a, ∃ place, PartitionsRows queryWindow stepMs rows a (d.seriesOf a) place

/-! ## The series of one aggregation -/

section Series

variable {queryWindow : Option TimeRange} {stepMs : Nat} {rows : Rows V}

theorem nodup_keys_seriesMap : ((seriesMap queryWindow stepMs rows).map Prod.fst).Nodup :=
  nodup_keys_accumulate _ _ _ List.nodup_nil

omit [Float64 V] in
theorem foldl_addPoint (items : List (List Label × TimeSeriesValue V)) : ∀ s : TimeSeries V,
    (items.foldl (fun s item => { s with values := s.values ++ [item.2] }) s).values =
      s.values ++ items.map Prod.snd := by
  induction items with
  | nil => simp
  | cons item items ih =>
    intro s
    rw [List.foldl_cons, ih]
    simp

/-- The points of a series are those of the rows with its key. -/
theorem values_seriesMap {a : Nat} {k : String} {s : TimeSeries V}
    (h : ((a, k), s) ∈ seriesMap queryWindow stepMs rows) :
    s.values = rows.rows.flatMap fun row =>
      if (readCells rows.columns row).labelsKey = k then
        keptPoints queryWindow stepMs rows.columns a row
      else [] := by
  have hlookup := (mem_iff_lookup nodup_keys_seriesMap).1 h
  rw [seriesMap, lookup_accumulate] at hlookup
  have hpoints : (itemsOf (a, k) (rows.rows.flatMap
      (rowItems queryWindow stepMs rows.columns))).map Prod.snd = rows.rows.flatMap fun row =>
      if (readCells rows.columns row).labelsKey = k then
        keptPoints queryWindow stepMs rows.columns a row
      else [] := by
    simp only [← readRow_eq, itemsOf, List.filter_flatMap, List.map_flatMap]
  rw [← hpoints]
  cases hitems : itemsOf (a, k) (rows.rows.flatMap (rowItems queryWindow stepMs rows.columns)) with
  | nil =>
    rw [hitems] at hlookup
    cases hlookup
  | cons item items =>
    rw [hitems] at hlookup
    have hs := (foldItems_none_cons _ _ item items).symm.trans hlookup
    rw [← Option.some.inj hs, foldl_addPoint]
    rfl

/-- The keys are those of the rows that keep a point. -/
theorem mem_keys_seriesMap {a : Nat} {k : String} :
    (a, k) ∈ (seriesMap queryWindow stepMs rows).map Prod.fst ↔
      ∃ row ∈ rows.rows, (readCells rows.columns row).labelsKey = k ∧
        keptPoints queryWindow stepMs rows.columns a row ≠ [] := by
  have hrow : ∀ row : List (Slot V),
      (a, k) ∈ (rowItems queryWindow stepMs rows.columns row).map Prod.fst ↔
        (readCells rows.columns row).labelsKey = k ∧
          keptPoints queryWindow stepMs rows.columns a row ≠ [] := by
    intro row
    have heq := readRow_eq queryWindow stepMs rows.columns row a k
    constructor
    · intro hmem
      obtain ⟨⟨_, item⟩, hitem, rfl⟩ := List.mem_map.1 hmem
      have hin := List.mem_map_of_mem (f := Prod.snd) (mem_itemsOf.2 hitem)
      rw [heq] at hin
      split at hin
      · next hk => exact ⟨hk, List.ne_nil_of_mem hin⟩
      · cases hin
    · rintro ⟨hk, hne⟩
      rw [if_pos hk] at heq
      obtain ⟨point, hpoint⟩ := List.exists_mem_of_ne_nil _ hne
      rw [← heq] at hpoint
      obtain ⟨item, hitem, -⟩ := List.mem_map.1 hpoint
      exact List.mem_map.2 ⟨_, mem_itemsOf.1 hitem, rfl⟩
  rw [seriesMap, mem_keys_accumulate, List.map_flatMap, List.mem_flatMap]
  simp only [List.map_nil, List.not_mem_nil, false_or, hrow]

/-- The label keys of the series of an aggregation, in the order of the map. -/
def labelKeys (queryWindow : Option TimeRange) (stepMs : Nat) (rows : Rows V) (a : Nat) :
    List String :=
  ((seriesMap queryWindow stepMs rows).filter fun e => e.1.1 = a).map fun e => e.1.2

theorem nodup_labelKeys (a : Nat) : (labelKeys queryWindow stepMs rows a).Nodup := by
  have hnodup := (@nodup_keys_seriesMap V _ queryWindow stepMs rows).filter
    fun k => decide (k.1 = a)
  rw [List.filter_map] at hnodup
  have hkeys := hnodup.map_on (f := Prod.snd) fun k hk k' hk' h => by
    simp only [List.mem_map, List.mem_filter, Function.comp_apply, decide_eq_true_eq] at hk hk'
    obtain ⟨e, ⟨-, he⟩, rfl⟩ := hk
    obtain ⟨e', ⟨-, he'⟩, rfl⟩ := hk'
    exact Prod.ext (he.trans he'.symm) h
  rw [List.map_map] at hkeys
  exact hkeys

theorem mem_labelKeys {a : Nat} {k : String} : k ∈ labelKeys queryWindow stepMs rows a ↔
    ∃ row ∈ rows.rows, (readCells rows.columns row).labelsKey = k ∧
      keptPoints queryWindow stepMs rows.columns a row ≠ [] := by
  rw [← mem_keys_seriesMap, labelKeys, List.mem_map, List.mem_map]
  constructor
  · rintro ⟨e, he, rfl⟩
    obtain ⟨hmem, ha⟩ := List.mem_filter.1 he
    exact ⟨e, hmem, Prod.ext (by simpa using ha) rfl⟩
  · rintro ⟨e, he, hek⟩
    exact ⟨e, List.mem_filter.2 ⟨he, by simp [hek]⟩, by rw [hek]⟩

/-- The series with the `i`-th key consists of the points of the rows with that key. -/
theorem values_of_getElem? {a i : Nat} {s : TimeSeries V}
    (h : (aggregationBucket (seriesMap queryWindow stepMs rows) a).series[i]? = some s) :
    ∃ k, (labelKeys queryWindow stepMs rows a)[i]? = some k ∧
      s.values = rows.rows.flatMap fun row =>
        if (readCells rows.columns row).labelsKey = k then
          keptPoints queryWindow stepMs rows.columns a row
        else [] := by
  rw [aggregationBucket, List.getElem?_map, Option.map_eq_some_iff] at h
  obtain ⟨⟨⟨a', k⟩, s'⟩, he, rfl⟩ := h
  obtain ⟨hmem, ha⟩ := List.mem_filter.1 (List.mem_of_getElem? he)
  obtain rfl : a' = a := by simpa using ha
  refine ⟨k, ?_, values_seriesMap hmem⟩
  rw [labelKeys, List.getElem?_map, he]
  rfl

theorem length_series (a : Nat) : (aggregationBucket (seriesMap queryWindow stepMs rows) a).series.length =
    (labelKeys queryWindow stepMs rows a).length := by
  rw [aggregationBucket, labelKeys, List.length_map, List.length_map]

omit [Float64 V] in
/-- Choosing the bucket of an index among those that are not empty. -/
theorem flatMap_nonEmpty (bucket : Nat → AggregationBucket V) (hindex : ∀ i, (bucket i).index = i)
    (a n : Nat) :
    ((((List.range n).map bucket).filter fun b => !b.series.isEmpty).filter
      fun b => b.index = a).flatMap AggregationBucket.series =
        if a < n then (bucket a).series else [] := by
  induction n with
  | zero => simp
  | succ n ih =>
    rw [List.range_succ, List.map_append, List.filter_append, List.filter_append,
      List.flatMap_append, ih]
    by_cases hn : n = a
    · subst hn
      cases hseries : (bucket n).series <;> simp [hseries, hindex]
    · have hlast : (([n].map bucket).filter fun b => !b.series.isEmpty).filter
          (fun b => b.index = a) = [] := by
        rw [List.filter_eq_nil_iff]
        intro b hb
        obtain ⟨i, hi, rfl⟩ := List.mem_map.1 (List.mem_filter.1 hb).1
        rw [List.mem_singleton.1 hi, hindex]
        simpa using hn
      rw [hlast, List.flatMap_nil, List.append_nil]
      by_cases ha : a < n
      · rw [if_pos ha, if_pos (by omega)]
      · rw [if_neg ha, if_neg (by omega)]

/-- The series that the result has for an aggregation. -/
theorem seriesOf_read {queryName : String} {d : TimeSeriesData V}
    (h : readAsTimeSeries rows queryWindow stepMs queryName = some d) (a : Nat) :
    d.seriesOf a = (aggregationBucket (seriesMap queryWindow stepMs rows) a).series := by
  rw [readAsTimeSeries] at h
  split at h
  · next hmax =>
      have hnil : seriesMap queryWindow stepMs rows = [] := by
        simpa using List.max?_eq_none_iff.1 hmax
      rw [← Option.some.inj h, hnil]
      rfl
  · next maxAgg hmax =>
      split at h
      · cases h
      · rw [← Option.some.inj h, TimeSeriesData.seriesOf, flatMap_nonEmpty _ fun _ => rfl]
        split
        · rfl
        · next hlarge =>
            -- no series has an index above the largest
            symm
            rw [aggregationBucket, List.map_eq_nil_iff, List.filter_eq_nil_iff]
            intro e he hea
            have hle := (List.max?_eq_some_iff.1 hmax).2 e.1.1
              (List.mem_map_of_mem (f := fun e => e.1.1) he)
            simp only [decide_eq_true_eq] at hea
            omega

/-- There is a result when every series belongs to an aggregation that an `int` can count. -/
theorem readAsTimeSeries_isSome_iff {queryName : String} :
    (readAsTimeSeries rows queryWindow stepMs queryName).isSome ↔
      ∀ e ∈ seriesMap queryWindow stepMs rows, e.1.1 < 2 ^ 63 - 1 := by
  rw [readAsTimeSeries]
  split
  · next hmax =>
      have hnil : seriesMap queryWindow stepMs rows = [] := by
        simpa using List.max?_eq_none_iff.1 hmax
      simp [hnil]
  · next maxAgg hmax =>
      obtain ⟨hmem, hle⟩ := List.max?_eq_some_iff.1 hmax
      split
      · next hlarge =>
          simp only [Option.isSome_none, Bool.false_eq_true, false_iff, not_forall]
          obtain ⟨e, he, hea⟩ := List.mem_map.1 hmem
          exact ⟨e, he, by omega⟩
      · next hsmall =>
          refine iff_of_true rfl fun e he => ?_
          have := hle e.1.1 (List.mem_map_of_mem (f := fun e => e.1.1) he)
          omega

/-! ## What is lost -/

omit [Float64 V] in
theorem sublist_of_getLast? (l : List V) : l.getLast?.toList.Sublist l := by
  cases l.eq_nil_or_concat' with
  | inl h => simp [h]
  | inr h =>
    obtain ⟨l', v, rfl⟩ := h
    rw [List.getLast?_concat]
    exact List.sublist_append_right l' [v]

theorem keptPoints_sublist (a : Nat) (row : List (Slot V)) :
    (keptPoints queryWindow stepMs rows.columns a row).Sublist
      (rowPoints queryWindow stepMs rows.columns a row) := by
  rw [keptPoints, rowPoints]
  split
  · exact List.nil_sublist _
  · rw [itemsOf_append]
    apply List.Sublist.map
    apply List.Sublist.filter
    exact (sublist_of_getLast? _).trans (List.sublist_append_left _ _)

/-- Every finite value of a row is kept exactly when the row is safe. -/
theorem keptPoints_eq_iff (row : List (Slot V)) :
    (∀ a, keptPoints queryWindow stepMs rows.columns a row =
      rowPoints queryWindow stepMs rows.columns a row) ↔ RowSafe rows.columns row := by
  constructor
  · intro h
    -- the points of the values that are read and of those that are not
    have hlen : ∀ a, (keptPoints queryWindow stepMs rows.columns a row).length =
        ((itemsOf a (readValues rows.columns row)).filter isFinite).length +
          ((itemsOf a (unreadValues rows.columns row)).filter isFinite).length := by
      intro a
      rw [h a, rowPoints, List.length_map, itemsOf_append, List.filter_append, List.length_append]
    have hle : ∀ a, (keptPoints queryWindow stepMs rows.columns a row).length ≤
        ((itemsOf a (readValues rows.columns row)).getLast?.toList.filter isFinite).length := by
      intro a
      rw [keptPoints]
      split
      · exact Nat.zero_le _
      · rw [List.length_map]
    have hsplit : ∀ a, ((itemsOf a (readValues rows.columns row)).filter isFinite).length =
        ((itemsOf a (readValues rows.columns row)).dropLast.filter isFinite).length +
          ((itemsOf a (readValues rows.columns row)).getLast?.toList.filter isFinite).length := by
      intro a
      generalize itemsOf a (readValues rows.columns row) = l
      cases l.eq_nil_or_concat' with
      | inl hl => simp [hl]
      | inr hl =>
        obtain ⟨l', v, rfl⟩ := hl
        rw [List.dropLast_concat, List.getLast?_concat, List.filter_append, List.length_append]
        rfl
    refine ⟨fun p hp => ?_, fun a v hv => ?_, fun p hp hfin hts => ?_⟩
    · by_contra hfin
      rw [Bool.not_eq_false] at hfin
      have hmem : p.2 ∈ (itemsOf p.1 (unreadValues rows.columns row)).filter isFinite :=
        List.mem_filter.2 ⟨mem_itemsOf.2 hp, hfin⟩
      have hpos := List.length_pos_of_mem hmem
      have h₁ := hlen p.1
      have h₂ := hle p.1
      have h₃ := hsplit p.1
      omega
    · by_contra hfin
      rw [Bool.not_eq_false] at hfin
      have hpos := List.length_pos_of_mem (List.mem_filter.2 ⟨hv, hfin⟩)
      have h₁ := hlen a
      have h₂ := hle a
      have h₃ := hsplit a
      omega
    · have hmem : p.2 ∈ (itemsOf p.1 (readValues rows.columns row)).filter isFinite :=
        List.mem_filter.2 ⟨mem_itemsOf.2 hp, hfin⟩
      have hpos := List.length_pos_of_mem hmem
      have h₁ := hlen p.1
      rw [keptPoints, if_pos hts, List.length_nil] at h₁
      omega
  · intro h a
    have hunread : (itemsOf a (unreadValues rows.columns row)).filter isFinite = [] := by
      rw [List.filter_eq_nil_iff]
      intro v hv
      simpa using h.listed (a, v) (mem_itemsOf.1 hv)
    rw [keptPoints, rowPoints, itemsOf_append, List.filter_append, hunread, List.append_nil]
    split
    · next hts =>
        symm
        rw [List.map_eq_nil_iff, List.filter_eq_nil_iff]
        intro v hv hfin
        exact h.timed (a, v) (mem_itemsOf.1 hv) hfin hts
    · have hlast := h.last a
      generalize itemsOf a (readValues rows.columns row) = l at hlast
      cases l.eq_nil_or_concat' with
      | inl hl => simp [hl]
      | inr hl =>
        obtain ⟨l', v, rfl⟩ := hl
        rw [List.dropLast_concat] at hlast
        have hbefore : l'.filter isFinite = [] := by
          rw [List.filter_eq_nil_iff]
          intro u hu
          simp [hlast u hu]
        rw [List.getLast?_concat, List.filter_append, hbefore, List.nil_append]
        rfl

omit [Float64 V] in
/-- Lists that are each at most as long as others are as long, when all are together. -/
theorem length_eq_of_flatMap {X Y : Type} {f g : X → List Y} {xs : List X}
    (hle : ∀ x ∈ xs, (f x).length ≤ (g x).length)
    (hlen : (xs.flatMap f).length = (xs.flatMap g).length) :
    ∀ x ∈ xs, (f x).length = (g x).length := by
  induction xs with
  | nil => simp
  | cons x xs ih =>
    rw [List.forall_mem_cons] at hle
    rw [List.flatMap_cons, List.flatMap_cons, List.length_append, List.length_append] at hlen
    have hrest : ∀ xs : List X, (∀ x ∈ xs, (f x).length ≤ (g x).length) →
        (xs.flatMap f).length ≤ (xs.flatMap g).length := by
      intro xs
      induction xs with
      | nil => simp
      | cons y ys ihys =>
        intro hys
        rw [List.forall_mem_cons] at hys
        rw [List.flatMap_cons, List.flatMap_cons, List.length_append, List.length_append]
        exact Nat.add_le_add hys.1 (ihys hys.2)
    have hxs := hrest xs hle.2
    have hx := hle.1
    rw [List.forall_mem_cons]
    exact ⟨by omega, ih hle.2 (by omega)⟩

omit [Float64 V] in
theorem flatMap_filter {X Y : Type} (p : X → Prop) [DecidablePred p] (f : X → List Y)
    (xs : List X) : (xs.filter fun x => p x).flatMap f =
      xs.flatMap fun x => if p x then f x else [] := by
  induction xs with
  | nil => rfl
  | cons x xs ih =>
    by_cases hx : p x
    · rw [List.filter_cons_of_pos (by simpa using hx), List.flatMap_cons, List.flatMap_cons,
        if_pos hx, ih]
    · rw [List.filter_cons_of_neg (by simpa using hx), List.flatMap_cons, if_neg hx, ih,
        List.nil_append]

/-- A finite value that is read is one of the row's points. -/
theorem rowPoints_ne_nil {columns : List Column} {row : List (Slot V)} {p : Nat × V}
    (hp : p ∈ readValues columns row) (hfin : isFinite p.2 = true) :
    rowPoints queryWindow stepMs columns p.1 row ≠ [] := by
  rw [rowPoints]
  refine List.ne_nil_of_mem (List.mem_map_of_mem (List.mem_filter.2 ⟨?_, hfin⟩))
  exact mem_itemsOf.2 (List.mem_append_left _ hp)

theorem exists_of_keptPoints {a : Nat} {columns : List Column} {row : List (Slot V)}
    (h : keptPoints queryWindow stepMs columns a row ≠ []) :
    ∃ v, (a, v) ∈ readValues columns row ∧ isFinite v = true := by
  obtain ⟨point, hpoint⟩ := List.exists_mem_of_ne_nil _ h
  rw [keptPoints] at hpoint
  split at hpoint
  · cases hpoint
  · obtain ⟨v, hv, -⟩ := List.mem_map.1 hpoint
    obtain ⟨hv, hfin⟩ := List.mem_filter.1 hv
    refine ⟨v, mem_itemsOf.1 ?_, hfin⟩
    exact List.mem_of_mem_getLast? (Option.mem_toList.1 hv)

/-- The points of all series are as many as the rows keep. -/
theorem length_kept (a : Nat) :
    (((aggregationBucket (seriesMap queryWindow stepMs rows) a).series.map
      fun s => s.values).flatten).length =
        (rows.rows.flatMap (keptPoints queryWindow stepMs rows.columns a)).length := by
  have hvalues : ((aggregationBucket (seriesMap queryWindow stepMs rows) a).series.map
      fun s => s.values) = (labelKeys queryWindow stepMs rows a).map fun k =>
        rows.rows.flatMap fun row =>
          if (readCells rows.columns row).labelsKey = k then
            keptPoints queryWindow stepMs rows.columns a row
          else [] := by
    apply List.ext_getElem?
    intro i
    rw [List.getElem?_map, List.getElem?_map]
    cases hs : (aggregationBucket (seriesMap queryWindow stepMs rows) a).series[i]? with
    | none =>
      have hkeys : (labelKeys queryWindow stepMs rows a)[i]? = none := by
        rw [List.getElem?_eq_none_iff, ← length_series]
        exact List.getElem?_eq_none_iff.1 hs
      rw [hkeys]
      rfl
    | some s =>
      obtain ⟨k, hk, hvalues⟩ := values_of_getElem? hs
      rw [hk, Option.map_some, Option.map_some, hvalues]
  rw [hvalues]
  exact length_flatten_filed (nodup_labelKeys a) _ _ fun row hrow hne =>
    mem_labelKeys.2 ⟨row, hrow, rfl, hne⟩

/-- Series that partition the rows have as many points as the rows have finite values. -/
theorem PartitionsRows.length_eq {a : Nat} {series : List (TimeSeries V)}
    {place : List (Slot V) → Nat} (h : PartitionsRows queryWindow stepMs rows a series place) :
    ((series.map fun s => s.values).flatten).length =
      (rows.rows.flatMap (rowPoints queryWindow stepMs rows.columns a)).length := by
  have hvalues : (series.map fun s => s.values) = (List.range series.length).map fun i =>
      rows.rows.flatMap fun row =>
        if place row = i then rowPoints queryWindow stepMs rows.columns a row else [] := by
    apply List.ext_getElem?
    intro i
    rw [List.getElem?_map, List.getElem?_map]
    cases hs : series[i]? with
    | none =>
      rw [List.getElem?_eq_none_iff] at hs
      rw [List.getElem?_eq_none_iff.2 (by rw [List.length_range]; exact hs)]
      rfl
    | some s =>
      have hi := (List.getElem?_eq_some_iff.1 hs).1
      rw [List.getElem?_range hi, Option.map_some, Option.map_some, h.values i s hs,
        flatMap_filter]
  rw [hvalues]
  exact length_flatten_filed List.nodup_range _ _ fun row hrow hne =>
    List.mem_range.2 (h.inside row hrow hne)

/-- Nothing is lost when the series partition the rows. -/
theorem PartitionsRows.kept {a : Nat} {place : List (Slot V) → Nat}
    (h : PartitionsRows queryWindow stepMs rows a
      (aggregationBucket (seriesMap queryWindow stepMs rows) a).series place) :
    ∀ row ∈ rows.rows, keptPoints queryWindow stepMs rows.columns a row =
      rowPoints queryWindow stepMs rows.columns a row := by
  have hlen := (length_kept a).symm.trans h.length_eq
  intro row hrow
  refine (keptPoints_sublist a row).eq_of_length ?_
  exact length_eq_of_flatMap (fun row _ => (keptPoints_sublist a row).length_le) hlen row hrow

/-- `readAsTimeSeries` groups rows by their labels and loses nothing exactly when the label texts
separate the rows and every finite value is kept. -/
theorem readAsTimeSeries_groups_iff (queryWindow : Option TimeRange) (stepMs : Nat) (rows : Rows V)
    (queryName : String) :
    GroupsByLabels queryWindow stepMs rows queryName ↔ GroupingSafe queryWindow stepMs rows := by
  constructor
  · rintro ⟨d, hd, hparts⟩
    have hseries := seriesOf_read hd
    simp only [hseries] at hparts
    have hkept : ∀ a, ∀ row ∈ rows.rows, keptPoints queryWindow stepMs rows.columns a row =
        rowPoints queryWindow stepMs rows.columns a row := by
      intro a
      obtain ⟨place, hpart⟩ := hparts a
      exact hpart.kept
    refine ⟨?_, fun row hrow => ?_, fun row hrow p hp hfin => ?_⟩
    · intro a row hrow row' hrow' hne hne' hpieces
      obtain ⟨place, hpart⟩ := hparts a
      refine (hpart.together row hrow row' hrow' hne hne').1 ?_
      let valued := rows.rows.filter fun row =>
        !(rowPoints queryWindow stepMs rows.columns a row).isEmpty
      have hmem : ∀ {row}, row ∈ valued ↔
          row ∈ rows.rows ∧ rowPoints queryWindow stepMs rows.columns a row ≠ [] := by
        intro row
        simp [valued, List.mem_filter]
      have hused : ∀ k ∈ labelKeys queryWindow stepMs rows a,
          ∃ row ∈ valued, (readCells rows.columns row).labelsKey = k := by
        intro k hk
        obtain ⟨row, hrow, hkey, hne⟩ := mem_labelKeys.1 hk
        exact ⟨row, hmem.2 ⟨hrow, hkept a row hrow ▸ hne⟩, hkey⟩
      have hplace : ∀ row ∈ valued, place row < (labelKeys queryWindow stepMs rows a).length := by
        intro row hrow
        rw [← length_series]
        exact hpart.inside row (hmem.1 hrow).1 (hmem.1 hrow).2
      have hfine : ∀ x ∈ valued, ∀ y ∈ valued, place x = place y →
          (readCells rows.columns x).labelsKey = (readCells rows.columns y).labelsKey := by
        intro x hx y hy hxy
        rw [hmem] at hx hy
        have hlabels := (hpart.together x hx.1 y hy.1 hx.2 hy.2).1 hxy
        exact labelsKey_congr (rows.typed x hx.1) (rows.typed y hy.1) hlabels
      -- there are as many keys as series, so rows with one key are in one series
      exact same_place_of_same_key (nodup_labelKeys a) hused hplace hfine
        row (hmem.2 ⟨hrow, hne⟩) row' (hmem.2 ⟨hrow', hne'⟩)
        ((labelsKey_eq_iff rows.columns row row').2 hpieces)
    · exact (keptPoints_eq_iff row).1 fun a => hkept a row hrow
    · by_contra hlarge
      have hne : rowPoints queryWindow stepMs rows.columns p.1 row ≠ [] := rowPoints_ne_nil hp hfin
      rw [← hkept p.1 row hrow] at hne
      obtain ⟨e, he, hek⟩ := List.mem_map.1 (mem_keys_seriesMap.2 ⟨row, hrow, rfl, hne⟩)
      have hsome := readAsTimeSeries_isSome_iff.1 (by rw [hd]; rfl) e he
      rw [hek] at hsome
      exact hlarge hsome
  · intro h
    have hkept : ∀ a, ∀ row ∈ rows.rows, keptPoints queryWindow stepMs rows.columns a row =
        rowPoints queryWindow stepMs rows.columns a row :=
      fun a row hrow => (keptPoints_eq_iff row).2 (h.rowSafe row hrow) a
    have hsome : (readAsTimeSeries rows queryWindow stepMs queryName).isSome := by
      rw [readAsTimeSeries_isSome_iff]
      intro e he
      obtain ⟨row, hrow, -, hne⟩ := mem_keys_seriesMap.1 (List.mem_map_of_mem (f := Prod.fst) he)
      obtain ⟨v, hv, hfin⟩ := exists_of_keptPoints hne
      exact h.countable row hrow _ hv hfin
    obtain ⟨d, hd⟩ := Option.isSome_iff_exists.1 hsome
    refine ⟨d, hd, fun a => ?_⟩
    rw [seriesOf_read hd]
    have hkeys : ∀ row ∈ rows.rows, rowPoints queryWindow stepMs rows.columns a row ≠ [] →
        (readCells rows.columns row).labelsKey ∈ labelKeys queryWindow stepMs rows a :=
      fun row hrow hne => mem_labelKeys.2 ⟨row, hrow, rfl, (hkept a row hrow).symm ▸ hne⟩
    refine ⟨fun row => (labelKeys queryWindow stepMs rows a).idxOf
      (readCells rows.columns row).labelsKey, fun row hrow hne => ?_, fun i s hs => ?_,
      fun row hrow row' hrow' hne hne' => ?_⟩
    · rw [length_series]
      exact List.idxOf_lt_length_of_mem (hkeys row hrow hne)
    · obtain ⟨k, hk, hvalues⟩ := values_of_getElem? hs
      rw [hvalues, flatMap_filter]
      refine List.flatMap_congr fun row hrow => ?_
      rw [hkept a row hrow]
      by_cases hne : rowPoints queryWindow stepMs rows.columns a row = []
      · simp [hne]
      · have hiff : (readCells rows.columns row).labelsKey = k ↔
            (labelKeys queryWindow stepMs rows a).idxOf
              (readCells rows.columns row).labelsKey = i := by
          obtain ⟨hi, hget⟩ := List.getElem?_eq_some_iff.1 hk
          rw [← hget]
          constructor
          · intro hkey
            rw [hkey]
            exact (nodup_labelKeys a).idxOf_getElem i hi
          · intro hidx
            subst hidx
            exact (List.getElem_idxOf hi).symm
        simp only [hiff]
    · constructor
      · intro hidx
        have hkey := (List.idxOf_inj (hkeys row hrow hne)).1 hidx
        exact h.separated a row hrow row' hrow' hne hne'
          ((labelsKey_eq_iff rows.columns row row').1 hkey)
      · intro hlabels
        rw [labelsKey_congr (rows.typed row hrow) (rows.typed row' hrow') hlabels]

end Series

end

/-! ## Permuted labels -/

/-- Two string columns and a value. -/
def twoLabelColumns : List Column :=
  [⟨"ts", .time⟩, ⟨"source", .string false⟩, ⟨"destination", .string false⟩,
    ⟨"__result_0", .float .float64 false⟩]

/-- A minute of traffic between two services. -/
def trafficRow (source destination : String) (count : Rat) : List (Slot (Option Rat)) :=
  [.time 60000, .string (.plain source), .string (.plain destination),
    .float .float64 (.plain (some count))]

/-- Traffic in both directions. -/
def trafficRows : Rows (Option Rat) where
  columns := twoLabelColumns
  rows := [trafficRow "frontend" "cart" 3, trafficRow "cart" "frontend" 5]
  typed := by decide

/-- Both directions are in one series. -/
theorem trafficRows_mixed : ¬ GroupsByLabels none 60000 trafficRows "A" := by
  have hone : (readAsTimeSeries trafficRows none 60000 "A").map
      (fun d => (d.seriesOf 0).length) = some 1 := by decide +kernel
  have hpoints : ∀ row ∈ trafficRows.rows,
      rowPoints none 60000 trafficRows.columns 0 row ≠ [] := by decide +kernel
  rintro ⟨d, hd, hparts⟩
  obtain ⟨place, hpart⟩ := hparts 0
  rw [hd, Option.map_some, Option.some.injEq] at hone
  have hplace : ∀ row ∈ trafficRows.rows, place row = 0 := by
    intro row hrow
    have := hpart.inside row hrow (hpoints row hrow)
    omega
  have hthere : trafficRow "frontend" "cart" 3 ∈ trafficRows.rows := List.mem_cons_self
  have hback : trafficRow "cart" "frontend" 5 ∈ trafficRows.rows :=
    List.mem_cons_of_mem _ List.mem_cons_self
  have hlabels := (hpart.together _ hthere _ hback (hpoints _ hthere) (hpoints _ hback)).1
    ((hplace _ hthere).trans (hplace _ hback).symm)
  exact absurd hlabels (by decide +kernel)

end Signoz.Querier
