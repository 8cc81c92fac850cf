import Signoz.Querier.FormulaJoin

/-!
# Time series as a scalar table

`convertTimeSeriesDataToScalar` makes a row of every series of the first aggregation. The group
columns have the label names of its first series; the label values of a series are written into
them by position, and the cells of the aggregations are read from the series at the same position
of each aggregation.

What the rows should say (`ScalarRowsRight`) is about label sets: one row for each label set of any
aggregation, with the value that each aggregation has for it. A row shows the names of the columns
with the values of its series (`shownLabels`): labels in another order show a wrong set, series in
another order the values of another group.
-/

namespace Signoz.Querier

section

variable {V : Type}

/-! ## The conversion -/

/-- The cell of a value that is not there. -/
def notAvailable : Cell V := .label (.str "n/a") none

/-- The last value of a series, if there is a series with a value. -/
def lastCell (series : Option (TimeSeries V)) : Cell V :=
  match series.bind fun s => s.values.getLast? with
  | some p => .float p.value
  | none => notAvailable

/-- The assignments `row[start]`, `row[start+1]` and so on, with `none` where an index is out of
range. -/
def writeCells (row : List (Cell V)) (start : Nat) : List (Cell V) → Option (List (Cell V))
  | [] => some row
  | cell :: cells =>
    if start < row.length then writeCells (row.set start cell) (start + 1) cells else none

/-- The row of a series: its label values from the first column on, and behind them the last value
of the series at the same position of each aggregation. -/
def scalarRow (columnCount : Nat) (aggregations : List (AggregationBucket V)) (seriesIdx : Nat)
    (series : TimeSeries V) : Option (List (Cell V)) := do
  let row ← writeCells (List.replicate columnCount .null) 0
    (series.labels.map fun l => .label l.value none)
  writeCells row series.labels.length
    (aggregations.map fun agg => lastCell agg.series[seriesIdx]?)

def groupColumn (queryName name : String) : ColumnDescriptor := ⟨name, queryName, 0, "", false⟩

def aggregationColumn (queryName : String) (agg : AggregationBucket V) : ColumnDescriptor :=
  ⟨if agg.aliasName = "" then "__result_" ++ toString agg.index else agg.aliasName, queryName,
    agg.index, agg.unit, true⟩

/-- The series of the first aggregation. -/
def TimeSeriesData.firstSeries (d : TimeSeriesData V) : List (TimeSeries V) :=
  (d.aggregations.head?.map AggregationBucket.series).getD []

/-- The label names of the first series. -/
def TimeSeriesData.groupNames (d : TimeSeriesData V) : List String :=
  (d.firstSeries.head?.map fun s => s.labels.map Label.name).getD []

/-- `convertTimeSeriesDataToScalar`, with `none` for an index out of range. Without an aggregation
there is nothing in the result, as for `nil`. -/
def convertTimeSeriesDataToScalar (tsData : TimeSeriesData V) (queryName : String) :
    Option (ScalarData V) := do
  let columns := tsData.groupNames.map (groupColumn queryName) ++
    tsData.aggregations.map (aggregationColumn queryName)
  let data ← (tsData.firstSeries.mapIdx
    (scalarRow columns.length tsData.aggregations)).mapM id
  pure ⟨queryName, columns, data⟩

/-! ## What the rows should say -/

/-- The cell of a group column: the value that the labels give to its name. -/
def groupCell (labels : List Label) (column : ColumnDescriptor) : Cell V :=
  match labelNamed labels column.name with
  | some value => .label value none
  | none => .null

/-- A cell shows an aggregation for a label set: the last value of a series with these labels, and
n/a if there is none. -/
def AggregationBucket.CellFor (agg : AggregationBucket V) (labels : List Label) (cell : Cell V) :
    Prop :=
  (∃ s ∈ agg.series, SameLabels s.labels labels ∧ cell = lastCell (some s)) ∨
    ((∀ s ∈ agg.series, ¬ SameLabels s.labels labels) ∧ cell = notAvailable)

/-- A row shows a label set. -/
def TimeSeriesData.RowFor (d : TimeSeriesData V) (groupColumns : List ColumnDescriptor)
    (labels : List Label) (row : List (Cell V)) : Prop :=
  ∃ cells, row = groupColumns.map (groupCell labels) ++ cells ∧
    List.Forall₂ (fun agg cell => agg.CellFor labels cell) d.aggregations cells

/-- The label set occurs in an aggregation. -/
def TimeSeriesData.HasLabels (d : TimeSeriesData V) (labels : List Label) : Prop :=
  ∃ agg ∈ d.aggregations, ∃ s ∈ agg.series, SameLabels s.labels labels

/-- A table shows time series: it has a row for each label set of any aggregation, and no other. -/
structure TimeSeriesData.ShownBy (d : TimeSeriesData V) (sd : ScalarData V)
    (groupColumns : List ColumnDescriptor) (groups : List (List Label)) : Prop where
  columns : sd.columns = groupColumns ++ d.aggregations.map (aggregationColumn sd.queryName)
  group : ∀ column ∈ groupColumns, column.isAggregation = false
  /-- Every label is under a column of its name. -/
  named : ∀ labels ∈ groups, ∀ l ∈ labels, ∃ column ∈ groupColumns, column.name = l.name
  rows : List.Forall₂ (d.RowFor groupColumns) groups sd.data
  once : groups.Pairwise fun labels labels' => ¬ SameLabels labels labels'
  occurs : ∀ labels ∈ groups, d.HasLabels labels
  all : ∀ agg ∈ d.aggregations, ∀ s ∈ agg.series, ∃ labels ∈ groups, SameLabels labels s.labels

/-- The conversion indexes nothing out of range, and its table shows the time series. -/
def TimeSeriesData.ScalarRowsRight (d : TimeSeriesData V) (queryName : String) : Prop :=
  ∃ sd, convertTimeSeriesDataToScalar d queryName = some sd ∧ sd.queryName = queryName ∧
    ∃ groupColumns groups, d.ShownBy sd groupColumns groups

/-! ## When they do -/

/-- The label set that the row of a series shows. -/
def TimeSeriesData.shownLabels (d : TimeSeriesData V) (s : TimeSeries V) : List Label :=
  List.zipWith (fun name l => ⟨name, l.value⟩) d.groupNames s.labels

/-- The series are aligned: those of the first aggregation all have as many labels as the first one,
and the label sets they show are those of all aggregations, each once; and the series of each
aggregation at the position of a row ends in the value that belongs to the shown labels. -/
structure TimeSeriesData.RowsAlign (d : TimeSeriesData V) : Prop where
  layout : ∀ s ∈ d.firstSeries, s.labels.length = d.groupNames.length
  /-- A name that two columns share has one value. -/
  consistent : ∀ s ∈ d.firstSeries, ∀ l ∈ d.shownLabels s,
    labelNamed (d.shownLabels s) l.name = some l.value
  once : d.firstSeries.Pairwise fun s s' => ¬ SameLabels (d.shownLabels s) (d.shownLabels s')
  occurs : ∀ s ∈ d.firstSeries, d.HasLabels (d.shownLabels s)
  all : ∀ agg ∈ d.aggregations, ∀ s' ∈ agg.series,
    ∃ s ∈ d.firstSeries, SameLabels (d.shownLabels s) s'.labels
  values : ∀ (i : Nat) (s : TimeSeries V), d.firstSeries[i]? = some s →
    ∀ agg ∈ d.aggregations, agg.CellFor (d.shownLabels s) (lastCell agg.series[i]?)

/-! ## Rows -/

theorem writeCells_eq : ∀ {cells row : List (Cell V)} {start : Nat}, start ≤ row.length →
    writeCells row start cells =
      if start + cells.length ≤ row.length then
        some (row.take start ++ cells ++ row.drop (start + cells.length))
      else none := by
  intro cells
  induction cells with
  | nil =>
    intro row start hstart
    rw [writeCells, if_pos (by simpa using hstart)]
    simp
  | cons cell cells ih =>
    intro row start hstart
    rw [writeCells]
    by_cases hlt : start < row.length
    · rw [if_pos hlt, ih (by rw [List.length_set]; exact hlt)]
      have hlen : start + 1 + cells.length = start + (cell :: cells).length := by
        rw [List.length_cons]
        omega
      have htake : (row.set start cell).take (start + 1) = row.take start ++ [cell] := by
        rw [List.take_add_one, List.getElem?_set_self hlt, List.take_set_of_le (Nat.le_refl start)]
        rfl
      rw [List.length_set, hlen, htake, List.drop_set_of_lt (by rw [List.length_cons]; omega)]
      simp
    · rw [if_neg hlt, if_neg (by rw [List.length_cons]; omega)]

variable {s : TimeSeries V}

/-- A row is there exactly when the labels and the aggregations fit into the columns; what is left
of the columns stays empty. -/
theorem scalarRow_eq_some_iff {columnCount : Nat} {aggregations : List (AggregationBucket V)}
    (hne : aggregations ≠ []) {i : Nat} {row : List (Cell V)} :
    scalarRow columnCount aggregations i s = some row ↔
      s.labels.length + aggregations.length ≤ columnCount ∧
        row = s.labels.map (fun l => .label l.value none) ++
          aggregations.map (fun agg => lastCell agg.series[i]?) ++
          List.replicate (columnCount - (s.labels.length + aggregations.length)) .null := by
  have hpos := List.length_pos_of_ne_nil hne
  rw [scalarRow, writeCells_eq (Nat.zero_le _)]
  simp only [List.length_map, List.length_replicate, Nat.zero_add]
  by_cases hlabels : s.labels.length ≤ columnCount
  · rw [if_pos hlabels]
    simp only [Option.bind_eq_bind, Option.bind_some, List.take_zero, List.nil_append,
      List.drop_replicate]
    rw [writeCells_eq (by simp), List.length_append, List.length_map, List.length_replicate,
      List.length_map, Nat.add_sub_cancel' hlabels]
    have hstart : s.labels.length = (s.labels.map fun l =>
        (Cell.label l.value none : Cell V)).length := (List.length_map _).symm
    by_cases hfits : s.labels.length + aggregations.length ≤ columnCount
    · rw [if_pos hfits, Option.some.injEq, eq_comm, and_iff_right hfits,
        List.take_left' (List.length_map _), List.drop_append, List.length_map, List.drop_replicate]
      have hbehind : (s.labels.map fun l => (Cell.label l.value none : Cell V)).drop
          (s.labels.length + aggregations.length) = [] :=
        List.drop_eq_nil_of_le (by rw [List.length_map]; omega)
      have hleft : columnCount - s.labels.length - (s.labels.length + aggregations.length -
          s.labels.length) = columnCount - (s.labels.length + aggregations.length) := by omega
      rw [hbehind, List.nil_append, hleft]
    · rw [if_neg hfits]
      simp [hfits]
  · rw [if_neg hlabels]
    have hfits : ¬ s.labels.length + aggregations.length ≤ columnCount := by omega
    simp [hfits]

theorem mapM_id_eq_some {A : Type} : ∀ {l : List (Option A)} {xs : List A},
    l.mapM id = some xs ↔ l = xs.map some := by
  intro l
  induction l with
  | nil =>
    intro xs
    cases xs <;> simp
  | cons o l ih =>
    intro xs
    rw [List.mapM_cons]
    simp only [Option.bind_eq_bind, Option.pure_def, Option.bind_eq_some_iff, ih,
      Option.some.injEq, id_eq]
    constructor
    · rintro ⟨a, rfl, as, rfl, rfl⟩
      rfl
    · intro h
      cases xs with
      | nil => cases h
      | cons x xs =>
        obtain ⟨rfl, rfl⟩ := List.cons.inj h
        exact ⟨x, rfl, xs, rfl, rfl⟩

/-- A table comes out exactly when every series of the first aggregation has a row. -/
theorem convert_eq_some_iff {d : TimeSeriesData V} {queryName : String} {sd : ScalarData V} :
    convertTimeSeriesDataToScalar d queryName = some sd ↔
      sd.queryName = queryName ∧
        sd.columns = d.groupNames.map (groupColumn queryName) ++
          d.aggregations.map (aggregationColumn queryName) ∧
        sd.data.length = d.firstSeries.length ∧
        ∀ (i : Nat) (s : TimeSeries V), d.firstSeries[i]? = some s → ∃ row, sd.data[i]? = some row ∧
          scalarRow (d.groupNames.length + d.aggregations.length) d.aggregations i s = some row := by
  rw [convertTimeSeriesDataToScalar]
  simp only [Option.bind_eq_bind, Option.pure_def, Option.bind_eq_some_iff, mapM_id_eq_some,
    Option.some.injEq, List.length_append, List.length_map]
  constructor
  · rintro ⟨data, hdata, rfl⟩
    have hlen := congrArg List.length hdata
    rw [List.length_mapIdx, List.length_map] at hlen
    refine ⟨rfl, rfl, hlen.symm, fun i s hs => ?_⟩
    have hi := congrArg (fun l => l[i]?) hdata
    simp only [List.getElem?_mapIdx, hs, Option.map_some, List.getElem?_map] at hi
    obtain ⟨row, hrow, hsome⟩ := Option.map_eq_some_iff.1 hi.symm
    exact ⟨row, hrow, hsome.symm⟩
  · rintro ⟨rfl, hcolumns, hlen, hrows⟩
    refine ⟨sd.data, ?_, by rw [← hcolumns]⟩
    apply List.ext_getElem?
    intro i
    rw [List.getElem?_mapIdx, List.getElem?_map]
    cases hs : d.firstSeries[i]? with
    | none =>
      rw [List.getElem?_eq_none_iff] at hs
      rw [List.getElem?_eq_none (by omega)]
      rfl
    | some s =>
      obtain ⟨row, hrow, hsome⟩ := hrows i s hs
      rw [hrow, Option.map_some, Option.map_some, hsome]

/-! ## Label sets -/

variable {labels : List Label}

theorem labelNamed_some {name : String} {value : LabelValue}
    (h : labelNamed labels name = some value) : (⟨name, value⟩ : Label) ∈ labels := by
  obtain ⟨l, hfind, rfl⟩ := Option.map_eq_some_iff.1 h
  obtain rfl : l.name = name := by simpa using List.find?_some hfind
  exact List.mem_reverse.1 (List.mem_of_find?_eq_some hfind)

theorem labelNamed_none_iff {name : String} :
    labelNamed labels name = none ↔ ∀ l ∈ labels, l.name ≠ name := by
  simp [labelNamed]

theorem SameLabels.symm {labels labels' : List Label} (h : SameLabels labels labels') :
    SameLabels labels' labels := fun name => (h name).symm

theorem SameLabels.trans {a b c : List Label} (h : SameLabels a b) (h' : SameLabels b c) :
    SameLabels a c := fun name => (h name).trans (h' name)

theorem AggregationBucket.CellFor.congr {agg : AggregationBucket V} {labels labels' : List Label}
    {cell : Cell V} (h : agg.CellFor labels cell) (hsame : SameLabels labels labels') :
    agg.CellFor labels' cell := by
  rcases h with ⟨s, hs, hlabels, hcell⟩ | ⟨hnone, hcell⟩
  · exact .inl ⟨s, hs, hlabels.trans hsame, hcell⟩
  · exact .inr ⟨fun s hs hlabels => hnone s hs (hlabels.trans hsame.symm), hcell⟩

theorem AggregationBucket.CellFor.ne_null {agg : AggregationBucket V} {cell : Cell V}
    (h : agg.CellFor labels cell) : cell ≠ .null := by
  rcases h with ⟨s, -, -, rfl⟩ | ⟨-, rfl⟩
  · rw [lastCell]
    split <;> simp [notAvailable]
  · simp [notAvailable]

/-- The label values under the names of columns are those of a label set. -/
theorem labelCells_eq_iff (queryName : String) (g : List Label) :
    ∀ {names : List String} {labels : List Label}, labels.length = names.length →
      (labels.map (fun l => (Cell.label l.value none : Cell V)) =
        (names.map (groupColumn queryName)).map (groupCell g) ↔
        ∀ l ∈ List.zipWith (fun name (l : Label) => (⟨name, l.value⟩ : Label)) names labels,
          labelNamed g l.name = some l.value) := by
  intro names
  induction names with
  | nil =>
    intro labels hlen
    obtain rfl := List.length_eq_zero_iff.1 hlen
    simp
  | cons name names ih =>
    intro labels hlen
    cases labels with
    | nil => cases hlen
    | cons l labels =>
      have hcell : (Cell.label l.value none : Cell V) = groupCell g (groupColumn queryName name) ↔
          labelNamed g name = some l.value := by
        rw [groupCell, groupColumn]
        cases labelNamed g name <;> simp [eq_comm]
      rw [List.map_cons, List.map_cons, List.map_cons, List.cons.injEq, hcell,
        ih (Nat.succ.inj hlen), List.zipWith_cons_cons, List.forall_mem_cons]

variable {d : TimeSeriesData V} {queryName : String}

theorem map_name_shownLabels (hlen : s.labels.length = d.groupNames.length) :
    (d.shownLabels s).map Label.name = d.groupNames := by
  rw [TimeSeriesData.shownLabels, List.map_zipWith]
  apply List.ext_getElem
  · rw [List.length_zipWith, hlen, Nat.min_self]
  · intro i hi hi'
    rw [List.getElem_zipWith]

/-- A label set with the shown values and no other name is the shown one. -/
theorem sameLabels_shownLabels {g : List Label} (hlen : s.labels.length = d.groupNames.length)
    (hvalues : ∀ l ∈ d.shownLabels s, labelNamed g l.name = some l.value)
    (hnames : ∀ l ∈ g, l.name ∈ d.groupNames) : SameLabels (d.shownLabels s) g := by
  intro name
  cases hname : labelNamed (d.shownLabels s) name with
  | some value => exact (hvalues _ (labelNamed_some hname)).symm
  | none =>
    rw [labelNamed_none_iff] at hname
    refine (labelNamed_none_iff.2 fun l hl hlname => ?_).symm
    have hmem := hnames l hl
    rw [← map_name_shownLabels hlen] at hmem
    obtain ⟨l', hl', heq⟩ := List.mem_map.1 hmem
    exact hname l' hl' (heq.trans hlname)

/-! ## The table -/

theorem aggregations_ne_nil (hs : s ∈ d.firstSeries) : d.aggregations ≠ [] := by
  intro hnil
  rw [TimeSeriesData.firstSeries, hnil] at hs
  cases hs

theorem forall₂_getElem? {A B : Type} {R : A → B → Prop} {as : List A} {bs : List B}
    (h : List.Forall₂ R as bs) :
    ∀ {i : Nat} {b : B}, bs[i]? = some b → ∃ a, as[i]? = some a ∧ R a b := by
  induction h with
  | nil =>
    intro i b hb
    cases hb
  | @cons a b as bs hab _ ih =>
    intro i b' hb
    cases i with
    | zero =>
      obtain rfl := Option.some.inj hb
      exact ⟨a, rfl, hab⟩
    | succ i => exact ih hb

/-- What the row of a series says about the label set that it is there for. -/
theorem TimeSeriesData.ShownBy.row {sd : ScalarData V} {groupColumns : List ColumnDescriptor}
    {groups : List (List Label)} (hshown : d.ShownBy sd groupColumns groups)
    (hsd : convertTimeSeriesDataToScalar d queryName = some sd) {i : Nat}
    (hs : d.firstSeries[i]? = some s) :
    ∃ labels, groups[i]? = some labels ∧ s.labels.length = d.groupNames.length ∧
      (∀ l ∈ d.shownLabels s, labelNamed labels l.name = some l.value) ∧
      SameLabels (d.shownLabels s) labels ∧
      ∀ agg ∈ d.aggregations, agg.CellFor labels (lastCell agg.series[i]?) := by
  obtain ⟨hname, hcolumns, -, hrows⟩ := convert_eq_some_iff.1 hsd
  have hne := aggregations_ne_nil (List.mem_of_getElem? hs)
  have hgroup : groupColumns = d.groupNames.map (groupColumn queryName) := by
    have := hshown.columns
    rw [hcolumns, hname] at this
    exact (List.append_cancel_right this).symm
  obtain ⟨row, hrow, hscalar⟩ := hrows i s hs
  obtain ⟨labels, hlabels, cells, hcells, hall⟩ := forall₂_getElem? hshown.rows hrow
  obtain ⟨hfits, hrow⟩ := (scalarRow_eq_some_iff hne).1 hscalar
  rw [hcells, hgroup] at hrow
  have hlength := hall.length_eq
  -- an empty cell at the end would be that of an aggregation
  have hlen : s.labels.length = d.groupNames.length := by
    by_contra hlen
    have hlast := congrArg List.getLast? hrow
    have hpos := List.length_pos_of_ne_nil hne
    have hcell := List.getElem?_eq_getElem (show cells.length - 1 < cells.length by omega)
    obtain ⟨agg, -, hagg⟩ := forall₂_getElem? hall hcell
    rw [List.getLast?_append, List.getLast?_append, List.getLast?_replicate, if_neg (by omega),
      List.getLast?_eq_getElem?, hcell] at hlast
    exact hagg.ne_null (Option.some.inj hlast)
  rw [hlen, Nat.sub_self, List.replicate_zero, List.append_nil] at hrow
  obtain ⟨hlabelCells, rfl⟩ := List.append_inj hrow (by simp [hlen])
  have hvalues := (labelCells_eq_iff queryName labels hlen).1 hlabelCells.symm
  have hnames : ∀ l ∈ labels, l.name ∈ d.groupNames := by
    intro l hl
    obtain ⟨column, hcolumn, hl⟩ := hshown.named labels (List.mem_of_getElem? hlabels) l hl
    rw [hgroup] at hcolumn
    obtain ⟨name, hname, rfl⟩ := List.mem_map.1 hcolumn
    rwa [← hl]
  refine ⟨labels, hlabels, hlen, hvalues, sameLabels_shownLabels hlen hvalues hnames, ?_⟩
  intro agg hagg
  rw [List.forall₂_map_right_iff, List.forall₂_same] at hall
  exact hall agg hagg

/-- A table that shows the time series was made of aligned series. -/
theorem TimeSeriesData.ScalarRowsRight.rowsAlign (h : d.ScalarRowsRight queryName) :
    d.RowsAlign := by
  obtain ⟨sd, hsd, -, groupColumns, groups, hshown⟩ := h
  have hlength : groups.length = d.firstSeries.length := by
    rw [hshown.rows.length_eq, (convert_eq_some_iff.1 hsd).2.2.1]
  refine ⟨fun s hs => ?_, fun s hs l hl => ?_, ?_, fun s hs => ?_, fun agg hagg s' hs' => ?_,
    fun i s hs agg hagg => ?_⟩
  · obtain ⟨i, hi⟩ := List.getElem?_of_mem hs
    obtain ⟨labels, -, hlen, -⟩ := hshown.row hsd hi
    exact hlen
  · obtain ⟨i, hi⟩ := List.getElem?_of_mem hs
    obtain ⟨labels, -, -, hvalues, hsame, -⟩ := hshown.row hsd hi
    rw [hsame l.name, hvalues l hl]
  · rw [List.pairwise_iff_getElem]
    intro i j hi hj hij hsame
    obtain ⟨labels, hlabels, -, -, hi', -⟩ := hshown.row hsd (List.getElem?_eq_getElem hi)
    obtain ⟨labels', hlabels', -, -, hj', -⟩ := hshown.row hsd (List.getElem?_eq_getElem hj)
    obtain ⟨hi, rfl⟩ := List.getElem?_eq_some_iff.1 hlabels
    obtain ⟨hj, rfl⟩ := List.getElem?_eq_some_iff.1 hlabels'
    exact List.pairwise_iff_getElem.1 hshown.once i j hi hj hij
      ((hi'.symm.trans hsame).trans hj')
  · obtain ⟨i, hi⟩ := List.getElem?_of_mem hs
    obtain ⟨labels, hlabels, -, -, hsame, -⟩ := hshown.row hsd hi
    obtain ⟨agg, hagg, s', hs', hs'labels⟩ := hshown.occurs labels (List.mem_of_getElem? hlabels)
    exact ⟨agg, hagg, s', hs', hs'labels.trans hsame.symm⟩
  · obtain ⟨labels, hmem, hlabels⟩ := hshown.all agg hagg s' hs'
    obtain ⟨i, hi, rfl⟩ := List.getElem_of_mem hmem
    obtain ⟨labels', hlabels', -, -, hsame, -⟩ :=
      hshown.row hsd (List.getElem?_eq_getElem (hlength ▸ hi))
    rw [List.getElem?_eq_getElem hi, Option.some.injEq] at hlabels'
    subst hlabels'
    exact ⟨_, List.getElem_mem (hlength ▸ hi), hsame.trans hlabels⟩
  · obtain ⟨labels, -, -, -, hsame, hcells⟩ := hshown.row hsd hs
    exact (hcells agg hagg).congr hsame.symm

/-- Aligned series make a table that shows them. -/
theorem TimeSeriesData.RowsAlign.scalarRowsRight (h : d.RowsAlign) (queryName : String) :
    d.ScalarRowsRight queryName := by
  let row : Nat → TimeSeries V → List (Cell V) := fun i s =>
    s.labels.map (fun l => .label l.value none) ++
      d.aggregations.map fun agg => lastCell agg.series[i]?
  let sd : ScalarData V := ⟨queryName, d.groupNames.map (groupColumn queryName) ++
    d.aggregations.map (aggregationColumn queryName), d.firstSeries.mapIdx row⟩
  refine ⟨sd, convert_eq_some_iff.2 ⟨rfl, rfl, List.length_mapIdx, fun i s hs => ?_⟩, rfl,
    d.groupNames.map (groupColumn queryName), d.firstSeries.map d.shownLabels, rfl, ?_, ?_, ?_,
    ?_, ?_, ?_⟩
  · have hmem := List.mem_of_getElem? hs
    refine ⟨row i s, by rw [List.getElem?_mapIdx, hs, Option.map_some],
      (scalarRow_eq_some_iff (aggregations_ne_nil hmem)).2 ⟨?_, ?_⟩⟩
    · rw [h.layout s hmem]
    · rw [h.layout s hmem, Nat.sub_self, List.replicate_zero, List.append_nil]
  · intro column hcolumn
    obtain ⟨name, -, rfl⟩ := List.mem_map.1 hcolumn
    rfl
  · intro labels hlabels l hl
    obtain ⟨s, hs, rfl⟩ := List.mem_map.1 hlabels
    have hname := List.mem_map_of_mem (f := Label.name) hl
    rw [map_name_shownLabels (h.layout s hs)] at hname
    exact ⟨_, List.mem_map_of_mem hname, rfl⟩
  · rw [List.forall₂_iff_get]
    refine ⟨by rw [List.length_map, List.length_mapIdx], fun i hi hi' => ?_⟩
    rw [List.length_map] at hi
    have hs := List.getElem?_eq_getElem hi
    have hmem := List.getElem_mem hi
    rw [List.get_eq_getElem, List.get_eq_getElem, List.getElem_map, List.getElem_mapIdx]
    refine ⟨_, congrArg (· ++ _) ((labelCells_eq_iff queryName _ (h.layout _ hmem)).2
      (h.consistent _ hmem)), ?_⟩
    rw [List.forall₂_map_right_iff, List.forall₂_same]
    exact h.values i _ hs
  · rw [List.pairwise_map]
    exact h.once
  · intro labels hlabels
    obtain ⟨s, hs, rfl⟩ := List.mem_map.1 hlabels
    exact h.occurs s hs
  · intro agg hagg s' hs'
    obtain ⟨s, hs, hsame⟩ := h.all agg hagg s' hs'
    exact ⟨_, List.mem_map_of_mem hs, hsame⟩

/-- The table shows the time series exactly when these are aligned. -/
theorem convertTimeSeriesDataToScalar_right_iff (d : TimeSeriesData V) (queryName : String) :
    d.ScalarRowsRight queryName ↔ d.RowsAlign :=
  ⟨TimeSeriesData.ScalarRowsRight.rowsAlign, fun h => h.scalarRowsRight queryName⟩

end

/-! ## Two services -/

/-- The requests and the errors of two services, each aggregation with its largest value first. -/
def requestsAndErrors : TimeSeriesData (Option Rat) where
  queryName := "A"
  aggregations := [
    ⟨0, "requests", "", [⟨[⟨"service", .str "cart"⟩], [⟨60000, some 9, false⟩]⟩,
      ⟨[⟨"service", .str "mail"⟩], [⟨60000, some 4, false⟩]⟩]⟩,
    ⟨1, "errors", "", [⟨[⟨"service", .str "mail"⟩], [⟨60000, some 3, false⟩]⟩,
      ⟨[⟨"service", .str "cart"⟩], [⟨60000, some 1, false⟩]⟩]⟩]

/-- The row of the cart has the errors of the mail. -/
theorem requestsAndErrors_mixed : ¬ requestsAndErrors.ScalarRowsRight "A" := by
  intro h
  have hcell := h.rowsAlign.values 0 _ rfl _ (List.mem_cons_of_mem _ (List.mem_singleton_self _))
  rcases hcell with ⟨s, hs, hlabels, hcell⟩ | ⟨hnone, -⟩
  · rcases List.mem_cons.1 hs with rfl | hs
    · have := hlabels "service"
      revert this
      decide
    · obtain rfl := List.mem_singleton.1 hs
      revert hcell
      decide
  · exact hnone _ (List.mem_cons_of_mem _ (List.mem_singleton_self _)) fun name => rfl

end Signoz.Querier
