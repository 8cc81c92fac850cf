import Signoz.Lib.SplitOn
import Signoz.Querier.ScalarConversion

/-!
# Merging scalar tables

`mergeScalarData` puts the tables of several queries side by side: one row for each group, with the
columns of all aggregations. A group is the tuple of values in the group columns of all tables.

Rows are kept in a map, under the text that `%v` prints for the texts of the values of the tuple.
This text puts a blank between the values, so that the groups `a b`, `c` and `a`, `b c` have the
same key, and it does not tell a number from a string. `mergeScalarData_right_iff` says when the
result is right: no two groups may print alike, and where a table has two aggregation columns of
one index, their cells must agree, because the first one is found for both.
-/

namespace Signoz.Querier

open Lib.KeyedFold Lib.SplitOn

section

variable {V : Type}

/-! ## Group columns -/

/-- `groupMap`: the position of each group column by name, the last one of a name. -/
def ScalarData.groupMap (sd : ScalarData V) : List (String × Nat) :=
  accumulate id (fun _ i => i) [] ((sd.columns.zipIdx.filter fun p => !p.1.isAggregation).map
    fun p => (p.1.name, p.2))

def ScalarData.groupNames (sd : ScalarData V) : List String := sd.groupMap.map Prod.fst

/-- The value of a row in the group column of a name, n/a if there is none. -/
def ScalarData.groupValue (sd : ScalarData V) (row : List (Cell V)) (name : String) : Cell V :=
  ((sd.groupMap.lookup name).bind fun idx => row[idx]?).getD notAvailable

/-- The values of a row in the group columns of some names. -/
def ScalarData.tuple (sd : ScalarData V) (groupCols : List String) (row : List (Cell V)) :
    List (Cell V) := groupCols.map (sd.groupValue row)

/-- `groupColMap`: the first group column of each name. -/
def groupColMap (results : List (String × ScalarData V)) : List (String × ColumnDescriptor) :=
  accumulate id (fun col _ => col) [] (results.flatMap fun p =>
    (p.2.columns.filter fun col => !col.isAggregation).map fun col => (col.name, col))

/-- `groupCols`: the names of all group columns. -/
def groupCols (results : List (String × ScalarData V)) : List String :=
  (groupColMap results).map Prod.fst

/-- The tables in the order of the names of their queries. -/
def byQueryName (results : List (String × ScalarData V)) : List (String × ScalarData V) :=
  results.insertionSort fun a b => a.1 ≤ b.1

/-- The aggregation columns of all tables. -/
def aggregationColumns (results : List (String × ScalarData V)) : List ColumnDescriptor :=
  (byQueryName results).flatMap fun p => p.2.columns.filter ColumnDescriptor.isAggregation

/-! ## Rows -/

/-- A row of the merged table: its group values, and its cells in the aggregation columns. -/
structure MergedRow (V : Type) where
  group : List (Cell V)
  aggregations : List (Cell V)

/-- The value of a row in the first aggregation column with the index of a column. -/
def ScalarData.aggregationValue (sd : ScalarData V) (col : ColumnDescriptor)
    (row : List (Cell V)) : Option (Cell V) :=
  (sd.columns.findIdx? fun origCol =>
    origCol.isAggregation && origCol.aggregationIndex = col.aggregationIndex).bind fun i => row[i]?

/-- The cell of a column after the row of a query. -/
def updateCell (col : ColumnDescriptor) (cell : Cell V)
    (entry : (String × ScalarData V) × List (Cell V)) : Cell V :=
  if col.queryName = entry.1.1 then (entry.1.2.aggregationValue col entry.2).getD cell else cell

/-- Set the aggregation values of a row of a query. -/
def MergedRow.setAggregations (columns : List ColumnDescriptor) (merged : MergedRow V)
    (entry : (String × ScalarData V) × List (Cell V)) : MergedRow V where
  group := merged.group
  aggregations :=
    List.zipWith (fun col cell => updateCell col cell entry) columns merged.aggregations

/-- A new row: the group values of a row of a query, and no aggregation value yet. -/
def newMergedRow (results : List (String × ScalarData V))
    (entry : (String × ScalarData V) × List (Cell V)) : MergedRow V where
  group := entry.1.2.tuple (groupCols results) entry.2
  aggregations := List.replicate (aggregationColumns results).length notAvailable

variable [Float64 V]

/-- The text that `%v` prints for a cell. -/
def Cell.text (cell : Cell V) : String := cell.labelValue.text

/-- `buildKeyFromGroupCols`. -/
def buildKeyFromGroupCols (row : List (Cell V)) (groupMap : List (String × Nat))
    (groupCols : List String) : String :=
  "[" ++ " ".intercalate (groupCols.map fun colName =>
    match (groupMap.lookup colName).bind fun idx => row[idx]? with
    | some cell => cell.text
    | none => "n/a") ++ "]"

/-- The rows of all tables under their keys. -/
def keyedRows (results : List (String × ScalarData V)) :
    List (String × ((String × ScalarData V) × List (Cell V))) :=
  (byQueryName results).flatMap fun p => p.2.data.map fun row =>
    (buildKeyFromGroupCols row p.2.groupMap (groupCols results), (p, row))

/-- `rowMap`. -/
def rowMap (results : List (String × ScalarData V)) : List (String × MergedRow V) :=
  accumulate
    (fun entry => (newMergedRow results entry).setAggregations (aggregationColumns results) entry)
    (MergedRow.setAggregations (aggregationColumns results)) [] (keyedRows results)

/-- `compareValues`: n/a is the smallest, numbers are compared, and anything else is equal. -/
def compareValues (a b : Cell V) : Int :=
  match a, b with
  | .label (.str "n/a") _, .label (.str "n/a") _ => 0
  | .label (.str "n/a") _, _ => -1
  | _, .label (.str "n/a") _ => 1
  | a, b =>
    match a.toFloat64, b.toFloat64 with
    | some x, some y => if Float64.lt y x then 1 else if Float64.lt x y then -1 else 0
    | _, _ => 0

/-- `sortByFirstAggregation`: a stable sort, larger values first. -/
def sortByFirstAggregation (data : List (List (Cell V))) (columns : List ColumnDescriptor) :
    List (List (Cell V)) :=
  match columns.findIdx? ColumnDescriptor.isAggregation with
  | none => data
  | some aggIdx => data.insertionSort fun a b =>
    compareValues ((b[aggIdx]?).getD .null) ((a[aggIdx]?).getD .null) ≤ 0

/-- `mergeScalarData`, for the results in the order in which the map yields them. -/
def mergeScalarData (results : List (String × ScalarData V)) (applyDefaultSort : Bool) :
    ScalarData V :=
  let columns := (groupColMap results).map Prod.snd ++ aggregationColumns results
  let data := (rowMap results).map fun p => p.2.group ++ p.2.aggregations
  { queryName := ""
    columns := columns
    data := if applyDefaultSort then sortByFirstAggregation data columns else data }

/-! ## What the result should be -/

variable [DecidableEq V]

/-- The different groups of all tables, as the values under some names. -/
def groupTuples (results : List (String × ScalarData V)) (groupNames : List String) :
    List (List (Cell V)) :=
  (results.flatMap fun p => p.2.data.map (p.2.tuple groupNames)).dedup

/-- The cells of a table for a group: those of its row for the group, n/a if it has none. -/
def ScalarData.cellsFor (sd : ScalarData V) (groupNames : List String) (group : List (Cell V)) :
    List (Cell V) :=
  (sd.columns.zipIdx.filter fun p => p.1.isAggregation).map fun p =>
    ((sd.data.find? fun row => sd.tuple groupNames row = group).bind fun row =>
      row[p.2]?).getD notAvailable

/-- A table has a row for each group of some tables, with the cells of all of them. -/
structure ScalarData.MergesGroups (merged : ScalarData V)
    (results : List (String × ScalarData V)) (groupNames : List String) : Prop where
  names : groupNames.Nodup
  union : ∀ name, name ∈ groupNames ↔
    ∃ p ∈ results, ∃ col ∈ p.2.columns, col.isAggregation = false ∧ col.name = name
  columns : ∃ groupColumns : List ColumnDescriptor,
    merged.columns = groupColumns ++ aggregationColumns results ∧
      groupColumns.map ColumnDescriptor.name = groupNames ∧
        ∀ col ∈ groupColumns, col.isAggregation = false
  rows : merged.data.Perm ((groupTuples results groupNames).map fun group =>
    group ++ (byQueryName results).flatMap fun p => p.2.cellsFor groupNames group)

/-- The text under which the row of a group is kept. -/
def printTuple (group : List (Cell V)) : String :=
  "[" ++ " ".intercalate (group.map Cell.text) ++ "]"

/-- No two groups print alike. -/
def GroupsApart (results : List (String × ScalarData V)) : Prop :=
  ∀ group ∈ groupTuples results (groupCols results),
    ∀ group' ∈ groupTuples results (groupCols results), printTuple group = printTuple group' →
      group = group'

/-- Every row has the same cell in an aggregation column as in the first one with its index. -/
def IndexesApart (results : List (String × ScalarData V)) : Prop :=
  ∀ p ∈ results, ∀ row ∈ p.2.data, ∀ q ∈ p.2.columns.zipIdx, q.1.isAggregation = true →
    (p.2.aggregationValue q.1 row).getD notAvailable = (row[q.2]?).getD notAvailable

instance (results : List (String × ScalarData V)) : Decidable (GroupsApart results) :=
  inferInstanceAs (Decidable (∀ group ∈ groupTuples results (groupCols results), ∀ group' ∈ _,
    printTuple group = printTuple group' → group = group'))

instance (results : List (String × ScalarData V)) : Decidable (IndexesApart results) :=
  inferInstanceAs (Decidable (∀ p ∈ results, ∀ row ∈ p.2.data, ∀ q ∈ p.2.columns.zipIdx,
    q.1.isAggregation = true →
      (p.2.aggregationValue q.1 row).getD notAvailable = (row[q.2]?).getD notAvailable))

/-- The tables are well formed: each query has one table, the aggregation columns of a table carry
the name of its query, and no two rows of a table have the same group values. -/
structure WellNamed (results : List (String × ScalarData V)) : Prop where
  nodup : (results.map Prod.fst).Nodup
  queryName : ∀ p ∈ results, ∀ col ∈ p.2.columns, col.isAggregation = true → col.queryName = p.1
  groups : ∀ p ∈ results, (p.2.data.map (p.2.tuple p.2.groupNames)).Nodup

/-! ## Groups and keys -/

variable {results : List (String × ScalarData V)}

omit [DecidableEq V] in
theorem buildKeyFromGroupCols_eq (sd : ScalarData V) (row : List (Cell V)) (names : List String) :
    buildKeyFromGroupCols row sd.groupMap names = printTuple (sd.tuple names row) := by
  have htexts : ∀ name, (match (sd.groupMap.lookup name).bind fun idx => row[idx]? with
      | some cell => cell.text
      | none => "n/a") = (sd.groupValue row name).text := by
    intro name
    rw [ScalarData.groupValue]
    cases (sd.groupMap.lookup name).bind fun idx => row[idx]? <;> rfl
  simp only [buildKeyFromGroupCols, printTuple, ScalarData.tuple, List.map_map, htexts]
  rfl

variable {p : String × ScalarData V}

omit [Float64 V] [DecidableEq V] in
theorem mem_byQueryName : p ∈ byQueryName results ↔ p ∈ results :=
  (List.perm_insertionSort _ results).mem_iff

variable {name : String}

omit [Float64 V] [DecidableEq V] in
/-- An entry of the map of group columns is a group column under its name. -/
theorem name_of_mem_groupColMap {col : ColumnDescriptor} (h : (name, col) ∈ groupColMap results) :
   col.name = name ∧ col.isAggregation = false := by
  have hkeep : ∀ {cols : List ColumnDescriptor} {acc : Option ColumnDescriptor},
      foldItems id (fun col _ => col) acc cols = some col → acc = some col ∨ col ∈ cols := by
    intro cols
    induction cols with
    | nil =>
      intro acc h
      cases acc <;> exact .inl h
    | cons c cols ih =>
      intro acc h
      cases acc with
      | none =>
        rcases @ih (some c) h with hacc | hmem
        · exact .inr (Option.some.inj hacc ▸ List.mem_cons_self)
        · exact .inr (List.mem_cons_of_mem _ hmem)
      | some a =>
        rcases @ih (some a) h with hacc | hmem
        · exact .inl hacc
        · exact .inr (List.mem_cons_of_mem _ hmem)
  have hnodup : ((groupColMap results).map Prod.fst).Nodup :=
    nodup_keys_accumulate _ _ _ List.nodup_nil
  have hlookup := (mem_iff_lookup hnodup).1 h
  rw [groupColMap, lookup_accumulate, List.lookup_nil] at hlookup
  obtain hmem := (hkeep hlookup).resolve_left (by simp)
  obtain ⟨p, -, hp⟩ := List.mem_flatMap.1 (mem_itemsOf.1 hmem)
  obtain ⟨c, hc, heq⟩ := List.mem_map.1 hp
  obtain ⟨hname, rfl⟩ := Prod.mk.inj heq
  exact ⟨hname, by simpa using (List.mem_filter.1 hc).2⟩

omit [Float64 V] [DecidableEq V] in
theorem mem_groupCols : name ∈ groupCols results ↔
    ∃ p ∈ results, ∃ col ∈ p.2.columns, col.isAggregation = false ∧ col.name = name := by
  rw [groupCols, groupColMap, mem_keys_accumulate]
  simp only [List.map_nil, List.not_mem_nil, false_or, List.map_flatMap, List.map_map,
    List.mem_flatMap, List.mem_map, List.mem_filter, Function.comp_apply, Bool.not_eq_true']
  simp only [and_assoc]

omit [Float64 V] [DecidableEq V] in
theorem map_name_groupColMap : ((groupColMap results).map Prod.snd).map ColumnDescriptor.name =
    groupCols results := by
  rw [List.map_map, groupCols]
  exact List.map_congr_left fun p hp => (name_of_mem_groupColMap hp).1

omit [Float64 V] [DecidableEq V] in
/-- The names of the group columns of a table are among those of all tables. -/
theorem groupNames_subset (hp : p ∈ results) (h : name ∈ p.2.groupNames) :
   name ∈ groupCols results := by
  rw [ScalarData.groupNames, ScalarData.groupMap, mem_keys_accumulate, List.map_nil,
    List.map_map] at h
  obtain ⟨q, hq, rfl⟩ := List.mem_map.1 (h.resolve_left List.not_mem_nil)
  obtain ⟨hmem, hgroup⟩ := List.mem_filter.1 hq
  exact mem_groupCols.2 ⟨p, hp, q.1, List.fst_mem_of_mem_zipIdx hmem, by simpa using hgroup, rfl⟩

omit [Float64 V] [DecidableEq V] in
/-- Rows of one table are different groups. -/
theorem WellNamed.tuple_nodup (h : WellNamed results) (hp : p ∈ results) :
   (p.2.data.map (p.2.tuple (groupCols results))).Nodup := by
  have hown := h.groups p hp
  have hinj := List.inj_on_of_nodup_map hown
  refine List.Nodup.map_on (fun row hrow row' hrow' heq => ?_) (List.Nodup.of_map _ hown)
  refine hinj hrow hrow' (List.map_congr_left fun name hname => ?_)
  exact List.map_inj_left.1 heq name (groupNames_subset hp hname)

variable {names : List String}

omit [Float64 V] in
/-- The rows of a table for a group: at most one. -/
theorem filter_tuple_eq {sd : ScalarData V} (hnodup : (sd.data.map (sd.tuple names)).Nodup)
    (group : List (Cell V)) :
    (sd.data.filter fun row => sd.tuple names row = group) =
      (sd.data.find? fun row => sd.tuple names row = group).toList := by
  revert hnodup
  induction sd.data with
  | nil => intro _; rfl
  | cons row rows ih =>
    intro hnodup
    rw [List.map_cons, List.nodup_cons] at hnodup
    by_cases hrow : sd.tuple names row = group
    · have hrest : (rows.filter fun row => sd.tuple names row = group) = [] := by
        rw [List.filter_eq_nil_iff]
        intro row' hrow' heq
        refine hnodup.1 (List.mem_map.2 ⟨row', hrow', ?_⟩)
        rw [hrow]
        exact of_decide_eq_true heq
      rw [List.filter_cons_of_pos (by simpa using hrow), hrest,
        List.find?_cons_of_pos (by simpa using hrow)]
      rfl
    · rw [List.filter_cons_of_neg (by simpa using hrow),
        List.find?_cons_of_neg (by simpa using hrow), ih hnodup.2]

/-! ## The cells of a merged row -/

omit [Float64 V] [DecidableEq V] in
/-- The rows under one key update each cell by itself. -/
theorem foldl_setAggregations (columns : List ColumnDescriptor) (group : List (Cell V)) :
    ∀ (entries : List ((String × ScalarData V) × List (Cell V)))
      (f : ColumnDescriptor → Cell V),
      entries.foldl (MergedRow.setAggregations columns) ⟨group, columns.map f⟩ =
        ⟨group, columns.map fun col => entries.foldl (updateCell col) (f col)⟩ := by
  intro entries
  induction entries with
  | nil => intro f; rfl
  | cons entry entries ih =>
    intro f
    have hstep : MergedRow.setAggregations columns ⟨group, columns.map f⟩ entry =
        ⟨group, columns.map fun col => updateCell col (f col) entry⟩ := by
      rw [MergedRow.setAggregations, List.zipWith_map_right, List.zipWith_self]
    rw [List.foldl_cons, hstep, ih]
    rfl

omit [DecidableEq V] in
/-- The merged row of a key. -/
theorem lookup_rowMap (k : String) : (rowMap results).lookup k =
    (itemsOf k (keyedRows results)).head?.map fun entry =>
      ⟨entry.1.2.tuple (groupCols results) entry.2, (aggregationColumns results).map fun col =>
        (itemsOf k (keyedRows results)).foldl (updateCell col) notAvailable⟩ := by
  rw [rowMap, lookup_accumulate, List.lookup_nil]
  cases itemsOf k (keyedRows results) with
  | nil => rfl
  | cons entry entries =>
    have hnew : newMergedRow results entry =
        ⟨entry.1.2.tuple (groupCols results) entry.2,
          (aggregationColumns results).map fun _ => notAvailable⟩ := by
      rw [newMergedRow, List.map_const']
    rw [foldItems_none_cons, ← List.foldl_cons (f := MergedRow.setAggregations _), hnew,
      foldl_setAggregations]
    rfl

omit [Float64 V] [DecidableEq V] in
/-- Rows of other queries leave a cell alone. -/
theorem foldl_updateCell_filter (col : ColumnDescriptor) :
    ∀ (entries : List ((String × ScalarData V) × List (Cell V))) (cell : Cell V),
      entries.foldl (updateCell col) cell =
        (entries.filter fun entry => entry.1.1 = col.queryName).foldl (updateCell col) cell := by
  intro entries
  induction entries with
  | nil => intro cell; rfl
  | cons entry entries ih =>
    intro cell
    by_cases hname : entry.1.1 = col.queryName
    · rw [List.filter_cons_of_pos (by simpa using hname), List.foldl_cons, List.foldl_cons, ih]
    · have hstep : updateCell col cell entry = cell := if_neg fun h => hname h.symm
      rw [List.filter_cons_of_neg (by simpa using hname), List.foldl_cons, hstep, ih]

/-- Of lists under different names, only that of one name counts. -/
theorem flatMap_of_name {A B : Type} {l : List (String × A)} (hnodup : (l.map Prod.fst).Nodup)
    {f : String × A → List B} {p : String × A} (hp : p ∈ l)
    (h : ∀ p' ∈ l, p'.1 ≠ p.1 → f p' = []) : l.flatMap f = f p := by
  induction l with
  | nil => cases hp
  | cons q l ih =>
    rw [List.map_cons, List.nodup_cons] at hnodup
    rw [List.flatMap_cons]
    rcases List.mem_cons.1 hp with rfl | hp
    · have hrest : l.flatMap f = [] := by
        rw [List.flatMap_eq_nil_iff]
        intro p' hp'
        refine h p' (List.mem_cons_of_mem _ hp') fun heq => hnodup.1 ?_
        rw [← heq]
        exact List.mem_map_of_mem hp'
      rw [hrest, List.append_nil]
    · have hne : q.1 ≠ p.1 := by
        intro heq
        exact hnodup.1 (heq ▸ List.mem_map_of_mem hp)
      rw [h q List.mem_cons_self hne, List.nil_append,
        ih hnodup.2 hp fun p' hp' => h p' (List.mem_cons_of_mem _ hp')]

variable (hwell : WellNamed results) (hapart : GroupsApart results) {group : List (Cell V)}

omit [Float64 V] in
theorem mem_groupTuples :
    group ∈ groupTuples results names ↔
      ∃ p ∈ results, ∃ row ∈ p.2.data, p.2.tuple names row = group := by
  simp only [groupTuples, List.mem_dedup, List.mem_flatMap, List.mem_map]

include hapart in
/-- The rows of a table under the key of a group are those for the group. -/
theorem key_eq_iff (hp : p ∈ results) {row : List (Cell V)} (hrow : row ∈ p.2.data)
    (hgroup : group ∈ groupTuples results (groupCols results)) :
    buildKeyFromGroupCols row p.2.groupMap (groupCols results) = printTuple group ↔
      p.2.tuple (groupCols results) row = group := by
  rw [buildKeyFromGroupCols_eq]
  constructor
  · exact hapart _ (mem_groupTuples.2 ⟨p, hp, row, hrow, rfl⟩) group hgroup
  · rintro rfl
    rfl

include hwell hapart in
/-- The rows under the key of a group that a query has. -/
theorem itemsOf_keyedRows (hp : p ∈ results)
    (hgroup : group ∈ groupTuples results (groupCols results)) :
    ((itemsOf (printTuple group) (keyedRows results)).filter fun entry => entry.1.1 = p.1) =
      (p.2.data.find? fun row => p.2.tuple (groupCols results) row = group).toList.map
        fun row => (p, row) := by
  have hsorted : ((byQueryName results).map Prod.fst).Nodup :=
    ((List.perm_insertionSort _ results).map Prod.fst).nodup_iff.2 hwell.nodup
  have hitems : ∀ p' ∈ byQueryName results, (((p'.2.data.map fun row =>
      (buildKeyFromGroupCols row p'.2.groupMap (groupCols results), (p', row))).filter
        fun e => e.1 = printTuple group).map Prod.snd) =
      (p'.2.data.filter fun row => p'.2.tuple (groupCols results) row = group).map
        fun row => (p', row) := by
    intro p' hp'
    rw [List.filter_map, List.map_map]
    have hfilter : p'.2.data.filter ((fun e : String × ((String × ScalarData V) × List (Cell V)) =>
        decide (e.1 = printTuple group)) ∘ fun row =>
          (buildKeyFromGroupCols row p'.2.groupMap (groupCols results), (p', row))) =
        p'.2.data.filter fun row => p'.2.tuple (groupCols results) row = group := by
      refine List.filter_congr fun row hrow => ?_
      exact decide_eq_decide.2 (key_eq_iff hapart (mem_byQueryName.1 hp') hrow hgroup)
    rw [hfilter]
    rfl
  rw [itemsOf, keyedRows, List.filter_flatMap, List.map_flatMap, List.flatMap_congr hitems,
    List.filter_flatMap, flatMap_of_name hsorted (mem_byQueryName.2 hp)]
  · rw [filter_tuple_eq (hwell.tuple_nodup hp), List.filter_eq_self]
    intro entry hentry
    obtain ⟨row, -, rfl⟩ := List.mem_map.1 hentry
    exact decide_eq_true rfl
  · intro p' _ hne
    rw [List.filter_eq_nil_iff]
    intro entry hentry heq
    obtain ⟨row, -, rfl⟩ := List.mem_map.1 hentry
    exact hne (of_decide_eq_true heq)

/-- The cells that are found for a group in the aggregation columns of a table. -/
def ScalarData.foundCells (sd : ScalarData V) (names : List String) (group : List (Cell V)) :
    List (Cell V) :=
  (sd.columns.zipIdx.filter fun q => q.1.isAggregation).map fun q =>
    ((sd.data.find? fun row => sd.tuple names row = group).bind
      (sd.aggregationValue q.1)).getD notAvailable

include hwell hapart in
/-- A cell of a merged row is the one found in the row that its query has for the group. -/
theorem foldl_updateCell (hp : p ∈ results)
    (hgroup : group ∈ groupTuples results (groupCols results)) {col : ColumnDescriptor}
    (hcol : col ∈ p.2.columns) (hagg : col.isAggregation = true) :
    (itemsOf (printTuple group) (keyedRows results)).foldl (updateCell col) notAvailable =
      ((p.2.data.find? fun row => p.2.tuple (groupCols results) row = group).bind
        (p.2.aggregationValue col)).getD notAvailable := by
  have hname := hwell.queryName p hp col hcol hagg
  rw [foldl_updateCell_filter, hname, itemsOf_keyedRows hwell hapart hp hgroup]
  cases p.2.data.find? fun row => p.2.tuple (groupCols results) row = group with
  | none => rfl
  | some row => exact if_pos hname

include hwell hapart in
/-- The merged row of a group. -/
theorem lookup_rowMap_of_group (hgroup : group ∈ groupTuples results (groupCols results)) :
    (rowMap results).lookup (printTuple group) = some ⟨group, (byQueryName results).flatMap
      fun p => p.2.foundCells (groupCols results) group⟩ := by
  obtain ⟨p, hp, row, hrow, htuple⟩ := mem_groupTuples.1 hgroup
  have hmem : (p, row) ∈ itemsOf (printTuple group) (keyedRows results) :=
    mem_itemsOf.2 (List.mem_flatMap.2 ⟨p, mem_byQueryName.2 hp, List.mem_map.2
      ⟨row, hrow, by rw [(key_eq_iff hapart hp hrow hgroup).2 htuple]⟩⟩)
  cases hhead : (itemsOf (printTuple group) (keyedRows results)).head? with
  | none =>
    rw [List.head?_eq_none_iff.1 hhead] at hmem
    cases hmem
  | some entry =>
    have hentry := mem_itemsOf.1 (List.mem_of_head? hhead)
    obtain ⟨p', hp', hentry⟩ := List.mem_flatMap.1 hentry
    obtain ⟨row', hrow', heq⟩ := List.mem_map.1 hentry
    obtain ⟨hkey, rfl⟩ := Prod.mk.inj heq
    have htuple' := (key_eq_iff hapart (mem_byQueryName.1 hp') hrow' hgroup).1 hkey
    have hcells : ((aggregationColumns results).map fun col =>
        (itemsOf (printTuple group) (keyedRows results)).foldl (updateCell col) notAvailable) =
        (byQueryName results).flatMap fun p => p.2.foundCells (groupCols results) group := by
      rw [aggregationColumns, List.map_flatMap]
      refine List.flatMap_congr fun q hq => ?_
      have hcolumns : q.2.columns.filter ColumnDescriptor.isAggregation =
          (q.2.columns.zipIdx.filter fun c => c.1.isAggregation).map Prod.fst := by
        conv_lhs => rw [← List.zipIdx_map_fst 0 q.2.columns, List.filter_map]
        rfl
      rw [hcolumns, List.map_map, ScalarData.foundCells]
      refine List.map_congr_left fun c hc => ?_
      obtain ⟨hmem, hagg⟩ := List.mem_filter.1 hc
      exact foldl_updateCell hwell hapart (mem_byQueryName.1 hq) hgroup
        (List.fst_mem_of_mem_zipIdx hmem) hagg
    rw [lookup_rowMap, hhead, Option.map_some, htuple', hcells]

/-! ## All rows -/

omit [DecidableEq V] in
theorem nodup_keys_rowMap : ((rowMap results).map Prod.fst).Nodup :=
  nodup_keys_accumulate _ _ _ List.nodup_nil

/-- The keys of the rows are those of the groups. -/
theorem mem_keys_rowMap {k : String} : k ∈ (rowMap results).map Prod.fst ↔
    k ∈ (groupTuples results (groupCols results)).map printTuple := by
  rw [rowMap, mem_keys_accumulate, List.map_nil]
  simp only [List.not_mem_nil, false_or, keyedRows, List.map_flatMap, List.map_map,
    List.mem_flatMap, List.mem_map, Function.comp_apply, mem_groupTuples, mem_byQueryName,
    buildKeyFromGroupCols_eq]
  constructor
  · rintro ⟨p, hp, row, hrow, rfl⟩
    exact ⟨_, ⟨p, hp, row, hrow, rfl⟩, rfl⟩
  · rintro ⟨group, ⟨p, hp, row, hrow, rfl⟩, rfl⟩
    exact ⟨p, hp, row, hrow, rfl⟩

omit [DecidableEq V] in
theorem sortByFirstAggregation_perm (data : List (List (Cell V)))
    (columns : List ColumnDescriptor) : (sortByFirstAggregation data columns).Perm data := by
  rw [sortByFirstAggregation]
  split
  · exact List.Perm.refl _
  · exact List.perm_insertionSort _ _

omit [DecidableEq V] in
theorem mergeScalarData_data_perm (applyDefaultSort : Bool) :
    (mergeScalarData results applyDefaultSort).data.Perm
      ((rowMap results).map fun p => p.2.group ++ p.2.aggregations) := by
  cases applyDefaultSort with
  | false => exact List.Perm.refl _
  | true => exact sortByFirstAggregation_perm _ _

include hwell hapart in
/-- When no two groups print alike, there is a row for each group, with the cells that are found
for it. -/
theorem mergeScalarData_perm (applyDefaultSort : Bool) :
    (mergeScalarData results applyDefaultSort).data.Perm
      ((groupTuples results (groupCols results)).map fun group => group ++
        (byQueryName results).flatMap fun p => p.2.foundCells (groupCols results) group) := by
  have hkeys : ((rowMap results).map Prod.fst).Perm
      ((groupTuples results (groupCols results)).map printTuple) :=
    (List.perm_ext_iff_of_nodup nodup_keys_rowMap (List.Nodup.map_on
      (fun group hgroup group' hgroup' => hapart group hgroup group' hgroup')
      (List.nodup_dedup _))).2 fun k => mem_keys_rowMap
  have hrows : ((rowMap results).map fun p => p.2.group ++ p.2.aggregations) =
      ((rowMap results).map Prod.fst).map fun k =>
        (((rowMap results).lookup k).map fun m => m.group ++ m.aggregations).getD [] := by
    rw [List.map_map]
    refine List.map_congr_left fun p hp => ?_
    rw [Function.comp_apply, (mem_iff_lookup nodup_keys_rowMap).1 (show (p.1, p.2) ∈ _ from hp)]
    rfl
  refine (mergeScalarData_data_perm applyDefaultSort).trans ?_
  rw [hrows]
  refine (hkeys.map _).trans ?_
  rw [List.map_map]
  refine List.Perm.of_eq (List.map_congr_left fun group hgroup => ?_)
  rw [Function.comp_apply, lookup_rowMap_of_group hwell hapart hgroup]
  rfl

/-! ## When the result is right -/

omit [Float64 V] in
/-- Cells found by the index of their column are those of the column. -/
theorem foundCells_eq_of_indexesApart (h : IndexesApart results) (hp : p ∈ results)
    (names : List String) (group : List (Cell V)) :
    p.2.foundCells names group = p.2.cellsFor names group := by
  refine List.map_congr_left fun q hq => ?_
  obtain ⟨hmem, hagg⟩ := List.mem_filter.1 hq
  cases hfind : p.2.data.find? fun row => p.2.tuple names row = group with
  | none => rfl
  | some row => exact h p hp row (List.mem_of_find?_eq_some hfind) q hmem hagg

/-- Blocks of the same lengths that are joined to the same list are the same. -/
theorem flatMap_inj {A B : Type} {f g : A → List B} : ∀ {l : List A},
    (∀ a ∈ l, (f a).length = (g a).length) → l.flatMap f = l.flatMap g → ∀ a ∈ l, f a = g a := by
  intro l
  induction l with
  | nil => intro _ _ a ha; cases ha
  | cons a l ih =>
    intro hlen heq b hb
    rw [List.flatMap_cons, List.flatMap_cons] at heq
    obtain ⟨hhead, htail⟩ := List.append_inj heq (hlen a List.mem_cons_self)
    rcases List.mem_cons.1 hb with rfl | hb
    · exact hhead
    · exact ih (fun a ha => hlen a (List.mem_cons_of_mem _ ha)) htail b hb

/-- The names in a right result are those of the group columns. -/
theorem ScalarData.MergesGroups.names_eq {applyDefaultSort : Bool}
    (h : (mergeScalarData results applyDefaultSort).MergesGroups results names) :
    names = groupCols results := by
  obtain ⟨groupColumns, hcolumns, rfl, -⟩ := h.columns
  rw [← List.append_cancel_right (show (groupColMap results).map Prod.snd ++ _ = _ from hcolumns),
    map_name_groupColMap]

/-- With as many rows as groups, no two groups print alike. -/
theorem groupsApart_of_length
    (h : (rowMap results).length = (groupTuples results (groupCols results)).length) :
    GroupsApart results := by
  have hkeys : ((rowMap results).map Prod.fst).Nodup := nodup_keys_rowMap
  have hsubperm := hkeys.subperm fun k hk => mem_keys_rowMap.1 hk
  have hperm := hsubperm.perm_of_length_le (by rw [List.length_map, List.length_map, h])
  have hnodup := hperm.nodup_iff.1 nodup_keys_rowMap
  exact fun group hgroup group' hgroup' => List.inj_on_of_nodup_map hnodup hgroup hgroup'

/-- Merging is right exactly when no two groups print alike and columns of one index agree. -/
theorem mergeScalarData_right_iff (hwell : WellNamed results) (applyDefaultSort : Bool) :
    (∃ names, (mergeScalarData results applyDefaultSort).MergesGroups results names) ↔
      GroupsApart results ∧ IndexesApart results := by
  constructor
  · rintro ⟨names, h⟩
    obtain rfl := h.names_eq
    have hapart : GroupsApart results := by
      refine groupsApart_of_length ?_
      have hlen := ((mergeScalarData_data_perm applyDefaultSort).symm.trans h.rows).length_eq
      rwa [List.length_map, List.length_map] at hlen
    refine ⟨hapart, fun p hp row hrow q hq hagg => ?_⟩
    have hperm := (mergeScalarData_perm hwell hapart applyDefaultSort).symm.trans h.rows
    have hgroup : p.2.tuple (groupCols results) row ∈ groupTuples results (groupCols results) :=
      mem_groupTuples.2 ⟨p, hp, row, hrow, rfl⟩
    -- the row of the group begins with the group in both descriptions
    obtain ⟨group', hgroup', heq⟩ := List.mem_map.1 (hperm.mem_iff.1 (List.mem_map_of_mem hgroup))
    obtain ⟨p', -, row', -, rfl⟩ := mem_groupTuples.1 hgroup'
    obtain ⟨hsame, hcells⟩ := List.append_inj heq (by
      rw [ScalarData.tuple, ScalarData.tuple, List.length_map, List.length_map])
    rw [hsame] at hcells
    have hblock := flatMap_inj (fun a _ => by
      rw [ScalarData.cellsFor, ScalarData.foundCells, List.length_map, List.length_map]) hcells p
        (mem_byQueryName.2 hp)
    have hcell := List.map_inj_left.1 hblock q (List.mem_filter.2 ⟨hq, hagg⟩)
    have hfind : (p.2.data.find? fun row' => p.2.tuple (groupCols results) row' =
        p.2.tuple (groupCols results) row) = some row := by
      have hfilter := filter_tuple_eq (hwell.tuple_nodup hp) (p.2.tuple (groupCols results) row)
      have hmem : row ∈ (p.2.data.find? fun row' => p.2.tuple (groupCols results) row' =
          p.2.tuple (groupCols results) row).toList :=
        hfilter ▸ List.mem_filter.2 ⟨hrow, decide_eq_true rfl⟩
      exact Option.mem_toList.1 hmem
    rw [hfind] at hcell
    exact hcell.symm
  · rintro ⟨hapart, hindexes⟩
    refine ⟨groupCols results, nodup_keys_accumulate _ _ _ List.nodup_nil, fun name => mem_groupCols,
      ⟨(groupColMap results).map Prod.snd, rfl, map_name_groupColMap, fun col hcol => ?_⟩, ?_⟩
    · obtain ⟨p, hp, rfl⟩ := List.mem_map.1 hcol
      exact (name_of_mem_groupColMap (show (p.1, p.2) ∈ _ from hp)).2
    · refine (mergeScalarData_perm hwell hapart applyDefaultSort).trans (List.Perm.of_eq ?_)
      refine List.map_congr_left fun group _ => congrArg (group ++ ·) ?_
      exact List.flatMap_congr fun p hp =>
        foundCells_eq_of_indexesApart hindexes (mem_byQueryName.1 hp) _ group

end

/-! ## Two queries, and two groups -/

/-- The requests of two services, and the errors of one of them by host. -/
def requestsByService : List (String × ScalarData (Option Rat)) :=
  [("B", ⟨"B", [⟨"service", "B", 0, "", false⟩, ⟨"host", "B", 0, "", false⟩,
      ⟨"__result_0", "B", 0, "", true⟩],
      [[.label (.str "cart") none, .label (.str "h1") none, .float (some 2)]]⟩),
    ("A", ⟨"A", [⟨"service", "A", 0, "", false⟩, ⟨"__result_0", "A", 0, "", true⟩],
      [[.label (.str "cart") none, .float (some 9)],
        [.label (.str "mail") none, .float (some 4)]]⟩)]

theorem requestsByService_merged :
    ∃ names, (mergeScalarData requestsByService true).MergesGroups requestsByService names :=
  (mergeScalarData_right_iff ⟨by decide, by decide, by decide +kernel⟩ true).2
    ⟨by decide +kernel, by decide +kernel⟩

/-- Two groups of one query whose values are the same words. -/
def sameWords : List (String × ScalarData (Option Rat)) :=
  [("A", ⟨"A", [⟨"service", "A", 0, "", false⟩, ⟨"host", "A", 0, "", false⟩,
      ⟨"__result_0", "A", 0, "", true⟩],
      [[.label (.str "cart eu") none, .label (.str "h1") none, .float (some 2)],
        [.label (.str "cart") none, .label (.str "eu h1") none, .float (some 5)]]⟩)]

/-- One row comes out for the two groups. -/
theorem sameWords_lost :
    ¬ ∃ names, (mergeScalarData sameWords false).MergesGroups sameWords names := by
  rintro ⟨names, h⟩
  obtain rfl := h.names_eq
  have hlen := h.rows.length_eq
  rw [List.length_map] at hlen
  have hdata : (mergeScalarData sameWords false).data.length = 1 := by decide +kernel
  have hgroups : (groupTuples sameWords (groupCols sameWords)).length = 2 := by decide +kernel
  omega

end Signoz.Querier
