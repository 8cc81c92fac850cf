import Signoz.Lib.SplitOn
import Signoz.Querier.ReadTimeSeries

/-!
# What a row is read as

The values and labels of a row, told from its cells and not from the loop over them, and what
`readAsTimeSeries` makes of the row: its timestamp, the key of its labels, and one point for the
last value of each aggregation (`readRow_eq`). Rows that agree on the label columns have the same
key (`labelsKey_congr`), and rows have the same key when their label texts fall into the same pieces
at commas (`labelsKey_eq_iff`).
-/

namespace Signoz.Querier

open Lib.KeyedFold Lib.SplitOn

section

variable {V : Type} [Float64 V]

/-! ## What a row holds -/

/-- The cells of a row with their columns. -/
def cellsOf (columns : List Column) (row : List (Slot V)) : List (Column × Slot V) :=
  columns.zip row

/-- The number in a cell of any numeric kind. -/
def Slot.number? : Slot V → Option V
  | .float _ v => v.get?
  | .int _ v => v.get?.map Float64.ofInt
  | _ => none

/-- The switch lists the type of the cell. -/
def Slot.listed : Slot V → Bool
  | .int kind _ => kind.listed
  | _ => true

def Slot.unixMilli? : Slot V → Option Int
  | .time unixMilli => some unixMilli
  | _ => none

/-- The timestamp of a row: that of its last time, or the epoch. -/
def rowTimestamp (cells : List (Column × Slot V)) : Int :=
  ((cells.filterMap fun c => c.2.unixMilli?).getLast?).getD 0

/-- The numbers in listed or other cells, with the roles of their columns. -/
def roleNumbers (numericCols : Nat) (listed : Bool) (cells : List (Column × Slot V)) :
    List (NumberRole × V) :=
  (cells.filter fun c => c.2.listed = listed).filterMap fun c =>
    c.2.number?.map fun v => (numberRole numericCols c.1.name, v)

/-- The numbers that belong to aggregations. -/
def aggregated (numbers : List (NumberRole × V)) : List (Nat × V) :=
  numbers.filterMap fun p =>
    match p.1 with
    | .aggregation index => some (index, p.2)
    | _ => none

/-- The fallback values, for the first aggregation. -/
def fallbacks (numbers : List (NumberRole × V)) : List (Nat × V) :=
  numbers.filterMap fun p =>
    match p.1 with
    | .fallback => some (0, p.2)
    | _ => none

/-- The values of a row in listed cells: those of the `__result_N` columns, or where there are none
those of the fallback columns. -/
def readValues (columns : List Column) (row : List (Slot V)) : List (Nat × V) :=
  let numbers := roleNumbers (numericColsCount columns) true (cellsOf columns row)
  if (aggregated numbers).isEmpty then fallbacks numbers else aggregated numbers

/-- The values of a row in cells that are not listed. -/
def unreadValues (columns : List Column) (row : List (Slot V)) : List (Nat × V) :=
  let numbers := roleNumbers (numericColsCount columns) true (cellsOf columns row)
  let unlisted := roleNumbers (numericColsCount columns) false (cellsOf columns row)
  aggregated unlisted ++ if (aggregated numbers).isEmpty then fallbacks unlisted else []

/-- The points of the finite values of a row for one aggregation. -/
def rowPoints (queryWindow : Option TimeRange) (stepMs : Nat) (columns : List Column) (a : Nat)
    (row : List (Slot V)) : List (TimeSeriesValue V) :=
  let ts := rowTimestamp (cellsOf columns row)
  ((itemsOf a (readValues columns row ++ unreadValues columns row)).filter isFinite).map fun v =>
    ⟨ts, v, isPartialPoint queryWindow stepMs ts⟩

/-- The value of a label column in a row. A null string is the empty string. -/
inductive CellLabel (V : Type) where
  | null
  | str (s : String)
  | float (v : V)
  | int (z : Int)
deriving DecidableEq

def Slot.cellLabel : Slot V → CellLabel V
  | .string v => .str (v.get?.getD "")
  | .float _ v => v.get?.elim .null .float
  | .int _ v => v.get?.elim .null .int
  | _ => .null

/-- String columns are label columns, and numeric ones that hold neither aggregations nor the
fallback value. -/
def Column.isLabel (numericCols : Nat) (c : Column) : Bool :=
  match c.scanType with
  | .string _ => true
  | .float _ _ | .int _ _ => numberRole numericCols c.name = .label
  | _ => false

/-- The values of the label columns of a row. -/
def labelValues (columns : List Column) (row : List (Slot V)) : List (CellLabel V) :=
  ((cellsOf columns row).filter fun c => c.1.isLabel (numericColsCount columns)).map fun c =>
    c.2.cellLabel

/-- The text of a label, for cells that are listed and not null. -/
def Slot.labelText? (numericCols : Nat) (name : String) : Slot V → Option String
  | .string v => some (v.get?.getD "")
  | .float _ v =>
    if numberRole numericCols name = .label then v.get?.map Float64.text else none
  | .int kind v =>
    if kind.listed ∧ numberRole numericCols name = .label then
      v.get?.map fun z => Float64.text (Float64.ofInt z : V)
    else none
  | _ => none

/-- The texts of the labels of a row, sorted. -/
def labelTexts (columns : List Column) (row : List (Slot V)) : List String :=
  ((cellsOf columns row).filterMap fun c =>
    c.2.labelText? (numericColsCount columns) c.1.name).insertionSort (· ≤ ·)

/-! ## What one row is read as -/

/-- The points of a row for one aggregation that are kept: that of its last value. -/
def keptPoints (queryWindow : Option TimeRange) (stepMs : Nat) (columns : List Column) (a : Nat)
    (row : List (Slot V)) : List (TimeSeriesValue V) :=
  let ts := rowTimestamp (cellsOf columns row)
  if ts = 0 then []
  else
    ((itemsOf a (readValues columns row)).getLast?.toList.filter isFinite).map fun v =>
      ⟨ts, v, isPartialPoint queryWindow stepMs ts⟩

/-- What the loop over cells collects, from any state on. -/
structure Collects (numericCols : Nat) (cells : List (Column × Slot V)) (r r' : RowReading V) :
    Prop where
  ts : r'.ts = ((cells.filterMap fun c => c.2.unixMilli?).getLast?).getD r.ts
  texts : (r'.lblObjs.map fun l => l.value.text) = (r.lblObjs.map fun l => l.value.text) ++
    cells.filterMap fun c => c.2.labelText? numericCols c.1.name
  aggValues : r'.aggValues = accumulate id (fun _ v => v) r.aggValues
    (aggregated (roleNumbers numericCols true cells))
  fallback : r'.fallbackValue =
    ((fallbacks (roleNumbers numericCols true cells)).getLast?.map Prod.snd).or r.fallbackValue

theorem roleNumbers_append (numericCols : Nat) (listed : Bool) (l l' : List (Column × Slot V)) :
    roleNumbers numericCols listed (l ++ l') =
      roleNumbers numericCols listed l ++ roleNumbers numericCols listed l' := by
  simp [roleNumbers]

omit [Float64 V] in
theorem aggregated_append (l l' : List (NumberRole × V)) :
    aggregated (l ++ l') = aggregated l ++ aggregated l' := by
  simp [aggregated]

omit [Float64 V] in
theorem fallbacks_append (l l' : List (NumberRole × V)) :
    fallbacks (l ++ l') = fallbacks l ++ fallbacks l' := by
  simp [fallbacks]

variable {numericCols : Nat}

/-- Collecting from some cells and then from more. -/
theorem Collects.append {l l' : List (Column × Slot V)} {r₀ r₁ r₂ : RowReading V}
    (h : Collects numericCols l r₀ r₁) (h' : Collects numericCols l' r₁ r₂) :
   Collects numericCols (l ++ l') r₀ r₂ := by
  refine ⟨?_, ?_, ?_, ?_⟩
  · rw [h'.ts, h.ts, List.filterMap_append, List.getLast?_append]
    cases (l'.filterMap fun c => c.2.unixMilli?).getLast? <;> simp
  · rw [h'.texts, h.texts, List.filterMap_append, List.append_assoc]
  · rw [h'.aggValues, h.aggValues, roleNumbers_append, aggregated_append, accumulate, accumulate,
      accumulate, List.foldl_append]
  · rw [h'.fallback, h.fallback, roleNumbers_append, fallbacks_append, List.getLast?_append]
    cases (fallbacks (roleNumbers numericCols true l')).getLast? <;> simp

/-- A number that is read goes where the role of its column says. -/
theorem collects_addNumber {name : String} {type : ScanType} {slot : Slot V} {v : V}
    (hlisted : slot.listed = true) (hnumber : slot.number? = some v)
    (htime : slot.unixMilli? = none)
    (htext : slot.labelText? numericCols name =
      if numberRole numericCols name = .label then some (Float64.text v) else none)
    (r : RowReading V) : Collects numericCols [(⟨name, type⟩, slot)] r
      (r.addNumber (numberRole numericCols name) name v) := by
  have hroles : roleNumbers numericCols true [((⟨name, type⟩ : Column), slot)] =
      [(numberRole numericCols name, v)] := by
    simp [roleNumbers, hlisted, hnumber]
  cases hrole : numberRole numericCols name with
  | aggregation index =>
    refine ⟨by simp [htime, RowReading.addNumber], ?_, ?_, ?_⟩
    · simp [htext, hrole, RowReading.addNumber]
    · rw [hroles, hrole]
      rfl
    · simp [hroles, hrole, fallbacks, RowReading.addNumber]
  | fallback =>
    refine ⟨by simp [htime, RowReading.addNumber], ?_, ?_, ?_⟩
    · simp [htext, hrole, RowReading.addNumber]
    · rw [hroles, hrole]
      rfl
    · simp [hroles, hrole, fallbacks, RowReading.addNumber]
  | label =>
    refine ⟨by simp [htime, RowReading.addNumber], ?_, ?_, ?_⟩
    · simp [htext, hrole, RowReading.addNumber, LabelValue.text]
    · rw [hroles, hrole]
      rfl
    · simp [hroles, hrole, fallbacks, RowReading.addNumber]

/-- A cell without a number, a time or a label is passed over. -/
theorem collects_passed {cell : Column × Slot V}
    (hnumber : cell.2.listed = true → cell.2.number? = none) (htime : cell.2.unixMilli? = none)
    (htext : cell.2.labelText? numericCols cell.1.name = none) (r : RowReading V) :
    Collects numericCols [cell] r r := by
  have hroles : roleNumbers numericCols true [cell] = [] := by
    by_cases hlisted : cell.2.listed = true
    · simp [roleNumbers, hlisted, hnumber hlisted]
    · simp [roleNumbers, hlisted]
  refine ⟨by simp [htime], by simp [htext], ?_, ?_⟩
  · rw [hroles]
    rfl
  · simp [hroles, fallbacks]

/-- One cell, by the cases of the switch. -/
theorem collects_addCell (numericCols : Nat) (r : RowReading V) (cell : Column × Slot V) :
    Collects numericCols [cell] r (r.addCell numericCols cell) := by
  obtain ⟨⟨name, type⟩, slot⟩ := cell
  cases slot with
  | time unixMilli => constructor <;> simp [RowReading.addCell, roleNumbers, Slot.listed,
      Slot.number?, Slot.unixMilli?, Slot.labelText?, aggregated, fallbacks, accumulate]
  | float kind v =>
    cases hv : v.get? with
    | none =>
      simp only [RowReading.addCell, hv]
      apply collects_passed <;> simp [Slot.number?, Slot.unixMilli?, Slot.labelText?, hv]
    | some val =>
      simp only [RowReading.addCell, hv]
      apply collects_addNumber <;>
        simp [Slot.listed, Slot.number?, Slot.unixMilli?, Slot.labelText?, hv]
  | int kind v =>
    cases hv : v.get? with
    | none =>
      simp only [RowReading.addCell, hv]
      apply collects_passed <;> simp [Slot.number?, Slot.unixMilli?, Slot.labelText?, hv]
    | some val =>
      cases hkind : kind.listed with
      | true =>
        simp only [RowReading.addCell, hv, hkind, if_true]
        apply collects_addNumber <;>
          simp [Slot.listed, Slot.number?, Slot.unixMilli?, Slot.labelText?, hv, hkind]
      | false =>
        simp only [RowReading.addCell, hv, hkind, Bool.false_eq_true, if_false]
        apply collects_passed <;>
          simp [Slot.listed, Slot.unixMilli?, Slot.labelText?, hkind]
  | string v => constructor <;> simp [RowReading.addCell, roleNumbers, Slot.listed, Slot.number?,
      Slot.unixMilli?, Slot.labelText?, aggregated, fallbacks, accumulate, LabelValue.text]
  | other =>
    apply collects_passed <;> simp [Slot.number?, Slot.unixMilli?, Slot.labelText?]

theorem collects_foldl (numericCols : Nat) (cells : List (Column × Slot V)) :
    ∀ r : RowReading V, Collects numericCols cells r
      (cells.foldl (RowReading.addCell numericCols) r) := by
  induction cells with
  | nil =>
    intro r
    constructor <;> simp [roleNumbers, aggregated, fallbacks, accumulate]
  | cons cell cells ih =>
    intro r
    exact (collects_addCell numericCols r cell).append (ih (r.addCell numericCols cell))

theorem collects_readCells (columns : List Column) (row : List (Slot V)) :
    Collects (numericColsCount columns) (cellsOf columns row) .start (readCells columns row) :=
  collects_foldl _ _ _

theorem readCells_ts (columns : List Column) (row : List (Slot V)) :
    (readCells columns row).ts = rowTimestamp (cellsOf columns row) :=
  (collects_readCells columns row).ts

theorem readCells_labelsKey (columns : List Column) (row : List (Slot V)) :
    (readCells columns row).labelsKey = ",".intercalate (labelTexts columns row) := by
  rw [RowReading.labelsKey, (collects_readCells columns row).texts]
  rfl

/-- Rows have the same key exactly when their label texts fall into the same pieces. -/
theorem labelsKey_eq_iff (columns : List Column) (row row' : List (Slot V)) :
    (readCells columns row).labelsKey = (readCells columns row').labelsKey ↔
      pieces ',' (labelTexts columns row) = pieces ',' (labelTexts columns row') := by
  rw [readCells_labelsKey, readCells_labelsKey]
  exact intercalate_eq_iff ',' _ _

theorem accumulate_isEmpty {K A B : Type} [DecidableEq K] (init : A → B) (merge : B → A → B)
    (l : List (K × A)) : (accumulate init merge [] l).isEmpty = l.isEmpty := by
  cases l with
  | nil => rfl
  | cons p l =>
    have hmem := (mem_keys_accumulate init merge (p :: l) p.1 []).2
      (Or.inr (List.mem_map_of_mem List.mem_cons_self))
    cases hacc : accumulate init merge [] (p :: l) with
    | nil =>
      rw [hacc] at hmem
      cases hmem
    | cons _ _ => rfl

/-- The value of an aggregation is the last one read for it. -/
theorem itemsOf_values (columns : List Column) (row : List (Slot V)) (a : Nat) :
    itemsOf a (readCells columns row).values =
      (itemsOf a (readValues columns row)).getLast?.toList := by
  have hcollects := collects_readCells columns row
  have hempty : (readCells columns row).aggValues.isEmpty = (aggregated (roleNumbers
      (numericColsCount columns) true (cellsOf columns row))).isEmpty := by
    rw [hcollects.aggValues]
    exact accumulate_isEmpty _ _ _
  rw [RowReading.values, hempty, readValues]
  split
  · rw [hcollects.fallback]
    -- fallback values are all for the first aggregation
    have hzero : ∀ p ∈ fallbacks (roleNumbers (numericColsCount columns) true
        (cellsOf columns row)), p.1 = 0 := by
      intro p hp
      obtain ⟨n, -, hn⟩ := List.mem_filterMap.1 hp
      split at hn
      · rw [← Option.some.inj hn]
      · cases hn
    generalize fallbacks (roleNumbers (numericColsCount columns) true (cellsOf columns row)) = l
      at hzero
    have hitems : itemsOf a l = if a = 0 then l.map Prod.snd else [] := by
      rw [itemsOf]
      split
      · next ha =>
          subst ha
          rw [List.filter_eq_self.2 fun p hp => by simpa using hzero p hp]
      · next ha =>
          rw [List.filter_eq_nil_iff.2 fun p hp => by simpa [hzero p hp] using Ne.symm ha]
          rfl
    rw [hitems]
    cases hlast : l.getLast? with
    | none => simp [RowReading.start, itemsOf, List.getLast?_eq_none_iff.1 hlast]
    | some p =>
      by_cases ha : a = 0
      · simp [ha, itemsOf, List.getLast?_map, hlast]
      · simp [ha, itemsOf, Ne.symm ha]
  · have hnodup : ((readCells columns row).aggValues.map Prod.fst).Nodup := by
      rw [hcollects.aggValues]
      exact nodup_keys_accumulate _ _ _ List.nodup_nil
    rw [itemsOf_eq_lookup hnodup, hcollects.aggValues, lookup_accumulate]
    exact congrArg Option.toList (foldItems_replace_eq_getLast? _)

/-- What one row adds to the series of one key. -/
theorem readRow_eq (queryWindow : Option TimeRange) (stepMs : Nat) (columns : List Column)
    (row : List (Slot V)) (a : Nat) (k : String) :
    (itemsOf (a, k) (rowItems queryWindow stepMs columns row)).map Prod.snd =
      if (readCells columns row).labelsKey = k then keptPoints queryWindow stepMs columns a row
      else [] := by
  rw [rowItems, keptPoints, ← readCells_ts]
  by_cases hts : (readCells columns row).ts = 0
  · simp [hts, itemsOf]
  simp only [hts, if_false]
  rw [← itemsOf_values, itemsOf_map]
  split
  · next hk =>
      subst hk
      simp [itemsOf, List.filter_map, List.filter_filter, Function.comp_def, Bool.and_comm]
  · next hk =>
      simp [hk]

/-- Cells of one type with equal labels have equal texts. -/
theorem labelText?_congr {c : Column} {slot slot' : Slot V} (htype : slot.scanType = c.scanType)
    (htype' : slot'.scanType = c.scanType)
    (h : c.isLabel numericCols = true → slot.cellLabel = slot'.cellLabel) :
    slot.labelText? numericCols c.name = slot'.labelText? numericCols c.name := by
  have hsame := htype.trans htype'.symm
  rw [Column.isLabel, ← htype] at h
  cases slot with
  | time => cases slot' <;> simp [Slot.scanType, Slot.labelText?] at hsame ⊢
  | other => cases slot' <;> simp [Slot.scanType, Slot.labelText?] at hsame ⊢
  | string v =>
    cases slot' with
    | string v' => simpa [Slot.scanType, Slot.cellLabel, Slot.labelText?] using h
    | _ => simp [Slot.scanType] at hsame
  | float kind v =>
    cases slot' with
    | float kind' v' =>
      by_cases hrole : numberRole numericCols c.name = .label
      · have hlabel := h (by simpa [Slot.scanType] using hrole)
        simp only [Slot.cellLabel] at hlabel
        cases hv : v.get? <;> cases hv' : v'.get? <;>
          simp_all [Slot.labelText?]
      · simp [Slot.labelText?, hrole]
    | _ => simp [Slot.scanType] at hsame
  | int kind v =>
    cases slot' with
    | int kind' v' =>
      obtain ⟨rfl, -⟩ : kind = kind' ∧ _ := by simpa [Slot.scanType] using hsame
      by_cases hrole : numberRole numericCols c.name = .label
      · have hlabel := h (by simpa [Slot.scanType] using hrole)
        simp only [Slot.cellLabel] at hlabel
        cases hv : v.get? <;> cases hv' : v'.get? <;>
          simp_all [Slot.labelText?]
      · simp [Slot.labelText?, hrole]
    | _ => simp [Slot.scanType] at hsame

theorem labelTexts_congr : ∀ {columns : List Column}
    {row row' : List (Slot V)}, row.map Slot.scanType = columns.map Column.scanType →
      row'.map Slot.scanType = columns.map Column.scanType →
      ((columns.zip row).filter fun c => c.1.isLabel numericCols).map (fun c => c.2.cellLabel) =
        ((columns.zip row').filter fun c => c.1.isLabel numericCols).map (fun c => c.2.cellLabel) →
      (columns.zip row).filterMap (fun c => c.2.labelText? numericCols c.1.name) =
        (columns.zip row').filterMap (fun c => c.2.labelText? numericCols c.1.name) := by
  intro columns
  induction columns with
  | nil => simp
  | cons c columns ih =>
    intro row row' htyped htyped' hlabels
    cases row with
    | nil => simp at htyped
    | cons slot row =>
      cases row' with
      | nil => simp at htyped'
      | cons slot' row' =>
        obtain ⟨htype, htyped⟩ := List.cons.inj htyped
        obtain ⟨htype', htyped'⟩ := List.cons.inj htyped'
        simp only [List.zip_cons_cons] at hlabels ⊢
        have hhead : (c.isLabel numericCols = true → slot.cellLabel = slot'.cellLabel) ∧
            ((columns.zip row).filter fun c => c.1.isLabel numericCols).map
                (fun c => c.2.cellLabel) =
              ((columns.zip row').filter fun c => c.1.isLabel numericCols).map
                (fun c => c.2.cellLabel) := by
          by_cases hc : c.isLabel numericCols = true
          · simpa [List.filter_cons, hc] using hlabels
          · simpa [List.filter_cons, hc] using hlabels
        rw [List.filterMap_cons, List.filterMap_cons,
          labelText?_congr htype htype' hhead.1, ih htyped htyped' hhead.2]

/-- Rows that agree on the label columns have the same key. -/
theorem labelsKey_congr {columns : List Column} {row row' : List (Slot V)}
    (htyped : row.map Slot.scanType = columns.map Column.scanType)
    (htyped' : row'.map Slot.scanType = columns.map Column.scanType)
    (h : labelValues columns row = labelValues columns row') :
    (readCells columns row).labelsKey = (readCells columns row').labelsKey := by
  rw [readCells_labelsKey, readCells_labelsKey, labelTexts, labelTexts, cellsOf, cellsOf,
    labelTexts_congr htyped htyped' h]

end

end Signoz.Querier
