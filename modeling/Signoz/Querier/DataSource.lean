import Signoz.Querier.BucketContents
import Signoz.Querier.ExecuteWithCache

/-!
# A window-local data source

What plain execution returns: a `DataSource` has samples for each aggregation index and series key,
and a query over a window returns, for each step interval that meets the window and holds samples in
it, one point computed from the samples in the common part (`DataSource.points`), flagged as
`readAsTimeSeries` flags it.

A piece of a window that is cut on the grid gives the same points as the window, for the intervals
it meets (`mem_points_of_piece`), and a complete interval gives the same point in every window that
contains it (`mem_points_of_full`).
-/

namespace Signoz.Querier

open Lib.Grid

section DataSource

variable {S V : Type}

/-- Timestamped samples for each aggregation index and series key, and what a group of them
aggregates to. -/
structure DataSource (S V : Type) where
  samples : Nat → String → List (Nat × S)
  aggregate : Nat → String → List (Nat × S) → V

/-- The value over `[lo, hi)`: the samples in it aggregated, nothing when there are none. -/
def DataSource.value (src : DataSource S V) (i : Nat) (k : String) (lo hi : Nat) : Option V :=
  match (src.samples i k).filter fun s => decide (lo ≤ s.1) && decide (s.1 < hi) with
  | [] => none
  | s :: ss => some (src.aggregate i k (s :: ss))

/-- The step intervals that meet a window, by their start. -/
def gridTimes (stepMs : Nat) (w : TimeRange) : List Nat :=
  ((List.range (w.toMs / stepMs + 1)).map fun n => n * stepMs).filter fun t =>
    decide (w.fromMs < t + stepMs) && decide (t < w.toMs)

/-- The points plain execution returns for one aggregation index and series key. -/
def DataSource.points (src : DataSource S V) (stepMs : Nat) (w : TimeRange) (i : Nat) (k : String) :
    List (TimeSeriesValue V) :=
  (gridTimes stepMs w).filterMap fun t =>
    (src.value i k (max t w.fromMs) (min (t + stepMs) w.toMs)).map fun v =>
      ⟨(t : Int), v, isPartialValue w stepMs t⟩

/-- `r` is a time series result with exactly the points of plain execution on `w`. -/
def DataSource.IsResultOf (src : DataSource S V) (stepMs : Nat) (w : TimeRange) (r : Result V) :
    Prop :=
  r.type = .timeSeries ∧ ∃ d, r.value = .timeSeries d ∧
    ∀ i k, (d.points i k).Perm (src.points stepMs w i k)

variable {src : DataSource S V} {stepMs : Nat} {i : Nat} {k : String}

/-- A larger interval holds the samples of a smaller one. -/
theorem DataSource.value_mono {lo hi lo' hi' : Nat} {v : V}
    (h : src.value i k lo hi = some v) (hlo : lo' ≤ lo) (hhi : hi ≤ hi') :
    ∃ v', src.value i k lo' hi' = some v' := by
  unfold DataSource.value at h ⊢
  cases hs : (src.samples i k).filter fun s => decide (lo ≤ s.1) && decide (s.1 < hi) with
  | nil => simp [hs] at h
  | cons s ss =>
    have hmem : s ∈ (src.samples i k).filter fun s => decide (lo' ≤ s.1) && decide (s.1 < hi') := by
      have hs' : s ∈ (src.samples i k).filter fun s => decide (lo ≤ s.1) && decide (s.1 < hi) :=
        hs ▸ List.mem_cons_self
      simp only [List.mem_filter, Bool.and_eq_true, decide_eq_true_eq] at hs' ⊢
      exact ⟨hs'.1, by omega⟩
    cases hl : (src.samples i k).filter fun s => decide (lo' ≤ s.1) && decide (s.1 < hi') with
    | nil => rw [hl] at hmem; exact absurd hmem List.not_mem_nil
    | cons s' ss' => exact ⟨_, rfl⟩

variable {w : TimeRange} {t : Nat}

theorem mem_gridTimes (hs : 0 < stepMs) :
    t ∈ gridTimes stepMs w ↔ stepMs ∣ t ∧ w.fromMs < t + stepMs ∧ t < w.toMs := by
  simp only [gridTimes, List.mem_filter, List.mem_map, List.mem_range, Bool.and_eq_true,
    decide_eq_true_eq]
  constructor
  · rintro ⟨⟨n, -, rfl⟩, h⟩
    exact ⟨Nat.dvd_mul_left _ _, h⟩
  · rintro ⟨⟨n, rfl⟩, h, h'⟩
    refine ⟨⟨n, Nat.lt_succ_of_le ?_, Nat.mul_comm _ _⟩, h, h'⟩
    exact (Nat.le_div_iff_mul_le hs).2 (by rw [Nat.mul_comm]; exact h'.le)

theorem nodup_gridTimes (hs : 0 < stepMs) (w : TimeRange) : (gridTimes stepMs w).Nodup := by
  refine (List.Nodup.map ?_ List.nodup_range).filter _
  exact fun a b h => Nat.eq_of_mul_eq_mul_right hs h

variable {p : TimeSeriesValue V}

theorem DataSource.mem_points (hs : 0 < stepMs) :
    p ∈ src.points stepMs w i k ↔ ∃ (t : Nat) (v : V), stepMs ∣ t ∧ w.fromMs < t + stepMs ∧
      t < w.toMs ∧ src.value i k (max t w.fromMs) (min (t + stepMs) w.toMs) = some v ∧
      p = ⟨(t : Int), v, isPartialValue w stepMs t⟩ := by
  simp only [DataSource.points, List.mem_filterMap, mem_gridTimes hs, Option.map_eq_some_iff]
  constructor
  · rintro ⟨t, ⟨h1, h2, h3⟩, v, hv, rfl⟩
    exact ⟨t, v, h1, h2, h3, hv, rfl⟩
  · rintro ⟨t, v, h1, h2, h3, hv, rfl⟩
    exact ⟨t, ⟨h1, h2, h3⟩, v, hv, rfl⟩

theorem DataSource.nodup_timestamps (hs : 0 < stepMs) (w : TimeRange) :
    ((src.points stepMs w i k).map TimeSeriesValue.timestamp).Nodup := by
  rw [DataSource.points, List.map_filterMap]
  refine List.Nodup.filterMap ?_ (nodup_gridTimes hs w)
  intro a b t ha hb
  simp only [Option.mem_def, Option.map_map, Option.map_eq_some_iff, Function.comp] at ha hb
  obtain ⟨-, -, rfl⟩ := ha
  obtain ⟨-, -, h⟩ := hb
  exact (Nat.cast_inj.1 h).symm

/-! ## Pieces and complete intervals -/

/-- `r` is a part of the window `w` cut on the grid. -/
structure Piece (stepMs : Nat) (w r : TimeRange) : Prop where
  le_from : w.fromMs ≤ r.fromMs
  nonempty : r.fromMs < r.toMs
  to_le : r.toMs ≤ w.toMs
  from_on_grid : r.fromMs = w.fromMs ∨ stepMs ∣ r.fromMs
  to_on_grid : r.toMs = w.toMs ∨ stepMs ∣ r.toMs

/-- An interval that meets a piece has the same part in the piece as in the window. -/
theorem Piece.cut_eq {w r : TimeRange} (h : Piece stepMs w r) (ht : stepMs ∣ t)
    (hlo : r.fromMs < t + stepMs) (hhi : t < r.toMs) :
    max t r.fromMs = max t w.fromMs ∧ min (t + stepMs) r.toMs = min (t + stepMs) w.toMs := by
  have h1 := h.le_from
  have h2 := h.to_le
  constructor
  · rcases h.from_on_grid with he | hd
    · rw [he]
    · have hle : r.fromMs ≤ t := by
        by_contra hlt
        have := add_le_of_dvd_of_lt ht hd (by omega)
        omega
      omega
  · rcases h.to_on_grid with he | hd
    · rw [he]
    · have := add_le_of_dvd_of_lt ht hd hhi
      omega

theorem Piece.isPartialValue_eq (hs : 0 < stepMs) {w r : TimeRange} (h : Piece stepMs w r)
    (hw : w.toMs < 2 ^ 64) (ht : stepMs ∣ t) (hlo : r.fromMs < t + stepMs) (hhi : t < r.toMs) :
   isPartialValue r stepMs t = isPartialValue w stepMs t := by
  obtain ⟨hmax, hmin⟩ := h.cut_eq ht hlo hhi
  have h1 := h.le_from
  have h2 := h.to_le
  refine Bool.eq_iff_iff.2 (not_iff_not.1 ?_)
  simp only [Bool.not_eq_true, isPartialValue_eq_false_iff hs,
    uint64_natCast (show t < 2 ^ 64 by omega), gridCeil_le_iff hs ht]
  have hto : (t + stepMs ≤ r.toMs ∨ stepMs ∣ r.toMs) ↔ (t + stepMs ≤ w.toMs ∨ stepMs ∣ w.toMs) := by
    have hr : stepMs ∣ r.toMs → t + stepMs ≤ r.toMs := fun hd => add_le_of_dvd_of_lt ht hd hhi
    have hw : stepMs ∣ w.toMs → t + stepMs ≤ w.toMs :=
      fun hd => add_le_of_dvd_of_lt ht hd (by omega)
    constructor
    · rintro (hle | hd)
      · exact Or.inl (by omega)
      · exact Or.inl ((hr hd).trans h2)
    · rintro (hle | hd)
      · exact Or.inl (by omega)
      · have := hw hd
        exact Or.inl (by omega)
  rw [hto]
  exact and_congr_left fun _ => by omega

/-- A piece of a window returns the points of the window for the intervals it meets. -/
theorem mem_points_of_piece (hs : 0 < stepMs) {w r : TimeRange} (h : Piece stepMs w r)
    (hw : w.toMs < 2 ^ 64) :
    p ∈ src.points stepMs r i k ↔ p ∈ src.points stepMs w i k ∧
      ∃ t : Nat, p.timestamp = t ∧ r.fromMs < t + stepMs ∧ t < r.toMs := by
  have h1 := h.le_from
  have h2 := h.to_le
  simp only [DataSource.mem_points hs]
  constructor
  · rintro ⟨t, v, ht, hlo, hhi, hv, rfl⟩
    obtain ⟨hmax, hmin⟩ := h.cut_eq ht hlo hhi
    rw [hmax, hmin] at hv
    refine ⟨⟨t, v, ht, by omega, by omega, hv, ?_⟩, t, rfl, hlo, hhi⟩
    rw [h.isPartialValue_eq hs hw ht hlo hhi]
  · rintro ⟨⟨t, v, ht, -, -, hv, rfl⟩, t', hts, hlo, hhi⟩
    obtain rfl : t = t' := Nat.cast_inj.1 hts
    obtain ⟨hmax, hmin⟩ := h.cut_eq ht hlo hhi
    rw [← hmax, ← hmin] at hv
    refine ⟨t, v, ht, hlo, hhi, hv, ?_⟩
    rw [h.isPartialValue_eq hs hw ht hlo hhi]

/-- `p` is the point of a complete interval. -/
def DataSource.IsFull (src : DataSource S V) (stepMs : Nat) (i : Nat) (k : String)
    (p : TimeSeriesValue V) : Prop :=
  ∃ (t : Nat) (v : V), stepMs ∣ t ∧ t < 2 ^ 64 ∧ src.value i k t (t + stepMs) = some v ∧
    p = ⟨(t : Int), v, false⟩

/-- Two points of complete intervals with one timestamp are the same. -/
theorem DataSource.IsFull.eq {p q : TimeSeriesValue V} (hp : src.IsFull stepMs i k p)
    (hq : src.IsFull stepMs i k q) (h : p.timestamp = q.timestamp) : p = q := by
  obtain ⟨t, v, -, -, hv, rfl⟩ := hp
  obtain ⟨t', v', -, -, hv', rfl⟩ := hq
  obtain rfl : t = t' := Nat.cast_inj.1 h
  rw [hv] at hv'
  rw [Option.some.inj hv']

theorem isPartialValue_of_inside (hs : 0 < stepMs) (hw : w.toMs < 2 ^ 64) (ht : stepMs ∣ t)
    (hlo : w.fromMs ≤ t) (hhi : t + stepMs ≤ w.toMs) :
    isPartialValue w stepMs t = false := by
  rw [isPartialValue_eq_false_iff hs, uint64_natCast (by omega), gridCeil_le_iff hs ht]
  exact ⟨hlo, Or.inl hhi⟩

/-- The point of a complete interval is returned for every window that contains the interval. -/
theorem mem_points_of_full (hs : 0 < stepMs) (hw : w.toMs < 2 ^ 64) (hp : src.IsFull stepMs i k p)
    (hlo : (w.fromMs : Int) ≤ p.timestamp) (hhi : p.timestamp + stepMs ≤ w.toMs) :
   p ∈ src.points stepMs w i k := by
  obtain ⟨t, v, ht, -, hv, rfl⟩ := hp
  simp only at hlo hhi
  refine (DataSource.mem_points hs).2 ⟨t, v, ht, by omega, by omega, ?_, ?_⟩
  · rw [Nat.max_eq_left (by omega), Nat.min_eq_left (by omega)]
    exact hv
  · rw [isPartialValue_of_inside hs hw ht (by omega) (by omega)]

/-- A point that is not partial belongs to a complete interval inside the window. -/
theorem isFull_of_mem_points (hs : 0 < stepMs) (hw : w.toMs < 2 ^ 64)
    (hp : p ∈ src.points stepMs w i k) (hpart : p.isPartial = false) :
    src.IsFull stepMs i k p ∧ (gridCeil stepMs w.fromMs : Int) ≤ p.timestamp ∧
      p.timestamp + stepMs ≤ w.toMs := by
  obtain ⟨t, v, ht, hlo, hhi, hv, rfl⟩ := (DataSource.mem_points hs).1 hp
  simp only at hpart ⊢
  have hflag := (isPartialValue_eq_false_iff hs).1 hpart
  rw [uint64_natCast (by omega)] at hflag
  have hend : t + stepMs ≤ w.toMs := by
    rcases hflag.2 with h | h
    · exact h
    · exact add_le_of_dvd_of_lt ht h hhi
  have hle := le_gridCeil hs w.fromMs
  rw [Nat.max_eq_left (by omega), Nat.min_eq_left hend] at hv
  exact ⟨⟨t, v, ht, by omega, hv, by rw [hpart]⟩, by exact_mod_cast hflag.1, by exact_mod_cast hend⟩

end DataSource

end Signoz.Querier
