import Signoz.Querier.MissingRanges

/-!
# What is not cached, exactly

Where the first step boundary behind the start is a `uint64`, the ranges that
`findMissingRangesWithStep` returns are in order, apart, and cover exactly what no bucket contains,
but for the interval before that boundary (`exactRanges_iff`). Where it is not, the boundary wraps
around and the first range ends before it begins.
-/

namespace Signoz.Querier

open Lib.Grid Lib.Sweep

section ExactRanges

variable {V : Type}

/-- The ranges of the window `w` that are not cached: in order, apart, inside the window, covering
what no bucket covers, and off the buckets but for the interval before the first step boundary. -/
structure ExactRanges (stepMs : Nat) (buckets : List (CachedBucket V)) (w : TimeRange)
    (missing : List TimeRange) : Prop where
  proper : ∀ r ∈ missing, r.fromMs < r.toMs
  ascending : missing.Pairwise fun r next => r.toMs ≤ next.fromMs
  inside : ∀ r ∈ missing, w.fromMs ≤ r.fromMs ∧ r.toMs ≤ w.toMs
  covered : ∀ x, w.Mem x → (∃ r ∈ missing, r.Mem x) ∨ ∃ b ∈ buckets, b.Mem x
  apart : ∀ r ∈ missing, (∃ x, r.Mem x ∧ ∃ b ∈ buckets, b.Mem x) →
    ¬ stepMs ∣ w.fromMs ∧ r = ⟨w.fromMs, min (gridCeil stepMs w.fromMs) w.toMs⟩

/-! ## The sweep -/

variable {buckets : List (CachedBucket V)} {w : TimeRange}

/-- Ranges that cover the window with the buckets, made of the one before the sweep, its gaps, and ranges
behind it, are exact where only the first reaches into a bucket. -/
theorem exactRanges_of_sweep {stepMs : Nat} (hgrid : OnGrid stepMs buckets) {cur : Nat}
    {after : List TimeRange}
    (hC : Covers buckets w cur (leadingRange w cur ++
      gapRanges (sweepBuckets w.toMs (sortBuckets buckets) cur).2 ++ after))
    (hleading : cur ≠ w.fromMs → ¬ stepMs ∣ w.fromMs ∧ cur = gridCeil stepMs w.fromMs)
    (hafter : ∀ r ∈ after, (sweepBuckets w.toMs (sortBuckets buckets) cur).1 ≤ r.fromMs)
    (hascending : after.Pairwise fun r next => r.toMs ≤ next.fromMs) :
    ExactRanges stepMs buckets w (leadingRange w cur ++
      gapRanges (sweepBuckets w.toMs (sortBuckets buckets) cur).2 ++ after) := by
  have hstart : cur ≤ (sweepBuckets w.toMs (sortBuckets buckets) cur).1 := le_sweep _ _
  have hle : ∀ b ∈ sortBuckets buckets, b.startMs ≤ b.endMs :=
    fun b hb => (hgrid.sortBuckets b hb).2.2.le
  have hbounds : ∀ r ∈ gapRanges (sweepBuckets w.toMs (sortBuckets buckets) cur).2,
      cur ≤ r.fromMs ∧ r.toMs ≤ (sweepBuckets w.toMs (sortBuckets buckets) cur).1 := by
    intro r hr
    obtain ⟨g, hg, rfl⟩ := List.mem_map.1 hr
    exact ⟨(gap_bounds (sortBuckets buckets) cur _ hg).1,
      gap_le_sweep (sortBuckets buckets) cur hle _ hg⟩
  have hgaps : (gapRanges (sweepBuckets w.toMs (sortBuckets buckets) cur).2).Pairwise
      fun r next => r.toMs ≤ next.fromMs :=
    List.pairwise_map.2 (pairwise_gaps (sortBuckets buckets) cur hle)
  have hpair : (leadingRange w cur).Pairwise fun r next => r.toMs ≤ next.fromMs := by
    unfold leadingRange
    split <;> simp
  refine ⟨fun r hr => (hC.inside r hr).2.1, ?_,
    fun r hr => ⟨(hC.inside r hr).1, (hC.inside r hr).2.2⟩, hC.covered, ?_⟩
  · refine List.pairwise_append.2 ⟨List.pairwise_append.2 ⟨hpair, hgaps, ?_⟩, hascending, ?_⟩
    · intro r hr g hg
      obtain ⟨-, rfl⟩ := mem_leadingRange.1 hr
      exact (Nat.min_le_left _ _).trans (hbounds g hg).1
    · intro r hr next hnext
      have hbehind := hafter next hnext
      rcases List.mem_append.1 hr with hr | hr
      · obtain ⟨-, rfl⟩ := mem_leadingRange.1 hr
        exact (Nat.min_le_left _ _).trans (hstart.trans hbehind)
      · exact (hbounds r hr).2.trans hbehind
  · -- what is fetched although a bucket has it lies before the position of the sweep
    rintro r hr ⟨x, hrx, b, hb, hbx⟩
    have hx : x < cur := by
      by_contra hx
      exact hC.disjoint r hr x hrx (Nat.not_lt.1 hx) b hb hbx
    rcases List.mem_append.1 hr with hr | hr
    · rcases List.mem_append.1 hr with hr | hr
      · obtain ⟨hne, rfl⟩ := mem_leadingRange.1 hr
        obtain ⟨hoff, hcur⟩ := hleading hne
        exact ⟨hoff, by rw [hcur]⟩
      · have hfrom := (hbounds r hr).1.trans hrx.1
        exact absurd hx (Nat.not_lt.2 hfrom)
    · have hfrom := (hstart.trans (hafter r hr)).trans hrx.1
      exact absurd hx (Nat.not_lt.2 hfrom)

/-! ## The two branches -/

/-- The final gap as ranges in ascending order. -/
theorem pairwise_finalGap (boundary currentMs endMs : Nat) :
    (finalGap boundary currentMs endMs).Pairwise fun r next => r.toMs ≤ next.fromMs := by
  unfold finalGap
  split_ifs with h1 h2 h3
  · exact List.pairwise_pair.2 (Nat.min_le_right _ _)
  · exact List.pairwise_singleton _ _
  · exact List.pairwise_singleton _ _
  · exact List.Pairwise.nil

theorem pairwise_restRange (cur stop : Nat) :
    (restRange cur stop).Pairwise fun r next => r.toMs ≤ next.fromMs := by
  unfold restRange
  split
  · exact List.pairwise_singleton _ _
  · exact List.Pairwise.nil

/-- Without steps, the ranges are exact. -/
theorem exactRanges_basic (fluxIntervalMs currentTime : Nat) {stepMs : Nat}
    (hgrid : OnGrid stepMs buckets) (hlt : w.fromMs < w.toMs) :
    ExactRanges stepMs buckets w
      (findMissingRangesBasic fluxIntervalMs currentTime buckets w.fromMs w.toMs) := by
  have hleading : leadingRange w w.fromMs = [] := if_pos rfl
  have hsweep : findMissingRangesBasic fluxIntervalMs currentTime buckets w.fromMs w.toMs =
      leadingRange w w.fromMs ++ gapRanges (sweepBuckets w.toMs (sortBuckets buckets) w.fromMs).2 ++
        finalGap (fluxBoundary fluxIntervalMs currentTime)
          (sweepBuckets w.toMs (sortBuckets buckets) w.fromMs).1 w.toMs := by
    rw [hleading, findMissingRangesBasic, basicLoop_eq_sweep w.fromMs w.toMs _ hgrid.sortBuckets
      w.fromMs (Nat.le_refl _) hlt.le]
  rw [hsweep]
  exact exactRanges_of_sweep hgrid (covers_of_sweep (fun r hr => (mem_finalGap hr).1)
    (fun x hx hx' => exists_mem_finalGap _ hx hx') hlt (Nat.le_refl _)) (fun h => absurd rfl h)
    (fun r hr => (mem_finalGap hr).1.1) (pairwise_finalGap _ _ _)

/-- Proper ranges come from a first step boundary that does not wrap around. -/
theorem gridCeil_lt_of_proper {fluxIntervalMs currentTime stepMs : Nat}
    (hgrid : OnGrid stepMs buckets) (hlt : w.fromMs < w.toMs) (hto : w.toMs < 2 ^ 64)
    (hstep : stepMs < 2 ^ 64)
    (hproper : ∀ r ∈ findMissingRangesWithStep fluxIntervalMs currentTime buckets w.fromMs w.toMs
      stepMs, r.fromMs < r.toMs) : gridCeil stepMs w.fromMs < 2 ^ 64 := by
  by_contra hover
  have hs : 0 < stepMs := by
    refine Nat.pos_of_ne_zero fun hzero => hover ?_
    rw [hzero, gridCeil]
    split <;> omega
  have hoff : ¬ stepMs ∣ w.fromMs := fun h => hover (by rw [gridCeil_eq_self h]; omega)
  have hceil := gridCeil_of_not_dvd hoff
  have hfloor := gridFloor_le stepMs w.fromMs
  have hnext : addUint64 (w.fromMs - w.fromMs % stepMs) stepMs =
      gridCeil stepMs w.fromMs - 2 ^ 64 := by
    rw [hceil, gridFloor_eq_sub_mod] at hover ⊢
    rw [gridFloor_eq_sub_mod] at hfloor
    rw [addUint64]
    omega
  have hstepped : ¬ (stepMs = 0 ∨ w.toMs < addUint64 w.fromMs stepMs) := by
    rw [addUint64]
    omega
  -- the first range begins at the start and ends at the boundary that wrapped around
  have hpartial : partialStart stepMs w.fromMs w.toMs = (gridCeil stepMs w.fromMs - 2 ^ 64,
      [⟨w.fromMs, min (gridCeil stepMs w.fromMs - 2 ^ 64) w.toMs⟩]) := by
    rw [partialStart, if_pos (fun h0 => hoff (Nat.dvd_of_mod_eq_zero h0))]
    simp only [hnext]
  rw [findMissingRangesWithStep_stepped _ _ hgrid hstepped _ hpartial] at hproper
  have hfirst := hproper ⟨w.fromMs, min (gridCeil stepMs w.fromMs - 2 ^ 64) w.toMs⟩
    (List.mem_append_left _ (List.mem_append_left _ (List.mem_singleton_self _)))
  simp only at hfirst
  omega

/-- `findMissingRangesWithStep` covers exactly what is not cached if and only if the first step
boundary at or behind the start fits in `uint64`. -/
theorem exactRanges_iff (fluxIntervalMs currentTime : Nat) {stepMs : Nat}
    {buckets : List (CachedBucket V)} (hgrid : OnGrid stepMs buckets) {w : TimeRange}
    (hlt : w.fromMs < w.toMs) (hto : w.toMs < 2 ^ 64) (hstep : stepMs < 2 ^ 64) :
    ExactRanges stepMs buckets w
        (findMissingRangesWithStep fluxIntervalMs currentTime buckets w.fromMs w.toMs stepMs) ↔
      gridCeil stepMs w.fromMs < 2 ^ 64 := by
  constructor
  · exact fun h => gridCeil_lt_of_proper hgrid hlt hto hstep h.proper
  · intro hfit
    by_cases hbasic : stepMs = 0 ∨ w.toMs < addUint64 w.fromMs stepMs
    · rw [findMissingRangesWithStep, if_pos hbasic]
      exact exactRanges_basic _ _ hgrid hlt
    · have hs : 0 < stepMs := Nat.pos_of_ne_zero fun h => hbasic (.inl h)
      rw [findMissingRangesWithStep_stepped _ _ hgrid hbasic _ (partialStart_eq hfit)]
      refine exactRanges_of_sweep hgrid
        (complements_stepped hgrid hlt (le_gridCeil hs _) (dvd_gridCeil _ _)).toCovers ?_ ?_
        (pairwise_restRange _ _)
      · exact fun hne => ⟨fun h => hne (gridCeil_eq_self h), rfl⟩
      · exact fun r hr => by rw [(mem_restRange.1 hr).2]

end ExactRanges

/-- A minute that is cached, in the middle of a window that begins off the grid. -/
theorem cached_minute_exact :
    ExactRanges 60000 [(⟨60000, 120000, .timeSeries, ⟨"", []⟩, .zero⟩ : CachedBucket Unit)]
      ⟨30000, 150000⟩ (findMissingRangesWithStep 0 0
        [(⟨60000, 120000, .timeSeries, ⟨"", []⟩, .zero⟩ : CachedBucket Unit)] 30000 150000 60000) :=
  (exactRanges_iff 0 0 (w := ⟨30000, 150000⟩) (by simp [OnGrid]) (by decide) (by decide)
    (by decide)).2 (by decide)

/-- Nine milliseconds before the end of `uint64`, the step boundary of a minute wraps around. -/
theorem wrapped_boundary_not_exact :
    ¬ ExactRanges 60000 ([] : List (CachedBucket Unit)) ⟨2 ^ 64 - 10, 2 ^ 64 - 1⟩
      (findMissingRangesWithStep 0 0 ([] : List (CachedBucket Unit)) (2 ^ 64 - 10) (2 ^ 64 - 1)
        60000) := by
  intro h
  have hfit := gridCeil_lt_of_proper (w := ⟨2 ^ 64 - 10, 2 ^ 64 - 1⟩) (by simp [OnGrid])
    (by decide) (by decide) (by decide) h.proper
  revert hfit
  decide

end Signoz.Querier
