import Signoz.Lib.Grid
import Signoz.Lib.Sweep
import Signoz.Querier.BucketCache

/-!
# The missing ranges of a window

What `findMissingRangesWithStep` returns for buckets whose bounds are multiples of the step. Both
bucket loops then are the sweep of `Lib.Sweep` (`stepLoop_eq_sweep`, `basicLoop_eq_sweep`), and the
ranges complement the buckets: they lie in the window, are cut on the grid, and together with the
buckets cover the window (`complements_of_long`, `complements_of_short`). A window of at least one
step also has its first cut interval fetched in any case. A shorter one goes through
`findMissingRangesBasic`, which may cut its last range at the flux boundary, on the grid or not.
-/

namespace Signoz.Querier

open Lib.Grid Lib.Sweep

section MissingRanges

variable {V : Type}

/-- `bucket` contains the millisecond `x`. -/
def CachedBucket.Mem (bucket : CachedBucket V) (x : Nat) : Prop :=
  bucket.startMs ≤ x ∧ x < bucket.endMs

/-- The buckets cover whole steps. -/
def OnGrid (stepMs : Nat) (buckets : List (CachedBucket V)) : Prop :=
  ∀ b ∈ buckets, stepMs ∣ b.startMs ∧ stepMs ∣ b.endMs ∧ b.startMs < b.endMs

variable {stepMs : Nat} {buckets : List (CachedBucket V)}

theorem OnGrid.sortBuckets (h : OnGrid stepMs buckets) : OnGrid stepMs (sortBuckets buckets) :=
  fun b hb => h b (mem_sortBuckets.1 hb)

theorem pairwise_sortBuckets (buckets : List (CachedBucket V)) :
    (sortBuckets buckets).Pairwise fun a b => a.startMs ≤ b.startMs := by
  have : Std.Total fun a b : CachedBucket V => a.startMs ≤ b.startMs :=
    ⟨fun a b => Nat.le_total _ _⟩
  have : IsTrans (CachedBucket V) fun a b => a.startMs ≤ b.startMs :=
    ⟨fun a b c => Nat.le_trans⟩
  exact List.pairwise_insertionSort _ buckets

/-- The gaps of a sweep as time ranges. -/
def gapRanges (gaps : List (Nat × Nat)) : List TimeRange := gaps.map fun g => ⟨g.1, g.2⟩

/-- The sweep over buckets. -/
abbrev sweepBuckets (endMs : Nat) (buckets : List (CachedBucket V)) (currentMs : Nat) :
    Nat × List (Nat × Nat) :=
  sweep CachedBucket.startMs CachedBucket.endMs endMs buckets currentMs

theorem stepLoop_eq_sweep (endMs : Nat) (buckets : List (CachedBucket V))
    (hgrid : OnGrid stepMs buckets) (currentMs : Nat) (missing : List TimeRange) :
    stepLoop stepMs endMs buckets currentMs missing =
      ((sweepBuckets endMs buckets currentMs).1,
        missing ++ gapRanges (sweepBuckets endMs buckets currentMs).2) := by
  induction buckets generalizing currentMs missing with
  | nil => simp [stepLoop, sweep, gapRanges]
  | cons b rest ih =>
    obtain ⟨hstart, hend, hlt⟩ := hgrid b List.mem_cons_self
    have hrest := ih fun b hb => hgrid b (List.mem_cons_of_mem _ hb)
    have hs : b.startMs % stepMs = 0 := Nat.mod_eq_zero_of_dvd hstart
    have hbucketEnd : (if min b.endMs endMs % stepMs ≠ 0 ∧ min b.endMs endMs < endMs then
        min b.endMs endMs - min b.endMs endMs % stepMs else min b.endMs endMs) =
        min b.endMs endMs := by
      refine if_neg fun h => h.1 ?_
      rw [Nat.min_eq_left (by omega), Nat.mod_eq_zero_of_dvd hend]
    unfold stepLoop sweepBuckets sweep
    simp only [hs, ne_eq, not_true_eq_false, if_false]
    by_cases h1 : b.endMs ≤ currentMs
    · rw [if_pos h1, if_pos h1]
      exact hrest currentMs missing
    · rw [if_neg h1, if_neg h1]
      by_cases h2 : endMs ≤ b.startMs
      · simp [h2, gapRanges]
      · rw [if_neg h2, if_neg h2, hbucketEnd, hrest]
        have hgap : gapBefore currentMs b.startMs endMs =
            gapRanges (if currentMs < b.startMs then [(currentMs, b.startMs)] else []) := by
          unfold gapBefore gapRanges
          by_cases h3 : currentMs < b.startMs
          · rw [if_pos ⟨h3, by omega⟩, if_pos h3, Nat.min_eq_left (by omega)]
            rfl
          · rw [if_neg fun h => h3 h.1, if_neg h3]
            rfl
        simp [hgap, gapRanges]

theorem basicLoop_eq_sweep (startMs endMs : Nat) (buckets : List (CachedBucket V))
    (hgrid : OnGrid stepMs buckets) (currentMs : Nat) (hcur : startMs ≤ currentMs)
    (hcur' : currentMs ≤ endMs) (missing : List TimeRange) :
    basicLoop startMs endMs buckets currentMs missing =
      ((sweepBuckets endMs buckets currentMs).1,
        missing ++ gapRanges (sweepBuckets endMs buckets currentMs).2) := by
  induction buckets generalizing currentMs missing with
  | nil => simp [basicLoop, sweep, gapRanges]
  | cons b rest ih =>
    obtain ⟨-, -, hlt⟩ := hgrid b List.mem_cons_self
    have hrest := ih fun b hb => hgrid b (List.mem_cons_of_mem _ hb)
    unfold basicLoop sweepBuckets sweep
    by_cases h1 : b.endMs ≤ startMs
    · rw [if_pos h1, if_pos (by omega)]
      exact hrest currentMs hcur hcur' missing
    · rw [if_neg h1]
      by_cases h2 : b.endMs ≤ currentMs
      · -- the basic loop passes a bucket behind its position without effect
        have hgap : ¬ currentMs < b.startMs := by omega
        have hmax : max currentMs (min b.endMs endMs) = currentMs := by omega
        rw [if_pos h2, if_neg (by omega), if_neg hgap, hmax]
        simpa using hrest currentMs hcur hcur' missing
      · rw [if_neg h2]
        by_cases h3 : endMs ≤ b.startMs
        · simp [h3, gapRanges]
        · rw [if_neg h3, if_neg h3, hrest _ (by omega) (by omega)]
          by_cases h4 : currentMs < b.startMs
          · simp [h4, gapRanges, Nat.min_eq_left (show b.startMs ≤ endMs by omega)]
          · simp [h4, gapRanges]

/-! ## What the ranges are -/

/-- `missing` and the buckets cover the window `w`: the ranges are non-empty and lie in the window,
whatever no bucket contains is fetched, and so is every millisecond before `first`, from where on
nothing is fetched that a bucket contains. -/
structure Covers (buckets : List (CachedBucket V)) (w : TimeRange) (first : Nat)
    (missing : List TimeRange) : Prop where
  inside : ∀ r ∈ missing, w.fromMs ≤ r.fromMs ∧ r.fromMs < r.toMs ∧ r.toMs ≤ w.toMs
  first_fetched : ∀ x, w.Mem x → x < first → ∃ r ∈ missing, r.Mem x
  covered : ∀ x, w.Mem x → (∃ r ∈ missing, r.Mem x) ∨ ∃ b ∈ buckets, b.Mem x
  disjoint : ∀ r ∈ missing, ∀ x, r.Mem x → first ≤ x → ∀ b ∈ buckets, ¬ b.Mem x

/-- The ranges are cut on the grid besides. -/
structure Complements (stepMs : Nat) (buckets : List (CachedBucket V)) (w : TimeRange)
    (first : Nat) (missing : List TimeRange) : Prop extends Covers buckets w first missing where
  from_on_grid : ∀ r ∈ missing, r.fromMs = w.fromMs ∨ stepMs ∣ r.fromMs
  to_on_grid : ∀ r ∈ missing, r.toMs = w.toMs ∨ stepMs ∣ r.toMs

/-- The range from the start of the window to the position of the sweep, and what it has. -/
def leadingRange (w : TimeRange) (cur : Nat) : List TimeRange :=
  if cur = w.fromMs then [] else [⟨w.fromMs, min cur w.toMs⟩]

variable {w : TimeRange} {r : TimeRange}

theorem mem_leadingRange {cur : Nat} :
    r ∈ leadingRange w cur ↔ cur ≠ w.fromMs ∧ r = ⟨w.fromMs, min cur w.toMs⟩ := by
  unfold leadingRange
  split_ifs with h <;> simp [h]

section Sweep

variable {stepMs : Nat} {buckets : List (CachedBucket V)} {w : TimeRange} {cur : Nat}
  {after : List TimeRange}

/-- What a sweep leaves: the range before it, its gaps, and the ranges behind it. -/
theorem mem_swept {r : TimeRange} :
    r ∈ leadingRange w cur ++ gapRanges (sweepBuckets w.toMs (sortBuckets buckets) cur).2 ++ after ↔
      (cur ≠ w.fromMs ∧ r = ⟨w.fromMs, min cur w.toMs⟩) ∨
      (r.fromMs, r.toMs) ∈ (sweepBuckets w.toMs (sortBuckets buckets) cur).2 ∨ r ∈ after := by
  simp only [List.mem_append, mem_leadingRange, gapRanges, List.mem_map, or_assoc]
  refine or_congr_right (or_congr_left ⟨?_, fun h => ⟨_, h, rfl⟩⟩)
  rintro ⟨g, hg, rfl⟩
  exact hg

variable (hafter : ∀ r ∈ after, (sweepBuckets w.toMs (sortBuckets buckets) cur).1 ≤ r.fromMs ∧
  r.fromMs < r.toMs ∧ r.toMs ≤ w.toMs)
  (hrest : ∀ x, (sweepBuckets w.toMs (sortBuckets buckets) cur).1 ≤ x → x < w.toMs →
    ∃ r ∈ after, r.Mem x)

include hafter hrest in
/-- The sweep, the range before it and ranges that cover the rest of the window behind it. -/
theorem covers_of_sweep (hlt : w.fromMs < w.toMs) (hfrom : w.fromMs ≤ cur) :
    Covers buckets w cur (leadingRange w cur ++
      gapRanges (sweepBuckets w.toMs (sortBuckets buckets) cur).2 ++ after) := by
  have hstart : cur ≤ (sweepBuckets w.toMs (sortBuckets buckets) cur).1 := le_sweep _ _
  have hsorted := pairwise_sortBuckets buckets
  have hfirst : ∀ x, w.Mem x → x < cur → ∃ r ∈ leadingRange w cur ++
      gapRanges (sweepBuckets w.toMs (sortBuckets buckets) cur).2 ++ after, r.Mem x := by
    intro x hx hxc
    have hne : cur ≠ w.fromMs := fun heq => absurd hx.1 (by omega)
    exact ⟨_, mem_swept.2 (.inl ⟨hne, rfl⟩), hx.1, Nat.lt_min.2 ⟨hxc, hx.2⟩⟩
  refine ⟨?_, hfirst, ?_, ?_⟩
  · intro r hr
    rcases mem_swept.1 hr with ⟨hne, rfl⟩ | h | h
    · simp only
      omega
    · have := gap_bounds _ _ _ h
      simp only at this
      omega
    · have := hafter r h
      omega
  · intro x hx
    by_cases h1 : x < cur
    · exact Or.inl (hfirst x hx h1)
    · by_cases h2 : x < (sweepBuckets w.toMs (sortBuckets buckets) cur).1
      · rcases mem_gap_or_interval _ _ (Nat.not_lt.1 h1) h2 with ⟨g, hg, hgx⟩ | ⟨b, hb, hbx⟩
        · exact Or.inl ⟨⟨g.1, g.2⟩, mem_swept.2 (Or.inr (Or.inl hg)), hgx⟩
        · exact Or.inr ⟨b, mem_sortBuckets.1 hb, hbx⟩
      · obtain ⟨r, hr, hrx⟩ := hrest x (Nat.not_lt.1 h2) hx.2
        exact Or.inl ⟨r, mem_swept.2 (Or.inr (Or.inr hr)), hrx⟩
  · intro r hr x hx hle b hb
    rcases mem_swept.1 hr with ⟨-, rfl⟩ | h | h
    · have hxcur : x < min cur w.toMs := hx.2
      omega
    · exact not_mem_interval_of_gap _ _ hsorted h hx.1 hx.2 b (mem_sortBuckets.2 hb)
    · have := hafter r h
      exact not_mem_interval_of_le _ _ hsorted (this.1.trans hx.1) (hx.2.trans_le this.2.2) b
        (mem_sortBuckets.2 hb)

include hafter hrest in
/-- From an aligned position, with ranges behind it that are cut on the grid, all of them are. -/
theorem complements_of_sweep (hgrid : OnGrid stepMs buckets) (hlt : w.fromMs < w.toMs)
    (hfrom : w.fromMs ≤ cur) (hcur : cur = w.fromMs ∨ stepMs ∣ cur)
    (hgridFrom : ∀ r ∈ after, r.fromMs = (sweepBuckets w.toMs (sortBuckets buckets) cur).1 ∨
      stepMs ∣ r.fromMs)
    (hgridTo : ∀ r ∈ after, r.toMs = w.toMs ∨ stepMs ∣ r.toMs) :
    Complements stepMs buckets w cur (leadingRange w cur ++
      gapRanges (sweepBuckets w.toMs (sortBuckets buckets) cur).2 ++ after) := by
  have hend : (sweepBuckets w.toMs (sortBuckets buckets) cur).1 = cur ∨
      (sweepBuckets w.toMs (sortBuckets buckets) cur).1 = w.toMs ∨
      ∃ b ∈ sortBuckets buckets, (sweepBuckets w.toMs (sortBuckets buckets) cur).1 = b.endMs :=
    sweep_end _ _
  refine ⟨covers_of_sweep hafter hrest hlt hfrom, ?_, ?_⟩
  · intro r hr
    rcases mem_swept.1 hr with ⟨-, rfl⟩ | h | h
    · exact Or.inl rfl
    · rcases (gap_bounds _ _ _ h).2.2.2.1 with he | ⟨b, hb, he⟩
      · rcases hcur with hc | hc
        · exact Or.inl (he.trans hc)
        · exact Or.inr (by rw [show r.fromMs = cur from he]; exact hc)
      · exact Or.inr (by rw [show r.fromMs = b.endMs from he]; exact (hgrid.sortBuckets b hb).2.1)
    · rcases hgridFrom r h with he | he
      · rcases hend with hc | hc | ⟨b, hb, hc⟩
        · rw [he, hc]
          exact hcur
        · have := hafter r h
          omega
        · rw [he, hc]
          exact Or.inr (hgrid.sortBuckets b hb).2.1
      · exact Or.inr he
  · intro r hr
    rcases mem_swept.1 hr with ⟨hne, rfl⟩ | h | h
    · rcases Nat.le_total cur w.toMs with hle | hle
      · exact Or.inr (by simpa only [Nat.min_eq_left hle] using hcur.resolve_left hne)
      · exact Or.inl (Nat.min_eq_right hle)
    · obtain ⟨b, hb, he⟩ := (gap_bounds _ _ _ h).2.2.2.2
      exact Or.inr (by rw [show r.toMs = b.startMs from he]; exact (hgrid.sortBuckets b hb).1)
    · exact hgridTo r h

end Sweep

/-- The range behind the last bucket of the stepped branch. -/
def restRange (cur stop : Nat) : List TimeRange := if cur < stop then [⟨cur, stop⟩] else []

theorem mem_restRange {cur stop : Nat} :
    r ∈ restRange cur stop ↔ cur < stop ∧ r = ⟨cur, stop⟩ := by
  unfold restRange
  split_ifs with h <;> simp [h]

/-- The stepped branch of the loops complements the buckets from the step boundary on. -/
theorem complements_stepped (hgrid : OnGrid stepMs buckets) {cur : Nat} (hlt : w.fromMs < w.toMs)
    (hfrom : w.fromMs ≤ cur) (hcur : stepMs ∣ cur) :
    Complements stepMs buckets w cur
      (leadingRange w cur ++ gapRanges (sweepBuckets w.toMs (sortBuckets buckets) cur).2 ++
        restRange (sweepBuckets w.toMs (sortBuckets buckets) cur).1 w.toMs) := by
  refine complements_of_sweep ?_ ?_ hgrid hlt hfrom (.inr hcur) ?_ ?_
  · intro r hr
    obtain ⟨hrest, rfl⟩ := mem_restRange.1 hr
    exact ⟨Nat.le_refl _, hrest, Nat.le_refl _⟩
  · exact fun x hx hxt => ⟨_, mem_restRange.2 ⟨hx.trans_lt hxt, rfl⟩, hx, hxt⟩
  · exact fun r hr => .inl (by rw [(mem_restRange.1 hr).2])
  · exact fun r hr => .inl (by rw [(mem_restRange.1 hr).2])

/-- The first step boundary, where it does not wrap around in `uint64`. -/
theorem partialStart_eq {stepMs startMs endMs : Nat} (hfit : gridCeil stepMs startMs < 2 ^ 64) :
    partialStart stepMs startMs endMs =
      (gridCeil stepMs startMs, leadingRange ⟨startMs, endMs⟩ (gridCeil stepMs startMs)) := by
  rw [leadingRange]
  by_cases h : stepMs ∣ startMs
  · rw [partialStart, if_neg (not_not_intro (Nat.mod_eq_zero_of_dvd h)), gridCeil_eq_self h,
      if_pos rfl]
  · have hne : gridCeil stepMs startMs ≠ startMs := fun heq => h (heq ▸ dvd_gridCeil _ _)
    have hnext : addUint64 (startMs - startMs % stepMs) stepMs = gridCeil stepMs startMs := by
      have hceil := gridCeil_of_not_dvd h
      rw [gridFloor_eq_sub_mod] at hceil
      rw [addUint64, ← hceil, Nat.mod_eq_of_lt hfit]
    rw [partialStart, if_pos (fun h0 => h (Nat.dvd_of_mod_eq_zero h0)), if_neg hne]
    simp only [hnext]

/-- The ranges of the stepped branch, by the sweep from the first step boundary. -/
theorem findMissingRangesWithStep_stepped (fluxIntervalMs currentTime : Nat)
    (hgrid : OnGrid stepMs buckets) (hstepped : ¬ (stepMs = 0 ∨ w.toMs < addUint64 w.fromMs stepMs))
    (p : Nat × List TimeRange) (hp : partialStart stepMs w.fromMs w.toMs = p) :
    findMissingRangesWithStep fluxIntervalMs currentTime buckets w.fromMs w.toMs stepMs =
      p.2 ++ gapRanges (sweepBuckets w.toMs (sortBuckets buckets) p.1).2 ++
        restRange (sweepBuckets w.toMs (sortBuckets buckets) p.1).1 w.toMs := by
  have hloop : (if buckets = [] then p else stepLoop stepMs w.toMs (sortBuckets buckets) p.1 p.2) =
      stepLoop stepMs w.toMs (sortBuckets buckets) p.1 p.2 := by
    by_cases h : buckets = []
    · rw [if_pos h, h]
      rfl
    · rw [if_neg h]
  rw [findMissingRangesWithStep, if_neg hstepped]
  simp only [hp, hloop]
  simp only [stepLoop_eq_sweep _ _ hgrid.sortBuckets]
  rfl

/-- The ranges of a window of at least one step, by the sweep. -/
theorem findMissingRangesWithStep_of_long (fluxIntervalMs currentTime : Nat) (hs : 0 < stepMs)
    (hgrid : OnGrid stepMs buckets) (hto : w.toMs < 2 ^ 64) (hlong : w.fromMs + stepMs ≤ w.toMs) :
    findMissingRangesWithStep fluxIntervalMs currentTime buckets w.fromMs w.toMs stepMs =
      leadingRange w (gridCeil stepMs w.fromMs) ++
      gapRanges (sweepBuckets w.toMs (sortBuckets buckets) (gridCeil stepMs w.fromMs)).2 ++
      restRange (sweepBuckets w.toMs (sortBuckets buckets) (gridCeil stepMs w.fromMs)).1
        w.toMs := by
  have hlt := gridCeil_lt_add hs w.fromMs
  have hstepped : ¬ (stepMs = 0 ∨ w.toMs < addUint64 w.fromMs stepMs) := by
    rw [addUint64, Nat.mod_eq_of_lt (by omega)]
    omega
  exact findMissingRangesWithStep_stepped _ _ hgrid hstepped _ (partialStart_eq (by omega))

/-- The ranges of a window shorter than a step, by the sweep. -/
theorem findMissingRangesWithStep_of_short (fluxIntervalMs currentTime : Nat)
    (hgrid : OnGrid stepMs buckets) (hlt : w.fromMs < w.toMs) (hsum : w.fromMs + stepMs < 2 ^ 64)
    (hshort : w.toMs < w.fromMs + stepMs) :
    findMissingRangesWithStep fluxIntervalMs currentTime buckets w.fromMs w.toMs stepMs =
      gapRanges (sweepBuckets w.toMs (sortBuckets buckets) w.fromMs).2 ++
      finalGap (fluxBoundary fluxIntervalMs currentTime)
        (sweepBuckets w.toMs (sortBuckets buckets) w.fromMs).1 w.toMs := by
  have hadd : addUint64 w.fromMs stepMs = w.fromMs + stepMs := Nat.mod_eq_of_lt hsum
  unfold findMissingRangesWithStep
  rw [hadd, if_pos (Or.inr hshort)]
  unfold findMissingRangesBasic
  simp only [basicLoop_eq_sweep w.fromMs w.toMs _ hgrid.sortBuckets w.fromMs (Nat.le_refl _) hlt.le]
  rfl

/-- When no bucket overlaps the window, the window is missing in one piece, unless its start is cut
off or the flux boundary cuts it. -/
theorem findMissingRangesWithStep_of_disjoint (fluxIntervalMs currentTime : Nat) (hs : 0 < stepMs)
    (hgrid : OnGrid stepMs buckets) (hlt : w.fromMs < w.toMs) (hto : w.toMs < 2 ^ 64)
    (hsum : w.fromMs + stepMs < 2 ^ 64)
    (hdisjoint : ∀ b ∈ buckets, b.overlaps w.fromMs w.toMs = false)
    (hlong : w.fromMs + stepMs ≤ w.toMs → stepMs ∣ w.fromMs)
    (hshort : w.toMs < w.fromMs + stepMs → fluxBoundary fluxIntervalMs currentTime ≤ w.fromMs ∨
      w.toMs ≤ fluxBoundary fluxIntervalMs currentTime) :
    findMissingRangesWithStep fluxIntervalMs currentTime buckets w.fromMs w.toMs stepMs = [w] := by
  have hsweep : sweepBuckets w.toMs (sortBuckets buckets) w.fromMs = (w.fromMs, []) := by
    refine sweep_of_disjoint fun b hb => ?_
    have hover := hdisjoint b (mem_sortBuckets.1 hb)
    simp only [CachedBucket.overlaps, Bool.and_eq_false_iff, decide_eq_false_iff_not] at hover
    omega
  by_cases h : w.fromMs + stepMs ≤ w.toMs
  · rw [findMissingRangesWithStep_of_long _ _ hs hgrid hto h, gridCeil_eq_self (hlong h), hsweep,
      leadingRange, if_pos rfl, restRange, if_pos hlt]
    rfl
  · rw [findMissingRangesWithStep_of_short _ _ hgrid hlt hsum (by omega), hsweep]
    rcases hshort (by omega) with hb | hb
    · simp [gapRanges, finalGap, hlt, Nat.not_lt.2 hb]
    · simp only [gapRanges, finalGap, hlt, if_true, List.map_nil, List.nil_append,
        if_neg (Nat.not_lt.2 hb), Nat.min_eq_left hb]
      split <;> rfl

/-- The ranges of a window of at least one step. -/
theorem complements_of_long (fluxIntervalMs currentTime : Nat) (hs : 0 < stepMs)
    (hgrid : OnGrid stepMs buckets) (hto : w.toMs < 2 ^ 64) (hlong : w.fromMs + stepMs ≤ w.toMs) :
    Complements stepMs buckets w (gridCeil stepMs w.fromMs)
      (findMissingRangesWithStep fluxIntervalMs currentTime buckets w.fromMs w.toMs stepMs) := by
  rw [findMissingRangesWithStep_of_long _ _ hs hgrid hto hlong]
  exact complements_stepped hgrid (by omega) (le_gridCeil hs w.fromMs) (dvd_gridCeil _ _)

/-- The final gap is one range, or two that meet at the flux boundary inside it. -/
theorem mem_finalGap {boundary currentMs endMs : Nat} (hr : r ∈ finalGap boundary currentMs endMs) :
    (currentMs ≤ r.fromMs ∧ r.fromMs < r.toMs ∧ r.toMs ≤ endMs) ∧
      (r.fromMs = currentMs ∨
        r.fromMs = boundary ∧ currentMs < boundary ∧ boundary < endMs) ∧
      (r.toMs = endMs ∨ r.toMs = boundary ∧ currentMs < boundary ∧ boundary < endMs) := by
  unfold finalGap at hr
  split_ifs at hr with h1 h2 h3
  · rcases List.mem_cons.1 hr with rfl | hr
    · grind
    · obtain rfl := List.mem_singleton.1 hr
      grind
  · obtain rfl := List.mem_singleton.1 hr
    grind
  · obtain rfl := List.mem_singleton.1 hr
    grind
  · exact absurd hr List.not_mem_nil

theorem exists_mem_finalGap (boundary : Nat) {currentMs endMs x : Nat} (hx : currentMs ≤ x)
    (hx' : x < endMs) : ∃ r ∈ finalGap boundary currentMs endMs, r.Mem x := by
  unfold finalGap TimeRange.Mem
  split_ifs with h1 h2 h3
  · by_cases h : x < boundary
    · exact ⟨_, List.mem_cons_self, hx, by simp only; omega⟩
    · exact ⟨_, List.mem_cons_of_mem _ List.mem_cons_self, by simp only; omega, hx'⟩
  · exact ⟨_, List.mem_cons_self, hx, by simp only; omega⟩
  · exact ⟨_, List.mem_cons_self, hx, hx'⟩
  · omega

/-- The ranges of a window shorter than a step, when the flux boundary does not cut an interval
that no bucket contains. -/
theorem complements_of_short (fluxIntervalMs currentTime : Nat) (hgrid : OnGrid stepMs buckets)
    (hlt : w.fromMs < w.toMs) (hsum : w.fromMs + stepMs < 2 ^ 64)
    (hshort : w.toMs < w.fromMs + stepMs)
    (hcut : fluxBoundary fluxIntervalMs currentTime ≤ w.fromMs ∨
      w.toMs ≤ fluxBoundary fluxIntervalMs currentTime ∨
      stepMs ∣ fluxBoundary fluxIntervalMs currentTime ∨
      ∃ b ∈ buckets, b.Mem (fluxBoundary fluxIntervalMs currentTime)) :
    Complements stepMs buckets w w.fromMs
      (findMissingRangesWithStep fluxIntervalMs currentTime buckets w.fromMs w.toMs stepMs) := by
  have hleading : leadingRange w w.fromMs = [] := if_pos rfl
  rw [findMissingRangesWithStep_of_short _ _ hgrid hlt hsum hshort, ← List.nil_append (gapRanges _),
    ← hleading]
  have hstart : w.fromMs ≤ (sweepBuckets w.toMs (sortBuckets buckets) w.fromMs).1 := le_sweep _ _
  -- a boundary that does cut the final gap is on the grid, as no bucket reaches the gap
  have hdvd : (sweepBuckets w.toMs (sortBuckets buckets) w.fromMs).1 <
      fluxBoundary fluxIntervalMs currentTime → fluxBoundary fluxIntervalMs currentTime < w.toMs →
      stepMs ∣ fluxBoundary fluxIntervalMs currentTime := by
    intro hcur hend
    rcases hcut with h | h | h | ⟨b, hb, hbx⟩
    · omega
    · omega
    · exact h
    · exact absurd hbx (not_mem_interval_of_le _ _ (pairwise_sortBuckets buckets) hcur.le hend b
        (mem_sortBuckets.2 hb))
  refine complements_of_sweep (fun r hr => (mem_finalGap hr).1)
    (fun x hx hxt => exists_mem_finalGap _ hx hxt) hgrid hlt (Nat.le_refl _) (Or.inl rfl) ?_ ?_
  · intro r hr
    rcases (mem_finalGap hr).2.1 with h | ⟨h, h1, h2⟩
    · exact Or.inl h
    · exact Or.inr (by rw [h]; exact hdvd h1 h2)
  · intro r hr
    rcases (mem_finalGap hr).2.2 with h | ⟨h, h1, h2⟩
    · exact Or.inl h
    · exact Or.inr (by rw [h]; exact hdvd h1 h2)

end MissingRanges

end Signoz.Querier
