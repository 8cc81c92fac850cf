import Mathlib.Data.Set.Card
import Mathlib.Order.Interval.Finset.Nat
import Signoz.Lib.UnstableSort
import Signoz.Querier.TimeSeries

/-!
# The time that services take in a trace

`CalculateServiceTime` sorts the intervals of a service by their start and goes over them once: the
running interval is extended by what starts before it ends, and closed by what starts behind.

`covered` is the set of the moments in an interval, a moment being as long as one nanosecond. The
loop keeps the closed intervals and the moments of the running one and of those to come apart, so
the durations add up to the moments (`sum_mergeLoop`).
-/

namespace Signoz.TraceDetail

open Lib.UnstableSort
open Querier (subUint64)

/-- `Interval`. -/
structure Interval where
  startTime : Nat
  duration : Nat
  service : String
deriving DecidableEq

/-- The sum of two numbers of type `uint64`. -/
def addUint64 (a b : Nat) : Nat := (a + b) % 2 ^ 64

/-- The time at which an interval ends. -/
def Interval.endTime (interval : Interval) : Nat := addUint64 interval.startTime interval.duration

/-- The loop of `mergeIntervals`. -/
def mergeLoop (merged : List Interval) (current : Interval) : List Interval → List Interval
  | [] => merged ++ [current]
  | next :: rest =>
    if next.startTime ≤ current.endTime then
      let endTime := max current.endTime next.endTime
      mergeLoop merged { current with duration := subUint64 endTime current.startTime } rest
    else mergeLoop (merged ++ [current]) next rest

/-- `mergeIntervals`. -/
def mergeIntervals : List Interval → List Interval
  | [] => []
  | current :: rest => mergeLoop [] current rest

/-- The total time of one service. -/
def totalTime (S : Sorter) (intervals : List Interval) : Nat :=
  (mergeIntervals (S.byKey Interval.startTime intervals)).foldl
    (fun total interval => addUint64 total interval.duration) 0

/-- `CalculateServiceTime`. The entries of the map come in any order. -/
def calculateServiceTime (S : Sorter) (serviceIntervals : List (String × List Interval)) :
    String → Option Nat :=
  serviceIntervals.foldl
    (fun totalTimes entry => Function.update totalTimes entry.1 (some (totalTime S entry.2)))
    fun _ => none

/-! ## The moments of intervals -/

/-- The moments that are in one of the intervals. -/
def covered : List Interval → Finset Nat
  | [] => ∅
  | interval :: rest =>
    Finset.Ico interval.startTime (interval.startTime + interval.duration) ∪ covered rest

/-- The length of the union of intervals. -/
noncomputable def unionLength (intervals : List Interval) : Nat :=
  Set.ncard {t : Nat | ∃ interval ∈ intervals,
    interval.startTime ≤ t ∧ t < interval.startTime + interval.duration}

/-- The interval ends within the range of `uint64`. -/
def Interval.Fits (interval : Interval) : Prop := interval.startTime + interval.duration < 2 ^ 64

variable {intervals : List Interval}

theorem mem_covered {t : Nat} :
    t ∈ covered intervals ↔
      ∃ interval ∈ intervals,
        interval.startTime ≤ t ∧ t < interval.startTime + interval.duration := by
  induction intervals with
  | nil => simp [covered]
  | cons interval rest ih => simp [covered, ih]

theorem unionLength_eq_card (intervals : List Interval) :
    unionLength intervals = (covered intervals).card := by
  have hset : {t : Nat | ∃ interval ∈ intervals,
      interval.startTime ≤ t ∧ t < interval.startTime + interval.duration} =
      (covered intervals : Set Nat) := by
    ext t
    exact mem_covered.symm
  rw [unionLength, hset, Set.ncard_coe_finset]

theorem covered_perm {intervals intervals' : List Interval} (h : intervals.Perm intervals') :
    covered intervals = covered intervals' := by
  ext t
  simp only [mem_covered, h.mem_iff]

theorem card_covered_lt (h : ∀ interval ∈ intervals, interval.Fits) :
    (covered intervals).card < 2 ^ 64 := by
  have hsub : covered intervals ⊆ Finset.range (2 ^ 64 - 1) := by
    intro t ht
    obtain ⟨interval, hmem, -, hlt⟩ := mem_covered.mp ht
    have hfits : interval.startTime + interval.duration < 2 ^ 64 := h interval hmem
    rw [Finset.mem_range]
    omega
  have hcard := Finset.card_le_card hsub
  rw [Finset.card_range] at hcard
  omega

/-! ## The loop -/

theorem endTime_of_fits {interval : Interval} (h : interval.Fits) :
    interval.endTime = interval.startTime + interval.duration := Nat.mod_eq_of_lt h

/-- What starts before the running interval ends extends it. -/
theorem covered_extend {current next : Interval} {rest : List Interval}
    (hle : current.startTime ≤ next.startTime)
    (htouch : next.startTime ≤ current.startTime + current.duration) :
    covered ({ current with
        duration := max (current.startTime + current.duration)
          (next.startTime + next.duration) - current.startTime } :: rest) =
      covered (current :: next :: rest) := by
  have hend : current.startTime + (max (current.startTime + current.duration)
      (next.startTime + next.duration) - current.startTime) =
      max (current.startTime + current.duration) (next.startTime + next.duration) := by
    omega
  have hunion := Finset.Ico_union_Ico' htouch (show current.startTime ≤
    next.startTime + next.duration by omega)
  rw [min_eq_left hle] at hunion
  rw [covered, covered, covered, ← Finset.union_assoc, hunion]
  dsimp only
  rw [hend]

/-- What starts behind the end of the running interval has no moment of it. -/
theorem disjoint_covered {current : Interval}
    (h : ∀ interval ∈ intervals, current.startTime + current.duration ≤ interval.startTime) :
    Disjoint (Finset.Ico current.startTime (current.startTime + current.duration))
      (covered intervals) := by
  rw [Finset.disjoint_left]
  intro t ht hcovered
  obtain ⟨interval, hmem, hle, -⟩ := mem_covered.mp hcovered
  have hbehind := h interval hmem
  rw [Finset.mem_Ico] at ht
  omega

/-- The durations are those of the closed intervals, and the moments of the others. -/
theorem sum_mergeLoop (intervals : List Interval) : ∀ (merged : List Interval)
    (current : Interval), current.Fits → (∀ interval ∈ intervals, interval.Fits) →
    (current :: intervals).Pairwise (fun a b => a.startTime ≤ b.startTime) →
    ((mergeLoop merged current intervals).map Interval.duration).sum =
      (merged.map Interval.duration).sum + (covered (current :: intervals)).card := by
  induction intervals with
  | nil =>
    intro merged current _ _ _
    simp [mergeLoop, covered]
  | cons next rest ih =>
    intro merged current hcurrent hfits hsorted
    obtain ⟨hfirst, hrest⟩ := List.pairwise_cons.mp hsorted
    obtain ⟨hnext, hfits⟩ := List.forall_mem_cons.mp hfits
    have hle := hfirst next List.mem_cons_self
    rw [mergeLoop, endTime_of_fits hcurrent, endTime_of_fits hnext]
    split_ifs with htouch
    · -- the running interval covers both, and starts where it did
      have hend : current.startTime ≤
          max (current.startTime + current.duration) (next.startTime + next.duration) := by
        omega
      have hlt : max (current.startTime + current.duration)
          (next.startTime + next.duration) < 2 ^ 64 := max_lt hcurrent hnext
      dsimp only
      rw [Querier.subUint64_of_le hend hlt, ← covered_extend hle htouch]
      apply ih _ _ ?_ hfits
      · exact List.pairwise_cons.mpr
          ⟨fun b hb => hfirst b (List.mem_cons_of_mem _ hb), (List.pairwise_cons.mp hrest).2⟩
      · unfold Interval.Fits
        dsimp only
        omega
    · -- the running interval is closed: nothing that is to come reaches it
      have hbehind : ∀ interval ∈ next :: rest,
          current.startTime + current.duration ≤ interval.startTime := by
        intro interval hmem
        rcases List.mem_cons.mp hmem with rfl | hmem
        · omega
        · have hafter := (List.pairwise_cons.mp hrest).1 interval hmem
          omega
      rw [ih (merged ++ [current]) next hnext hfits hrest, List.map_append, List.sum_append,
        covered.eq_2 current, Finset.card_union_of_disjoint (disjoint_covered hbehind),
        Nat.card_Ico]
      simp [Nat.add_assoc]

theorem sum_mergeIntervals (hfits : ∀ interval ∈ intervals, interval.Fits)
    (hsorted : intervals.Pairwise fun a b => a.startTime ≤ b.startTime) :
    ((mergeIntervals intervals).map Interval.duration).sum = (covered intervals).card := by
  cases intervals with
  | nil => rfl
  | cons current rest =>
    obtain ⟨hcurrent, hrest⟩ := List.forall_mem_cons.mp hfits
    rw [mergeIntervals, sum_mergeLoop rest [] current hcurrent hrest hsorted]
    simp

/-- The total does not wrap while the sum is in range. -/
theorem foldl_addUint64 (intervals : List Interval) : ∀ total : Nat,
    total + (intervals.map Interval.duration).sum < 2 ^ 64 →
    intervals.foldl (fun total interval => addUint64 total interval.duration) total =
      total + (intervals.map Interval.duration).sum := by
  induction intervals with
  | nil => exact fun total _ => rfl
  | cons interval rest ih =>
    intro total hlt
    rw [List.map_cons, List.sum_cons] at hlt ⊢
    have hadd : addUint64 total interval.duration = total + interval.duration :=
      Nat.mod_eq_of_lt (by omega)
    rw [List.foldl_cons, hadd, ih _ (by omega), Nat.add_assoc]

/-- The total time of a service is the length of the union of its intervals. -/
theorem totalTime_eq (S : Sorter) (hfits : ∀ interval ∈ intervals, interval.Fits) :
    totalTime S intervals = unionLength intervals := by
  have hsorted : ∀ interval ∈ S.byKey Interval.startTime intervals, interval.Fits :=
    fun interval hmem => hfits interval ((mem_byKey S).mp hmem)
  have hsum := sum_mergeIntervals hsorted (pairwise_byKey S Interval.startTime intervals)
  rw [covered_perm (byKey_perm S Interval.startTime intervals)] at hsum
  have hlt := card_covered_lt hfits
  rw [totalTime, foldl_addUint64 _ 0 (by omega), hsum, unionLength_eq_card, Nat.zero_add]

/-! ## The services -/

/-- The fold over the services leaves a service that does not come any more as it is. -/
theorem foldl_update_of_notMem {α β γ : Type} [DecidableEq α] (f : β → γ) (a : α)
    (entries : List (α × β)) : ∀ (m : α → Option γ), a ∉ entries.map Prod.fst →
    entries.foldl (fun (m : α → Option γ) entry => Function.update m entry.1 (some (f entry.2)))
      m a = m a := by
  induction entries with
  | nil => exact fun m _ => rfl
  | cons entry rest ih =>
    intro m hnot
    rw [List.map_cons, List.mem_cons, not_or] at hnot
    rw [List.foldl_cons, ih _ hnot.2, Function.update_of_ne hnot.1]

theorem foldl_update_of_mem {α β γ : Type} [DecidableEq α] (f : β → γ) {a : α} {b : β}
    (entries : List (α × β)) : ∀ (m : α → Option γ), (entries.map Prod.fst).Nodup →
    (a, b) ∈ entries →
    entries.foldl (fun (m : α → Option γ) entry => Function.update m entry.1 (some (f entry.2)))
      m a =
      some (f b) := by
  induction entries with
  | nil => exact fun m _ hmem => absurd hmem List.not_mem_nil
  | cons entry rest ih =>
    intro m hnodup hmem
    obtain ⟨hnot, hrest⟩ := List.nodup_cons.mp hnodup
    rcases List.mem_cons.mp hmem with rfl | hmem
    · rw [List.foldl_cons, foldl_update_of_notMem f a rest _ hnot, Function.update_self]
    · exact ih _ hrest hmem

/-- Each service of the map gets the length of the union of its intervals, and no other service
gets a time. -/
theorem calculateServiceTime_eq (S : Sorter) (serviceIntervals : List (String × List Interval))
    (hkeys : (serviceIntervals.map Prod.fst).Nodup)
    (hfits : ∀ entry ∈ serviceIntervals, ∀ interval ∈ entry.2,
      interval.startTime + interval.duration < 2 ^ 64) :
    (∀ service intervals, (service, intervals) ∈ serviceIntervals →
      calculateServiceTime S serviceIntervals service = some (unionLength intervals)) ∧
    ∀ service, service ∉ serviceIntervals.map Prod.fst →
      calculateServiceTime S serviceIntervals service = none := by
  constructor
  · intro service intervals hmem
    rw [calculateServiceTime, foldl_update_of_mem (totalTime S) serviceIntervals _ hkeys hmem,
      totalTime_eq S (hfits (service, intervals) hmem)]
  · intro service hnot
    exact foldl_update_of_notMem (totalTime S) service serviceIntervals _ hnot

/-- Two overlapping intervals of one service, given later first, and an empty one of another. -/
theorem calculateServiceTime_frontend :
    calculateServiceTime stable
        [("frontend", [⟨15, 10, "frontend"⟩, ⟨10, 10, "frontend"⟩]), ("cart", [⟨7, 0, "cart"⟩])]
        "frontend" =
      some (unionLength [⟨15, 10, "frontend"⟩, ⟨10, 10, "frontend"⟩]) :=
  (calculateServiceTime_eq stable
    [("frontend", [⟨15, 10, "frontend"⟩, ⟨10, 10, "frontend"⟩]), ("cart", [⟨7, 0, "cart"⟩])]
    (by decide) (by decide)).1 "frontend" _ (by decide)

end Signoz.TraceDetail
