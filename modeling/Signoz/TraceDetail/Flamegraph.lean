import Mathlib.Data.List.GetD
import Signoz.Lib.UnstableSort
import Signoz.Querier.TimeSeries

/-!
# The sample of a level of the flamegraph

`getLatencyAndTimestampBucketedSpans` puts together the five longest spans of a level, the selected
one, and the first two of each of 50 buckets. The three selections overlap: a longest span is in its
bucket as well, unless it starts behind the last bucket. The buckets are whole numbers of
nanoseconds long, so they are the 50 equal parts of the range only when 50 divides it, and end
before the range does otherwise; a start time at the very end is behind them in any case.

`sample_fair_iff` says exactly when the sample has each span once and reaches every part.
-/

namespace Signoz.TraceDetail

open Lib.UnstableSort
open Querier (subUint64 subUint64_of_le)

/-- `FlamegraphSpan`, as far as the sampling reads it. -/
structure FlamegraphSpan where
  spanID : String
  timeUnixNano : Nat
  durationNano : Nat
deriving DecidableEq

def flamegraphSpanLevelLimit : Nat := 50

def flamegraphSpanLimitPerLevel : Nat := 100

def flamegraphSamplingBucketCount : Nat := 50

def flamegraphTopLatencySpanCount : Nat := 5

/-- The spans by latency, the longest first. -/
def sortByLatency (S : Sorter) (spans : List FlamegraphSpan) : List FlamegraphSpan :=
  S.byKey (fun span => OrderDual.toDual span.durationNano) spans

/-- The length of a bucket, at least one. -/
def bucketSize (startTime endTime : Nat) : Nat :=
  let size := subUint64 endTime startTime / flamegraphSamplingBucketCount
  if size = 0 then 1 else size

def bucketIndex (startTime endTime : Nat) (span : FlamegraphSpan) : Nat :=
  (span.timeUnixNano - startTime) / bucketSize startTime endTime

/-- The span is put into the bucket. -/
def inBucket (startTime endTime i : Nat) (span : FlamegraphSpan) : Bool :=
  startTime ≤ span.timeUnixNano && span.timeUnixNano ≤ endTime &&
    bucketIndex startTime endTime span = i

/-- The buckets, with the first two spans of each. -/
def bucketedSpans (spans : List FlamegraphSpan) (startTime endTime : Nat) :
    List (List FlamegraphSpan) :=
  (List.range flamegraphSamplingBucketCount).map fun i =>
    (spans.filter (inBucket startTime endTime i)).take 2

/-- The selected span: the last one of the id. -/
def selectedSpan (spans : List FlamegraphSpan) (selectedSpanID : String) :
    Option FlamegraphSpan :=
  (spans.filter fun span => span.spanID = selectedSpanID).getLast?

/-- `getLatencyAndTimestampBucketedSpans`; `none` for the panic on fewer than five spans. -/
def getLatencyAndTimestampBucketedSpans (S : Sorter) (spans : List FlamegraphSpan)
    (selectedSpanID : String) (isSelectedSpanIDPresent : Bool) (startTime endTime : Nat) :
    Option (List FlamegraphSpan) :=
  let spans := sortByLatency S spans
  if spans.length < flamegraphTopLatencySpanCount then none
  else
    some (spans.take flamegraphTopLatencySpanCount ++
      (if isSelectedSpanIDPresent then (selectedSpan spans selectedSpanID).toList else []) ++
      (bucketedSpans spans startTime endTime).flatten)

/-- `FindIndexForSelectedSpan`: the last level with the span, or the first level. -/
def findIndexForSelectedSpan (spans : List (List FlamegraphSpan)) (selectedSpanId : String) : Nat :=
  ((List.range spans.length).filter fun i =>
    (spans.getD i []).any fun span => span.spanID = selectedSpanId).getLast?.getD 0

/-- The levels that `GetSelectedSpansForFlamegraphForRequest` returns: 20 before the selected one,
and 30 from it on, moved to where there are levels. -/
def levelWindow (selectedIndex levels : Nat) : List Nat :=
  let lowerLimit : Int := selectedIndex - 20
  let upperLimit : Int := selectedIndex + 30
  let upperLimit := if lowerLimit < 0 then upperLimit - lowerLimit else upperLimit
  let lowerLimit := if lowerLimit < 0 then 0 else lowerLimit
  let lowerLimit := if levels < upperLimit then lowerLimit - (upperLimit - levels) else lowerLimit
  let upperLimit := if levels < upperLimit then (levels : Int) else upperLimit
  let lowerLimit := if lowerLimit < 0 then 0 else lowerLimit
  (List.range levels).filter fun i => lowerLimit ≤ i ∧ i < upperLimit

/-- `GetSelectedSpansForFlamegraphForRequest`. -/
def getSelectedSpansForFlamegraphForRequest (S : Sorter) (selectedSpanID : String)
    (selectedSpans : List (List FlamegraphSpan)) (startTime endTime : Nat) :
    Option (List (List FlamegraphSpan)) :=
  let selectedIndex :=
    if selectedSpanID ≠ "" then findIndexForSelectedSpan selectedSpans selectedSpanID else 0
  (levelWindow selectedIndex selectedSpans.length).mapM fun i =>
    let level := selectedSpans.getD i []
    if flamegraphSpanLimitPerLevel < level.length then
      getLatencyAndTimestampBucketedSpans S level selectedSpanID (i = selectedIndex) startTime
        endTime
    else some level

/-! ## What a sample should be -/

/-- The part of the range that a start time lies in, of 50 equal ones; the last one has its end. -/
def partOf (startTime endTime time : Nat) : Nat :=
  min 49 ((time - startTime) * 50 / (endTime - startTime))

/-- A fair sample of a level. -/
structure FairSample (spans : List FlamegraphSpan) (selectedSpanID : String)
    (startTime endTime : Nat) (sample : List FlamegraphSpan) : Prop where
  subset : ∀ x ∈ sample, x ∈ spans
  once : sample.Nodup
  /-- The five longest spans, one choice of them where others are as long. -/
  longest : ∃ top : List FlamegraphSpan, top.length = 5 ∧ top.Nodup ∧ (∀ x ∈ top, x ∈ sample) ∧
    ∀ x ∈ spans, x ∉ top → ∀ y ∈ top, x.durationNano ≤ y.durationNano
  selected : ∀ x ∈ spans, x.spanID = selectedSpanID → x ∈ sample
  parts : ∀ x ∈ spans, ∃ y ∈ sample,
    partOf startTime endTime y.timeUnixNano = partOf startTime endTime x.timeUnixNano

/-- Among the first two of its bucket, in the order of the sort. -/
def KeptInBucket (sorted : List FlamegraphSpan) (startTime endTime : Nat) (x : FlamegraphSpan) :
    Prop :=
  bucketIndex startTime endTime x < flamegraphSamplingBucketCount ∧
    (sorted.takeWhile fun y => y ≠ x).countP
      (fun y => bucketIndex startTime endTime y = bucketIndex startTime endTime x) < 2

instance (sorted : List FlamegraphSpan) (startTime endTime : Nat) (x : FlamegraphSpan) :
    Decidable (KeptInBucket sorted startTime endTime x) :=
  inferInstanceAs (Decidable (_ ∧ _))

/-- The level is sampled fairly: the five longest spans start behind the last bucket, the selected
span is none of them and not among the first two of its bucket, and every part with a span has one
of these. -/
structure SampledFairly (S : Sorter) (spans : List FlamegraphSpan) (selectedSpanID : String)
    (startTime endTime : Nat) : Prop where
  longest : ∀ x ∈ (sortByLatency S spans).take 5, 50 ≤ bucketIndex startTime endTime x
  selected : ∀ x ∈ spans, x.spanID = selectedSpanID → x ∉ (sortByLatency S spans).take 5 ∧
    ¬ KeptInBucket (sortByLatency S spans) startTime endTime x
  parts : ∀ x ∈ spans, ∃ y ∈ spans,
    partOf startTime endTime y.timeUnixNano = partOf startTime endTime x.timeUnixNano ∧
      (y ∈ (sortByLatency S spans).take 5 ∨ y.spanID = selectedSpanID ∨
        KeptInBucket (sortByLatency S spans) startTime endTime y)

/-! ## The first of a bucket -/

section Lists

variable {α : Type} [DecidableEq α] {l : List α} {p : α → Bool} {x : α}

/-- Who is among the first of those with a property: fewer of them come before. -/
theorem mem_take_filter_iff : ∀ {l : List α}, l.Nodup → ∀ k : Nat,
    (x ∈ (l.filter p).take k ↔ x ∈ l ∧ p x ∧ (l.takeWhile fun y => y ≠ x).countP p < k) := by
  intro l
  induction l with
  | nil => intro _ k; simp
  | cons a l ih =>
    intro hnodup k
    obtain ⟨ha, hnodup⟩ := List.nodup_cons.1 hnodup
    by_cases hax : a = x
    · subst hax
      have hnot : ∀ j, a ∉ (l.filter p).take j :=
        fun j h => ha (List.mem_filter.1 (List.mem_of_mem_take h)).1
      rw [List.takeWhile_cons_of_neg (by simp), List.countP_nil]
      cases hp : p a with
      | false =>
        rw [List.filter_cons_of_neg (by simp [hp])]
        simp [hnot k]
      | true =>
        rw [List.filter_cons_of_pos hp]
        cases k with
        | zero => simp
        | succ k => simp
    · have hne : x ≠ a := fun h => hax h.symm
      rw [List.takeWhile_cons_of_pos (by simpa using hax), List.mem_cons, or_iff_right hne]
      cases hp : p a with
      | false =>
        rw [List.filter_cons_of_neg (by simp [hp]), List.countP_cons_of_neg (by simp [hp])]
        exact ih hnodup k
      | true =>
        rw [List.filter_cons_of_pos hp, List.countP_cons_of_pos hp]
        cases k with
        | zero => simp
        | succ k =>
          rw [List.take_succ_cons, List.mem_cons, or_iff_right hne, ih hnodup k,
            Nat.succ_lt_succ_iff]

omit [DecidableEq α] in
/-- Where some of the first `m` have a property, the very first with it is among them. -/
theorem exists_first (m : Nat) (hx : x ∈ l.take m) (hp : p x) :
    ∃ y ∈ l.take m, p y ∧ y ∈ (l.filter p).take 2 := by
  have hsplit : l.filter p = (l.take m).filter p ++ (l.drop m).filter p := by
    rw [← List.filter_append, List.take_append_drop]
  cases hfirst : (l.take m).filter p with
  | nil => exact absurd (List.mem_filter.2 ⟨hx, hp⟩) (hfirst ▸ List.not_mem_nil)
  | cons y ys =>
    have hy : y ∈ (l.take m).filter p := hfirst ▸ List.mem_cons_self
    refine ⟨y, (List.mem_filter.1 hy).1, (List.mem_filter.1 hy).2, ?_⟩
    rw [hsplit, hfirst, List.cons_append, List.take_succ_cons]
    exact List.mem_cons_self

end Lists

/-! ## The three selections -/

section Level

variable {S : Sorter} {spans : List FlamegraphSpan} {selectedSpanID : String}
  {startTime endTime : Nat} {x : FlamegraphSpan}

@[simp] theorem mem_sortByLatency : x ∈ sortByLatency S spans ↔ x ∈ spans := mem_byKey S

theorem nodup_sortByLatency (hids : (spans.map FlamegraphSpan.spanID).Nodup) :
    (sortByLatency S spans).Nodup :=
  (byKey_perm S _ spans).nodup_iff.2 hids.of_map

/-- The first five are the longest. -/
theorem longest_sortByLatency (hx : x ∈ spans) (hnot : x ∉ (sortByLatency S spans).take 5)
    {y : FlamegraphSpan} (hy : y ∈ (sortByLatency S spans).take 5) :
    x.durationNano ≤ y.durationNano := by
  have hrest : x ∈ (sortByLatency S spans).drop 5 := by
    have hmem : x ∈ (sortByLatency S spans).take 5 ++ (sortByLatency S spans).drop 5 := by
      rw [List.take_append_drop]
      exact mem_sortByLatency.2 hx
    exact (List.mem_append.1 hmem).resolve_left hnot
  have hsorted := pairwise_byKey S (fun span => OrderDual.toDual span.durationNano) spans
  have hsorted : ((sortByLatency S spans).take 5 ++ (sortByLatency S spans).drop 5).Pairwise
      fun a b => OrderDual.toDual a.durationNano ≤ OrderDual.toDual b.durationNano := by
    rw [List.take_append_drop]
    exact hsorted
  exact (List.pairwise_append.1 hsorted).2.2 y hy x hrest

/-- The selected span is the one of the id. -/
theorem selectedSpan_eq_some_iff (hids : (spans.map FlamegraphSpan.spanID).Nodup) :
    selectedSpan (sortByLatency S spans) selectedSpanID = some x ↔
      x ∈ spans ∧ x.spanID = selectedSpanID := by
  have hof : ∀ y, selectedSpan (sortByLatency S spans) selectedSpanID = some y →
      y ∈ spans ∧ y.spanID = selectedSpanID := by
    intro y hy
    obtain ⟨hmem, hid⟩ := List.mem_filter.1 (List.mem_of_getLast? hy)
    exact ⟨mem_sortByLatency.1 hmem, of_decide_eq_true hid⟩
  constructor
  · exact hof x
  · rintro ⟨hx, rfl⟩
    cases hsel : selectedSpan (sortByLatency S spans) x.spanID with
    | none =>
      have hempty := List.getLast?_eq_none_iff.1 hsel
      have hmem : x ∈ (sortByLatency S spans).filter fun span => span.spanID = x.spanID :=
        List.mem_filter.2 ⟨mem_sortByLatency.2 hx, by simp⟩
      rw [hempty] at hmem
      cases hmem
    | some y =>
      obtain ⟨hy, hid⟩ := hof y hsel
      rw [List.inj_on_of_nodup_map hids hy hx hid]

variable (htimes : ∀ x ∈ spans, startTime ≤ x.timeUnixNano ∧ x.timeUnixNano ≤ endTime)

include htimes in
/-- On a level within the range, every span has a bucket. -/
theorem inBucket_iff (hx : x ∈ spans) {i : Nat} :
    inBucket startTime endTime i x = true ↔ bucketIndex startTime endTime x = i := by
  simp [inBucket, htimes x hx]

include htimes in
/-- What the buckets keep. -/
theorem mem_bucketedSpans_iff (hids : (spans.map FlamegraphSpan.spanID).Nodup) :
    x ∈ (bucketedSpans (sortByLatency S spans) startTime endTime).flatten ↔
      x ∈ spans ∧ KeptInBucket (sortByLatency S spans) startTime endTime x := by
  have hcount : x ∈ spans → ((sortByLatency S spans).takeWhile fun y => y ≠ x).countP
      (inBucket startTime endTime (bucketIndex startTime endTime x)) =
      ((sortByLatency S spans).takeWhile fun y => y ≠ x).countP
        (fun y => bucketIndex startTime endTime y = bucketIndex startTime endTime x) := by
    intro _
    apply List.countP_congr
    intro y hy
    rw [inBucket_iff htimes (mem_sortByLatency.1 ((List.takeWhile_sublist _).subset hy))]
    exact (decide_eq_true_iff).symm
  rw [List.mem_flatten]
  constructor
  · rintro ⟨kept, hkept, hx⟩
    obtain ⟨i, hi, rfl⟩ := List.mem_map.1 hkept
    obtain ⟨hmem, hin, hbefore⟩ := (mem_take_filter_iff (nodup_sortByLatency hids) 2).1 hx
    have hmem := mem_sortByLatency.1 hmem
    obtain rfl := (inBucket_iff htimes hmem).1 hin
    refine ⟨hmem, List.mem_range.1 hi, ?_⟩
    rw [← hcount hmem]
    exact hbefore
  · rintro ⟨hmem, hlt, hbefore⟩
    refine ⟨_, List.mem_map.2 ⟨bucketIndex startTime endTime x, List.mem_range.2 hlt, rfl⟩, ?_⟩
    refine (mem_take_filter_iff (nodup_sortByLatency hids) 2).2
      ⟨mem_sortByLatency.2 hmem, (inBucket_iff htimes hmem).2 rfl, ?_⟩
    rw [hcount hmem]
    exact hbefore

/-- No span is in two buckets. -/
theorem nodup_bucketedSpans {sorted : List FlamegraphSpan} (hnodup : sorted.Nodup) :
    (bucketedSpans sorted startTime endTime).flatten.Nodup := by
  rw [List.nodup_flatten]
  constructor
  · intro kept hkept
    obtain ⟨i, -, rfl⟩ := List.mem_map.1 hkept
    exact (hnodup.filter _).sublist (List.take_sublist _ _)
  · rw [bucketedSpans, List.pairwise_map]
    apply List.nodup_range.imp
    intro i j hij y hi hj
    have hbucket : ∀ k, y ∈ (sorted.filter (inBucket startTime endTime k)).take 2 →
        bucketIndex startTime endTime y = k := by
      intro k hk
      have hin := (List.mem_filter.1 (List.mem_of_mem_take hk)).2
      simp only [inBucket, Bool.and_eq_true, decide_eq_true_eq] at hin
      exact hin.2
    exact hij ((hbucket i hi).symm.trans (hbucket j hj))

/-- The selected span as a list, as the function appends it. -/
def selectedList (S : Sorter) (spans : List FlamegraphSpan) (selectedSpanID : String)
    (isSelectedSpanIDPresent : Bool) : List FlamegraphSpan :=
  if isSelectedSpanIDPresent then
    (selectedSpan (sortByLatency S spans) selectedSpanID).toList
  else []

variable {isSelectedSpanIDPresent : Bool}

theorem mem_selectedList_iff (hids : (spans.map FlamegraphSpan.spanID).Nodup)
    (hflag : selectedSpanID ∈ spans.map FlamegraphSpan.spanID → isSelectedSpanIDPresent = true) :
    x ∈ selectedList S spans selectedSpanID isSelectedSpanIDPresent ↔
      x ∈ spans ∧ x.spanID = selectedSpanID := by
  cases hpresent : isSelectedSpanIDPresent with
  | true => rw [selectedList, if_pos rfl, Option.mem_toList, selectedSpan_eq_some_iff hids]
  | false =>
    constructor
    · intro h
      cases h
    · rintro ⟨hx, rfl⟩
      rw [hflag (List.mem_map_of_mem hx)] at hpresent
      cases hpresent

theorem nodup_selectedList :
    (selectedList S spans selectedSpanID isSelectedSpanIDPresent).Nodup := by
  rw [selectedList]
  cases isSelectedSpanIDPresent with
  | false => exact List.nodup_nil
  | true =>
    cases selectedSpan (sortByLatency S spans) selectedSpanID with
    | none => exact List.nodup_nil
    | some y => exact List.nodup_singleton y

/-- What the sample has. -/
def sampleOf (S : Sorter) (spans : List FlamegraphSpan) (selectedSpanID : String)
    (isSelectedSpanIDPresent : Bool) (startTime endTime : Nat) : List FlamegraphSpan :=
  (sortByLatency S spans).take 5 ++
    (selectedList S spans selectedSpanID isSelectedSpanIDPresent ++
      (bucketedSpans (sortByLatency S spans) startTime endTime).flatten)

theorem getLatencyAndTimestampBucketedSpans_eq (hlen : 5 ≤ spans.length) :
    getLatencyAndTimestampBucketedSpans S spans selectedSpanID isSelectedSpanIDPresent startTime
        endTime =
      some (sampleOf S spans selectedSpanID isSelectedSpanIDPresent startTime endTime) := by
  have hlen : ¬ (sortByLatency S spans).length < flamegraphTopLatencySpanCount := by
    rw [sortByLatency, length_byKey]
    exact Nat.not_lt.2 hlen
  simp only [getLatencyAndTimestampBucketedSpans, if_neg hlen, sampleOf, List.append_assoc]
  rfl

theorem sampleOf_subset :
    sampleOf S spans selectedSpanID isSelectedSpanIDPresent startTime endTime ⊆ spans := by
  intro y hy
  rw [sampleOf, List.mem_append, List.mem_append] at hy
  rcases hy with htop | hselected | hkept
  · exact mem_sortByLatency.1 (List.mem_of_mem_take htop)
  · rw [selectedList] at hselected
    split at hselected
    · have hlast := List.mem_of_getLast? (Option.mem_toList.1 hselected)
      exact mem_sortByLatency.1 (List.mem_filter.1 hlast).1
    · cases hselected
  · obtain ⟨kept, hkept, hy⟩ := List.mem_flatten.1 hkept
    obtain ⟨i, -, rfl⟩ := List.mem_map.1 hkept
    exact mem_sortByLatency.1 (List.mem_filter.1 (List.mem_of_mem_take hy)).1

include htimes in
theorem mem_sampleOf_iff (hids : (spans.map FlamegraphSpan.spanID).Nodup)
    (hflag : selectedSpanID ∈ spans.map FlamegraphSpan.spanID → isSelectedSpanIDPresent = true) :
    x ∈ sampleOf S spans selectedSpanID isSelectedSpanIDPresent startTime endTime ↔
      x ∈ spans ∧ (x ∈ (sortByLatency S spans).take 5 ∨ x.spanID = selectedSpanID ∨
        KeptInBucket (sortByLatency S spans) startTime endTime x) := by
  have htop : x ∈ (sortByLatency S spans).take 5 → x ∈ spans :=
    fun h => mem_sortByLatency.1 (List.mem_of_mem_take h)
  rw [sampleOf, List.mem_append, List.mem_append, mem_selectedList_iff hids hflag,
    mem_bucketedSpans_iff htimes hids]
  tauto

include htimes in
/-- When the sample has each span once. -/
theorem nodup_sampleOf_iff (hids : (spans.map FlamegraphSpan.spanID).Nodup)
    (hflag : selectedSpanID ∈ spans.map FlamegraphSpan.spanID → isSelectedSpanIDPresent = true) :
    (sampleOf S spans selectedSpanID isSelectedSpanIDPresent startTime endTime).Nodup ↔
      (∀ x ∈ (sortByLatency S spans).take 5, 50 ≤ bucketIndex startTime endTime x) ∧
      ∀ x ∈ spans, x.spanID = selectedSpanID → x ∉ (sortByLatency S spans).take 5 ∧
        ¬ KeptInBucket (sortByLatency S spans) startTime endTime x := by
  have hsorted : (sortByLatency S spans).Nodup := nodup_sortByLatency hids
  rw [sampleOf, List.nodup_append', List.nodup_append']
  constructor
  · rintro ⟨-, ⟨-, -, hkept⟩, htop⟩
    constructor
    · intro x hx
      by_contra hlow
      have hlow : bucketIndex startTime endTime x < flamegraphSamplingBucketCount :=
        Nat.not_le.1 hlow
      have hmem : x ∈ spans := mem_sortByLatency.1 (List.mem_of_mem_take hx)
      -- the first of the five in the same bucket is kept there
      obtain ⟨y, hy, -, hfirst⟩ := exists_first 5 hx ((inBucket_iff htimes hmem).2 rfl)
      refine htop hy (List.mem_append_right _ (List.mem_flatten.2 ⟨_, ?_, hfirst⟩))
      exact List.mem_map.2 ⟨_, List.mem_range.2 hlow, rfl⟩
    · intro x hx hid
      have hsel := (mem_selectedList_iff (S := S) hids hflag).2 ⟨hx, hid⟩
      refine ⟨fun hxtop => htop hxtop (List.mem_append_left _ hsel), fun hxkept => ?_⟩
      exact hkept hsel ((mem_bucketedSpans_iff htimes hids).2 ⟨hx, hxkept⟩)
  · rintro ⟨hlongest, hselected⟩
    refine ⟨hsorted.sublist (List.take_sublist _ _), ⟨nodup_selectedList,
      nodup_bucketedSpans hsorted, ?_⟩, ?_⟩
    · intro x hsel hkept
      obtain ⟨hx, hid⟩ := (mem_selectedList_iff hids hflag).1 hsel
      exact (hselected x hx hid).2 ((mem_bucketedSpans_iff htimes hids).1 hkept).2
    · intro x htop hother
      rcases List.mem_append.1 hother with hsel | hkept
      · obtain ⟨hx, hid⟩ := (mem_selectedList_iff hids hflag).1 hsel
        exact (hselected x hx hid).1 htop
      · have hlow := ((mem_bucketedSpans_iff htimes hids).1 hkept).2.1
        exact Nat.not_lt.2 (hlongest x htop) hlow

/-- Where 50 divides the range, the buckets are its 50 equal parts. -/
theorem bucketIndex_of_dvd (hmax : endTime < 2 ^ 64) (hlt : startTime < endTime)
    (hdvd : 50 ∣ endTime - startTime) :
    bucketIndex startTime endTime x =
      (x.timeUnixNano - startTime) * 50 / (endTime - startTime) := by
  have hsub := subUint64_of_le (Nat.le_of_lt hlt) hmax
  obtain ⟨size, hsize⟩ := hdvd
  have hpos : 0 < size := by omega
  have hbucket : bucketSize startTime endTime = size := by
    have hdiv : subUint64 endTime startTime / flamegraphSamplingBucketCount = size := by
      rw [hsub, hsize, flamegraphSamplingBucketCount, Nat.mul_div_cancel_left _ (by decide)]
    simp only [bucketSize, hdiv, if_neg (Nat.ne_of_gt hpos)]
  rw [bucketIndex, hbucket, hsize, Nat.mul_comm 50 size]
  exact (Nat.mul_div_mul_right _ _ (by decide)).symm

include htimes in
/-- A span behind the last bucket then starts at the very end. -/
theorem bucketIndex_ge_iff_of_dvd (hmax : endTime < 2 ^ 64) (hlt : startTime < endTime)
    (hdvd : 50 ∣ endTime - startTime) (hx : x ∈ spans) :
    50 ≤ bucketIndex startTime endTime x ↔ x.timeUnixNano = endTime := by
  have hrange := htimes x hx
  rw [bucketIndex_of_dvd hmax hlt hdvd, Nat.le_div_iff_mul_le (Nat.sub_pos_of_lt hlt)]
  omega

/-- Every part has a span of the sample then, as the last part has the five longest. -/
theorem parts_of_dvd (hlen : 5 ≤ spans.length) (hids : (spans.map FlamegraphSpan.spanID).Nodup)
    (hmax : endTime < 2 ^ 64) (hlt : startTime < endTime) (hdvd : 50 ∣ endTime - startTime)
    (hlongest : ∀ x ∈ (sortByLatency S spans).take 5, 50 ≤ bucketIndex startTime endTime x)
    (hx : x ∈ spans) :
    ∃ y ∈ spans, partOf startTime endTime y.timeUnixNano = partOf startTime endTime x.timeUnixNano ∧
      (y ∈ (sortByLatency S spans).take 5 ∨ y.spanID = selectedSpanID ∨
        KeptInBucket (sortByLatency S spans) startTime endTime y) := by
  have hpart : ∀ z : FlamegraphSpan, partOf startTime endTime z.timeUnixNano =
      min 49 (bucketIndex startTime endTime z) := by
    intro z
    rw [partOf, bucketIndex_of_dvd hmax hlt hdvd]
  have hlength : (sortByLatency S spans).length = spans.length := by
    rw [sortByLatency, length_byKey]
  by_cases hin : bucketIndex startTime endTime x < flamegraphSamplingBucketCount
  · -- the first span of the bucket is kept
    have hmem : x ∈ (sortByLatency S spans).take spans.length := by
      rw [← hlength, List.take_length]
      exact mem_sortByLatency.2 hx
    obtain ⟨y, -, hy, hfirst⟩ := exists_first (p := fun y =>
      decide (bucketIndex startTime endTime y = bucketIndex startTime endTime x)) _ hmem (by simp)
    have hy := of_decide_eq_true hy
    obtain ⟨hmem, -, hbefore⟩ := (mem_take_filter_iff (nodup_sortByLatency hids) 2).1 hfirst
    refine ⟨y, mem_sortByLatency.1 hmem, ?_, .inr (.inr ⟨hy ▸ hin, ?_⟩)⟩
    · rw [hpart, hpart, hy]
    · rw [hy]
      exact hbefore
  · -- behind the last bucket there are the five longest
    obtain ⟨y, hhead⟩ : ∃ y, y ∈ (sortByLatency S spans).take 5 := by
      apply List.exists_mem_of_length_pos
      rw [List.length_take, hlength]
      omega
    refine ⟨y, mem_sortByLatency.1 (List.mem_of_mem_take hhead), ?_, .inl hhead⟩
    have hfar := hlongest _ hhead
    have hin : 50 ≤ bucketIndex startTime endTime x := Nat.not_lt.1 hin
    rw [hpart, hpart]
    omega

include htimes in
/-- A condition on the spans alone, where 50 divides the range. -/
theorem sampledFairly_iff_of_dvd (hlen : 5 ≤ spans.length)
    (hids : (spans.map FlamegraphSpan.spanID).Nodup) (hmax : endTime < 2 ^ 64)
    (hlt : startTime < endTime) (hdvd : 50 ∣ endTime - startTime) :
    SampledFairly S spans selectedSpanID startTime endTime ↔
      (∀ x ∈ (sortByLatency S spans).take 5, x.timeUnixNano = endTime) ∧
      ∀ x ∈ spans, x.spanID = selectedSpanID → x ∉ (sortByLatency S spans).take 5 ∧
        ¬ KeptInBucket (sortByLatency S spans) startTime endTime x := by
  have hend : (∀ x ∈ (sortByLatency S spans).take 5, 50 ≤ bucketIndex startTime endTime x) ↔
      ∀ x ∈ (sortByLatency S spans).take 5, x.timeUnixNano = endTime := by
    refine forall₂_congr fun x hx => ?_
    exact bucketIndex_ge_iff_of_dvd htimes hmax hlt hdvd
      (mem_sortByLatency.1 (List.mem_of_mem_take hx))
  constructor
  · exact fun h => ⟨hend.1 h.longest, h.selected⟩
  · rintro ⟨hlongest, hselected⟩
    have hlongest := hend.2 hlongest
    exact ⟨hlongest, hselected,
      fun x hx => parts_of_dvd hlen hids hmax hlt hdvd hlongest hx⟩

/-- The five longest are there in any case. -/
theorem longest_sampleOf (hids : (spans.map FlamegraphSpan.spanID).Nodup)
    (hlen : 5 ≤ spans.length) :
    ∃ top : List FlamegraphSpan, top.length = 5 ∧ top.Nodup ∧
      (∀ x ∈ top, x ∈ sampleOf S spans selectedSpanID isSelectedSpanIDPresent startTime endTime) ∧
      ∀ x ∈ spans, x ∉ top → ∀ y ∈ top, x.durationNano ≤ y.durationNano := by
  refine ⟨(sortByLatency S spans).take 5, ?_, ?_, ?_, ?_⟩
  · rw [List.length_take, sortByLatency, length_byKey, Nat.min_eq_left hlen]
  · exact (nodup_sortByLatency hids).sublist (List.take_sublist _ _)
  · exact fun x hx => List.mem_append_left _ hx
  · exact fun x hx hnot y hy => longest_sortByLatency hx hnot hy

include htimes in
/-- When the sample of a level is fair. -/
theorem fairSample_sampleOf_iff (hlen : 5 ≤ spans.length)
    (hids : (spans.map FlamegraphSpan.spanID).Nodup)
    (hflag : selectedSpanID ∈ spans.map FlamegraphSpan.spanID → isSelectedSpanIDPresent = true) :
    FairSample spans selectedSpanID startTime endTime
        (sampleOf S spans selectedSpanID isSelectedSpanIDPresent startTime endTime) ↔
      SampledFairly S spans selectedSpanID startTime endTime := by
  constructor
  · intro h
    obtain ⟨hlongest, hselected⟩ := (nodup_sampleOf_iff htimes hids hflag).1 h.once
    refine ⟨hlongest, hselected, fun x hx => ?_⟩
    obtain ⟨y, hy, hpart⟩ := h.parts x hx
    obtain ⟨hy, hwhy⟩ := (mem_sampleOf_iff htimes hids hflag).1 hy
    exact ⟨y, hy, hpart, hwhy⟩
  · intro h
    refine ⟨?_, ?_, longest_sampleOf hids hlen, ?_, ?_⟩
    · exact fun x hx => ((mem_sampleOf_iff htimes hids hflag).1 hx).1
    · exact (nodup_sampleOf_iff htimes hids hflag).2 ⟨h.longest, h.selected⟩
    · exact fun x hx hid => (mem_sampleOf_iff htimes hids hflag).2 ⟨hx, .inr (.inl hid)⟩
    · intro x hx
      obtain ⟨y, hy, hpart, hwhy⟩ := h.parts x hx
      exact ⟨y, (mem_sampleOf_iff htimes hids hflag).2 ⟨hy, hwhy⟩, hpart⟩

include htimes in
/-- A level of more than 100 spans is sampled: each span once, with the five longest and the
selected one, and one of every part that has some, exactly when the five longest start behind the
last bucket, the selected span is neither one of them nor among the first two of its bucket, and
each part with a span has one of the five, the selected one or one of the first two of a bucket.
Where 50 divides the range, the last of these follows: the five longest start at the very end. -/
theorem sample_fair_iff (hlen : flamegraphSpanLimitPerLevel < spans.length)
    (hids : (spans.map FlamegraphSpan.spanID).Nodup)
    (hflag : selectedSpanID ∈ spans.map FlamegraphSpan.spanID → isSelectedSpanIDPresent = true) :
    ∃ sample, getLatencyAndTimestampBucketedSpans S spans selectedSpanID isSelectedSpanIDPresent
        startTime endTime = some sample ∧
      (FairSample spans selectedSpanID startTime endTime sample ↔
        SampledFairly S spans selectedSpanID startTime endTime) ∧
      (endTime < 2 ^ 64 → startTime < endTime → 50 ∣ endTime - startTime →
        (FairSample spans selectedSpanID startTime endTime sample ↔
          (∀ x ∈ (sortByLatency S spans).take 5, x.timeUnixNano = endTime) ∧
          ∀ x ∈ spans, x.spanID = selectedSpanID → x ∉ (sortByLatency S spans).take 5 ∧
            ¬ KeptInBucket (sortByLatency S spans) startTime endTime x)) := by
  have hlen : 5 ≤ spans.length := Nat.le_trans (by decide) (Nat.le_of_lt hlen)
  have hfair := fairSample_sampleOf_iff (S := S) htimes hlen hids hflag
  refine ⟨_, getLatencyAndTimestampBucketedSpans_eq hlen, hfair, fun hmax hlt hdvd => ?_⟩
  exact hfair.trans (sampledFairly_iff_of_dvd htimes hlen hids hmax hlt hdvd)

/-- The request marks the level of the selected span, as the ids of a trace are all different. -/
theorem eq_findIndexForSelectedSpan {levels : List (List FlamegraphSpan)} {level : Nat}
    (hids : (levels.flatten.map FlamegraphSpan.spanID).Nodup)
    (hmem : selectedSpanID ∈ (levels.getD level []).map FlamegraphSpan.spanID) :
    level = findIndexForSelectedSpan levels selectedSpanID := by
  have hany : ∀ i, (levels.getD i []).any (fun span => span.spanID = selectedSpanID) = true ↔
      selectedSpanID ∈ (levels.getD i []).map FlamegraphSpan.spanID := by
    intro i
    simp [List.any_eq_true, List.mem_map]
  have hlt : ∀ i, selectedSpanID ∈ (levels.getD i []).map FlamegraphSpan.spanID →
      i < levels.length := by
    intro i hi
    by_contra hout
    rw [List.getD_eq_getElem?_getD, List.getElem?_eq_none (Nat.not_lt.1 hout)] at hi
    cases hi
  -- two levels with the span would have its id twice
  have hunique : ∀ i j, i < j → selectedSpanID ∈ (levels.getD i []).map FlamegraphSpan.spanID →
      selectedSpanID ∉ (levels.getD j []).map FlamegraphSpan.spanID := by
    intro i j hij hi hj
    have hjlt := hlt j hj
    have hilt := hlt i hi
    rw [List.getD_eq_getElem _ _ hilt] at hi
    rw [List.getD_eq_getElem _ _ hjlt] at hj
    rw [List.map_flatten, List.nodup_flatten, List.pairwise_map] at hids
    exact List.pairwise_iff_getElem.1 hids.2 i j hilt hjlt hij hi hj
  have hin : level ∈ (List.range levels.length).filter fun i =>
      (levels.getD i []).any fun span => span.spanID = selectedSpanID :=
    List.mem_filter.2 ⟨List.mem_range.2 (hlt level hmem), (hany level).2 hmem⟩
  rw [findIndexForSelectedSpan]
  cases hlast : ((List.range levels.length).filter fun i =>
      (levels.getD i []).any fun span => span.spanID = selectedSpanID).getLast? with
  | none =>
    rw [List.getLast?_eq_none_iff.1 hlast] at hin
    cases hin
  | some j =>
    have hj := (hany j).1 (List.mem_filter.1 (List.mem_of_getLast? hlast)).2
    rcases Nat.lt_trichotomy level j with h | h | h
    · exact absurd hj (hunique level j h hmem)
    · exact h
    · exact absurd hmem (hunique j level h hj)

/-- The window is 50 levels long, or has all levels. -/
theorem mem_levelWindow {selectedIndex levels i : Nat} :
    i ∈ levelWindow selectedIndex levels ↔
      i < levels ∧ i ∈ List.range' (min (selectedIndex - 20) (levels - 50)) 50 := by
  simp only [levelWindow, List.mem_filter, List.mem_range, List.mem_range'_1, decide_eq_true_eq]
  split_ifs <;> omega

/-- A request is answered with at most 50 levels and the selected span. -/
theorem getSelectedSpansForFlamegraphForRequest_shows (S : Sorter)
    {levels : List (List FlamegraphSpan)} (hids : (levels.flatten.map FlamegraphSpan.spanID).Nodup)
    {x : FlamegraphSpan} (hx : x ∈ levels.flatten) (hname : x.spanID ≠ "")
    (startTime endTime : Nat) :
    ∃ response, getSelectedSpansForFlamegraphForRequest S x.spanID levels startTime endTime =
        some response ∧
      x ∈ response.flatten ∧ response.length ≤ flamegraphSpanLevelLimit ∧
      ∀ shown ∈ response, ∃ level ∈ levels, shown ⊆ level := by
  obtain ⟨level, hlevel, hx⟩ := List.mem_flatten.1 hx
  obtain ⟨k, hk, rfl⟩ := List.mem_iff_getElem.1 hlevel
  have hselected : k = findIndexForSelectedSpan levels x.spanID := by
    apply eq_findIndexForSelectedSpan hids
    rw [List.getD_eq_getElem _ _ hk]
    exact List.mem_map_of_mem hx
  let shown (i : Nat) : List FlamegraphSpan :=
    if flamegraphSpanLimitPerLevel < (levels.getD i []).length then
      sampleOf S (levels.getD i []) x.spanID (i = k) startTime endTime
    else levels.getD i []
  refine ⟨(levelWindow k levels.length).map shown, ?_, ?_, ?_, ?_⟩
  · rw [getSelectedSpansForFlamegraphForRequest, if_pos hname, ← hselected]
    change _ = pure _
    rw [← List.mapM_pure]
    congr 1
    funext i
    dsimp only [shown]
    split
    · next hlong =>
        apply getLatencyAndTimestampBucketedSpans_eq
        exact Nat.le_trans (by decide) (Nat.le_of_lt hlong)
    · rfl
  · refine List.mem_flatten.2 ⟨shown k, List.mem_map_of_mem (mem_levelWindow.2 ?_), ?_⟩
    · rw [List.mem_range'_1]
      omega
    · dsimp only [shown]
      rw [List.getD_eq_getElem _ _ hk]
      split
      · -- the selected span is in the sample whatever the other selections are
        have hown : (levels[k].map FlamegraphSpan.spanID).Nodup :=
          hids.sublist ((List.sublist_flatten_of_mem hlevel).map _)
        apply List.mem_append_right
        apply List.mem_append_left
        exact (mem_selectedList_iff hown fun _ => by simp).2 ⟨hx, rfl⟩
      · exact hx
  · rw [List.length_map]
    have hsub : levelWindow k levels.length ⊆
        List.range' (min (k - 20) (levels.length - 50)) 50 := fun i hi => (mem_levelWindow.1 hi).2
    have hle := (List.subperm_of_subset (List.nodup_range.filter _) hsub).length_le
    rwa [List.length_range'] at hle
  · intro level hshown
    obtain ⟨i, hi, rfl⟩ := List.mem_map.1 hshown
    have hi := (mem_levelWindow.1 hi).1
    refine ⟨levels[i], List.getElem_mem hi, ?_⟩
    dsimp only [shown]
    rw [List.getD_eq_getElem _ _ hi]
    split
    · exact sampleOf_subset
    · exact List.Subset.refl _

end Level

/-! ## Two levels of 101 spans -/

/-- A span with an id of its own. -/
def numberedSpan (i time duration : Nat) : FlamegraphSpan :=
  ⟨String.ofList (List.replicate i 's'), time, duration⟩

/-- Some spans, one after the other. -/
def numberedLevel (time duration : Nat → Nat) : List FlamegraphSpan :=
  (List.range 101).map fun i => numberedSpan i (time i) (duration i)

theorem nodup_numberedLevel (time duration : Nat → Nat) :
    ((numberedLevel time duration).map FlamegraphSpan.spanID).Nodup := by
  rw [numberedLevel, List.map_map]
  apply List.nodup_range.map
  intro i j h
  have hchars : List.replicate i 's' = List.replicate j 's' := String.ofList_injective h
  simpa using congrArg List.length hchars

theorem mem_numberedLevel {time duration : Nat → Nat} {x : FlamegraphSpan} :
    x ∈ numberedLevel time duration ↔ ∃ i < 101, x = numberedSpan i (time i) (duration i) := by
  simp [numberedLevel, eq_comm]

theorem none_notMem_numberedLevel (time duration : Nat → Nat) :
    "none" ∉ (numberedLevel time duration).map FlamegraphSpan.spanID := by
  intro h
  obtain ⟨x, hx, hid⟩ := List.mem_map.1 h
  obtain ⟨i, -, rfl⟩ := mem_numberedLevel.1 hx
  have hchars : List.replicate i 's' = "none".toList := by
    rw [← hid]
    exact String.toList_ofList.symm
  have hchar : 'n' ∈ List.replicate i 's' := hchars ▸ by decide
  exact absurd (List.eq_of_mem_replicate hchar) (by decide)

theorem sort_numberedLevel {time duration : Nat → Nat}
    (h : ∀ i j, i ≤ j → duration j ≤ duration i) :
    sortByLatency stable (numberedLevel time duration) = numberedLevel time duration := by
  apply stable_keepsOrder
  rw [numberedLevel, List.pairwise_map]
  exact List.pairwise_lt_range.imp fun hij => h _ _ (Nat.le_of_lt hij)

/-- Five long spans at the very end of a range of 99 nanoseconds, and 96 short ones at its start. -/
def endedLevel : List FlamegraphSpan :=
  numberedLevel (fun i => if i < 5 then 99 else 0) (fun i => if i < 5 then 2 else 1)

theorem sort_endedLevel : sortByLatency stable endedLevel = endedLevel := by
  apply sort_numberedLevel
  intro i j hij
  split_ifs <;> omega

theorem endedLevel_sampled :
    ∃ sample, getLatencyAndTimestampBucketedSpans stable endedLevel "none" false 0 99 =
        some sample ∧ FairSample endedLevel "none" 0 99 sample := by
  have htimes : ∀ x ∈ endedLevel, 0 ≤ x.timeUnixNano ∧ x.timeUnixNano ≤ 99 := by
    intro x hx
    obtain ⟨i, -, rfl⟩ := mem_numberedLevel.1 hx
    simp only [numberedSpan]
    split_ifs <;> omega
  have hnone := none_notMem_numberedLevel (fun i => if i < 5 then 99 else 0)
    (fun i => if i < 5 then 2 else 1)
  obtain ⟨sample, hsample, hfair, -⟩ := @sample_fair_iff stable endedLevel "none" 0 99 htimes false
    (by decide) (nodup_numberedLevel _ _) (fun h => absurd h hnone)
  refine ⟨sample, hsample, hfair.2 ⟨?_, ?_, ?_⟩⟩
  · rw [sort_endedLevel]
    decide
  · exact fun x hx hid => absurd (hid ▸ List.mem_map_of_mem hx) hnone
  · rw [sort_endedLevel]
    intro x hx
    obtain ⟨i, hi, rfl⟩ := mem_numberedLevel.1 hx
    by_cases hlong : i < 5
    · refine ⟨_, hx, rfl, .inl ?_⟩
      rw [endedLevel, numberedLevel, ← List.map_take]
      exact List.mem_map.2 ⟨i, by simpa using hlong, rfl⟩
    · refine ⟨numberedSpan 5 0 1, by decide, ?_, .inr (.inr (by decide))⟩
      rw [if_neg hlong]
      rfl

/-- Spans that start at each nanosecond from 0 to 100, each as long as its start time. -/
def evenLevel : List FlamegraphSpan := numberedLevel (fun i => 100 - i) (fun i => 100 - i)

/-- The second longest span is in the last bucket as well. -/
theorem evenLevel_repeats :
    ∃ sample, getLatencyAndTimestampBucketedSpans stable evenLevel "none" false 0 100 =
        some sample ∧ ¬ FairSample evenLevel "none" 0 100 sample := by
  have htimes : ∀ x ∈ evenLevel, 0 ≤ x.timeUnixNano ∧ x.timeUnixNano ≤ 100 := by
    intro x hx
    obtain ⟨i, -, rfl⟩ := mem_numberedLevel.1 hx
    simp only [numberedSpan]
    omega
  have hsort : sortByLatency stable evenLevel = evenLevel := by
    apply sort_numberedLevel
    intro i j hij
    omega
  refine ⟨_, getLatencyAndTimestampBucketedSpans_eq (by decide), fun h => ?_⟩
  have hlongest := ((nodup_sampleOf_iff htimes (nodup_numberedLevel _ _)
    fun hmem => absurd hmem (none_notMem_numberedLevel _ _)).1 h.once).1
  rw [hsort] at hlongest
  exact absurd (hlongest (numberedSpan 1 99 99) (by decide)) (by decide)

theorem getSelectedSpansForFlamegraphForRequest_shows_last :
    ∃ response, getSelectedSpansForFlamegraphForRequest stable (numberedSpan 100 0 0).spanID
        [evenLevel] 0 100 = some response ∧ numberedSpan 100 0 0 ∈ response.flatten := by
  have hids : ([evenLevel].flatten.map FlamegraphSpan.spanID).Nodup := by
    rw [List.flatten_singleton]
    exact nodup_numberedLevel _ _
  obtain ⟨response, hsome, hshown, -⟩ := getSelectedSpansForFlamegraphForRequest_shows stable hids
    (x := numberedSpan 100 0 0) (by decide) (by decide) 0 100
  exact ⟨response, hsome, hshown⟩

end Signoz.TraceDetail
