import Signoz.Querier.WindowList

/-!
# The buckets of a window

`makeBuckets` should cut a window into ranges that meet end to end, the latest first. The loop
subtracts a doubling bucket from an unsigned position, so it does exactly that when the scaled bounds
are in order and the buckets up to the one that reaches the start are together no longer than the
position of the end (`makeBuckets_partitions_iff`).
-/

namespace Signoz.Querier

/-- The ranges cut `[startNS, endNS)` up, the latest first. -/
structure Partitions (startNS endNS : Nat) (ranges : List TsRange) : Prop where
  nonempty : ranges ≠ []
  proper : ∀ r ∈ ranges, r.fromNS < r.toNS
  descending : ranges.Pairwise fun r earlier => earlier.toNS ≤ r.fromNS
  first : ∀ r ∈ ranges.head?, r.toNS = endNS
  adjacent : ranges.IsChain fun r next => r.fromNS = next.toNS
  last : ∀ r ∈ ranges.getLast?, r.fromNS = startNS

/-- No bucket reaches back beyond zero: with `k` buckets short of the start, one more fits. -/
def NoOverrun (startNS endNS : Nat) : Prop :=
  ∀ k, (2 ^ k - 1) * hourNanos < endNS - startNS → (2 ^ (k + 1) - 1) * hourNanos ≤ endNS

/-! ## Scaled epochs -/

/-- An epoch is scaled to 19 digits; zero stays zero, and what has 20 digits becomes zero. -/
theorem toNanoSecs_bounds (n : Nat) :
    toNanoSecs n = 0 ∨ 10 ^ 18 ≤ toNanoSecs n ∧ toNanoSecs n < 10 ^ 19 := by
  by_cases hzero : n = 0
  · exact .inl (by simp [toNanoSecs, hzero])
  have hpos : 0 < (Nat.toDigits 10 n).length := Nat.length_toDigits_pos
  obtain ⟨count, hcount⟩ : ∃ count, (Nat.toDigits 10 n).length = count + 1 :=
    ⟨_, (Nat.succ_pred_eq_of_pos hpos).symm⟩
  have hlt : n < 10 ^ (count + 1) :=
    (Nat.length_toDigits_le_iff (by decide) (Nat.succ_pos count)).1 hcount.le
  have hle : 10 ^ count ≤ n := by
    by_cases hc : count = 0
    · subst hc
      omega
    · refine Nat.not_lt.1 fun h => ?_
      have := (Nat.length_toDigits_le_iff (by decide) (by omega)).2 h
      omega
  simp only [toNanoSecs, hcount]
  by_cases hshort : count + 1 ≤ 19
  · right
    rw [if_pos hshort]
    obtain ⟨d, hd⟩ : ∃ d, 18 = count + d := ⟨18 - count, by omega⟩
    have hscale : 19 - (count + 1) = d := by omega
    have hlow : 10 ^ 18 ≤ n * 10 ^ d := by
      rw [hd, Nat.pow_add]
      exact Nat.mul_le_mul_right _ hle
    have hhigh : n * 10 ^ d < 10 ^ 19 := by
      rw [show 19 = count + 1 + d by omega, Nat.pow_add]
      exact Nat.mul_lt_mul_of_pos_right hlt (Nat.pow_pos (by decide))
    rw [hscale, Nat.mod_eq_of_lt (hhigh.trans (by decide))]
    exact ⟨hlow, hhigh⟩
  · left
    rw [if_neg hshort]
    simp

/-! ## Cutting up -/

theorem Partitions.single {startNS endNS : Nat} (h : startNS < endNS) :
    Partitions startNS endNS [⟨startNS, endNS⟩] := by
  constructor <;> simp [h]

theorem Partitions.to_le {startNS endNS : Nat} {ranges : List TsRange}
    (h : Partitions startNS endNS ranges) : ∀ r ∈ ranges, r.toNS ≤ endNS := by
  cases ranges with
  | nil => exact fun r hr => absurd hr List.not_mem_nil
  | cons r rest =>
    intro r' hr'
    have hfirst := h.first r rfl
    rcases List.mem_cons.1 hr' with rfl | hr'
    · exact hfirst.le
    · have hbefore := (List.pairwise_cons.1 h.descending).1 r' hr'
      have hproper := h.proper r List.mem_cons_self
      omega

/-- What is left behind the first range. -/
theorem Partitions.tail {startNS endNS : Nat} {r r' : TsRange} {rest : List TsRange}
    (h : Partitions startNS endNS (r :: r' :: rest)) : Partitions startNS r.fromNS (r' :: rest) := by
  refine ⟨by simp, ?_, ?_, ?_, ?_, ?_⟩
  · exact (List.forall_mem_cons.1 h.proper).2
  · exact (List.pairwise_cons.1 h.descending).2
  · intro r'' hr''
    rw [← Option.mem_some_iff.1 hr'']
    exact (List.isChain_cons_cons.1 h.adjacent).1.symm
  · exact (List.isChain_cons_cons.1 h.adjacent).2
  · have hlast := h.last
    rwa [List.getLast?_cons_cons] at hlast

theorem Partitions.start_lt {startNS endNS : Nat} {ranges : List TsRange}
    (h : Partitions startNS endNS ranges) : startNS < endNS := by
  have hmem := List.getLast_mem h.nonempty
  have hfrom := h.last _ (List.getLast?_eq_some_getLast h.nonempty)
  have hproper := h.proper _ hmem
  have hto := h.to_le _ hmem
  omega

/-- A later range in front of ranges that end where it begins. -/
theorem Partitions.cons {startNS m endNS : Nat} {rest : List TsRange} (hm : m < endNS)
    (h : Partitions startNS m rest) : Partitions startNS endNS (⟨m, endNS⟩ :: rest) := by
  obtain ⟨r, rest, rfl⟩ := List.exists_cons_of_ne_nil h.nonempty
  refine ⟨by simp, ?_, ?_, by simp, ?_, ?_⟩
  · exact List.forall_mem_cons.2 ⟨hm, h.proper⟩
  · exact List.pairwise_cons.2 ⟨h.to_le, h.descending⟩
  · exact List.isChain_cons_cons.2 ⟨(h.first r rfl).symm, h.adjacent⟩
  · rw [List.getLast?_cons_cons]
    exact h.last

/-! ## The doubling buckets -/

/-- The buckets of `k` rounds and the next one. -/
theorem totalBuckets_succ (k : Nat) :
    (2 ^ (k + 1) - 1) * hourNanos = (2 ^ k - 1) * hourNanos + 2 ^ k * hourNanos := by
  have hpos := Nat.one_le_two_pow (n := k)
  rw [← Nat.add_mul, Nat.pow_succ]
  congr 1
  omega

/-- A bucket is an hour longer than all before it. -/
theorem nextBucket_eq (k : Nat) : 2 ^ k * hourNanos = (2 ^ k - 1) * hourNanos + hourNanos := by
  have hpos := Nat.one_le_two_pow (n := k)
  conv_lhs => rw [show 2 ^ k = 2 ^ k - 1 + 1 by omega, Nat.add_mul, Nat.one_mul]

theorem nextBucket_double (k : Nat) : 2 ^ k * hourNanos * 2 = 2 ^ (k + 1) * hourNanos := by
  rw [Nat.pow_succ, Nat.mul_right_comm]

theorem totalBuckets_mono {j k : Nat} (h : j ≤ k) :
    (2 ^ j - 1) * hourNanos ≤ (2 ^ k - 1) * hourNanos :=
  Nat.mul_le_mul_right _ (Nat.sub_le_sub_right (Nat.pow_le_pow_right (by decide) h) 1)

section Loop

variable {startNS endNS : Nat}

/-- One round, with the clamp as a maximum. -/
theorem bucketLoop_succ (startNS rounds bucket curEnd : Nat) :
    bucketLoop startNS (rounds + 1) bucket curEnd =
      if max (subUint64 curEnd bucket) startNS = startNS then some [⟨startNS, curEnd⟩]
      else
        (bucketLoop startNS rounds (bucket * 2 % 2 ^ 64) (max (subUint64 curEnd bucket) startNS)).map
          fun out => ⟨max (subUint64 curEnd bucket) startNS, curEnd⟩ :: out := by
  have hclamp : (if subUint64 curEnd bucket < startNS then startNS else subUint64 curEnd bucket) =
      max (subUint64 curEnd bucket) startNS := by
    split <;> omega
  simp only [bucketLoop, hclamp]
  split
  · next h => rw [h]
  · rfl

/-- While no bucket overruns, the loop cuts up what is left, in as many rounds as it takes buckets
to reach the start. -/
theorem bucketLoop_partitions (hfit : NoOverrun startNS endNS) (hend : endNS < 2 ^ 64)
    (rounds : Nat) : ∀ {k curEnd : Nat}, curEnd + (2 ^ k - 1) * hourNanos = endNS →
      startNS < curEnd → endNS - startNS ≤ (2 ^ (k + rounds) - 1) * hourNanos →
      ∃ out, bucketLoop startNS rounds (2 ^ k * hourNanos) curEnd = some out ∧
        Partitions startNS curEnd out := by
  induction rounds with
  | zero =>
    intro k curEnd hcur hlt hreach
    rw [Nat.add_zero] at hreach
    omega
  | succ rounds ih =>
    intro k curEnd hcur hlt hreach
    have htotal := totalBuckets_succ k
    have hnext := hfit k (by omega)
    have hsub : subUint64 curEnd (2 ^ k * hourNanos) = curEnd - 2 ^ k * hourNanos :=
      subUint64_of_le (by omega) (by omega)
    rw [bucketLoop_succ, hsub]
    by_cases hlast : curEnd - 2 ^ k * hourNanos ≤ startNS
    · -- the bucket reaches the start, and the clamp ends the loop there
      rw [if_pos (Nat.max_eq_right hlast)]
      exact ⟨_, rfl, Partitions.single hlt⟩
    · have hshort := hfit (k + 1) (by omega)
      have htotal' := totalBuckets_succ (k + 1)
      have hdouble : 2 ^ k * hourNanos * 2 % 2 ^ 64 = 2 ^ (k + 1) * hourNanos := by
        have htwice := nextBucket_double k
        omega
      obtain ⟨out, hout, hparts⟩ := @ih (k + 1) (curEnd - 2 ^ k * hourNanos) (by omega)
        (by omega) (by rw [show k + 1 + rounds = k + (rounds + 1) by omega]; exact hreach)
      have hopen : curEnd - 2 ^ k * hourNanos ≠ startNS := fun heq => hlast heq.le
      rw [Nat.max_eq_left (Nat.le_of_not_le hlast), if_neg hopen, hdouble, hout]
      have hpos : 0 < 2 ^ k * hourNanos :=
        Nat.mul_pos (Nat.pow_pos (by decide)) (by decide)
      exact ⟨_, rfl, Partitions.cons (by omega) hparts⟩

/-- The first range that the loop returns: it ends at the position, and begins at the start or
behind it. -/
theorem bucketLoop_head {rounds bucket curEnd : Nat} {out : List TsRange}
    (h : bucketLoop startNS rounds bucket curEnd = some out) :
    ∃ r rest, out = r :: rest ∧ startNS ≤ r.fromNS ∧ r.toNS = curEnd := by
  cases rounds with
  | zero => cases h
  | succ rounds =>
    rw [bucketLoop_succ] at h
    split at h
    · obtain rfl := Option.some.inj h
      exact ⟨_, _, rfl, Nat.le_refl _, rfl⟩
    · obtain ⟨rest, -, rfl⟩ := Option.map_eq_some_iff.1 h
      exact ⟨_, _, rfl, Nat.le_max_right _ _, rfl⟩

/-- A loop that returns proper ranges had no bucket that overran. -/
theorem fits_of_bucketLoop (hend : endNS < 10 ^ 19) (rounds : Nat) :
    ∀ {k curEnd : Nat} {out : List TsRange}, curEnd + (2 ^ k - 1) * hourNanos = endNS →
      startNS < curEnd → bucketLoop startNS rounds (2 ^ k * hourNanos) curEnd = some out →
      (∀ r ∈ out, r.fromNS < r.toNS) →
      ∀ j, k ≤ j → (2 ^ j - 1) * hourNanos < endNS - startNS →
        (2 ^ (j + 1) - 1) * hourNanos ≤ endNS := by
  induction rounds with
  | zero => intro k curEnd out hcur hlt h; cases h
  | succ rounds ih =>
    intro k curEnd out hcur hlt h hproper j hj hshort
    have htotal := totalBuckets_succ k
    have hhour : hourNanos < 10 ^ 13 := by decide
    have hbucket : 2 ^ k * hourNanos < 2 ^ 64 := by
      have hsplit := nextBucket_eq k
      omega
    by_cases hfits : 2 ^ k * hourNanos ≤ curEnd
    · rcases Nat.eq_or_lt_of_le hj with rfl | hlater
      · omega
      · -- the bucket `j` comes later, so this one does not reach the start
        have hmono := totalBuckets_mono (Nat.succ_le_of_lt hlater)
        have hsub : subUint64 curEnd (2 ^ k * hourNanos) = curEnd - 2 ^ k * hourNanos :=
          subUint64_of_le hfits (by omega)
        have hshort' : startNS < curEnd - 2 ^ k * hourNanos := by
          rw [Nat.succ_eq_add_one] at hmono
          omega
        have hdouble : 2 ^ k * hourNanos * 2 % 2 ^ 64 = 2 ^ (k + 1) * hourNanos := by
          have htwice := nextBucket_double k
          have hsplit := nextBucket_eq (k + 1)
          omega
        rw [bucketLoop_succ, hsub, Nat.max_eq_left hshort'.le, if_neg hshort'.ne', hdouble] at h
        obtain ⟨rest, hrest, rfl⟩ := Option.map_eq_some_iff.1 h
        exact ih (by omega) hshort' hrest (fun r hr => hproper r (List.mem_cons_of_mem _ hr)) j
          hlater hshort
    · -- the position wraps around, and the range would begin behind its end
      exfalso
      have hsub : subUint64 curEnd (2 ^ k * hourNanos) =
          2 ^ 64 - (2 ^ k * hourNanos - curEnd) := by
        unfold subUint64
        omega
      have hbehind : startNS < 2 ^ 64 - (2 ^ k * hourNanos - curEnd) := by omega
      rw [bucketLoop_succ, hsub, Nat.max_eq_left hbehind.le, if_neg hbehind.ne'] at h
      obtain ⟨rest, -, rfl⟩ := Option.map_eq_some_iff.1 h
      have hfrom := hproper _ List.mem_cons_self
      simp only at hfrom
      omega

end Loop

/-! ## When the buckets cut the window up -/

theorem makeBuckets_eq (rounds start stop : Nat) : makeBuckets rounds start stop =
    if subUint64 (toNanoSecs stop) (toNanoSecs start) ≤ hourNanos then
      some [⟨toNanoSecs start, toNanoSecs stop⟩]
    else bucketLoop (toNanoSecs start) rounds (2 ^ 0 * hourNanos) (toNanoSecs stop) := by
  rw [Nat.pow_zero, Nat.one_mul]
  rfl

/-- Proper ranges come from bounds in order, and from buckets that fit. -/
theorem noOverrun_of_proper {rounds start stop : Nat} {out : List TsRange}
    (hstop : toNanoSecs stop < 10 ^ 19) (hpos : toNanoSecs start < toNanoSecs stop →
      hourNanos ≤ toNanoSecs stop) (h : makeBuckets rounds start stop = some out)
    (hproper : ∀ r ∈ out, r.fromNS < r.toNS) :
    toNanoSecs start < toNanoSecs stop ∧ NoOverrun (toNanoSecs start) (toNanoSecs stop) := by
  rw [makeBuckets_eq] at h
  split at h
  · next hshort =>
      obtain rfl := Option.some.inj h
      have horder : toNanoSecs start < toNanoSecs stop := hproper _ List.mem_cons_self
      rw [subUint64_of_le horder.le (by omega)] at hshort
      refine ⟨horder, fun k hk => ?_⟩
      -- a window of at most an hour takes one bucket
      cases k with
      | zero => simpa using hpos horder
      | succ k =>
        have hmono := totalBuckets_mono (Nat.succ_le_succ (Nat.zero_le k))
        simp only [Nat.succ_eq_add_one, Nat.zero_add, Nat.pow_one, Nat.reduceSub,
          Nat.one_mul] at hmono
        omega
  · obtain ⟨r, rest, rfl, hfrom, hto⟩ := bucketLoop_head h
    have hlt := hproper r List.mem_cons_self
    have horder : toNanoSecs start < toNanoSecs stop := by omega
    exact ⟨horder, fun k hk => fits_of_bucketLoop hstop rounds (by simp) horder h hproper k
      (Nat.zero_le k) hk⟩

/-- In 24 rounds the buckets reach back over all scaled epochs. -/
theorem makeBuckets_of_noOverrun {rounds start stop : Nat} (hrounds : 24 ≤ rounds)
    (horder : toNanoSecs start < toNanoSecs stop)
    (hfit : NoOverrun (toNanoSecs start) (toNanoSecs stop)) :
    ∃ out, makeBuckets rounds start stop = some out ∧
      Partitions (toNanoSecs start) (toNanoSecs stop) out := by
  have hend : toNanoSecs stop < 10 ^ 19 := by
    rcases toNanoSecs_bounds stop with h | h <;> omega
  have hsub : subUint64 (toNanoSecs stop) (toNanoSecs start) =
      toNanoSecs stop - toNanoSecs start := subUint64_of_le horder.le (by omega)
  rw [makeBuckets_eq, hsub]
  by_cases hshort : toNanoSecs stop - toNanoSecs start ≤ hourNanos
  · exact ⟨_, if_pos hshort, Partitions.single horder⟩
  · have hmono := totalBuckets_mono hrounds
    have hreach : toNanoSecs stop - toNanoSecs start ≤ (2 ^ (0 + rounds) - 1) * hourNanos := by
      rw [Nat.zero_add]
      unfold hourNanos at hmono ⊢
      omega
    rw [if_neg hshort]
    exact bucketLoop_partitions hfit (by omega) rounds (by simp) horder hreach

/-- `makeBuckets` ends and cuts the window up exactly when the scaled bounds are in order and no
bucket runs over zero. -/
theorem makeBuckets_partitions_iff (start stop : Nat) :
    (∃ rounds out, makeBuckets rounds start stop = some out ∧
        Partitions (toNanoSecs start) (toNanoSecs stop) out) ↔
      toNanoSecs start < toNanoSecs stop ∧ NoOverrun (toNanoSecs start) (toNanoSecs stop) := by
  have hend : toNanoSecs stop < 10 ^ 19 := by
    rcases toNanoSecs_bounds stop with h | h <;> omega
  have hhour : toNanoSecs start < toNanoSecs stop → hourNanos ≤ toNanoSecs stop := by
    intro h
    rcases toNanoSecs_bounds stop with h' | h'
    · omega
    · unfold hourNanos
      omega
  constructor
  · rintro ⟨rounds, out, hout, hparts⟩
    exact noOverrun_of_proper hend hhour hout hparts.proper
  · rintro ⟨horder, hfit⟩
    exact ⟨24, makeBuckets_of_noOverrun (Nat.le_refl 24) horder hfit⟩

/-- From the epoch to 2023 they do not: the bucket behind `2 ^ 18 - 1` hours runs over zero. -/
theorem epoch_not_partitioned : ¬ ∃ rounds out,
    makeBuckets rounds 0 1700000000000 = some out ∧
      Partitions (toNanoSecs 0) (toNanoSecs 1700000000000) out := by
  rintro ⟨rounds, out, hout, hparts⟩
  have hzero : toNanoSecs 0 = 0 := by decide
  have hnow : toNanoSecs 1700000000000 = 1700000000000000000 := by decide +kernel
  have hfit := (noOverrun_of_proper (by rw [hnow]; decide) (by rw [hnow]; decide) hout
    hparts.proper).2
  rw [hzero, hnow] at hfit
  have hover := hfit 18 (by decide)
  revert hover
  decide

end Signoz.Querier
