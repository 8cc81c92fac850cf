import Mathlib.Data.List.Basic
import Mathlib.Order.Lattice

/-!
# Sweeping a line of intervals for gaps

`sweep lo hi stop l cur` walks over intervals `[lo a, hi a)` from position `cur` and collects the
gaps between them up to `stop`. For intervals in the order of their left ends the sweep is exact:
a position it passed is in a gap or in an interval, never in both
(`mem_gap_or_interval`, `not_mem_interval_of_gap`, `not_mem_interval_of_le`), and gaps begin and
end where intervals do (`gap_bounds`).
-/

namespace Lib.Sweep

universe u

variable {α : Type u} (lo hi : α → Nat)

/-- The position reached and the gaps found. -/
def sweep (stop : Nat) : List α → Nat → Nat × List (Nat × Nat)
  | [], cur => (cur, [])
  | a :: rest, cur =>
    if hi a ≤ cur then sweep stop rest cur
    else if stop ≤ lo a then (cur, [])
    else
      let r := sweep stop rest (max cur (min (hi a) stop))
      (r.1, (if cur < lo a then [(cur, lo a)] else []) ++ r.2)

attribute [elab_as_elim] sweep.induct_unfolding

section Sweep

variable {lo hi} {stop : Nat}

theorem le_sweep (l : List α) (cur : Nat) : cur ≤ (sweep lo hi stop l cur).1 := by
  fun_induction sweep lo hi stop l cur with
  | case1 cur => exact Nat.le_refl cur
  | case2 a rest cur h ih => exact ih
  | case3 a rest cur h h' => exact Nat.le_refl cur
  | case4 a rest cur h h' r ih => exact le_trans (Nat.le_max_left _ _) ih

/-- The sweep ends where it began, at the stop, or at the end of an interval. -/
theorem sweep_end (l : List α) (cur : Nat) :
    (sweep lo hi stop l cur).1 = cur ∨ (sweep lo hi stop l cur).1 = stop ∨
      ∃ a ∈ l, (sweep lo hi stop l cur).1 = hi a := by
  fun_induction sweep lo hi stop l cur with
  | case1 cur => exact Or.inl rfl
  | case2 a rest cur h ih => grind
  | case3 a rest cur h h' => exact Or.inl rfl
  | case4 a rest cur h h' r ih => grind

/-- A gap begins where the sweep began or an interval ended, and ends where one begins. -/
theorem gap_bounds (l : List α) (cur : Nat) :
    ∀ g ∈ (sweep lo hi stop l cur).2,
      cur ≤ g.1 ∧ g.1 < g.2 ∧ g.2 < stop ∧ (g.1 = cur ∨ ∃ a ∈ l, g.1 = hi a) ∧
        ∃ a ∈ l, g.2 = lo a := by
  fun_induction sweep lo hi stop l cur with
  | case1 cur => simp
  | case2 a rest cur h ih => grind
  | case3 a rest cur h h' => simp
  | case4 a rest cur h h' r ih => grind

/-- A sweep that meets no interval stays where it is. -/
theorem sweep_of_disjoint {l : List α} {cur : Nat} (h : ∀ a ∈ l, hi a ≤ cur ∨ stop ≤ lo a) :
    sweep lo hi stop l cur = (cur, []) := by
  induction l with
  | nil => rfl
  | cons a rest ih =>
    have hrest := ih fun b hb => h b (List.mem_cons_of_mem _ hb)
    rcases h a List.mem_cons_self with h1 | h1
    · rw [sweep, if_pos h1, hrest]
    · by_cases h2 : hi a ≤ cur
      · rw [sweep, if_pos h2, hrest]
      · rw [sweep, if_neg h2, if_pos h1]

/-- What the sweep passed is in a gap or in an interval. -/
theorem mem_gap_or_interval (l : List α) (cur : Nat) {x : Nat} (hx : cur ≤ x)
    (hx' : x < (sweep lo hi stop l cur).1) :
    (∃ g ∈ (sweep lo hi stop l cur).2, g.1 ≤ x ∧ x < g.2) ∨ ∃ a ∈ l, lo a ≤ x ∧ x < hi a := by
  fun_induction sweep lo hi stop l cur with
  | case1 cur => omega
  | case2 a rest cur h ih => grind
  | case3 a rest cur h h' => omega
  | case4 a rest cur h h' r ih =>
    by_cases hgap : x < lo a
    · refine Or.inl ⟨(cur, lo a), List.mem_append_left _ ?_, hx, hgap⟩
      rw [if_pos (by omega)]
      exact List.mem_singleton_self _
    · by_cases hin : x < hi a
      · exact Or.inr ⟨a, List.mem_cons_self, Nat.not_lt.1 hgap, hin⟩
      · rcases ih (by omega) hx' with ⟨g, hg, hgx⟩ | ⟨b, hb, hbx⟩
        · exact Or.inl ⟨g, List.mem_append_right _ hg, hgx⟩
        · exact Or.inr ⟨b, List.mem_cons_of_mem _ hb, hbx⟩

/-- Nothing ahead of the position reached, up to the stop, is in an interval. -/
theorem not_mem_interval_of_le (l : List α) (cur : Nat)
    (hsorted : l.Pairwise fun a b => lo a ≤ lo b) {x : Nat}
    (hx : (sweep lo hi stop l cur).1 ≤ x) (hx' : x < stop) :
    ∀ a ∈ l, ¬ (lo a ≤ x ∧ x < hi a) := by
  fun_induction sweep lo hi stop l cur with
  | case1 cur => simp
  | case2 a rest cur h ih =>
    have hle : cur ≤ (sweep lo hi stop rest cur).1 := le_sweep rest cur
    have hrest := ih (List.pairwise_cons.1 hsorted).2 hx
    rintro b hb ⟨h1, h2⟩
    rcases List.mem_cons.1 hb with rfl | hb
    · omega
    · exact hrest b hb ⟨h1, h2⟩
  | case3 a rest cur h h' =>
    -- every later interval begins behind the stop as well
    rintro b hb ⟨h1, h2⟩
    rcases List.mem_cons.1 hb with rfl | hb
    · omega
    · have := (List.pairwise_cons.1 hsorted).1 b hb
      omega
  | case4 a rest cur h h' r ih =>
    have hle : max cur (min (hi a) stop) ≤
        (sweep lo hi stop rest (max cur (min (hi a) stop))).1 := le_sweep rest _
    have hrest := ih (List.pairwise_cons.1 hsorted).2 hx
    rintro b hb ⟨h1, h2⟩
    rcases List.mem_cons.1 hb with rfl | hb
    · simp only [r] at hx
      omega
    · exact hrest b hb ⟨h1, h2⟩

/-- A gap is disjoint from every interval. -/
theorem not_mem_interval_of_gap (l : List α) (cur : Nat)
    (hsorted : l.Pairwise fun a b => lo a ≤ lo b) {g : Nat × Nat}
    (hg : g ∈ (sweep lo hi stop l cur).2) {x : Nat} (hx : g.1 ≤ x) (hx' : x < g.2) :
    ∀ a ∈ l, ¬ (lo a ≤ x ∧ x < hi a) := by
  fun_induction sweep lo hi stop l cur with
  | case1 cur => simp at hg
  | case2 a rest cur h ih =>
    have hcur := (gap_bounds rest cur g hg).1
    have hrest := ih (List.pairwise_cons.1 hsorted).2 hg
    rintro b hb ⟨h1, h2⟩
    rcases List.mem_cons.1 hb with rfl | hb
    · omega
    · exact hrest b hb ⟨h1, h2⟩
  | case3 a rest cur h h' => simp at hg
  | case4 a rest cur h h' r ih =>
    obtain ⟨hle, hsorted⟩ := List.pairwise_cons.1 hsorted
    rintro b hb ⟨h1, h2⟩
    rcases List.mem_append.1 hg with hg | hg
    · -- the gap before the interval `a`
      have hlt : g.2 = lo a := by
        by_cases hgap : cur < lo a
        · rw [if_pos hgap, List.mem_singleton] at hg
          rw [hg]
        · simp [if_neg hgap] at hg
      rcases List.mem_cons.1 hb with rfl | hb
      · omega
      · have := hle b hb
        omega
    · have hcur := gap_bounds rest (max cur (min (hi a) stop)) g hg
      rcases List.mem_cons.1 hb with rfl | hb
      · omega
      · exact ih hsorted hg b hb ⟨h1, h2⟩

/-- No gap reaches beyond the position reached. -/
theorem gap_le_sweep (l : List α) (cur : Nat) (hle : ∀ a ∈ l, lo a ≤ hi a) :
    ∀ g ∈ (sweep lo hi stop l cur).2, g.2 ≤ (sweep lo hi stop l cur).1 := by
  fun_induction sweep lo hi stop l cur with
  | case1 cur => simp
  | case2 a rest cur h ih => exact ih fun b hb => hle b (List.mem_cons_of_mem _ hb)
  | case3 a rest cur h h' => simp
  | case4 a rest cur h h' r ih =>
    have hrest := ih fun b hb => hle b (List.mem_cons_of_mem _ hb)
    have hpos : max cur (min (hi a) stop) ≤ r.1 := le_sweep rest _
    have hproper := hle a List.mem_cons_self
    intro g hg
    rcases List.mem_append.1 hg with hg | hg
    · split at hg
      · obtain rfl := List.mem_singleton.1 hg
        simp only
        omega
      · cases hg
    · exact hrest g hg

/-- The gaps come in ascending order and are apart. -/
theorem pairwise_gaps (l : List α) (cur : Nat) (hle : ∀ a ∈ l, lo a ≤ hi a) :
    (sweep lo hi stop l cur).2.Pairwise fun g later => g.2 ≤ later.1 := by
  fun_induction sweep lo hi stop l cur with
  | case1 cur => exact List.Pairwise.nil
  | case2 a rest cur h ih => exact ih fun b hb => hle b (List.mem_cons_of_mem _ hb)
  | case3 a rest cur h h' => exact List.Pairwise.nil
  | case4 a rest cur h h' r ih =>
    have hrest := ih fun b hb => hle b (List.mem_cons_of_mem _ hb)
    have hproper := hle a List.mem_cons_self
    split
    · refine List.pairwise_cons.2 ⟨fun g hg => ?_, hrest⟩
      -- a later gap begins behind the interval that ends this one
      have hlater := (gap_bounds rest _ g hg).1
      simp only
      omega
    · exact hrest

end Sweep

end Lib.Sweep
