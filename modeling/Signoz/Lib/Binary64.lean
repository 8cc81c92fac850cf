import Mathlib.Algebra.Order.Field.Power
import Mathlib.Data.Int.Log
import Mathlib.Data.Rat.Floor
import Mathlib.Tactic.Positivity

/-!
# Rounding to binary64

The finite `binary64` numbers as rationals: `toBinary64` rounds a rational to the nearest one, of
two the one with the even last place, and is `none` for what is too large. Zeros have no sign.

Rounding keeps the order (`toBinary64_mono`), though not strictly.
-/

namespace Lib.Binary64

/-- The nearest whole number; halfway between two, the even one. -/
def roundEven (q : ℚ) : ℤ :=
  if 2 * (q - ⌊q⌋) < 1 then ⌊q⌋
  else if 1 < 2 * (q - ⌊q⌋) then ⌊q⌋ + 1
  else if ⌊q⌋ % 2 = 0 then ⌊q⌋ else ⌊q⌋ + 1

/-- The nearest multiple of a power of two. -/
def atPlace (e : ℤ) (q : ℚ) : ℚ := roundEven (q / 2 ^ e) * 2 ^ e

/-- The last of the 53 places of a positive number, or of fewer below the normal numbers. -/
def lastPlace (q : ℚ) : ℤ := max (Int.log 2 q) (-1022) - 52

def nearest (q : ℚ) : ℚ :=
  if q < 0 then -atPlace (lastPlace (-q)) (-q) else atPlace (lastPlace q) q

/-- The nearest finite number, if there is one. -/
def toBinary64 (q : ℚ) : Option ℚ := if |nearest q| < 2 ^ 1024 then some (nearest q) else none

/-! ## Whole numbers -/

/-- Rounding goes no further than half. -/
theorem roundEven_bounds (q : ℚ) :
    (roundEven q : ℚ) - 1 / 2 ≤ q ∧ q ≤ roundEven q + 1 / 2 := by
  have hle := Int.floor_le q
  have hlt := Int.lt_floor_add_one q
  rw [roundEven]
  split_ifs with hbelow habove heven <;> push_cast <;> constructor <;> linarith

theorem roundEven_mono {q q' : ℚ} (h : q ≤ q') : roundEven q ≤ roundEven q' := by
  by_contra hlt
  have hstep : (roundEven q' : ℚ) + 1 ≤ roundEven q := by exact_mod_cast not_le.1 hlt
  -- Only halfway between the two do both bounds meet.
  have heq : q = q' := by
    have hlow := (roundEven_bounds q).1
    have hhigh := (roundEven_bounds q').2
    linarith
  rw [heq] at hlt
  exact hlt le_rfl

@[simp] theorem roundEven_intCast (n : ℤ) : roundEven n = n := by
  simp [roundEven]

/-! ## Places -/

theorem two_zpow_pos (e : ℤ) : (0 : ℚ) < 2 ^ e := zpow_pos two_pos e

theorem atPlace_mono (e : ℤ) {q q' : ℚ} (h : q ≤ q') : atPlace e q ≤ atPlace e q' := by
  have hround := roundEven_mono (div_le_div_of_nonneg_right h (two_zpow_pos e).le)
  exact mul_le_mul_of_nonneg_right (by exact_mod_cast hround) (two_zpow_pos e).le

theorem atPlace_zero (e : ℤ) : atPlace e 0 = 0 := by
  rw [atPlace, zero_div, ← Int.cast_zero, roundEven_intCast, Int.cast_zero, zero_mul]

/-- A power of two from the place on stays. -/
theorem atPlace_zpow {e k : ℤ} (h : e ≤ k) : atPlace e (2 ^ k) = 2 ^ k := by
  obtain ⟨n, rfl⟩ := Int.le.dest h
  have hquot : (2 : ℚ) ^ (e + n) / 2 ^ e = ((2 ^ n : ℤ) : ℚ) := by
    rw [zpow_add₀ two_ne_zero, mul_div_cancel_left₀ _ (two_zpow_pos e).ne', zpow_natCast]
    norm_cast
  rw [atPlace, hquot, roundEven_intCast, ← hquot, div_mul_cancel₀ _ (two_zpow_pos e).ne']

theorem atPlace_nonneg (e : ℤ) {q : ℚ} (h : 0 ≤ q) : 0 ≤ atPlace e q :=
  (atPlace_zero e).symm.le.trans (atPlace_mono e h)

theorem lastPlace_mono {q q' : ℚ} (hpos : 0 < q) (h : q ≤ q') : lastPlace q ≤ lastPlace q' :=
  sub_le_sub_right (max_le_max_right _ (Int.log_mono_right hpos h)) 52

/-- Between a number and one with more places before it there is a power of two that both keep. -/
theorem atPlace_lastPlace_mono {q q' : ℚ} (hpos : 0 < q) (h : q ≤ q') :
    atPlace (lastPlace q) q ≤ atPlace (lastPlace q') q' := by
  rcases (lastPlace_mono hpos h).eq_or_lt with heq | hlt
  · rw [heq]
    exact atPlace_mono _ h
  · have hlog : max (Int.log 2 q) (-1022) < Int.log 2 q' := by
      simp only [lastPlace] at hlt
      omega
    have hbelow : q ≤ 2 ^ Int.log 2 q' := by
      apply ((Int.lt_zpow_iff_log_lt Nat.one_lt_two hpos).2 _).le
      exact (le_max_left _ _).trans_lt hlog
    have habove : (2 : ℚ) ^ Int.log 2 q' ≤ q' :=
      Int.zpow_log_le_self Nat.one_lt_two (hpos.trans_le h)
    calc atPlace (lastPlace q) q
        ≤ atPlace (lastPlace q) (2 ^ Int.log 2 q') := atPlace_mono _ hbelow
      _ = atPlace (lastPlace q') (2 ^ Int.log 2 q') := by
        rw [atPlace_zpow, atPlace_zpow] <;> simp only [lastPlace] <;> omega
      _ ≤ atPlace (lastPlace q') q' := atPlace_mono _ habove

/-! ## Numbers -/

theorem nearest_mono {q q' : ℚ} (h : q ≤ q') : nearest q ≤ nearest q' := by
  rw [nearest, nearest]
  split_ifs with hneg hneg' hneg'
  · exact neg_le_neg (atPlace_lastPlace_mono (neg_pos.2 hneg') (neg_le_neg h))
  · exact (neg_nonpos.2 (atPlace_nonneg _ (neg_pos.2 hneg).le)).trans
      (atPlace_nonneg _ (not_lt.1 hneg'))
  · exact absurd (h.trans_lt hneg') hneg
  · rcases (not_lt.1 hneg).eq_or_lt with rfl | hpos
    · rw [atPlace_zero]
      exact atPlace_nonneg _ h
    · exact atPlace_lastPlace_mono hpos h

theorem eq_nearest_of_toBinary64 {q r : ℚ} (h : toBinary64 q = some r) : r = nearest q := by
  rw [toBinary64, Option.ite_none_right_eq_some, Option.some.injEq] at h
  exact h.2.symm

/-- Finite numbers keep the order of what they were rounded from. -/
theorem toBinary64_mono {q q' r r' : ℚ} (hr : toBinary64 q = some r) (hr' : toBinary64 q' = some r')
    (h : q ≤ q') : r ≤ r' := by
  rw [eq_nearest_of_toBinary64 hr, eq_nearest_of_toBinary64 hr']
  exact nearest_mono h

end Lib.Binary64
