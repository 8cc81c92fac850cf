import Mathlib.Tactic.Ring

/-!
# The grid of multiples of a step

`gridFloor step n` and `gridCeil step n` are the nearest multiples of `step` below and above `n`.
Everything a caller needs is the pair of adjunctions `le_gridFloor_iff` and `gridCeil_le_iff`,
together with the two bounds that keep each within one step of `n`.
-/

namespace Lib.Grid

/-- The greatest multiple of `step` that is at most `n`. -/
def gridFloor (step n : Nat) : Nat := n / step * step

/-- The least multiple of `step` that is at least `n`. -/
def gridCeil (step n : Nat) : Nat := if n % step = 0 then n else (n / step + 1) * step

section Grid

variable {step : Nat}

theorem gridFloor_eq_sub_mod (step n : Nat) : gridFloor step n = n - n % step := by
  have h := Nat.div_add_mod n step
  rw [Nat.mul_comm] at h
  unfold gridFloor
  omega

theorem dvd_gridFloor (step n : Nat) : step ∣ gridFloor step n := Dvd.intro_left (n / step) rfl

theorem gridFloor_le (step n : Nat) : gridFloor step n ≤ n := Nat.div_mul_le_self n step

theorem lt_gridFloor_add (hs : 0 < step) (n : Nat) : n < gridFloor step n + step := by
  have h := Nat.mod_lt n hs
  have h' := Nat.mod_le n step
  rw [gridFloor_eq_sub_mod]
  omega

/-- Below the floor means below the number, for multiples of the step. -/
theorem le_gridFloor_iff (hs : 0 < step) {a n : Nat} (ha : step ∣ a) :
    a ≤ gridFloor step n ↔ a ≤ n := by
  constructor
  · exact fun h => h.trans (gridFloor_le step n)
  · intro h
    obtain ⟨q, rfl⟩ := ha
    have hq : q ≤ n / step := (Nat.le_div_iff_mul_le hs).2 (by rwa [Nat.mul_comm])
    calc step * q = q * step := Nat.mul_comm _ _
      _ ≤ n / step * step := Nat.mul_le_mul_right step hq

theorem gridFloor_eq_self {n : Nat} (h : step ∣ n) : gridFloor step n = n := Nat.div_mul_cancel h

theorem gridFloor_eq_self_iff {n : Nat} : gridFloor step n = n ↔ step ∣ n :=
  ⟨fun h => h ▸ dvd_gridFloor step n, gridFloor_eq_self⟩

theorem gridCeil_eq_self {n : Nat} (h : step ∣ n) : gridCeil step n = n := by
  rw [gridCeil, if_pos (Nat.mod_eq_zero_of_dvd h)]

/-- Off the grid, the ceiling is one step above the floor. -/
theorem gridCeil_of_not_dvd {n : Nat} (h : ¬ step ∣ n) :
    gridCeil step n = gridFloor step n + step := by
  rw [gridCeil, if_neg (fun h0 => h (Nat.dvd_of_mod_eq_zero h0)), gridFloor, Nat.add_mul,
    Nat.one_mul]

theorem dvd_gridCeil (step n : Nat) : step ∣ gridCeil step n := by
  by_cases h : step ∣ n
  · rwa [gridCeil_eq_self h]
  · rw [gridCeil_of_not_dvd h]
    exact Nat.dvd_add (dvd_gridFloor step n) (Nat.dvd_refl step)

theorem le_gridCeil (hs : 0 < step) (n : Nat) : n ≤ gridCeil step n := by
  by_cases h : step ∣ n
  · rw [gridCeil_eq_self h]
  · rw [gridCeil_of_not_dvd h]
    exact (lt_gridFloor_add hs n).le

theorem gridCeil_lt_add (hs : 0 < step) (n : Nat) : gridCeil step n < n + step := by
  by_cases h : step ∣ n
  · rw [gridCeil_eq_self h]
    omega
  · have hle := gridFloor_le step n
    have hne : gridFloor step n ≠ n := fun he => h (gridFloor_eq_self_iff.1 he)
    rw [gridCeil_of_not_dvd h]
    omega

/-- Above the ceiling means above the number, for multiples of the step. -/
theorem gridCeil_le_iff (hs : 0 < step) {a n : Nat} (ha : step ∣ a) :
    gridCeil step n ≤ a ↔ n ≤ a := by
  constructor
  · exact fun h => (le_gridCeil hs n).trans h
  · intro h
    by_cases hn : step ∣ n
    · rwa [gridCeil_eq_self hn]
    · rw [gridCeil_of_not_dvd hn]
      have hlt : gridFloor step n < a := by
        have hne : n ≠ a := fun he => hn (he ▸ ha)
        have := gridFloor_le step n
        omega
      obtain ⟨q, rfl⟩ := ha
      obtain ⟨p, hp⟩ := dvd_gridFloor step n
      rw [hp] at hlt ⊢
      have hpq : p < q := Nat.lt_of_mul_lt_mul_left hlt
      calc step * p + step = step * (p + 1) := by ring
        _ ≤ step * q := Nat.mul_le_mul_left step hpq

/-- Two multiples of the step that are less than a step apart are equal. -/
theorem eq_of_dvd_of_lt_add {a b : Nat} (ha : step ∣ a) (hb : step ∣ b)
    (hab : a < b + step) (hba : b < a + step) : a = b := by
  obtain ⟨p, rfl⟩ := ha
  obtain ⟨q, rfl⟩ := hb
  have h1 : p < q + 1 := by
    refine Nat.lt_of_mul_lt_mul_left (a := step) ?_
    calc step * p < step * q + step := hab
      _ = step * (q + 1) := by ring
  have h2 : q < p + 1 := by
    refine Nat.lt_of_mul_lt_mul_left (a := step) ?_
    calc step * q < step * p + step := hba
      _ = step * (p + 1) := by ring
  have hpq : p = q := by omega
  rw [hpq]

/-- A multiple of the step strictly above another is at least one step above it. -/
theorem add_le_of_dvd_of_lt {a b : Nat} (ha : step ∣ a) (hb : step ∣ b) (h : a < b) :
    a + step ≤ b := by
  by_contra hlt
  have heq : a = b := eq_of_dvd_of_lt_add ha hb (by omega) (by omega)
  omega

/-- The interval of the grid that contains a number begins at its floor. -/
theorem gridFloor_eq_of_mem (hs : 0 < step) {t n : Nat} (ht : step ∣ t) (hle : t ≤ n)
    (hlt : n < t + step) : gridFloor step n = t := by
  have h1 := gridFloor_le step n
  have h2 := lt_gridFloor_add hs n
  exact eq_of_dvd_of_lt_add (dvd_gridFloor step n) ht (by omega) (by omega)

end Grid

end Lib.Grid
