import Signoz.Lib.EditDistance
import Mathlib.Data.List.Induction

/-!
# The closest name

`pkg/querybuilder/having_expression_validator.go`: an unknown name in a `HAVING` expression is
answered with the valid name that is closest to it. `levenshtein` keeps one row of the table of
distances and overwrites it from left to right, with the value above on the left in `prev`.

After the outer loop has taken some characters of `a`, an entry of the row is the distance between
them and as many characters of `b` as its index says (`RowOf`). The loops go through prefixes,
so the lists are compared from their ends: what `Lib.EditDistance` calls heads are here the last
characters read.
-/

namespace Signoz.Having

open Lib.EditDistance

/-! ## The functions -/

/-- The inner loop of `levenshtein` from the index `j` on, for one character of `ra` and the
characters of `rb` from there on. -/
def levenshteinRow (c : Char) : (rb : List Char) → (j prev : Nat) → (row : List Nat) → List Nat
  | [], _, _, row => row
  | d :: rb, j, prev, row =>
    let tmp := row.getD j 0
    let value :=
      if c = d then prev else 1 + min prev (min (row.getD j 0) (row.getD (j - 1) 0))
    levenshteinRow c rb (j + 1) tmp (row.set j value)

/-- The outer loop of `levenshtein`, from the index `i` on. -/
def levenshteinRows (rb : List Char) : (ra : List Char) → (i : Nat) → (row : List Nat) → List Nat
  | [], _, row => row
  | c :: ra, i, row =>
    levenshteinRows rb ra (i + 1) (levenshteinRow c rb 1 (row.getD 0 0) (row.set 0 i))

def levenshtein (a b : String) : Nat :=
  let row := List.range (b.toList.length + 1)
  (levenshteinRows b.toList a.toList 1 row).getD b.toList.length 0

/-- The loop of `closestMatch`. -/
def closestMatchFrom (query : String) : List String → String × Int → String × Int
  | [], best => best
  | c :: candidates, (best, bestDist) =>
    let d := (levenshtein query c : Int)
    closestMatchFrom query candidates
      (if bestDist < 0 ∨ d < bestDist then (c, d) else (best, bestDist))

def closestMatch (query : String) (candidates : List String) : String × Int :=
  closestMatchFrom query candidates ("", -1)

/-! ## One row -/

section Rows

variable {rb : List Char}

/-- The distance between characters of `a`, the last one first, and the first `k` of `b`. -/
def prefixDistance (rb : List Char) (u : List Char) (k : Nat) : Nat :=
  distance u (rb.take k).reverse

/-- The row once the characters `u` of `a` are taken, the last one first. -/
structure RowOf (rb : List Char) (u : List Char) (row : List Nat) : Prop where
  length : row.length = rb.length + 1
  entry : ∀ k ≤ rb.length, row.getD k 0 = prefixDistance rb u k

/-- The row within the inner loop: up to the index `k` it is the next one. -/
structure RowUpTo (rb : List Char) (c : Char) (u : List Char) (k : Nat) (row : List Nat) :
    Prop where
  length : row.length = rb.length + 1
  done : ∀ j ≤ k, row.getD j 0 = prefixDistance rb (c :: u) j
  left : ∀ j, k < j → j ≤ rb.length → row.getD j 0 = prefixDistance rb u j

theorem prefixDistance_zero (u : List Char) : prefixDistance rb u 0 = u.length := by
  rw [prefixDistance, List.take_zero, List.reverse_nil, distance_nil_right]

theorem reverse_take_succ {k : Nat} (hk : k < rb.length) :
    (rb.take (k + 1)).reverse = rb[k] :: (rb.take k).reverse := by
  rw [← List.take_append_getElem hk, List.reverse_append]
  rfl

/-- The row before the outer loop. -/
theorem rowOf_range : RowOf rb [] (List.range (rb.length + 1)) where
  length := List.length_range
  entry := by
    intro k hk
    have hlt : k < rb.length + 1 := Nat.lt_succ_of_le hk
    rw [prefixDistance, distance_nil_left, List.length_reverse, List.length_take,
      Nat.min_eq_left hk, List.getD_eq_getElem?_getD, List.getElem?_range hlt, Option.getD_some]

variable {u : List Char} {row : List Nat}

/-- The first entry of the next row is set before the inner loop. -/
theorem RowOf.rowUpTo (h : RowOf rb u row) (c : Char) :
    RowUpTo rb c u 0 (row.set 0 (c :: u).length) where
  length := by rw [List.length_set, h.length]
  done := by
    intro j hj
    obtain rfl := Nat.le_zero.1 hj
    have hlt : 0 < row.length := by
      rw [h.length]
      exact Nat.succ_pos _
    rw [prefixDistance_zero, List.getD_eq_getElem?_getD, List.getElem?_set_self hlt,
      Option.getD_some]
  left := by
    intro j hj hle
    rw [List.getD_eq_getElem?_getD, List.getElem?_set_ne (Nat.ne_of_lt hj),
      ← List.getD_eq_getElem?_getD, h.entry j hle]

/-- One entry more. -/
theorem RowUpTo.set {c : Char} {k : Nat} (h : RowUpTo rb c u k row) (hk : k < rb.length) :
    RowUpTo rb c u (k + 1) (row.set (k + 1)
      (if c = rb[k] then prefixDistance rb u k
        else 1 + min (prefixDistance rb u k) (min (row.getD (k + 1) 0) (row.getD k 0)))) where
  length := by rw [List.length_set, h.length]
  done := by
    intro j hj
    rcases Nat.lt_or_eq_of_le hj with hlt | rfl
    · rw [List.getD_eq_getElem?_getD, List.getElem?_set_ne (Nat.ne_of_gt hlt),
        ← List.getD_eq_getElem?_getD, h.done j (Nat.le_of_lt_succ hlt)]
    · have hlt : k + 1 < row.length := by
        rw [h.length]
        omega
      rw [List.getD_eq_getElem?_getD, List.getElem?_set_self hlt, Option.getD_some,
        h.left (k + 1) (Nat.lt_succ_self k) hk, h.done k le_rfl]
      simp only [prefixDistance, reverse_take_succ hk, distance]
  left := by
    intro j hj hle
    rw [List.getD_eq_getElem?_getD, List.getElem?_set_ne (Nat.ne_of_lt hj),
      ← List.getD_eq_getElem?_getD, h.left j (Nat.lt_of_succ_lt hj) hle]

/-- The inner loop makes the next row. -/
theorem RowUpTo.levenshteinRow {c : Char} :
    ∀ (rest : List Char) {k : Nat} {row : List Nat}, rest = rb.drop k → k ≤ rb.length →
      RowUpTo rb c u k row →
        RowOf rb (c :: u) (levenshteinRow c rest (k + 1) (prefixDistance rb u k) row) := by
  intro rest
  induction rest with
  | nil =>
    intro k row hrest hk h
    -- nothing is left of `rb`, so the next row is complete
    have hend : k = rb.length := Nat.le_antisymm hk (List.drop_eq_nil_iff.1 hrest.symm)
    exact ⟨h.length, fun j hj => h.done j (hend ▸ hj)⟩
  | cons d rest ih =>
    intro k row hrest hk h
    have hlt : k < rb.length := by
      apply Nat.lt_of_le_of_ne hk
      rintro rfl
      rw [List.drop_length] at hrest
      cases hrest
    rw [List.drop_eq_getElem_cons hlt] at hrest
    obtain ⟨rfl, rfl⟩ := List.cons.inj hrest
    have hnext := ih rfl hlt (h.set hlt)
    rwa [← h.left (k + 1) (Nat.lt_succ_self k) hlt] at hnext

/-- The outer loop ends with the row of all characters of `a`. -/
theorem RowOf.levenshteinRows (h : RowOf rb u row) (ra : List Char) :
    RowOf rb (ra.reverse ++ u) (levenshteinRows rb ra (u.length + 1) row) := by
  induction ra generalizing u row with
  | nil => exact h
  | cons c ra ih =>
    have hfirst : row.getD 0 0 = prefixDistance rb u 0 := h.entry 0 (Nat.zero_le _)
    have hnext := RowUpTo.levenshteinRow rb rfl (Nat.zero_le _) (h.rowUpTo c)
    rw [← hfirst] at hnext
    rw [List.reverse_cons, List.append_assoc]
    exact ih hnext

end Rows

/-! ## The distance, and the closest candidate -/

theorem levenshtein_eq_distance (a b : String) :
    levenshtein a b = distance a.toList.reverse b.toList.reverse := by
  have hrow := (rowOf_range : RowOf b.toList [] _).levenshteinRows a.toList
  have hlast := hrow.entry b.toList.length le_rfl
  rw [List.append_nil, prefixDistance, List.take_length] at hlast
  exact hlast

/-- The chains of edits between two texts, and between the texts read backwards, are as long. -/
theorem isLeast_levenshtein (a b : String) :
    IsLeast {n | EditsIn n a.toList b.toList} (levenshtein a b) := by
  have hleast := isLeast_distance a.toList.reverse b.toList.reverse
  rw [← levenshtein_eq_distance] at hleast
  simpa only [editsIn_reverse] using hleast

/-- The loop ends with the candidate it began with, or with one of the list, and no candidate is
closer. -/
theorem closestMatchFrom_spec (query : String) (candidates : List String) (first : String) :
    ∃ best ∈ first :: candidates,
      closestMatchFrom query candidates (first, levenshtein query first) =
          (best, (levenshtein query best : Int)) ∧
        ∀ c ∈ first :: candidates, levenshtein query best ≤ levenshtein query c := by
  induction candidates generalizing first with
  | nil =>
    refine ⟨first, List.mem_cons_self, rfl, ?_⟩
    intro c hc
    rw [List.mem_singleton.1 hc]
  | cons next candidates ih =>
    rw [closestMatchFrom]
    by_cases hcloser : (levenshtein query next : Int) < levenshtein query first
    · rw [if_pos (Or.inr hcloser)]
      obtain ⟨best, hbest, heq, hleast⟩ := ih next
      refine ⟨best, List.mem_cons_of_mem first hbest, heq, ?_⟩
      intro c hc
      rcases List.mem_cons.1 hc with rfl | hc
      · exact (hleast next List.mem_cons_self).trans (Int.ofNat_le.1 hcloser.le)
      · exact hleast c hc
    · have hstays : ¬ ((levenshtein query first : Int) < 0 ∨
          (levenshtein query next : Int) < levenshtein query first) := by
        rintro (hneg | hlt)
        · exact absurd (Int.natCast_nonneg _) (Int.not_le.2 hneg)
        · exact hcloser hlt
      rw [if_neg hstays]
      obtain ⟨best, hbest, heq, hleast⟩ := ih first
      refine ⟨best, ?_, heq, ?_⟩
      · rcases List.mem_cons.1 hbest with rfl | hbest
        · exact List.mem_cons_self
        · exact List.mem_cons_of_mem first (List.mem_cons_of_mem next hbest)
      · intro c hc
        have hfirst := hleast first List.mem_cons_self
        rcases List.mem_cons.1 hc with rfl | hc
        · exact hfirst
        · rcases List.mem_cons.1 hc with rfl | hc
          · exact hfirst.trans (Int.ofNat_le.1 (Int.not_lt.1 hcloser))
          · exact hleast c (List.mem_cons_of_mem first hc)

/-- `levenshtein` is the least number of edits, and `closestMatch` finds a candidate for which it is
least. -/
theorem levenshtein_least_closestMatch :
    (∀ a b : String, IsLeast {n | EditsIn n a.toList b.toList} (levenshtein a b)) ∧
      ∀ (query first : String) (candidates : List String), ∃ best ∈ first :: candidates,
        closestMatch query (first :: candidates) = (best, (levenshtein query best : Int)) ∧
          ∀ c ∈ first :: candidates, levenshtein query best ≤ levenshtein query c := by
  refine ⟨isLeast_levenshtein, ?_⟩
  intro query first candidates
  rw [closestMatch, closestMatchFrom, if_pos (Or.inl (by decide))]
  exact closestMatchFrom_spec query candidates first

example : closestMatch "totla" ["count", "total", "avg"] = ("total", 2) := by decide

end Signoz.Having
