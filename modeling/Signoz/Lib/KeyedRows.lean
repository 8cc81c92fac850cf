import Mathlib.Data.List.Dedup

/-!
# Rows with a key

Tables as lists of rows, a row as often as a query returns it, and the question whether a key occurs
in a table once. Filters and `DISTINCT` keep that (`EachOnce.filter`, `EachOnce.dedup`). The left
rows of an inner join repeat a row for each of its partners, so an inner join keeps it exactly if
the partners of a row have one key (`eachOnce_joinLeft_iff`); a `UNION DISTINCT` keeps it exactly if
equal keys go with equal rows (`eachOnce_unionDistinct_iff`).
-/

namespace Lib.KeyedRows

variable {α β κ ι : Type}

/-- No two rows of the table have one key. -/
def EachOnce (key : α → κ) (rows : List α) : Prop := (rows.map key).Nodup

instance [DecidableEq κ] (key : α → κ) (rows : List α) : Decidable (EachOnce key rows) :=
  inferInstanceAs (Decidable (rows.map key).Nodup)

/-- `SELECT l.* FROM left AS l INNER JOIN right AS r ON …`: a row of the left for each partner. -/
def joinLeft (on : α → β → Bool) (left : List α) (right : List β) : List α :=
  left.flatMap fun l => (right.filter (on l)).map fun _ => l

/-- `SELECT * FROM left UNION DISTINCT SELECT * FROM right`. -/
def unionDistinct [DecidableEq α] (left right : List α) : List α := (left ++ right).dedup

section Once

variable {key : α → κ} {rows left : List α}

theorem EachOnce.nodup (h : EachOnce key rows) : rows.Nodup := List.Nodup.of_map key h

/-- Two rows with one key are one row. -/
theorem EachOnce.eq_of_key (h : EachOnce key rows) {x y : α} (hx : x ∈ rows) (hy : y ∈ rows)
    (hkey : key x = key y) : x = y :=
  List.inj_on_of_nodup_map h hx hy hkey

theorem EachOnce.sublist {part : List α} (h : EachOnce key rows) (hpart : part.Sublist rows) :
    EachOnce key part :=
  List.Nodup.sublist (hpart.map key) h

theorem EachOnce.filter (h : EachOnce key rows) (keep : α → Bool) :
    EachOnce key (rows.filter keep) :=
  h.sublist List.filter_sublist

theorem EachOnce.dedup [DecidableEq α] (h : EachOnce key rows) : EachOnce key rows.dedup :=
  h.sublist (List.dedup_sublist rows)

/-- A table that holds each key once has at most one row exactly if its rows have one key. -/
theorem EachOnce.length_le_one_iff (h : EachOnce key rows) :
    rows.length ≤ 1 ↔ ∀ x ∈ rows, ∀ y ∈ rows, key x = key y := by
  constructor
  · intro hlen x hx y hy
    rcases rows with _ | ⟨z, _ | ⟨w, rest⟩⟩
    · simp at hx
    · rw [List.mem_singleton.mp hx, List.mem_singleton.mp hy]
    · simp at hlen
  · intro hkeys
    rcases rows with _ | ⟨x, _ | ⟨y, rest⟩⟩
    · exact Nat.zero_le 1
    · exact Nat.le_refl 1
    · -- the first two rows have one key
      have hne : key x ≠ key y := by
        have hnotMem := (List.nodup_cons.mp h).1
        exact fun heq => hnotMem (heq ▸ List.mem_cons_self)
      exact absurd (hkeys x (by simp) y (by simp)) hne

/-- The left rows of a join hold each key once exactly if no left row has two partners. -/
theorem eachOnce_joinLeft_iff_length (hleft : EachOnce key left) (on : α → β → Bool)
    (right : List β) :
    EachOnce key (joinLeft on left right) ↔
      ∀ l ∈ left, (right.filter (on l)).length ≤ 1 := by
  have hmap : (joinLeft on left right).map key =
      left.flatMap fun l => List.replicate (right.filter (on l)).length (key l) := by
    simp only [joinLeft, List.map_flatMap, List.map_map]
    congr 1
    funext l
    exact List.map_const' ..
  rw [EachOnce, hmap, List.nodup_flatMap]
  simp only [List.nodup_replicate, and_iff_left_iff_imp]
  intro _
  -- different left rows have different keys
  refine (List.pairwise_map.mp hleft).imp fun {x y} hne => ?_
  intro k hx hy
  exact hne ((List.eq_of_mem_replicate hx).symm.trans (List.eq_of_mem_replicate hy))

/-- The left rows of a join of two tables that hold each key once hold each key once exactly if
the partners of a left row have one key. -/
theorem eachOnce_joinLeft_iff {rightKey : β → ι} {right : List β} (hleft : EachOnce key left)
    (hright : EachOnce rightKey right) (on : α → β → Bool) :
    EachOnce key (joinLeft on left right) ↔
      ∀ l ∈ left, ∀ r ∈ right, ∀ r' ∈ right, on l r = true → on l r' = true →
        rightKey r = rightKey r' := by
  rw [eachOnce_joinLeft_iff_length hleft]
  refine forall₂_congr fun l _ => ?_
  rw [(hright.filter (on l)).length_le_one_iff]
  simp only [List.mem_filter]
  constructor
  · exact fun h r hr r' hr' hon hon' => h r ⟨hr, hon⟩ r' ⟨hr', hon'⟩
  · exact fun h r hr r' hr' => h r hr.1 r' hr'.1 hr.2 hr'.2

/-- The union of two tables that hold each key once does so exactly if rows of both with one key
are equal. -/
theorem eachOnce_unionDistinct_iff [DecidableEq α] {right : List α} (hleft : EachOnce key left)
    (hright : EachOnce key right) :
    EachOnce key (unionDistinct left right) ↔
      ∀ l ∈ left, ∀ r ∈ right, key l = key r → l = r := by
  rw [EachOnce, unionDistinct, List.nodup_map_iff_inj_on (List.nodup_dedup _)]
  simp only [List.mem_dedup, List.mem_append]
  constructor
  · exact fun h l hl r hr hkey => h l (.inl hl) r (.inr hr) hkey
  · rintro h x (hx | hx) y (hy | hy) hkey
    · exact hleft.eq_of_key hx hy hkey
    · exact h x hx y hy hkey
    · exact (h y hy x hx hkey.symm).symm
    · exact hright.eq_of_key hx hy hkey

end Once

end Lib.KeyedRows
