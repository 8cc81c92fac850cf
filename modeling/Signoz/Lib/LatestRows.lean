import Mathlib.Data.List.Nodup
import Mathlib.Data.List.Perm.Basic
import Mathlib.Order.Lattice

/-!
# The latest rows of a table

A table is a list of rows with a key and a time. `limitOneBy` keeps the first row of every key;
over rows that are ordered newest first, these are the last rows of the keys (`mem_limitOneBy_iff`).
Rows that are appended later than all others take the place of the last rows of their keys
(`isLast_append_iff`) and of the newest row (`isNewest_append_iff`).
-/

namespace Lib.LatestRows

universe u v w

variable {R : Type u} {K : Type v} {T : Type w} [LinearOrder T] (key : R → K) (time : R → T)

/-- A newest row. -/
def IsNewest (rows : List R) (r : R) : Prop := r ∈ rows ∧ ∀ r' ∈ rows, time r' ≤ time r

/-- A last row of its key. -/
def IsLast (rows : List R) (r : R) : Prop :=
  r ∈ rows ∧ ∀ r' ∈ rows, key r' = key r → time r' ≤ time r

/-- Rows of one key have different times. -/
def TimesDiffer (rows : List R) : Prop :=
  ∀ r ∈ rows, ∀ r' ∈ rows, key r = key r' → time r = time r' → r = r'

/-- The rows newest first; rows of one time may come in any order. -/
structure NewestFirst (rows sorted : List R) : Prop where
  perm : sorted.Perm rows
  ordered : sorted.Pairwise fun a b => time b ≤ time a

section LimitOneBy

variable [DecidableEq K]

/-- `LIMIT 1 BY`: the first row of every key that is not among `seen`. -/
def limitOneBy : List K → List R → List R
  | _, [] => []
  | seen, r :: rest =>
    if key r ∈ seen then limitOneBy seen rest else r :: limitOneBy (key r :: seen) rest

variable {key time} {r : R}

theorem mem_limitOneBy {seen : List K} {rows : List R} :
    r ∈ limitOneBy key seen rows ↔
      key r ∉ seen ∧ rows.find? (fun r' => key r' = key r) = some r := by
  induction rows generalizing seen with
  | nil => simp [limitOneBy]
  | cons a rest ih =>
    rw [limitOneBy, List.find?_cons]
    by_cases hkey : key a = key r
    · simp only [hkey, decide_true, Option.some.injEq]
      by_cases hseen : key r ∈ seen
      · simp [hseen, ih]
      · rw [if_neg hseen, List.mem_cons, ih]
        simp only [List.mem_cons, not_true_eq_false, false_and, or_false, hseen,
          not_false_eq_true, true_and, eq_comm]
    · have hne : r ≠ a := fun h => hkey (h ▸ rfl)
      simp only [hkey, decide_false]
      by_cases hseen : key a ∈ seen
      · simp only [if_pos hseen, ih]
      · simp only [if_neg hseen, List.mem_cons, hne, false_or, ih, Ne.symm hkey]

theorem limitOneBy_subset {seen : List K} {rows : List R} (h : r ∈ limitOneBy key seen rows) :
   r ∈ rows :=
  List.mem_of_find?_eq_some (mem_limitOneBy.1 h).2

theorem head?_limitOneBy (rows : List R) : (limitOneBy key [] rows).head? = rows.head? := by
  cases rows with
  | nil => rfl
  | cons r rest => rw [limitOneBy, if_neg List.not_mem_nil, List.head?_cons, List.head?_cons]

/-- One row is left of every key. -/
theorem nodup_limitOneBy (key : R → K) (seen : List K) (rows : List R) :
    ((limitOneBy key seen rows).map key).Nodup := by
  induction rows generalizing seen with
  | nil => exact List.nodup_nil
  | cons r rest ih =>
    rw [limitOneBy]
    split
    · exact ih seen
    · rw [List.map_cons, List.nodup_cons]
      refine ⟨?_, ih _⟩
      intro hmem
      obtain ⟨r', hr', hkey⟩ := List.mem_map.1 hmem
      exact (mem_limitOneBy.1 hr').1 (hkey ▸ List.mem_cons_self)

variable {rows sorted : List R}

/-- The first of the rows that satisfy a condition is newer than the others. -/
theorem NewestFirst.find?_le (h : NewestFirst time rows sorted) {p : R → Bool}
    (hfind : sorted.find? p = some r) {r' : R} (hr' : r' ∈ rows) (hp : p r' = true) :
   time r' ≤ time r := by
  obtain ⟨-, before, after, heq, hbefore⟩ := List.find?_eq_some_iff_append.1 hfind
  have hmem := h.perm.mem_iff.2 hr'
  have hordered := h.ordered
  rw [heq] at hmem hordered
  rcases List.mem_append.1 hmem with hleft | hright
  · exact absurd hp (by simpa using hbefore r' hleft)
  · rcases List.mem_cons.1 hright with rfl | hafter
    · exact le_refl _
    · exact (List.pairwise_cons.1 (List.pairwise_append.1 hordered).2.1).1 r' hafter

/-- Over rows newest first, the first rows of the keys are their last rows. -/
theorem mem_limitOneBy_iff (h : NewestFirst time rows sorted) (hdiffer : TimesDiffer key time rows) :
    r ∈ limitOneBy key [] sorted ↔ IsLast key time rows r := by
  constructor
  · intro hr
    refine ⟨h.perm.mem_iff.1 (limitOneBy_subset hr), ?_⟩
    intro r' hr' hkey
    exact h.find?_le (mem_limitOneBy.1 hr).2 hr' (decide_eq_true hkey)
  · rintro ⟨hr, hlast⟩
    rw [mem_limitOneBy]
    refine ⟨List.not_mem_nil, ?_⟩
    cases hfind : sorted.find? fun r' => key r' = key r with
    | none =>
      have hnone := List.find?_eq_none.1 hfind r (h.perm.mem_iff.2 hr)
      simp at hnone
    | some first =>
      -- The first row of the key is no older and no newer, so it is the row.
      have hkey : key first = key r := by simpa using List.find?_some hfind
      have hmem := h.perm.mem_iff.1 (List.mem_of_find?_eq_some hfind)
      have hle := h.find?_le hfind hr (by simp)
      rw [hdiffer first hmem r hr hkey (le_antisymm (hlast first hmem hkey) hle)]

theorem NewestFirst.isNewest (h : NewestFirst time rows sorted) (hhead : sorted.head? = some r) :
   IsNewest time rows r := by
  obtain ⟨rest, rfl⟩ := List.head?_eq_some_iff.1 hhead
  refine ⟨h.perm.mem_iff.1 List.mem_cons_self, ?_⟩
  intro r' hr'
  rcases List.mem_cons.1 (h.perm.mem_iff.2 hr') with rfl | hrest
  · exact le_refl _
  · exact (List.pairwise_cons.1 h.ordered).1 r' hrest

end LimitOneBy

section Append

variable {key time} {rows new : List R} {r : R}

/-- Later rows take the place of the last rows of their keys. -/
theorem isLast_append_iff (hlater : ∀ r ∈ rows, ∀ r' ∈ new, time r < time r')
    (hnew : (new.map key).Nodup) :
    IsLast key time (rows ++ new) r ↔
      r ∈ new ∨ (IsLast key time rows r ∧ key r ∉ new.map key) := by
  constructor
  · rintro ⟨hr, hlast⟩
    rcases List.mem_append.1 hr with hold | hmem
    · right
      refine ⟨⟨hold, fun r' hr' => hlast r' (List.mem_append_left _ hr')⟩, ?_⟩
      intro hkey
      obtain ⟨r', hr', hkey⟩ := List.mem_map.1 hkey
      exact absurd (hlast r' (List.mem_append_right _ hr') hkey)
        (not_le_of_gt (hlater r hold r' hr'))
    · exact Or.inl hmem
  · rintro (hmem | ⟨⟨hold, hlast⟩, hkey⟩)
    · refine ⟨List.mem_append_right _ hmem, ?_⟩
      intro r' hr' hkey
      rcases List.mem_append.1 hr' with hold | hmem'
      · exact le_of_lt (hlater r' hold r hmem)
      · exact le_of_eq (congrArg time (List.inj_on_of_nodup_map hnew hmem' hmem hkey))
    · refine ⟨List.mem_append_left _ hold, ?_⟩
      intro r' hr' hsame
      rcases List.mem_append.1 hr' with hold' | hmem'
      · exact hlast r' hold' hsame
      · exact absurd (hsame ▸ List.mem_map_of_mem hmem') hkey

/-- The newest of later rows is the newest of all. -/
theorem isNewest_append_iff (hlater : ∀ r ∈ rows, ∀ r' ∈ new, time r < time r')
    (hnew : new ≠ []) : IsNewest time (rows ++ new) r ↔ IsNewest time new r := by
  constructor
  · rintro ⟨hr, hnewest⟩
    rcases List.mem_append.1 hr with hold | hmem
    · obtain ⟨r', hr'⟩ := List.exists_mem_of_ne_nil new hnew
      exact absurd (hnewest r' (List.mem_append_right _ hr')) (not_le_of_gt (hlater r hold r' hr'))
    · exact ⟨hmem, fun r' hr' => hnewest r' (List.mem_append_right _ hr')⟩
  · rintro ⟨hmem, hnewest⟩
    refine ⟨List.mem_append_right _ hmem, ?_⟩
    intro r' hr'
    rcases List.mem_append.1 hr' with hold | hmem'
    · exact le_of_lt (hlater r' hold r hmem)
    · exact hnewest r' hmem'

/-- Some row is a newest one. -/
theorem exists_isNewest (time : R → T) (h : rows ≠ []) : ∃ r, IsNewest time rows r := by
  induction rows with
  | nil => exact absurd rfl h
  | cons a rest ih =>
    by_cases hrest : rest = []
    · subst hrest
      refine ⟨a, List.mem_cons_self, ?_⟩
      intro r' hr'
      obtain rfl := List.mem_singleton.1 hr'
      exact le_refl _
    · obtain ⟨r, hr, hnewest⟩ := ih hrest
      rcases le_total (time a) (time r) with hle | hle
      · refine ⟨r, List.mem_cons_of_mem _ hr, ?_⟩
        intro r' hr'
        rcases List.mem_cons.1 hr' with rfl | hr'
        · exact hle
        · exact hnewest r' hr'
      · refine ⟨a, List.mem_cons_self, ?_⟩
        intro r' hr'
        rcases List.mem_cons.1 hr' with rfl | hr'
        · exact le_refl _
        · exact le_trans (hnewest r' hr') hle

/-- Every key of a row has a last row. -/
theorem exists_isLast [DecidableEq K] (key : R → K) (time : R → T) (h : r ∈ rows) :
    ∃ r', IsLast key time rows r' ∧ key r' = key r := by
  have hkeyed : rows.filter (fun r' => key r' = key r) ≠ [] :=
    List.ne_nil_of_mem (List.mem_filter.2 ⟨h, decide_eq_true rfl⟩)
  obtain ⟨r', hr', hnewest⟩ := exists_isNewest time hkeyed
  obtain ⟨hmem, hkey⟩ := List.mem_filter.1 hr'
  have hkey : key r' = key r := of_decide_eq_true hkey
  refine ⟨r', ⟨hmem, ?_⟩, hkey⟩
  intro r'' hr'' hsame
  exact hnewest r'' (List.mem_filter.2 ⟨hr'', decide_eq_true (hsame.trans hkey)⟩)

end Append

end Lib.LatestRows
