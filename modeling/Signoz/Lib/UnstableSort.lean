import Mathlib.Data.List.Sort

/-!
# Sorts that need not be stable

A sort by a comparison function that leaves the order of equivalent elements to itself, such as
`sort.Slice`. What is known of it: it returns a permutation, it puts the elements in order when the
function compares by a key (`ordered`), and it sees the elements through the comparisons only
(`comparesOnly`), so that elements renamed without changing a comparison come out renamed.

The result does not depend on the order of the input when no two elements are equivalent
(`sort_eq_of_perm`), and two equivalent elements that trade places in the input trade places in the
result (`sort_map_swap`).
-/

namespace Lib.UnstableSort

/-- A sort by a comparison function. -/
structure Sorter where
  sort : {α : Type} → (α → α → Bool) → List α → List α
  perm : ∀ {α : Type} (less : α → α → Bool) (l : List α), (sort less l).Perm l
  ordered : ∀ {α K : Type} [LinearOrder K] (key : α → K) (l : List α),
    (sort (fun a b => key a < key b) l).Pairwise fun a b => key a ≤ key b
  comparesOnly : ∀ {α β : Type} (f : α → β) (less : α → α → Bool) (less' : β → β → Bool)
    (l : List α), (∀ a ∈ l, ∀ b ∈ l, less' (f a) (f b) = less a b) →
    sort less' (l.map f) = (sort less l).map f

variable (S : Sorter) {α K : Type} [LinearOrder K] {key : α → K} {l l' : List α}

/-- The sort by a key. -/
def Sorter.byKey (key : α → K) (l : List α) : List α := S.sort (fun a b => key a < key b) l

theorem byKey_perm (key : α → K) (l : List α) : (S.byKey key l).Perm l := S.perm _ l

theorem pairwise_byKey (key : α → K) (l : List α) :
    (S.byKey key l).Pairwise fun a b => key a ≤ key b := S.ordered key l

@[simp] theorem mem_byKey {a : α} : a ∈ S.byKey key l ↔ a ∈ l := (byKey_perm S key l).mem_iff

@[simp] theorem length_byKey : (S.byKey key l).length = l.length := (byKey_perm S key l).length_eq

theorem byKey_map {β : Type} (f : α → β) {key' : β → K} (h : ∀ a ∈ l, key' (f a) = key a) :
    S.byKey key' (l.map f) = (S.byKey key l).map f := by
  apply S.comparesOnly
  intro a ha b hb
  rw [h a ha, h b hb]

/-- Without equivalent elements the order of the input does not matter. -/
theorem sort_eq_of_perm (h : l.Perm l') (hkeys : (l.map key).Nodup) :
    S.byKey key l = S.byKey key l' := by
  have hperm : (S.byKey key l).Perm (S.byKey key l') :=
    (byKey_perm S key l).trans (h.trans (byKey_perm S key l').symm)
  refine hperm.eq_of_pairwise ?_ (pairwise_byKey S key l) (pairwise_byKey S key l')
  intro a b ha hb hab hba
  have hb : b ∈ l := h.mem_iff.2 ((mem_byKey S).1 hb)
  exact List.inj_on_of_nodup_map hkeys ((mem_byKey S).1 ha) hb (le_antisymm hab hba)

/-- Equivalent elements that trade places in the input trade places in the result. -/
theorem sort_map_swap [DecidableEq α] {a b : α} (h : key a = key b) :
    S.byKey key (l.map (Equiv.swap a b)) = (S.byKey key l).map (Equiv.swap a b) := by
  apply byKey_map
  intro c _
  by_cases hca : c = a
  · rw [hca, Equiv.swap_apply_left, h]
  · by_cases hcb : c = b
    · rw [hcb, Equiv.swap_apply_right, h]
    · rw [Equiv.swap_apply_of_ne_of_ne hca hcb]

/-- Trading places gives a permutation. -/
theorem perm_map_swap [DecidableEq α] {a b : α} (hnodup : l.Nodup) (ha : a ∈ l) (hb : b ∈ l) :
    (l.map (Equiv.swap a b)).Perm l := by
  have hswap : ∀ c ∈ l, Equiv.swap a b c ∈ l := by
    intro c hc
    rw [Equiv.swap_apply_def]
    split_ifs
    · exact hb
    · exact ha
    · exact hc
  refine (List.perm_ext_iff_of_nodup (hnodup.map (Equiv.swap a b).injective) hnodup).2 fun c => ?_
  rw [List.mem_map]
  constructor
  · rintro ⟨d, hd, rfl⟩
    exact hswap d hd
  · intro hc
    exact ⟨Equiv.swap a b c, hswap c hc, Equiv.swap_apply_self a b c⟩

/-- Equivalent elements of a list in order stand next to each other. -/
theorem exists_equivalent_neighbours (hsorted : l.Pairwise fun a b => key a ≤ key b)
    (hkeys : ¬(l.map key).Nodup) : ∃ before a b after, l = before ++ a :: b :: after ∧
      key a = key b := by
  induction l with
  | nil => exact absurd List.nodup_nil hkeys
  | cons a l ih =>
    obtain ⟨hfirst, hrest⟩ := List.pairwise_cons.1 hsorted
    by_cases htail : (l.map key).Nodup
    · -- an equivalent element further on leaves no room for another one in between
      have hmem : key a ∈ l.map key := by
        by_contra hnot
        exact hkeys (List.nodup_cons.2 ⟨hnot, htail⟩)
      obtain ⟨c, hc, hac⟩ := List.mem_map.1 hmem
      cases l with
      | nil => cases hc
      | cons b l =>
        refine ⟨[], a, b, l, rfl, ?_⟩
        apply le_antisymm (hfirst b List.mem_cons_self)
        rw [← hac]
        rcases List.mem_cons.1 hc with rfl | hc
        · exact le_refl _
        · exact (List.pairwise_cons.1 hrest).1 c hc
    · obtain ⟨before, b, c, after, rfl, heq⟩ := ih hrest htail
      exact ⟨a :: before, b, c, after, rfl, heq⟩

/-- The sort leaves a list that is in order as it is. -/
def Sorter.KeepsOrder : Prop :=
  ∀ {α K : Type} [LinearOrder K] (key : α → K) (l : List α),
    l.Pairwise (fun a b => key a ≤ key b) → S.byKey key l = l

/-! ## A stable sort -/

/-- Insertion sort. -/
def stable : Sorter where
  sort less l := l.insertionSort fun a b => less b a = false
  perm less l := List.perm_insertionSort _ l
  ordered key l := by
    have hrel : ∀ a b, (decide (key b < key a) = false) ↔ key a ≤ key b := by
      intro a b
      rw [decide_eq_false_iff_not, not_lt]
    have : Std.Total fun a b => decide (key b < key a) = false :=
      ⟨fun a b => by rw [hrel, hrel]; exact le_total _ _⟩
    have : IsTrans _ fun a b => decide (key b < key a) = false :=
      ⟨fun a b c hab hbc => (hrel a c).2 (((hrel a b).1 hab).trans ((hrel b c).1 hbc))⟩
    exact (List.pairwise_insertionSort _ l).imp fun {a b} h => (hrel a b).1 h
  comparesOnly f less less' l h := by
    symm
    apply List.map_insertionSort
    intro a ha b hb
    rw [h b hb a ha]

/-- A list in order stays as it is. -/
theorem stable_keepsOrder : stable.KeepsOrder := by
  intro α K _ key l h
  apply List.Pairwise.insertionSort_eq
  exact h.imp fun {a b} hab => decide_eq_false (not_lt.2 hab)

end Lib.UnstableSort
