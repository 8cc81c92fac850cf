import Mathlib.Data.List.Pairwise
import Mathlib.Data.List.Sort

/-!
# Keeping what nothing kept covers

A loop that keeps an element of a list unless an element kept before covers it. When covering is
reflexive and transitive, and an element that covers an earlier one is covered by it too, what is
kept is one of each maximal element (`keepUncovered_maximal`, `keepUncovered_covers`,
`pairwise_keepUncovered`). Elements that occur again change nothing, not even when the list is
sorted first by a stable sort (`keepUncovered_insertionSort_append`, `keepUncovered_flatMap_filter`).
-/

namespace Lib.GreedyCover

universe u

variable {α : Type u} (covers : α → α → Bool)

/-- One round of the loop. -/
def keepStep (kept : List α) (a : α) : List α :=
  if kept.any fun k => covers k a then kept else kept ++ [a]

/-- Keep the elements that no element kept before covers. -/
def keepUncovered (l : List α) : List α := l.foldl (keepStep covers) []

variable {covers}

theorem foldl_keepStep_sublist (l : List α) : ∀ kept : List α,
    (l.foldl (keepStep covers) kept).Sublist (kept ++ l) := by
  induction l with
  | nil => simp
  | cons a l ih =>
    intro kept
    rw [List.foldl_cons]
    refine (ih _).trans ?_
    rw [keepStep]
    split
    · exact List.Sublist.append (List.Sublist.refl kept) (List.sublist_cons_self a l)
    · rw [List.append_assoc]
      exact List.Sublist.refl _

theorem keepUncovered_sublist (l : List α) : (keepUncovered covers l).Sublist l :=
  foldl_keepStep_sublist l []

/-- What has been kept stays. -/
theorem mem_foldl_keepStep (l : List α) : ∀ kept : List α, ∀ k ∈ kept,
    k ∈ l.foldl (keepStep covers) kept := by
  induction l with
  | nil => exact fun kept k hk => hk
  | cons a l ih =>
    intro kept k hk
    rw [List.foldl_cons]
    apply ih
    rw [keepStep]
    split
    · exact hk
    · exact List.mem_append_left _ hk

/-- Every element is covered by one that is kept. -/
theorem keepUncovered_covers (hrefl : ∀ a, covers a a = true) (l : List α) :
    ∀ a ∈ l, ∃ k ∈ keepUncovered covers l, covers k a = true := by
  have hrun : ∀ (l kept : List α), ∀ a ∈ l,
      ∃ k ∈ l.foldl (keepStep covers) kept, covers k a = true := by
    intro l
    induction l with
    | nil => simp
    | cons b l ih =>
      intro kept a ha
      rw [List.foldl_cons]
      rcases List.mem_cons.1 ha with rfl | ha
      · -- the element is covered when its turn comes, and kept otherwise
        by_cases hany : (kept.any fun k => covers k a) = true
        · obtain ⟨k, hk, hcov⟩ := List.any_eq_true.1 hany
          refine ⟨k, mem_foldl_keepStep l _ k ?_, hcov⟩
          rw [keepStep, if_pos hany]
          exact hk
        · refine ⟨a, mem_foldl_keepStep l _ a ?_, hrefl a⟩
          rw [keepStep, if_neg hany]
          exact List.mem_append_right _ (List.mem_singleton_self a)
      · exact ih _ a ha
  exact hrun l []

/-- An element that is kept is covered by none kept before. -/
theorem pairwise_keepUncovered (l : List α) :
    (keepUncovered covers l).Pairwise fun a b => covers a b = false := by
  have hrun : ∀ (l kept : List α), kept.Pairwise (fun a b => covers a b = false) →
      (l.foldl (keepStep covers) kept).Pairwise fun a b => covers a b = false := by
    intro l
    induction l with
    | nil => exact fun kept h => h
    | cons b l ih =>
      intro kept h
      rw [List.foldl_cons]
      apply ih
      rw [keepStep]
      split
      · exact h
      · next hany =>
          rw [List.pairwise_append]
          refine ⟨h, List.pairwise_singleton _ b, fun k hk x hx => ?_⟩
          rw [List.mem_singleton.1 hx]
          by_contra hcov
          rw [Bool.not_eq_false] at hcov
          exact hany (List.any_eq_true.2 ⟨k, hk, hcov⟩)
  exact hrun l [] List.Pairwise.nil

/-- What is kept is maximal, when elements that cover an earlier one are covered by it. -/
theorem keepUncovered_maximal (hrefl : ∀ a, covers a a = true)
    (htrans : ∀ a b c, covers a b = true → covers b c = true → covers a c = true) {l : List α}
    (hsorted : l.Pairwise fun a b => covers b a = true → covers a b = true) :
    ∀ k ∈ keepUncovered covers l, ∀ a ∈ l, covers a k = true → covers k a = true := by
  intro k hk a ha hcov
  obtain ⟨k', hk', hcov'⟩ := keepUncovered_covers hrefl l a ha
  have hk'k := htrans k' a k hcov' hcov
  by_cases heq : k' = k
  · rw [← heq]
    exact hcov'
  · -- of two kept elements neither covers the other
    have hsub := @keepUncovered_sublist α covers l
    have hsym : (keepUncovered covers l).Pairwise fun x y =>
        covers x y = false ∧ covers y x = false := by
      refine ((hsorted.sublist hsub).and (pairwise_keepUncovered l)).imp fun {x y} h => ⟨h.2, ?_⟩
      by_contra hyx
      rw [Bool.not_eq_false] at hyx
      have hxy := h.1 hyx
      rw [h.2] at hxy
      cases hxy
    have : Std.Symm fun x y => covers x y = false ∧ covers y x = false :=
      ⟨fun _ _ h => ⟨h.2, h.1⟩⟩
    have hnone := (hsym.forall hk' hk heq).1
    rw [hnone] at hk'k
    cases hk'k

/-! ## Elements that occur again -/

/-- An element that occurs earlier is not kept again. -/
theorem keepUncovered_append_cons_of_mem (hrefl : ∀ a, covers a a = true) {x : α} {p : List α}
    (hx : x ∈ p) (q : List α) :
    keepUncovered covers (p ++ x :: q) = keepUncovered covers (p ++ q) := by
  obtain ⟨k, hk, hcov⟩ := keepUncovered_covers hrefl p x hx
  have hstep : keepStep covers (keepUncovered covers p) x = keepUncovered covers p := by
    rw [keepStep, if_pos (List.any_eq_true.2 ⟨k, hk, hcov⟩)]
  rw [keepUncovered, keepUncovered, List.foldl_append, List.foldl_append, List.foldl_cons]
  exact congrArg (List.foldl (keepStep covers) · q) hstep

section Sorted

variable (r : α → α → Prop) [DecidableRel r] [Std.Total r] [IsTrans α r]

omit [Std.Total r] [IsTrans α r] in
/-- An element that belongs before some element of a first part is inserted there. -/
theorem orderedInsert_append_of_exists {y : α} (q : List α) : ∀ {p : List α}, (∃ z ∈ p, r y z) →
    (p ++ q).orderedInsert r y = p.orderedInsert r y ++ q := by
  intro p
  induction p with
  | nil => rintro ⟨z, hz, -⟩; cases hz
  | cons a p ih =>
    rintro ⟨z, hz, hyz⟩
    rw [List.cons_append, List.orderedInsert_cons, List.orderedInsert_cons]
    by_cases hya : r y a
    · rw [if_pos hya, if_pos hya, List.cons_append, List.cons_append]
    · rw [if_neg hya, if_neg hya, List.cons_append]
      rcases List.mem_cons.1 hz with rfl | hz
      · exact absurd hyz hya
      · rw [ih ⟨z, hz, hyz⟩]

omit [Std.Total r] [IsTrans α r] in
/-- An element that belongs before no element of a first part is inserted behind it. -/
theorem orderedInsert_append_of_forall {y : α} (q : List α) : ∀ {p : List α}, (∀ z ∈ p, ¬ r y z) →
    (p ++ q).orderedInsert r y = p ++ q.orderedInsert r y := by
  intro p
  induction p with
  | nil => intro _; rfl
  | cons a p ih =>
    intro h
    rw [List.cons_append, List.orderedInsert_cons, if_neg (h a List.mem_cons_self),
      ih fun z hz => h z (List.mem_cons_of_mem a hz), List.cons_append]

/-- A stable sort puts an element behind the equal elements that come before it. -/
theorem insertionSort_append_cons (x : α) (b : List α) : ∀ a : List α, ∃ p q,
    (a ++ b).insertionSort r = p ++ q ∧ (a ++ x :: b).insertionSort r = p ++ x :: q ∧
      (x ∈ a → x ∈ p) := by
  intro a
  induction a with
  | nil =>
    refine ⟨(b.insertionSort r).takeWhile fun c => ¬ r x c,
      (b.insertionSort r).dropWhile fun c => ¬ r x c, ?_, ?_, fun h => absurd h (by simp)⟩
    · rw [List.nil_append, List.takeWhile_append_dropWhile]
    · rw [List.nil_append, List.insertionSort_cons_eq_take_drop]
  | cons y a ih =>
    obtain ⟨p, q, hwithout, hwith, hmem⟩ := ih
    rw [List.cons_append, List.cons_append, List.insertionSort_cons, List.insertionSort_cons,
      hwithout, hwith]
    by_cases hbefore : ∃ z ∈ p, r y z
    · -- the new element goes into the first part
      refine ⟨p.orderedInsert r y, q, orderedInsert_append_of_exists r q hbefore,
        orderedInsert_append_of_exists r _ hbefore, fun hx => (List.mem_orderedInsert r).2 ?_⟩
      exact (List.mem_cons.1 hx).imp_right hmem
    · have hbehind : ∀ z ∈ p, ¬ r y z := fun z hz hyz => hbefore ⟨z, hz, hyz⟩
      rw [orderedInsert_append_of_forall r _ hbehind, orderedInsert_append_of_forall r _ hbehind]
      by_cases hyx : r y x
      · -- it goes between the parts, before whatever comes after `x`
        have hsorted := List.pairwise_insertionSort r (a ++ x :: b)
        rw [hwith, List.pairwise_append] at hsorted
        have hafter : ∀ z ∈ q, r y z := fun z hz =>
          IsTrans.trans y x z hyx ((List.pairwise_cons.1 hsorted.2.1).1 z hz)
        have hinsert : q.orderedInsert r y = y :: q := by
          cases q with
          | nil => rfl
          | cons z q => rw [List.orderedInsert_cons, if_pos (hafter z List.mem_cons_self)]
        refine ⟨p ++ [y], q, ?_, ?_, fun hx => ?_⟩
        · rw [hinsert, List.append_assoc, List.singleton_append]
        · rw [List.orderedInsert_cons, if_pos hyx, List.append_assoc, List.singleton_append]
        · rw [List.mem_append, List.mem_singleton]
          exact (List.mem_cons.1 hx).symm.imp_left hmem
      · -- it goes behind `x`
        refine ⟨p, q.orderedInsert r y, rfl, ?_, fun hx => ?_⟩
        · rw [List.orderedInsert_cons, if_neg hyx]
        · rcases List.mem_cons.1 hx with rfl | hx
          · exact absurd ((Std.Total.total (r := r) x x).elim id id) hyx
          · exact hmem hx

/-- What occurs earlier can be left out before a stable sort. -/
theorem keepUncovered_insertionSort_append (hrefl : ∀ a, covers a a = true) (a b : List α) :
    ∀ block : List α, (∀ x ∈ block, x ∈ a) →
      keepUncovered covers ((a ++ (block ++ b)).insertionSort r) =
        keepUncovered covers ((a ++ b).insertionSort r) := by
  intro block
  induction block with
  | nil => intro _; rfl
  | cons x block ih =>
    intro hblock
    obtain ⟨p, q, hwithout, hwith, hmem⟩ := insertionSort_append_cons r x (block ++ b) a
    rw [List.cons_append, hwith,
      keepUncovered_append_cons_of_mem hrefl (hmem (hblock x List.mem_cons_self)), ← hwithout]
    exact ih fun z hz => hblock z (List.mem_cons_of_mem x hz)

/-- Parts that only repeat what comes before them can be left out. -/
theorem keepUncovered_flatMap_filter {β : Type u} (hrefl : ∀ a, covers a a = true) (g : β → List α)
    (keep : β → Bool) : ∀ (l : List β) (a : List α), (∀ i ∈ l, keep i = false → ∀ x ∈ g i, x ∈ a) →
      keepUncovered covers ((a ++ (l.filter keep).flatMap g).insertionSort r) =
        keepUncovered covers ((a ++ l.flatMap g).insertionSort r) := by
  intro l
  induction l with
  | nil => intro a _; rfl
  | cons i l ih =>
    intro a h
    have hrest : ∀ j ∈ l, keep j = false → ∀ x ∈ g j, x ∈ a :=
      fun j hj => h j (List.mem_cons_of_mem i hj)
    rw [List.flatMap_cons]
    cases hkeep : keep i with
    | false =>
      rw [List.filter_cons_of_neg (by simp [hkeep]),
        keepUncovered_insertionSort_append r hrefl a _ _ (h i List.mem_cons_self hkeep)]
      exact ih a hrest
    | true =>
      rw [List.filter_cons_of_pos hkeep, List.flatMap_cons, ← List.append_assoc,
        ← List.append_assoc]
      exact ih (a ++ g i) fun j hj hdrop x hx => List.mem_append_left _ (hrest j hj hdrop x hx)

end Sorted

end Lib.GreedyCover
