import Mathlib.Data.List.Basic
import Mathlib.Order.Lattice

/-!
# Strict weak orders and stable sorting

A comparison that goes by one key after another is a strict weak order, whatever the keys are, as
long as each has a linear order (`LexBy.isStrictWeakOrder`). A list that is sorted by a strict weak
order, and keeps elements that tie in their order, is the stable sort of the list it was made from.
-/

namespace Lib.StrictWeak

universe u v

variable {S : Type u}

/-- Compare by a key, and by `r` where the key is the same. -/
def LexBy {K : Type v} [LT K] (key : S → K) (r : S → S → Prop) (a b : S) : Prop :=
  key a < key b ∨ key a = key b ∧ r a b

theorem LexBy.isStrictWeakOrder {K : Type v} [LinearOrder K] (key : S → K) {r : S → S → Prop}
    (h : IsStrictWeakOrder S r) : IsStrictWeakOrder S (LexBy key r) where
  irrefl a := by
    rintro (hlt | ⟨-, hr⟩)
    · exact lt_irrefl _ hlt
    · exact h.irrefl a hr
  trans a b c := by
    rintro (hab | ⟨hab, rab⟩) (hbc | ⟨hbc, rbc⟩)
    · exact Or.inl (hab.trans hbc)
    · exact Or.inl (hbc ▸ hab)
    · exact Or.inl (hab ▸ hbc)
    · exact Or.inr ⟨hab.trans hbc, h.trans a b c rab rbc⟩
  incomp_trans a b c := by
    -- what ties has the same key
    have hties : ∀ {x y : S}, ¬ LexBy key r x y ∧ ¬ LexBy key r y x →
        key x = key y ∧ ¬ r x y ∧ ¬ r y x := by
      rintro x y ⟨hxy, hyx⟩
      have hkey : key x = key y := le_antisymm (not_lt.1 fun hlt => hyx (Or.inl hlt))
        (not_lt.1 fun hlt => hxy (Or.inl hlt))
      exact ⟨hkey, fun hr => hxy (Or.inr ⟨hkey, hr⟩), fun hr => hyx (Or.inr ⟨hkey.symm, hr⟩)⟩
    intro hab hbc
    obtain ⟨kab, rab⟩ := hties hab
    obtain ⟨kbc, rbc⟩ := hties hbc
    obtain ⟨rac, rca⟩ := h.incomp_trans a b c rab rbc
    have kac : key a = key c := kab.trans kbc
    constructor
    · rintro (hlt | ⟨-, hr⟩)
      · exact absurd kac hlt.ne
      · exact rac hr
    · rintro (hlt | ⟨-, hr⟩)
      · exact absurd kac hlt.ne'
      · exact rca hr

theorem asymm {r : S → S → Prop} (h : IsStrictWeakOrder S r) {a b : S} (hab : r a b) : ¬ r b a :=
  fun hba => h.irrefl a (h.trans a b a hab hba)

theorem not_trans {r : S → S → Prop} (h : IsStrictWeakOrder S r) {a b c : S} (hab : ¬ r a b)
    (hbc : ¬ r b c) : ¬ r a c := by
  intro hac
  have hba : ¬ r b a := fun hba => hbc (h.trans b a c hba hac)
  have hcb : ¬ r c b := fun hcb => hab (h.trans a c b hac hcb)
  exact (h.incomp_trans a b c ⟨hab, hba⟩ ⟨hbc, hcb⟩).1 hac

variable {before : S → S → Bool}

/-- The second list is the stable sort of the first one. -/
structure IsStableSort (before : S → S → Bool) (l sorted : List S) : Prop where
  perm : sorted.Perm l
  ordered : sorted.Pairwise fun a b => before b a = false
  ties : ∀ a, (sorted.filter fun b => !before a b && !before b a) =
    l.filter fun b => !before a b && !before b a

theorem isStableSort_mergeSort (h : IsStrictWeakOrder S fun a b => before a b = true)
    (l : List S) : IsStableSort before l (l.mergeSort fun a b => !before b a) := by
  have htrans : ∀ a b c : S, (!before b a) = true → (!before c b) = true →
      (!before c a) = true := by
    intro a b c hab hbc
    simp only [Bool.not_eq_true', ← Bool.not_eq_true] at hab hbc ⊢
    exact not_trans h hbc hab
  have htotal : ∀ a b : S, (!before b a || !before a b) = true := by
    intro a b
    cases hba : before b a with
    | false => rfl
    | true => simpa using asymm h hba
  have hperm := List.mergeSort_perm l fun a b => !before b a
  have hordered := List.pairwise_mergeSort htrans htotal l
  refine ⟨hperm, hordered.imp fun hab => by simpa using hab, fun a => ?_⟩
  -- the elements that tie with `a` are a sorted sublist, so they stay one
  have htied : (l.filter fun b => !before a b && !before b a).Pairwise
      fun b c => (!before c b) = true := by
    refine List.pairwise_of_forall_mem_list fun b hb c hc => ?_
    have hb' := (List.mem_filter.1 hb).2
    have hc' := (List.mem_filter.1 hc).2
    simp only [Bool.and_eq_true, Bool.not_eq_true', ← Bool.not_eq_true] at hb' hc' ⊢
    exact not_trans h hc'.2 hb'.1
  have hsub := List.sublist_mergeSort htrans htotal htied List.filter_sublist
  have hsub' := hsub.filter fun b => !before a b && !before b a
  rw [List.filter_filter] at hsub'
  simp only [Bool.and_self] at hsub'
  exact (hsub'.eq_of_length ((hperm.filter _).length_eq.symm)).symm

/-- Nothing that is left out comes before something that is kept. -/
theorem IsStableSort.take_drop {l sorted : List S} (h : IsStableSort before l sorted) (k : Nat)
    {a b : S} (ha : a ∈ sorted.take k) (hb : b ∈ sorted.drop k) : before b a = false := by
  have hall := h.ordered
  rw [← List.take_append_drop k sorted, List.pairwise_append] at hall
  exact hall.2.2 a ha b hb

/-- The front of a sorted list is sorted already. -/
theorem IsStableSort.mergeSort_take {l sorted : List S} (h : IsStableSort before l sorted)
    (k : Nat) : (sorted.take k).mergeSort (fun a b => !before b a) = sorted.take k := by
  have hfront := List.Pairwise.sublist (List.take_sublist k sorted) h.ordered
  exact List.mergeSort_of_pairwise (hfront.imp fun hab => by simpa using hab)

end Lib.StrictWeak
