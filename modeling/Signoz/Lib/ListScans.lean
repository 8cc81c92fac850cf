import Mathlib.Data.List.Induction
import Mathlib.Data.List.Nodup

/-!
# Scans of a list into a map

A loop over a list that writes each element and its position into a map leaves the last position of
each element (`lastPosition`). A loop that writes the elements into a set, and stops at one that is
in it already, finds whether an element comes twice (`repeats_iff`).
-/

namespace Lib.ListScans

variable {α : Type} [DecidableEq α]

/-- The last position of each element. -/
def lastPosition (l : List α) : α → Option Nat :=
  l.zipIdx.foldl (fun positions p => Function.update positions p.1 (some p.2)) fun _ => none

/-- An element comes twice, or is one of those seen before. -/
def repeats (seen : List α) : List α → Bool
  | [] => false
  | a :: rest => if a ∈ seen then true else repeats (a :: seen) rest

/-! ## Positions -/

theorem lastPosition_append (l : List α) (p m : α) :
    lastPosition (l ++ [p]) m = if m = p then some l.length else lastPosition l m := by
  rw [lastPosition, lastPosition, List.zipIdx_append, List.foldl_append]
  simp [Function.update_apply]

/-- A position in the map is the last of its element. -/
theorem lastPosition_some {l : List α} {m : α} {loc : Nat} (h : lastPosition l m = some loc) :
    l[loc]? = some m ∧ ∀ q, l[q]? = some m → q ≤ loc := by
  induction l using List.reverseRecOn with
  | nil => cases h
  | append_singleton l p ih =>
    rw [lastPosition_append] at h
    split_ifs at h with hm
    · obtain rfl := Option.some.inj h
      subst hm
      refine ⟨List.getElem?_concat_length, ?_⟩
      intro q hq
      have hlt := (List.getElem?_eq_some_iff.mp hq).1
      rw [List.length_append, List.length_singleton] at hlt
      omega
    · obtain ⟨hloc, hlast⟩ := ih h
      have hlt := (List.getElem?_eq_some_iff.mp hloc).1
      refine ⟨by rw [List.getElem?_append_left hlt, hloc], ?_⟩
      intro q hq
      by_cases hlen : q < l.length
      · rw [List.getElem?_append_left hlen] at hq
        exact hlast q hq
      · have hq' := (List.getElem?_eq_some_iff.mp hq).1
        rw [List.length_append, List.length_singleton] at hq'
        obtain rfl : q = l.length := by omega
        rw [List.getElem?_concat_length] at hq
        exact absurd (Option.some.inj hq).symm hm

theorem lastPosition_none {l : List α} {m : α} (h : lastPosition l m = none) : m ∉ l := by
  induction l using List.reverseRecOn with
  | nil => exact List.not_mem_nil
  | append_singleton l p ih =>
    rw [lastPosition_append] at h
    split_ifs at h with hm
    rw [List.mem_append, List.mem_singleton, not_or]
    exact ⟨ih h, hm⟩

theorem lastPosition_of_not_mem {l : List α} {m : α} (h : m ∉ l) : lastPosition l m = none := by
  cases hposition : lastPosition l m with
  | none => rfl
  | some loc => exact absurd (List.mem_of_getElem? (lastPosition_some hposition).1) h

theorem lastPosition_inj {l : List α} {m m' : α} {loc : Nat}
    (h : lastPosition l m = some loc) (h' : lastPosition l m' = some loc) : m = m' :=
  Option.some.inj ((lastPosition_some h).1.symm.trans (lastPosition_some h').1)

/-! ## Repetitions -/

theorem repeats_iff (seen l : List α) :
    repeats seen l = true ↔ ¬(l.Nodup ∧ ∀ m ∈ l, m ∉ seen) := by
  induction l generalizing seen with
  | nil => simp [repeats]
  | cons m l ih =>
    rw [repeats]
    split
    · rename_i hseen
      exact iff_of_true rfl fun h => h.2 m List.mem_cons_self hseen
    · rename_i hseen
      rw [ih, not_iff_not, List.nodup_cons, List.forall_mem_cons]
      constructor
      · rintro ⟨hl, hnew⟩
        refine ⟨⟨fun hm => hnew m hm List.mem_cons_self, hl⟩, hseen, ?_⟩
        exact fun m' hm' h => hnew m' hm' (List.mem_cons_of_mem _ h)
      · rintro ⟨⟨hm, hl⟩, -, hnew⟩
        refine ⟨hl, ?_⟩
        intro m' hm' h
        rcases List.mem_cons.mp h with rfl | h
        · exact hm hm'
        · exact hnew m' hm' h

end Lib.ListScans
