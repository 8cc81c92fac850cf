import Mathlib.Order.Bounds.Basic
import Mathlib.Order.MinMax
import Mathlib.Data.List.Basic

/-!
# Edit distance

`Edit` inserts, deletes or replaces one item of a list, and `EditsIn n` is a chain of `n` edits.
`distance` is the recursion that compares two lists from their heads and takes no minimum where
these agree. It is the length of a shortest chain of edits (`isLeast_distance`): there is a chain
that long, and one edit changes the distance by at most one.
-/

namespace Lib.EditDistance

universe u

variable {α : Type u}

/-- One edit, anywhere in the list. -/
inductive Edit : List α → List α → Prop where
  | insert (front rest : List α) (x : α) : Edit (front ++ rest) (front ++ x :: rest)
  | delete (front rest : List α) (x : α) : Edit (front ++ x :: rest) (front ++ rest)
  | replace (front rest : List α) (x y : α) : Edit (front ++ x :: rest) (front ++ y :: rest)

/-- A chain of so many edits. -/
inductive EditsIn : Nat → List α → List α → Prop where
  | refl (a : List α) : EditsIn 0 a a
  | step {n : Nat} {a b c : List α} : Edit a b → EditsIn n b c → EditsIn (n + 1) a c

/-! ## Chains -/

variable {a b : List α}

theorem Edit.cons (h : Edit a b) (x : α) : Edit (x :: a) (x :: b) := by
  cases h with
  | insert front rest y => exact .insert (x :: front) rest y
  | delete front rest y => exact .delete (x :: front) rest y
  | replace front rest y z => exact .replace (x :: front) rest y z

theorem Edit.reverse (h : Edit a b) : Edit a.reverse b.reverse := by
  cases h with
  | insert front rest x => simpa using Edit.insert rest.reverse front.reverse x
  | delete front rest x => simpa using Edit.delete rest.reverse front.reverse x
  | replace front rest x y => simpa using Edit.replace rest.reverse front.reverse x y

variable {n : Nat}

theorem EditsIn.cons (h : EditsIn n a b) (x : α) :
    EditsIn n (x :: a) (x :: b) := by
  induction h with
  | refl a => exact .refl (x :: a)
  | step hfirst _ ih => exact .step (hfirst.cons x) ih

theorem EditsIn.reverse (h : EditsIn n a b) :
    EditsIn n a.reverse b.reverse := by
  induction h with
  | refl a => exact .refl a.reverse
  | step hfirst _ ih => exact .step hfirst.reverse ih

theorem editsIn_reverse :
    EditsIn n a.reverse b.reverse ↔ EditsIn n a b := by
  refine ⟨fun h => ?_, EditsIn.reverse⟩
  have hback := h.reverse
  rwa [List.reverse_reverse, List.reverse_reverse] at hback

theorem editsIn_nil_left (b : List α) : EditsIn b.length [] b := by
  induction b with
  | nil => exact .refl []
  | cons y b ih => exact .step (.insert [] [] y) (ih.cons y)

theorem editsIn_nil_right (a : List α) : EditsIn a.length a [] := by
  induction a with
  | nil => exact .refl []
  | cons x a ih => exact .step (.delete [] a x) ih

/-! ## The recursion -/

variable [DecidableEq α]

def distance : List α → List α → Nat
  | [], b => b.length
  | a, [] => a.length
  | x :: a, y :: b =>
    if x = y then distance a b
    else 1 + min (distance a b) (min (distance a (y :: b)) (distance (x :: a) b))

attribute [local simp] distance

@[simp] theorem distance_nil_left (b : List α) : distance [] b = b.length := by
  rw [distance]

@[simp] theorem distance_nil_right (a : List α) : distance a [] = a.length := by
  cases a with
  | nil => rw [distance]
  | cons x a => rw [distance]; exact List.cons_ne_nil x a

theorem distance_cons_self (x : α) (a b : List α) : distance (x :: a) (x :: b) = distance a b := by
  rw [distance, if_pos rfl]

theorem distance_cons_of_ne {x y : α} (h : x ≠ y) (a b : List α) :
    distance (x :: a) (y :: b) =
      1 + min (distance a b) (min (distance a (y :: b)) (distance (x :: a) b)) := by
  rw [distance, if_neg h]

theorem distance_self (a : List α) : distance a a = 0 := by
  induction a with
  | nil => rw [distance_nil_left, List.length_nil]
  | cons x a ih => rw [distance_cons_self, ih]

theorem distance_comm (a b : List α) : distance a b = distance b a := by
  induction a generalizing b with
  | nil => rw [distance_nil_left, distance_nil_right]
  | cons x a iha =>
    induction b with
    | nil => rw [distance_nil_left, distance_nil_right]
    | cons y b ihb =>
      by_cases h : x = y
      · rw [h, distance_cons_self, distance_cons_self, iha]
      · rw [distance_cons_of_ne h, distance_cons_of_ne (Ne.symm h), iha b, iha (y :: b), ihb,
          min_comm (distance (y :: b) a)]

/-- There is a chain of that many edits. -/
theorem editsIn_distance (a b : List α) : EditsIn (distance a b) a b := by
  induction a generalizing b with
  | nil =>
    rw [distance_nil_left]
    exact editsIn_nil_left b
  | cons x a iha =>
    induction b with
    | nil =>
      rw [distance_nil_right]
      exact editsIn_nil_right (x :: a)
    | cons y b ihb =>
      by_cases h : x = y
      · subst h
        rw [distance_cons_self]
        exact (iha b).cons x
      · rw [distance_cons_of_ne h, Nat.add_comm]
        -- the smallest of the three says what happens to the two heads
        rcases min_choice (distance a b) (min (distance a (y :: b)) (distance (x :: a) b))
          with hmin | hmin
        · rw [hmin]
          exact .step (.replace [] a x y) ((iha b).cons y)
        · rw [hmin]
          rcases min_choice (distance a (y :: b)) (distance (x :: a) b) with hmin | hmin
          · rw [hmin]
            exact .step (.delete [] a x) (iha (y :: b))
          · rw [hmin]
            exact .step (.insert [] (x :: a) y) (ihb.cons y)

/-! ## One edit -/

/-- An item more on the right, where an item less on the left is allowed for. -/
theorem distance_cons_right_le {b : List α}
    (hless : ∀ (x : α) (a : List α), distance a b ≤ distance (x :: a) b + 1) (a : List α) (y : α) :
    distance a (y :: b) ≤ distance a b + 1 := by
  cases a with
  | nil =>
    rw [distance_nil_left, distance_nil_left]
    exact le_rfl
  | cons x a =>
    by_cases h : x = y
    · rw [h, distance_cons_self]
      exact hless y a
    · rw [distance_cons_of_ne h]
      omega

/-- An item less on the left. -/
theorem distance_le_cons_left (x : α) (a b : List α) : distance a b ≤ distance (x :: a) b + 1 := by
  induction b generalizing x a with
  | nil =>
    rw [distance_nil_right, distance_nil_right, List.length_cons]
    omega
  | cons y b ih =>
    have hmore := distance_cons_right_le (fun x a => ih x a) a y
    by_cases h : x = y
    · rw [h, distance_cons_self]
      exact hmore
    · have hless := ih x a
      rw [distance_cons_of_ne h]
      omega

/-- An item more on the left. -/
theorem distance_cons_left_le (x : α) (a b : List α) : distance (x :: a) b ≤ distance a b + 1 := by
  rw [distance_comm (x :: a), distance_comm a]
  exact distance_cons_right_le (fun y c => distance_le_cons_left y c a) b x

/-- Another item at the head of the left. -/
theorem distance_replace_le (x y : α) (a b : List α) :
    distance (x :: a) b ≤ distance (y :: a) b + 1 := by
  induction b with
  | nil =>
    rw [distance_nil_right, distance_nil_right, List.length_cons, List.length_cons]
    omega
  | cons z b ih =>
    have hleft := distance_le_cons_left y a b
    have hright : distance a b ≤ distance a (z :: b) + 1 := by
      rw [distance_comm a b, distance_comm a (z :: b)]
      exact distance_le_cons_left z b a
    by_cases hx : x = z
    · rw [hx, distance_cons_self]
      by_cases hy : y = z
      · rw [hy, distance_cons_self]
        omega
      · rw [distance_cons_of_ne hy]
        omega
    · rw [distance_cons_of_ne hx]
      by_cases hy : y = z
      · rw [hy, distance_cons_self]
        omega
      · rw [distance_cons_of_ne hy]
        omega

/-- What holds of two lists against every other still holds with one more head. -/
theorem distance_cons_le_of_le {a a' : List α} (h : ∀ b, distance a b ≤ distance a' b + 1) (x : α)
    (b : List α) : distance (x :: a) b ≤ distance (x :: a') b + 1 := by
  induction b with
  | nil =>
    have hnil := h []
    rw [distance_nil_right, distance_nil_right] at hnil ⊢
    rw [List.length_cons, List.length_cons]
    omega
  | cons y b ih =>
    have htail := h b
    have hwhole := h (y :: b)
    by_cases hx : x = y
    · rw [hx, distance_cons_self, distance_cons_self]
      exact htail
    · rw [distance_cons_of_ne hx, distance_cons_of_ne hx]
      omega

/-- An edit changes the distance to a list by at most one. -/
theorem Edit.distance_le {a a' : List α} (h : Edit a a') (b : List α) :
    distance a b ≤ distance a' b + 1 := by
  cases h with
  | insert front rest x =>
    induction front generalizing b with
    | nil => exact distance_le_cons_left x rest b
    | cons z front ih => exact distance_cons_le_of_le ih z b
  | delete front rest x =>
    induction front generalizing b with
    | nil => exact distance_cons_left_le x rest b
    | cons z front ih => exact distance_cons_le_of_le ih z b
  | replace front rest x y =>
    induction front generalizing b with
    | nil => exact distance_replace_le x y rest b
    | cons z front ih => exact distance_cons_le_of_le ih z b

/-- No chain of edits is shorter. -/
theorem EditsIn.distance_le (h : EditsIn n a b) : distance a b ≤ n := by
  induction h with
  | refl a => rw [distance_self]
  | step hfirst _ ih => exact (hfirst.distance_le _).trans (Nat.add_le_add_right ih 1)

theorem isLeast_distance (a b : List α) : IsLeast {n | EditsIn n a b} (distance a b) :=
  ⟨editsIn_distance a b, fun _ h => EditsIn.distance_le h⟩

end Lib.EditDistance
