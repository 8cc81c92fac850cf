import Mathlib.Data.List.Induction
import Mathlib.Data.List.Nodup

/-!
# Names made unique by one suffix

Items come one after another, each with a number and a wanted name. An item gets its name, or the
name with its number as a suffix if the name was given before; the suffixed name is not checked
again. `nodup_assigned_iff` says when the names come out different.
-/

namespace Lib.OneShotNames

universe u

variable {N : Type u} [DecidableEq N] (suffixed : N → Nat → N)

def nameFor (given : List N) (item : Nat × N) : N :=
  if item.2 ∈ given then suffixed item.2 item.1 else item.2

/-- The names of the items, in order. -/
def assigned (items : List (Nat × N)) : List N :=
  items.foldl (fun names item => names ++ [nameFor suffixed names item]) []

/-- A name is taken by the earlier items, the last of them first: one of them wants it, or it is
the suffixed form of a wanted name that was taken. -/
def Taken : List (Nat × N) → N → Prop
  | [], _ => False
  | (number, wanted) :: earlier, name =>
    Taken earlier name ∨ name = wanted ∨ name = suffixed wanted number ∧ Taken earlier wanted

/-- No item, the last first, whose wanted name is taken has a suffixed name that an earlier item
wants. -/
def Clear : List (Nat × N) → Prop
  | [] => True
  | (number, wanted) :: earlier =>
    Clear earlier ∧ (Taken suffixed earlier wanted →
      suffixed wanted number ∉ earlier.map Prod.snd)

instance decidableTaken :
    ∀ (earlier : List (Nat × N)) (name : N), Decidable (Taken suffixed earlier name)
  | [], _ => inferInstanceAs (Decidable False)
  | (_, wanted) :: earlier, name =>
    have := decidableTaken earlier name
    have := decidableTaken earlier wanted
    inferInstanceAs (Decidable (_ ∨ _ ∨ _ ∧ _))

instance decidableClear : ∀ items : List (Nat × N), Decidable (Clear suffixed items)
  | [] => inferInstanceAs (Decidable True)
  | _ :: earlier =>
    have := decidableClear earlier
    inferInstanceAs (Decidable (_ ∧ (_ → _)))

variable {suffixed}

@[simp] theorem assigned_nil : assigned suffixed [] = [] := rfl

variable (suffixed) in
theorem assigned_concat (items : List (Nat × N)) (item : Nat × N) :
    assigned suffixed (items ++ [item]) =
      assigned suffixed items ++ [nameFor suffixed (assigned suffixed items) item] := by
  rw [assigned, List.foldl_append]
  rfl

/-- The names given so far are the taken ones. -/
theorem mem_assigned {items : List (Nat × N)} {name : N} :
    name ∈ assigned suffixed items ↔ Taken suffixed items.reverse name := by
  induction items using List.reverseRecOn generalizing name with
  | nil => simp [Taken]
  | append_singleton items item ih =>
    obtain ⟨number, wanted⟩ := item
    rw [assigned_concat, List.mem_append, List.mem_singleton, List.reverse_concat, Taken, ih,
      nameFor]
    by_cases htaken : Taken suffixed items.reverse wanted
    · rw [if_pos (ih.2 htaken)]
      constructor
      · rintro (h | rfl)
        · exact Or.inl h
        · exact Or.inr (Or.inr ⟨rfl, htaken⟩)
      · rintro (h | rfl | ⟨rfl, -⟩)
        · exact Or.inl h
        · exact Or.inl htaken
        · exact Or.inr rfl
    · rw [if_neg (fun h => htaken (ih.1 h))]
      constructor
      · rintro (h | rfl)
        · exact Or.inl h
        · exact Or.inr (Or.inl rfl)
      · rintro (h | rfl | ⟨-, h⟩)
        · exact Or.inl h
        · exact Or.inr rfl
        · exact absurd h htaken

omit [DecidableEq N] in
theorem taken_of_wanted {earlier : List (Nat × N)} {name : N} (h : name ∈ earlier.map Prod.snd) :
    Taken suffixed earlier name := by
  induction earlier with
  | nil => cases h
  | cons item earlier ih =>
    rcases List.mem_cons.1 h with rfl | hrest
    · exact Or.inr (Or.inl rfl)
    · exact Or.inl (ih hrest)

omit [DecidableEq N] in
/-- A suffixed name with a new number is taken only where an item wants it. -/
theorem taken_suffixed_iff (hsuffixed : ∀ a b i j, suffixed a i = suffixed b j → i = j)
    {earlier : List (Nat × N)} {wanted : N} {number : Nat}
    (hnew : number ∉ earlier.map Prod.fst) :
    Taken suffixed earlier (suffixed wanted number) ↔
      suffixed wanted number ∈ earlier.map Prod.snd := by
  refine ⟨?_, taken_of_wanted⟩
  intro h
  induction earlier with
  | nil => cases h
  | cons item earlier ih =>
    rw [List.map_cons, List.mem_cons, not_or] at hnew
    rw [List.map_cons, List.mem_cons]
    rcases h with h | h | ⟨h, -⟩
    · exact Or.inr (ih hnew.2 h)
    · exact Or.inl h
    · exact absurd (hsuffixed _ _ _ _ h) hnew.1

/-- The names are different exactly when no suffixed name meets a wanted one. -/
theorem nodup_assigned_iff (hsuffixed : ∀ a b i j, suffixed a i = suffixed b j → i = j)
    {items : List (Nat × N)} (hnumbers : (items.map Prod.fst).Nodup) :
    (assigned suffixed items).Nodup ↔ Clear suffixed items.reverse := by
  induction items using List.reverseRecOn with
  | nil => simp [Clear]
  | append_singleton items item ih =>
    obtain ⟨number, wanted⟩ := item
    rw [List.map_append, List.nodup_append] at hnumbers
    have hnew : number ∉ items.reverse.map Prod.fst := by
      rw [List.map_reverse, List.mem_reverse]
      intro h
      exact hnumbers.2.2 number h number (by simp) rfl
    rw [assigned_concat, List.nodup_append, ih hnumbers.1, List.reverse_concat, Clear]
    apply and_congr Iff.rfl
    have hlast : (∀ a ∈ assigned suffixed items,
        ∀ b ∈ [nameFor suffixed (assigned suffixed items) (number, wanted)], a ≠ b) ↔
        nameFor suffixed (assigned suffixed items) (number, wanted) ∉
          assigned suffixed items := by
      constructor
      · exact fun h hmem => h _ hmem _ (List.mem_singleton.2 rfl) rfl
      · intro h a ha b hb hab
        rw [List.mem_singleton] at hb
        exact h (hb ▸ hab ▸ ha)
    rw [hlast, nameFor]
    by_cases htaken : wanted ∈ assigned suffixed items
    · rw [if_pos htaken, mem_assigned, taken_suffixed_iff hsuffixed hnew]
      have : Taken suffixed items.reverse wanted := mem_assigned.1 htaken
      simp [this]
    · rw [if_neg htaken]
      have : ¬ Taken suffixed items.reverse wanted := fun h => htaken (mem_assigned.2 h)
      simp [this, htaken]

end Lib.OneShotNames
