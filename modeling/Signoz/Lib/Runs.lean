import Mathlib.Data.List.Induction

/-!
# Runs of a labelled step function

A component that takes one labelled step after another is a partial step function
`step : σ → α → Option σ`: `none` says that the label is not enabled in the state. `exec` runs a
list of labels. Two rules carry what holds along a run: `exec_invariant` for a property of the
history and the state together, and `exec_invariant_of_stepsMeet` for a property that a step
keeps when its label and the state before it meet a condition.
-/

namespace Lib.Runs

universe u v

variable {σ : Type u} {α : Type v} (step : σ → α → Option σ)

/-- The state after the labels, if each of them was enabled when its turn came. -/
def exec : σ → List α → Option σ
  | s, [] => some s
  | s, a :: as => (step s a).bind fun t => exec t as

/-- Every step of the run meets `P`, read at the state before the step and the label. -/
def StepsMeet (P : σ → α → Prop) : σ → List α → Prop
  | _, [] => True
  | s, a :: as => P s a ∧ ∀ t, step s a = some t → StepsMeet P t as

section Rules

variable {step}

@[simp] theorem exec_nil (s : σ) : exec step s [] = some s := rfl

theorem exec_cons {s t : σ} {a : α} (as : List α) (h : step s a = some t) :
    exec step s (a :: as) = exec step t as := by
  simp only [exec, h, Option.bind_some]

variable {as : List α}

/-- The last step of a run, separated. -/
theorem exec_concat {a : α} :
    ∀ {s t : σ}, exec step s (as ++ [a]) = some t →
      ∃ m, exec step s as = some m ∧ step m a = some t := by
  induction as with
  | nil =>
    intro s t h
    cases hs : step s a with
    | none => simp [exec, hs] at h
    | some m => exact ⟨s, rfl, by simpa [exec, hs] using h⟩
  | cons b bs ih =>
    intro s t h
    cases hs : step s b with
    | none => simp [exec, hs] at h
    | some m =>
      rw [List.cons_append, exec_cons _ hs] at h
      obtain ⟨k, hk, hstep⟩ := ih h
      exact ⟨k, (exec_cons bs hs).trans hk, hstep⟩

/-- A run in two parts. -/
theorem exec_append {as bs : List α} :
    ∀ {s m : σ}, exec step s as = some m → exec step s (as ++ bs) = exec step m bs := by
  induction as with
  | nil =>
    intro s m h
    obtain rfl : s = m := by simpa using h
    rfl
  | cons a as ih =>
    intro s m h
    obtain ⟨k, hk, hrest⟩ := Option.bind_eq_some_iff.1 h
    rw [List.cons_append, exec_cons _ hk]
    exact ih hrest

variable {P : σ → α → Prop}

theorem StepsMeet.append {as bs : List α} :
    ∀ {s : σ}, StepsMeet step P s as →
      (∀ m, exec step s as = some m → StepsMeet step P m bs) → StepsMeet step P s (as ++ bs) := by
  induction as with
  | nil => exact fun _ hbs => hbs _ rfl
  | cons a as ih =>
    rintro s ⟨hP, hrest⟩ hbs
    refine ⟨hP, fun t ht => ih (hrest t ht) fun m hm => hbs m ?_⟩
    rwa [exec_cons as ht]

theorem StepsMeet.of_concat {a : α} :
    ∀ {s : σ}, StepsMeet step P s (as ++ [a]) →
      StepsMeet step P s as ∧ ∀ m, exec step s as = some m → P m a := by
  induction as with
  | nil =>
    intro s h
    refine ⟨trivial, ?_⟩
    intro m hm
    obtain rfl : s = m := by simpa using hm
    exact h.1
  | cons b bs ih =>
    intro s h
    obtain ⟨hb, hrest⟩ := h
    refine ⟨⟨hb, fun t ht => (ih (hrest t ht)).1⟩, ?_⟩
    intro m hm
    cases hs : step s b with
    | none => simp [exec, hs] at hm
    | some t =>
      rw [exec_cons _ hs] at hm
      exact (ih (hrest t hs)).2 m hm

/-- A condition on the labels of a run is one on its steps. -/
theorem StepsMeet.and_labels {Q : α → Prop} :
    ∀ {s : σ}, StepsMeet step P s as → (∀ a ∈ as, Q a) →
      StepsMeet step (fun s a => Q a ∧ P s a) s as := by
  induction as with
  | nil => exact fun _ _ => trivial
  | cons a as ih =>
    rintro s ⟨hP, hrest⟩ hQ
    obtain ⟨hfirst, hlater⟩ := List.forall_mem_cons.1 hQ
    exact ⟨⟨hfirst, hP⟩, fun t ht => ih (hrest t ht) hlater⟩

/-- A property of history and state that holds at the start, and that every step meeting `P`
keeps, holds after every run whose steps all meet `P`. -/
theorem exec_invariant_of_stepsMeet {I : List α → σ → Prop} {s : σ} (init : I [] s)
    (keep : ∀ as m a t, I as m → P m a → step m a = some t → I (as ++ [a]) t) :
    ∀ as t, StepsMeet step P s as → exec step s as = some t → I as t := by
  intro as
  induction as using List.reverseRecOn with
  | nil =>
    intro t _ h
    obtain rfl : s = t := by simpa using h
    exact init
  | append_singleton as a ih =>
    intro t hmeet h
    obtain ⟨hbefore, hlast⟩ := hmeet.of_concat
    obtain ⟨m, hm, hstep⟩ := exec_concat h
    exact keep as m a t (ih m hbefore hm) (hlast m hm) hstep

theorem stepsMeet_true : ∀ (s : σ) (as : List α), StepsMeet step (fun _ _ => True) s as
  | _, [] => trivial
  | _, _ :: as => ⟨trivial, fun t _ => stepsMeet_true t as⟩

/-- A property of history and state that holds at the start and that every step keeps holds
after every run. -/
theorem exec_invariant {I : List α → σ → Prop} {s : σ} (init : I [] s)
    (keep : ∀ as m a t, I as m → step m a = some t → I (as ++ [a]) t) :
    ∀ as t, exec step s as = some t → I as t := by
  intro as t h
  apply exec_invariant_of_stepsMeet (P := fun _ _ => True) init _ as t (stepsMeet_true s as) h
  exact fun as m a t hm _ hstep => keep as m a t hm hstep

/-- Two conditions on steps that agree wherever an invariant of the state and the steps to come
holds agree along a run. -/
theorem stepsMeet_congr {P Q : σ → α → Prop} {I : σ → List α → Prop}
    (keep : ∀ s a as t, I s (a :: as) → step s a = some t → I t as)
    (agree : ∀ s a as, I s (a :: as) → (P s a ↔ Q s a)) :
    ∀ as s, I s as → (StepsMeet step P s as ↔ StepsMeet step Q s as) := by
  intro as
  induction as with
  | nil => exact fun s _ => Iff.rfl
  | cons a as ih =>
    intro s hs
    apply and_congr (agree s a as hs)
    apply forall_congr'
    intro t
    apply imp_congr_right
    intro hstep
    exact ih t (keep s a as t hs hstep)

/-- Two conditions on steps that agree wherever an invariant holds agree along a run, also when
only the steps that meet the second keep the invariant. -/
theorem stepsMeet_congr_of_meet {P Q : σ → α → Prop} {I : σ → Prop}
    (keep : ∀ s a t, I s → Q s a → step s a = some t → I t)
    (agree : ∀ s a, I s → (P s a ↔ Q s a)) :
    ∀ as s, I s → (StepsMeet step P s as ↔ StepsMeet step Q s as) := by
  intro as
  induction as with
  | nil => exact fun s _ => Iff.rfl
  | cons a as ih =>
    intro s hs
    constructor
    · rintro ⟨hP, hrest⟩
      have hQ := (agree s a hs).1 hP
      exact ⟨hQ, fun t ht => (ih t (keep s a t hs hQ ht)).1 (hrest t ht)⟩
    · rintro ⟨hQ, hrest⟩
      exact ⟨(agree s a hs).2 hQ, fun t ht => (ih t (keep s a t hs hQ ht)).2 (hrest t ht)⟩

/-- Where a step from a state with `I` leads to a state with `I` exactly when it meets `P`, all
states of a run have `I` exactly when all its steps meet `P`. `J` is kept by every step. -/
theorem forall_prefix_iff_stepsMeet {I J : σ → Prop} (total : ∀ s a, J s → ∃ t, step s a = some t)
    (keep : ∀ s a t, J s → step s a = some t → J t)
    (agree : ∀ s a t, J s → I s → step s a = some t → (I t ↔ P s a)) :
    ∀ as s, J s → I s →
      ((∀ before t, before <+: as → exec step s before = some t → I t) ↔
        StepsMeet step P s as) := by
  intro as
  induction as with
  | nil =>
    intro s _ hI
    refine ⟨fun _ => trivial, ?_⟩
    intro _ before t hbefore ht
    obtain rfl := List.prefix_nil.1 hbefore
    obtain rfl : s = t := by simpa using ht
    exact hI
  | cons a as ih =>
    intro s hJ hI
    obtain ⟨m, hm⟩ := total s a hJ
    have hstep := agree s a m hJ hI hm
    constructor
    · intro h
      have hIm : I m := h [a] m (by simp) (exec_cons [] hm)
      refine ⟨hstep.1 hIm, ?_⟩
      intro t ht
      obtain rfl : m = t := Option.some.inj (hm.symm.trans ht)
      apply (ih m (keep s a m hJ hm) hIm).1
      intro before t hbefore ht
      apply h (a :: before) t (List.prefix_cons_inj a |>.2 hbefore)
      rwa [exec_cons _ hm]
    · rintro ⟨hP, hrest⟩ before t hbefore ht
      have hIm := hstep.2 hP
      cases before with
      | nil =>
        obtain rfl : s = t := by simpa using ht
        exact hI
      | cons b bs =>
        obtain ⟨rfl, hbs⟩ := List.cons_prefix_cons.1 hbefore
        rw [exec_cons _ hm] at ht
        exact (ih m (keep s b m hJ hm) hIm).2 (hrest m hm) bs t hbs ht

end Rules

end Lib.Runs
