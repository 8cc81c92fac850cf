import Mathlib.Logic.Basic

/-!
# Calls that may fail

A program that makes one call after another, each of which may fail, is a computation in
`EStateM ε σ`: what the calls before a failure did to the state stays done. This module inverts
such a computation, for a result and for an error, and has frames: a computation `Keeps` a view
of the state when it leaves it alone, whether or not it fails.
-/

namespace Lib.FailingCalls

universe u v

variable {ε σ : Type u} {α β : Type u}

/-- Fail unless the condition holds. -/
def ensure (c : Bool) (e : ε) : EStateM ε σ PUnit := if c then pure ⟨⟩ else throw e

/-- The value, or fail. -/
def fromOption (o : Option α) (e : ε) : EStateM ε σ α :=
  match o with
  | some a => pure a
  | none => throw e

/-- The state that a result leaves. -/
def finalState : EStateM.Result ε σ α → σ
  | .ok _ t => t
  | .error _ t => t

section Inversion

variable {s t : σ} {e e' : ε} {a b : α} {x : EStateM ε σ α} {f : α → EStateM ε σ β}

theorem bind_eq_ok {c : β} :
    (x >>= f) s = .ok c t ↔ ∃ a m, x s = .ok a m ∧ f a m = .ok c t := by
  change EStateM.bind x f s = _ ↔ _
  unfold EStateM.bind
  cases x s with
  | ok a m =>
    constructor
    · exact fun h => ⟨a, m, rfl, h⟩
    · rintro ⟨a', m', ⟨⟩, h⟩
      exact h
  | error e m =>
    constructor
    · exact fun h => nomatch h
    · rintro ⟨a', m', h, -⟩
      cases h

theorem bind_eq_error :
    (x >>= f) s = .error e t ↔ x s = .error e t ∨ ∃ a m, x s = .ok a m ∧ f a m = .error e t := by
  change EStateM.bind x f s = _ ↔ _
  unfold EStateM.bind
  cases x s with
  | ok a m =>
    constructor
    · exact fun h => Or.inr ⟨a, m, rfl, h⟩
    · rintro (h | ⟨a', m', ⟨⟩, h⟩)
      · cases h
      · exact h
  | error e m =>
    constructor
    · rintro ⟨⟩
      exact Or.inl rfl
    · rintro (⟨⟨⟩⟩ | ⟨a', m', h, -⟩)
      · rfl
      · cases h

theorem bind_of_ok {m : σ} (h : x s = .ok a m) :
    (x >>= f) s = f a m := by
  change EStateM.bind x f s = _
  rw [EStateM.bind, h]

theorem pure_eq_ok : (pure a : EStateM ε σ α) s = .ok b t ↔ a = b ∧ s = t := by
  constructor
  · rintro ⟨⟩
    exact ⟨rfl, rfl⟩
  · rintro ⟨rfl, rfl⟩
    rfl

theorem pure_ne_error : (pure a : EStateM ε σ α) s ≠ .error e t := fun h => nomatch h

theorem throw_eq_error : (throw e : EStateM ε σ α) s = .error e' t ↔ e = e' ∧ s = t := by
  constructor
  · rintro ⟨⟩
    exact ⟨rfl, rfl⟩
  · rintro ⟨rfl, rfl⟩
    rfl

theorem throw_ne_ok : (throw e : EStateM ε σ α) s ≠ .ok a t := fun h => nomatch h

theorem ensure_eq_ok {c : Bool} {u : PUnit} :
    (ensure c e : EStateM ε σ PUnit) s = .ok u t ↔ c = true ∧ s = t := by
  cases c with
  | true => exact ⟨fun h => ⟨rfl, (pure_eq_ok.1 h).2⟩, fun h => pure_eq_ok.2 ⟨rfl, h.2⟩⟩
  | false => exact ⟨fun h => absurd h throw_ne_ok, fun h => nomatch h.1⟩

theorem ensure_eq_error {c : Bool} :
    (ensure c e : EStateM ε σ PUnit) s = .error e' t ↔ c = false ∧ e = e' ∧ s = t := by
  cases c with
  | true => exact ⟨fun h => absurd h pure_ne_error, fun h => nomatch h.1⟩
  | false => exact ⟨fun h => ⟨rfl, throw_eq_error.1 h⟩, fun h => throw_eq_error.2 h.2⟩

theorem fromOption_eq_ok {o : Option α} :
    (fromOption o e : EStateM ε σ α) s = .ok a t ↔ o = some a ∧ s = t := by
  cases o with
  | none => exact ⟨fun h => absurd h throw_ne_ok, fun h => nomatch h.1⟩
  | some a' =>
    constructor
    · intro h
      obtain ⟨rfl, rfl⟩ := pure_eq_ok.1 h
      exact ⟨rfl, rfl⟩
    · rintro ⟨⟨⟩, rfl⟩
      rfl

theorem modify_eq_ok {f : σ → σ} {u : PUnit} :
    (modify f : EStateM ε σ PUnit) s = .ok u t ↔ f s = t := by
  constructor
  · rintro ⟨⟩
    rfl
  · rintro rfl
    rfl

/-! A computation that starts with a simple one. -/

theorem ensure_bind_eq_ok {c : Bool} {f : PUnit → EStateM ε σ β} {b : β} :
    (ensure c e >>= f) s = .ok b t ↔ c = true ∧ f ⟨⟩ s = .ok b t := by
  cases c with
  | true => exact ⟨fun h => ⟨rfl, h⟩, fun h => h.2⟩
  | false => exact ⟨fun h => absurd h throw_ne_ok, fun h => nomatch h.1⟩

theorem fromOption_bind_eq_ok {o : Option α} {b : β} :
    (fromOption o e >>= f) s = .ok b t ↔ ∃ a, o = some a ∧ f a s = .ok b t := by
  cases o with
  | none =>
    constructor
    · exact fun h => absurd h throw_ne_ok
    · rintro ⟨a, h, -⟩
      cases h
  | some a =>
    constructor
    · exact fun h => ⟨a, rfl, h⟩
    · rintro ⟨a', ⟨⟩, h⟩
      exact h

/-- What starts by reading the state runs in it. -/
theorem get_bind_apply (f : σ → EStateM ε σ β) (s : σ) : (get >>= f) s = f s s := rfl

theorem get_bind_eq_ok {f : σ → EStateM ε σ β} {b : β} :
    (get >>= f) s = .ok b t ↔ f s s = .ok b t := Iff.rfl

theorem modify_bind_eq_ok {g : σ → σ} {f : PUnit → EStateM ε σ β} {b : β} :
    (modify g >>= f) s = .ok b t ↔ f ⟨⟩ (g s) = .ok b t := Iff.rfl

end Inversion

/-! ## Runs on fixed inputs -/

/-- The computation has succeeded, and the test passes in the state it left. -/
def endsWith (r : EStateM.Result ε σ α) (test : σ → Bool) : Bool :=
  match r with
  | .ok _ t => test t
  | .error _ _ => false

theorem exists_of_endsWith {r : EStateM.Result ε σ α} {test : σ → Bool}
    (h : endsWith r test = true) : ∃ a t, r = .ok a t ∧ test t = true := by
  cases r with
  | ok a t => exact ⟨a, t, rfl, h⟩
  | error e t => cases h

/-- The computation has failed, and the test passes in the state it left. -/
def failsWith (r : EStateM.Result ε σ α) (test : σ → Bool) : Bool :=
  match r with
  | .ok _ _ => false
  | .error _ t => test t

theorem exists_of_failsWith {r : EStateM.Result ε σ α} {test : σ → Bool}
    (h : failsWith r test = true) : ∃ e t, r = .error e t ∧ test t = true := by
  cases r with
  | ok a t => cases h
  | error e t => exact ⟨e, t, rfl, h⟩

/-! ## Frames -/

/-- Whatever the computation does, the view of the state stays. -/
def Keeps {γ : Type v} (view : σ → γ) (x : EStateM ε σ α) : Prop :=
  ∀ s, view (finalState (x s)) = view s

section Frames

variable {γ : Type v} {view : σ → γ} {x : EStateM ε σ α}

theorem Keeps.of_ok (hx : Keeps view x) {s t : σ} {a : α} (h : x s = .ok a t) :
   view t = view s := by
  have hview := hx s
  rwa [h] at hview

theorem Keeps.of_error (hx : Keeps view x) {s t : σ} {e : ε} (h : x s = .error e t) :
   view t = view s := by
  have hview := hx s
  rwa [h] at hview

theorem keeps_pure (a : α) : Keeps view (pure a : EStateM ε σ α) := fun _ => rfl

theorem keeps_throw (e : ε) : Keeps view (throw e : EStateM ε σ α) := fun _ => rfl

theorem keeps_get : Keeps view (get : EStateM ε σ σ) := fun _ => rfl

theorem keeps_ensure (c : Bool) (e : ε) : Keeps view (ensure c e : EStateM ε σ PUnit) := by
  cases c with
  | true => exact keeps_pure _
  | false => exact keeps_throw e

theorem keeps_fromOption (o : Option α) (e : ε) :
    Keeps view (fromOption o e : EStateM ε σ α) := by
  cases o with
  | none => exact keeps_throw e
  | some a => exact keeps_pure a

theorem keeps_modify {f : σ → σ} (h : ∀ s, view (f s) = view s) :
    Keeps view (modify f : EStateM ε σ PUnit) := h

theorem Keeps.bind {f : α → EStateM ε σ β} (hx : Keeps view x) (hf : ∀ a, Keeps view (f a)) :
   Keeps view (x >>= f) := by
  intro s
  cases h : (x >>= f) s with
  | ok c t =>
    obtain ⟨a, m, hm, ht⟩ := bind_eq_ok.1 h
    exact ((hf a).of_ok ht).trans (hx.of_ok hm)
  | error e t =>
    rcases bind_eq_error.1 h with he | ⟨a, m, hm, ht⟩
    · exact hx.of_error he
    · exact ((hf a).of_error ht).trans (hx.of_ok hm)

theorem Keeps.ite {c : Prop} [Decidable c] {x y : EStateM ε σ α} (hx : Keeps view x)
    (hy : Keeps view y) : Keeps view (if c then x else y) := by
  split
  · exact hx
  · exact hy

end Frames

end Lib.FailingCalls
