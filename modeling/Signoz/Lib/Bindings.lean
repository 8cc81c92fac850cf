import Mathlib.Data.List.Basic

/-!
# Named bindings

A list of named definitions, each evaluated in the environment of those before it: the `WITH` of a
query, a sequence of `let`s, a straight-line program. Evaluation may fail, so an environment is a
partial map. `evalBindings_append` splits a list, `evalBindings_of_notMem` says that a name keeps
its value while nobody binds it again, and `ReadsEarlier` says that no definition reads a name
before it is bound.
-/

namespace Lib.Bindings

variable {ν β τ : Type} [DecidableEq ν]

/-- The environment after the bindings, each evaluated in the environment of those before it. -/
def evalBindings (eval : (ν → Option τ) → β → Option τ) :
    (ν → Option τ) → List (ν × β) → (ν → Option τ)
  | env, [] => env
  | env, b :: bs => evalBindings eval (Function.update env b.1 (eval env b.2)) bs

section Evaluation

variable (eval : (ν → Option τ) → β → Option τ)

theorem evalBindings_append (env : ν → Option τ) (bs cs : List (ν × β)) :
    evalBindings eval env (bs ++ cs) = evalBindings eval (evalBindings eval env bs) cs := by
  induction bs generalizing env with
  | nil => rfl
  | cons b bs ih => exact ih _

theorem evalBindings_concat (env : ν → Option τ) (bs : List (ν × β)) (b : ν × β) :
    evalBindings eval env (bs ++ [b]) =
      Function.update (evalBindings eval env bs) b.1 (eval (evalBindings eval env bs) b.2) :=
  evalBindings_append eval env bs [b]

/-- A name that is not bound keeps its value. -/
theorem evalBindings_of_notMem {env : ν → Option τ} {bs : List (ν × β)} {name : ν}
    (h : name ∉ bs.map Prod.fst) : evalBindings eval env bs name = env name := by
  induction bs generalizing env with
  | nil => rfl
  | cons b bs ih =>
    simp only [List.map_cons, List.mem_cons, not_or] at h
    rw [evalBindings, ih h.2, Function.update_of_ne h.1]

end Evaluation

/-- Every name a definition reads is bound before it. -/
def ReadsEarlier (reads : β → List ν) (bs : List (ν × β)) : Prop :=
  ∀ before b after, bs = before ++ b :: after →
    ∀ name ∈ reads b.2, name ∈ before.map Prod.fst

omit [DecidableEq ν] in
theorem readsEarlier_nil (reads : β → List ν) : ReadsEarlier reads [] := by
  intro before b after h
  simp at h

variable {reads : β → List ν} {bs : List (ν × β)}

omit [DecidableEq ν] in
/-- A new definition may read whatever is bound already. -/
theorem ReadsEarlier.concat {b : ν × β} (h : ReadsEarlier reads bs)
    (hb : ∀ name ∈ reads b.2, name ∈ bs.map Prod.fst) :
    ReadsEarlier reads (bs ++ [b]) := by
  intro before b' after heq name hname
  rcases List.eq_nil_or_concat after with rfl | ⟨after', last, rfl⟩
  · obtain ⟨rfl, hlast⟩ := List.append_inj' heq rfl
    simp only [List.cons.injEq, and_true] at hlast
    exact hb name (hlast ▸ hname)
  · rw [List.concat_eq_append, ← List.cons_append, ← List.append_assoc] at heq
    exact h before b' after' (List.append_inj' heq rfl).1 name hname

omit [DecidableEq ν] in
/-- What holds of a binding as soon as it holds of a binding of each name it reads holds of all. -/
theorem ReadsEarlier.induction {P : ν × β → Prop} (h : ReadsEarlier reads bs)
    (step : ∀ b ∈ bs, (∀ name ∈ reads b.2, ∃ c ∈ bs, c.1 = name ∧ P c) → P b) :
    ∀ b ∈ bs, P b := by
  -- by the number of bindings before the one in question
  have key : ∀ n, ∀ before b after, bs = before ++ b :: after → before.length = n → P b := by
    intro n
    induction n using Nat.strongRecOn with
    | ind n ih =>
      intro before b after heq hlen
      refine step b (by simp [heq]) fun name hname => ?_
      obtain ⟨c, hc, hcname⟩ := List.mem_map.mp (h before b after heq name hname)
      obtain ⟨before', between, rfl⟩ := List.append_of_mem hc
      rw [List.append_assoc] at heq
      refine ⟨c, by simp [heq], hcname, ih before'.length ?_ before' c _ heq rfl⟩
      simp only [List.length_append, List.length_cons] at hlen
      omega
  intro b hb
  obtain ⟨before, after, heq⟩ := List.append_of_mem hb
  exact key _ before b after heq rfl

/-- Bindings of different names that read earlier ones: the last environment has the value of every
definition in it. -/
theorem evalBindings_of_mem {eval : (ν → Option τ) → β → Option τ}
    (hcongr : ∀ b env env', (∀ name ∈ reads b, env name = env' name) → eval env b = eval env' b)
    {start : ν → Option τ} (hnodup : (bs.map Prod.fst).Nodup) (h : ReadsEarlier reads bs)
    {b : ν × β} (hb : b ∈ bs) :
    evalBindings eval start bs b.1 = eval (evalBindings eval start bs) b.2 := by
  obtain ⟨before, after, rfl⟩ := List.append_of_mem hb
  rw [List.map_append, List.map_cons, List.nodup_append] at hnodup
  obtain ⟨-, hafter, hdisjoint⟩ := hnodup
  have hown : evalBindings eval start (before ++ b :: after) b.1 =
      eval (evalBindings eval start before) b.2 := by
    rw [evalBindings_append, evalBindings,
      evalBindings_of_notMem eval (List.nodup_cons.mp hafter).1, Function.update_self]
  rw [hown]
  refine hcongr b.2 _ _ fun name hname => ?_
  -- a name that is read is bound before, and not again
  have hbefore : name ∈ before.map Prod.fst := h before b after rfl name hname
  have hafter' : name ∉ (b :: after).map Prod.fst := fun hmem => hdisjoint name hbefore name hmem rfl
  exact ((congrFun (evalBindings_append eval start before (b :: after)) name).trans
    (evalBindings_of_notMem eval hafter')).symm

end Lib.Bindings
