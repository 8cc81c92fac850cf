import Signoz.Lib.Runs

/-!
# Programs that share a world

A program (`Prog`) makes one call after another and goes on with what each call answers. Calls are
atomic: `sem l c w` is the world after the call `l` in the world `w`, with the answer, where `c`
is what the call leaves open; `none` says that the call has to wait.

`runAlone` runs a program on its own. In a `System` any number of programs run at once, and
between two calls of one the others make theirs. `exec_system_invariant` is the rule for them: an
invariant of the world, and for each running program an assertion that its own calls carry on
and that the calls of the others leave true.
-/

namespace Lib.Programs

universe u v w

/-- A program over the calls `L`, with the answers `Resp` and a result in `R`. -/
inductive Prog (L : Type u) (Resp : L → Type v) (R : Type w) where
  | ret (result : R)
  | call (l : L) (k : Resp l → Prog L Resp R)

namespace Prog

variable {L : Type u} {Resp : L → Type v} {A B : Type w}

def bind (p : Prog L Resp A) (f : A → Prog L Resp B) : Prog L Resp B :=
  match p with
  | ret a => f a
  | call l k => call l fun x => (k x).bind f

instance : Monad (Prog L Resp) where
  pure := ret
  bind := bind

@[simp] theorem pure_bind (a : A) (f : A → Prog L Resp B) : (pure a >>= f) = f a := rfl

@[simp] theorem ret_bind (a : A) (f : A → Prog L Resp B) : (ret a >>= f) = f a := rfl

@[simp] theorem call_bind (l : L) (k : Resp l → Prog L Resp A) (f : A → Prog L Resp B) :
    (call l k >>= f) = call l fun x => k x >>= f := rfl

/-- Every result has `Q`, as long as each call `l` is answered with some `x` with `Ans l x`. -/
def Sat (Ans : (l : L) → Resp l → Prop) (Q : A → Prop) : Prog L Resp A → Prop
  | ret a => Q a
  | call l k => ∀ x, Ans l x → (k x).Sat Ans Q

theorem Sat.bind {Ans : (l : L) → Resp l → Prop} {P : A → Prop} {Q : B → Prop}
    {p : Prog L Resp A} {f : A → Prog L Resp B} (hp : p.Sat Ans P)
    (hf : ∀ a, P a → (f a).Sat Ans Q) : (p >>= f).Sat Ans Q := by
  induction p with
  | ret a => exact hf a hp
  | call l k ih => exact fun x hx => ih x (hp x hx)

/-- The next call. -/
def next : Prog L Resp A → Option L
  | ret _ => none
  | call l _ => some l

/-- Every call is followed by a next one, or by the end, that `F` lets follow its answer; every
result has `Q`. -/
def Follows (F : (l : L) → Resp l → Option L → Prop) (Q : A → Prop) : Prog L Resp A → Prop
  | ret a => Q a
  | call l k => ∀ x, F l x (k x).next ∧ (k x).Follows F Q

end Prog

/-- The atomic call `l`. -/
def perform {L : Type u} {Resp : L → Type v} (l : L) : Prog L Resp (Resp l) := .call l .ret

section Semantics

variable {L : Type u} {Resp : L → Type w} {R C W O E : Type w}
variable (sem : (l : L) → C → W → Option (W × Resp l))

/-- A run of one program alone; the list has a choice for each of its calls. -/
def runAlone : Prog L Resp R → List C → W → Option (W × R)
  | .ret r, [], w => some (w, r)
  | .call l k, c :: cs, w => (sem l c w).bind fun p => runAlone (k p.2) cs p.1
  | _, _, _ => none

/-- Every run of the program alone from the world ends in a world and a result with `Q`. -/
def Ensures (p : Prog L Resp R) (w : W) (Q : W → R → Prop) : Prop :=
  ∀ cs w' r, runAlone sem p cs w = some (w', r) → Q w' r

section Alone

variable {sem} {w : W} {Q : W → R → Prop}

@[simp] theorem ensures_ret {r : R} :
    Ensures sem (.ret r) w Q ↔ Q w r := by
  constructor
  · exact fun h => h [] w r rfl
  · intro h cs w' r' hrun
    cases cs with
    | nil =>
      cases hrun
      exact h
    | cons c cs => cases hrun

@[simp] theorem ensures_call {l : L} {k : Resp l → Prog L Resp R} :
    Ensures sem (.call l k) w Q ↔
      ∀ c w' x, sem l c w = some (w', x) → Ensures sem (k x) w' Q := by
  constructor
  · intro h c w' x hsem cs w'' r hrun
    apply h (c :: cs) w'' r
    simpa [runAlone, hsem] using hrun
  · intro h cs w'' r hrun
    cases cs with
    | nil => cases hrun
    | cons c cs =>
      obtain ⟨⟨w', x⟩, hsem, hrest⟩ := Option.bind_eq_some_iff.1 hrun
      exact h c w' x hsem cs w'' r hrest

@[simp] theorem ensures_pure {r : R} :
    Ensures sem (pure r) w Q ↔ Q w r := ensures_ret

@[simp] theorem ensures_perform {l : L} {Q : W → Resp l → Prop} :
    Ensures sem (perform l) w Q ↔ ∀ c w' x, sem l c w = some (w', x) → Q w' x := by
  simp [perform]

/-- A program after another starts where that one ended. -/
theorem ensures_bind {A : Type w} {p : Prog L Resp A} {f : A → Prog L Resp R} :
    ∀ {w : W}, Ensures sem (p >>= f) w Q ↔
      Ensures sem p w fun w' a => Ensures sem (f a) w' Q := by
  induction p with
  | ret a => exact fun {w} => by simp
  | call l k ih =>
    intro w
    rw [Prog.call_bind, ensures_call, ensures_call]
    exact forall_congr' fun c => forall_congr' fun w' => forall_congr' fun x =>
      imp_congr_right fun _ => ih x

theorem Ensures.mono {p : Prog L Resp R} {P Q : W → R → Prop} (h : Ensures sem p w P)
    (hPQ : ∀ w' r, P w' r → Q w' r) : Ensures sem p w Q :=
  fun cs w' r hrun => hPQ w' r (h cs w' r hrun)

end Alone

/-- A running program: the operation that it is the code of, the world at its start, and what is
left to do. -/
structure Thread (L : Type u) (Resp : L → Type w) (R W O : Type w) where
  op : O
  start : W
  prog : Prog L Resp R

structure System (L : Type u) (Resp : L → Type w) (R W O : Type w) where
  world : W
  threads : List (Thread L Resp R W O)

/-- A step of a system: an operation starts, a thread makes its next call, or the world changes
by itself. -/
inductive Label (C O E : Type w) where
  | start (op : O)
  | call (i : Nat) (c : C)
  | env (e : E)

variable (code : O → Prog L Resp R) (env : E → W → Option W)

def systemStep (s : System L Resp R W O) : Label C O E → Option (System L Resp R W O)
  | .start op => some { s with threads := s.threads ++ [⟨op, s.world, code op⟩] }
  | .call i c =>
    match s.threads[i]? with
    | some ⟨op, start, .call l k⟩ =>
      (sem l c s.world).map fun p => ⟨p.1, s.threads.set i ⟨op, start, k p.2⟩⟩
    | _ => none
  | .env e => (env e s.world).map fun w => { s with world := w }

/-- The step makes no call, or one that is `Ok` in the world. -/
def CallsMeet (Ok : W → L → Prop) (s : System L Resp R W O) : Label C O E → Prop
  | .call i _ => ∀ op start l k, s.threads[i]? = some ⟨op, start, .call l k⟩ → Ok s.world l
  | _ => True

section Rules

variable {sem code env}

/-- What a step of a system does. -/
theorem systemStep_cases {s t : System L Resp R W O} {a : Label C O E}
    (h : systemStep sem code env s a = some t) :
    (∃ op, a = .start op ∧
      t = { s with threads := s.threads ++ [⟨op, s.world, code op⟩] }) ∨
    (∃ i c op start l k w x, a = .call i c ∧ s.threads[i]? = some ⟨op, start, .call l k⟩ ∧
      sem l c s.world = some (w, x) ∧ t = ⟨w, s.threads.set i ⟨op, start, k x⟩⟩) ∨
    (∃ e w, a = .env e ∧ env e s.world = some w ∧ t = { s with world := w }) := by
  cases a with
  | start op => exact .inl ⟨op, rfl, (Option.some.inj h).symm⟩
  | call i c =>
    simp only [systemStep] at h
    split at h
    · rename_i op start l k hthread
      obtain ⟨⟨w, x⟩, hsem, rfl⟩ := Option.map_eq_some_iff.1 h
      exact .inr (.inl ⟨i, c, op, start, l, k, w, x, rfl, hthread, hsem, rfl⟩)
    · cases h
  | env e =>
    obtain ⟨w, henv, rfl⟩ := Option.map_eq_some_iff.1 h
    exact .inr (.inr ⟨e, w, rfl, henv, rfl⟩)

/-- The rule for systems whose calls meet `P`: an invariant `I` of the world, and an assertion `T`
about each thread in it. -/
theorem exec_system_invariant {P : W → L → Prop} {I : W → Prop}
    {T : W → Thread L Resp R W O → Prop} {w₀ : W} (init : I w₀)
    (start : ∀ w op, I w → T w ⟨op, w, code op⟩)
    (world : ∀ w l c w' x, I w → P w l → sem l c w = some (w', x) → I w')
    (own : ∀ w op w₁ l k c w' x, I w → T w ⟨op, w₁, .call l k⟩ → P w l →
      sem l c w = some (w', x) → T w' ⟨op, w₁, k x⟩)
    (others : ∀ w th l c w' x, I w → T w th → P w l → sem l c w = some (w', x) →
      T w' th)
    (byEnv : ∀ w e w', I w → env e w = some w' →
      I w' ∧ ∀ th, T w th → T w' th) :
    ∀ as s, Runs.StepsMeet (systemStep sem code env) (CallsMeet P)
        (⟨w₀, []⟩ : System L Resp R W O) as →
      Runs.exec (systemStep sem code env) ⟨w₀, []⟩ as = some s →
        I s.world ∧ ∀ th ∈ s.threads, T s.world th := by
  apply Runs.exec_invariant_of_stepsMeet
    (I := fun (_ : List (Label C O E)) (s : System L Resp R W O) =>
      I s.world ∧ ∀ th ∈ s.threads, T s.world th)
  · exact ⟨init, fun th hth => absurd hth List.not_mem_nil⟩
  · rintro - m a t ⟨hinv, hthreads⟩ hmeet hstep
    obtain ⟨op, rfl, rfl⟩ | ⟨i, c, op, w₁, l, k, w, x, rfl, hi, hsem, rfl⟩ | ⟨e, w, rfl, he, rfl⟩ :=
      systemStep_cases hstep
    · refine ⟨hinv, ?_⟩
      intro th hth
      rcases List.mem_append.1 hth with hth | hth
      · exact hthreads th hth
      · rw [List.mem_singleton.1 hth]
        exact start m.world op hinv
    · have hok : P m.world l := hmeet op w₁ l k hi
      refine ⟨world _ _ _ _ _ hinv hok hsem, ?_⟩
      intro th hth
      rcases List.mem_or_eq_of_mem_set hth with hth | rfl
      · exact others _ _ _ _ _ _ hinv (hthreads th hth) hok hsem
      · exact own _ _ _ _ _ _ _ _ hinv (hthreads _ (List.mem_of_getElem? hi)) hok hsem
    · obtain ⟨hinv', hkeep⟩ := byEnv _ _ _ hinv he
      exact ⟨hinv', fun th hth => hkeep th (hthreads th hth)⟩

end Rules

end Semantics

end Lib.Programs
