import Mathlib.Data.List.Chain

/-!
# Regular expressions over classes of characters

A regular expression (`Regex`), its words (`Matches`) and its derivatives, which decide what follows
a character. `munch` is the length of the longest match at the start of a text.

What a word may hold is bounded without reading it: `starts`, `ends` and `pairs` are the characters
that a word may start with, end with, and have next to each other. A match that could go on only
over a pair that is not allowed does not go on (`munch_append_of_not_pairs`).
-/

namespace Lib

inductive Regex (α : Type) where
  | never
  | eps
  | set (p : α → Bool)
  | seq (r s : Regex α)
  | alt (r s : Regex α)
  | star (r : Regex α)

namespace Regex

variable {α : Type}

/-- The words of an expression. -/
inductive Matches : Regex α → List α → Prop
  | eps : Matches .eps []
  | set {p : α → Bool} {a : α} : p a → Matches (.set p) [a]
  | seq {r s : Regex α} {u v : List α} : Matches r u → Matches s v → Matches (.seq r s) (u ++ v)
  | left {r s : Regex α} {w : List α} : Matches r w → Matches (.alt r s) w
  | right {r s : Regex α} {w : List α} : Matches s w → Matches (.alt r s) w
  | nil {r : Regex α} : Matches (.star r) []
  | cons {r : Regex α} {u v : List α} :
      Matches r u → Matches (.star r) v → Matches (.star r) (u ++ v)

def opt (r : Regex α) : Regex α := .alt .eps r

def plus (r : Regex α) : Regex α := .seq r (.star r)

/-- The empty word is one. -/
def nullable : Regex α → Bool
  | never | set _ => false
  | eps | star _ => true
  | seq r s => r.nullable && s.nullable
  | alt r s => r.nullable || s.nullable

/-- What follows a character in the words that start with it. -/
def deriv (a : α) : Regex α → Regex α
  | never | eps => .never
  | set p => if p a then .eps else .never
  | seq r s => if r.nullable then .alt (.seq (r.deriv a) s) (s.deriv a) else .seq (r.deriv a) s
  | alt r s => .alt (r.deriv a) (s.deriv a)
  | star r => .seq (r.deriv a) (.star r)

/-- No word, where every class has a character. -/
def isVoid : Regex α → Bool
  | never => true
  | eps | set _ | star _ => false
  | seq r s => r.isVoid || s.isVoid
  | alt r s => r.isVoid && s.isVoid

/-! ## Words by constructor -/

theorem not_matches_never (w : List α) : ¬ Matches .never w := nofun

variable {w : List α}

theorem matches_eps : Matches .eps w ↔ w = [] := by
  constructor
  · intro h
    cases h
    rfl
  · rintro rfl
    exact .eps

theorem matches_set {p : α → Bool} : Matches (.set p) w ↔ ∃ a, p a ∧ w = [a] := by
  constructor
  · intro h
    cases h with
    | set ha => exact ⟨_, ha, rfl⟩
  · rintro ⟨a, ha, rfl⟩
    exact .set ha

theorem matches_seq {r s : Regex α} :
    Matches (.seq r s) w ↔ ∃ u v, w = u ++ v ∧ Matches r u ∧ Matches s v := by
  constructor
  · intro h
    cases h with
    | seq hu hv => exact ⟨_, _, rfl, hu, hv⟩
  · rintro ⟨u, v, rfl, hu, hv⟩
    exact .seq hu hv

theorem matches_alt {r s : Regex α} :
    Matches (.alt r s) w ↔ Matches r w ∨ Matches s w := by
  constructor
  · intro h
    cases h with
    | left h => exact .inl h
    | right h => exact .inr h
  · rintro (h | h)
    · exact .left h
    · exact .right h

variable {r : Regex α}

theorem matches_opt : Matches r.opt w ↔ w = [] ∨ Matches r w := by
  rw [opt, matches_alt, matches_eps]

theorem matches_nil_iff : Matches r [] ↔ r.nullable := by
  induction r with
  | never => simp [not_matches_never, nullable]
  | eps => simp [matches_eps, nullable]
  | set p => simp [matches_set, nullable]
  | seq r s ihr ihs =>
    simp only [matches_seq, nullable, Bool.and_eq_true, ← ihr, ← ihs]
    constructor
    · rintro ⟨u, v, h, hu, hv⟩
      obtain ⟨rfl, rfl⟩ := List.append_eq_nil_iff.1 h.symm
      exact ⟨hu, hv⟩
    · rintro ⟨hu, hv⟩
      exact ⟨[], [], rfl, hu, hv⟩
  | alt r s ihr ihs => simp only [matches_alt, nullable, Bool.or_eq_true, ihr, ihs]
  | star r ih => exact ⟨fun _ => rfl, fun _ => .nil⟩

variable {a : α}

/-- A word of a repetition starts with a word that is not empty. -/
theorem matches_star_cons :
    Matches (.star r) (a :: w) ↔ ∃ u v, w = u ++ v ∧ Matches r (a :: u) ∧ Matches (.star r) v := by
  constructor
  · generalize hs : Regex.star r = s
    generalize hw : a :: w = w'
    intro h
    induction h with
    | nil => cases hw
    | @cons r u v hu hv _ ihv =>
      cases hs
      cases u with
      | nil => exact ihv rfl hw
      | cons b u =>
        obtain ⟨rfl, rfl⟩ := List.cons.inj hw
        exact ⟨u, v, rfl, hu, hv⟩
    | _ => cases hs
  · rintro ⟨u, v, rfl, hu, hv⟩
    exact .cons hu hv

/-- A word of a repetition and what follows it starts with what follows, or with a repeated word. -/
theorem matches_star_seq_cons {r s : Regex α} :
    Matches (.seq (.star r) s) (a :: w) ↔ Matches s (a :: w) ∨
      ∃ u v, w = u ++ v ∧ Matches r (a :: u) ∧ Matches (.seq (.star r) s) v := by
  constructor
  · intro h
    obtain ⟨x, y, hxy, hx, hy⟩ := matches_seq.1 h
    cases x with
    | nil =>
      rw [List.nil_append] at hxy
      rw [hxy]
      exact .inl hy
    | cons b x =>
      obtain ⟨rfl, rfl⟩ := List.cons.inj hxy
      obtain ⟨u, v, rfl, hu, hv⟩ := matches_star_cons.1 hx
      exact .inr ⟨u, v ++ y, List.append_assoc u v y, hu, .seq hv hy⟩
  · rintro (h | ⟨u, v, rfl, hu, hv⟩)
    · exact .seq (u := []) .nil h
    · obtain ⟨x, y, rfl, hx, hy⟩ := matches_seq.1 hv
      have happ : a :: (u ++ (x ++ y)) = (a :: u ++ x) ++ y := by simp
      rw [happ]
      exact .seq (.cons hu hx) hy

theorem matches_deriv :
    Matches (r.deriv a) w ↔ Matches r (a :: w) := by
  induction r generalizing w with
  | never => simp [deriv, not_matches_never]
  | eps => simp [deriv, not_matches_never, matches_eps]
  | set p =>
    rw [matches_set, deriv]
    split
    · next h =>
        rw [matches_eps]
        constructor
        · rintro rfl
          exact ⟨a, h, rfl⟩
        · rintro ⟨b, -, hw⟩
          exact (List.cons.inj hw).2
    · next h =>
        constructor
        · exact fun hw => absurd hw (not_matches_never w)
        · rintro ⟨b, hb, hw⟩
          rw [(List.cons.inj hw).1] at h
          exact absurd hb h
  | seq r s ihr ihs =>
    -- The character belongs to the first part, or that is empty.
    have hsplit : Matches (.seq r s) (a :: w) ↔
        Matches (.seq (r.deriv a) s) w ∨ r.nullable ∧ Matches s (a :: w) := by
      rw [matches_seq, matches_seq]
      constructor
      · rintro ⟨u, v, h, hu, hv⟩
        cases u with
        | nil => exact .inr ⟨matches_nil_iff.1 hu, by rw [h]; exact hv⟩
        | cons b u =>
          obtain ⟨rfl, rfl⟩ := List.cons.inj h
          exact .inl ⟨u, v, rfl, ihr.2 hu, hv⟩
      · rintro (⟨u, v, rfl, hu, hv⟩ | ⟨hr, hs⟩)
        · exact ⟨a :: u, v, rfl, ihr.1 hu, hv⟩
        · exact ⟨[], a :: w, rfl, matches_nil_iff.2 hr, hs⟩
    rw [hsplit, deriv]
    split
    · next h => rw [matches_alt, ihs, and_iff_right h]
    · next h => rw [or_iff_left fun hs => h hs.1]
  | alt r s ihr ihs => rw [deriv, matches_alt, matches_alt, ihr, ihs]
  | star r ih =>
    rw [deriv, matches_seq, matches_star_cons]
    simp only [ih]

theorem isVoid_of_matches (h : r.Matches w) : r.isVoid = false := by
  induction h with
  | seq _ _ ihr ihs => rw [isVoid, ihr, ihs, Bool.or_false]
  | left _ ih => rw [isVoid, ih, Bool.false_and]
  | right _ ih => rw [isVoid, ih, Bool.and_false]
  | _ => rfl

/-! ## Longest matches -/

/-- The length of the longest word at the start of a text. -/
def munch : Regex α → List α → Option Nat
  | r, [] => if r.nullable then some 0 else none
  | r, a :: cs =>
    match munch (r.deriv a) cs with
    | some n => some (n + 1)
    | none => if r.nullable then some 0 else none

attribute [local simp] munch

variable {cs : List α}

theorem munch_spec :
    (∀ n, r.munch cs = some n → n ≤ cs.length ∧ r.Matches (cs.take n)) ∧
      ∀ u, u <+: cs → r.Matches u → ∃ n, r.munch cs = some n ∧ u.length ≤ n := by
  induction cs generalizing r with
  | nil =>
    simp only [munch]
    constructor
    · intro n hn
      split at hn
      · next h =>
          cases hn
          exact ⟨Nat.le_refl _, matches_nil_iff.2 h⟩
      · cases hn
    · intro u hu hm
      rw [List.prefix_nil.1 hu] at hm ⊢
      rw [if_pos (matches_nil_iff.1 hm)]
      exact ⟨0, rfl, Nat.le_refl _⟩
  | cons a cs ih =>
    obtain ⟨ihs, ihm⟩ := ih (r := r.deriv a)
    constructor
    · intro n hn
      rw [munch] at hn
      split at hn
      · next m hmunch =>
          cases hn
          obtain ⟨hle, hm⟩ := ihs m hmunch
          exact ⟨Nat.succ_le_succ hle, matches_deriv.1 hm⟩
      · split at hn
        · next h =>
            cases hn
            exact ⟨Nat.zero_le _, matches_nil_iff.2 h⟩
        · cases hn
    · intro u hu hm
      cases u with
      | nil =>
        rw [munch]
        split
        · exact ⟨_, rfl, Nat.zero_le _⟩
        · exact ⟨0, by rw [if_pos (matches_nil_iff.1 hm)], Nat.le_refl _⟩
      | cons b u =>
        obtain ⟨rfl, hpre⟩ := List.cons_prefix_cons.1 hu
        obtain ⟨n, hn, hle⟩ := ihm u hpre (matches_deriv.2 hm)
        exact ⟨n + 1, by rw [munch, hn], Nat.succ_le_succ hle⟩

theorem matches_of_munch {n : Nat} (h : r.munch cs = some n) :
    n ≤ cs.length ∧ r.Matches (cs.take n) :=
  munch_spec.1 n h

theorem exists_munch {cs u : List α} (hu : u <+: cs) (hm : r.Matches u) :
    ∃ n, r.munch cs = some n ∧ u.length ≤ n :=
  munch_spec.2 u hu hm

theorem munch_cons (h : r.nullable = false) (a : α) (cs : List α) :
    r.munch (a :: cs) = ((r.deriv a).munch cs).map (· + 1) := by
  rw [munch]
  cases (r.deriv a).munch cs with
  | none => simp [h]
  | some n => rfl

/-- What the longest match is. -/
theorem munch_eq_some_iff {n : Nat} :
    r.munch cs = some n ↔ n ≤ cs.length ∧ r.Matches (cs.take n) ∧
      ∀ u, u <+: cs → r.Matches u → u.length ≤ n := by
  constructor
  · intro h
    obtain ⟨hle, hm⟩ := matches_of_munch h
    refine ⟨hle, hm, ?_⟩
    intro u hu hmu
    obtain ⟨m, hm', hlem⟩ := exists_munch hu hmu
    rw [h] at hm'
    cases hm'
    exact hlem
  · rintro ⟨hle, hm, hmax⟩
    obtain ⟨m, hmunch, hlem⟩ := exists_munch (List.take_prefix n cs) hm
    obtain ⟨hmle, hmm⟩ := matches_of_munch hmunch
    have hmax' := hmax _ (List.take_prefix m cs) hmm
    rw [List.length_take] at hlem hmax'
    rw [hmunch]
    congr 1
    omega

theorem munch_eq_none_iff :
    r.munch cs = none ↔ ∀ u, u <+: cs → ¬ r.Matches u := by
  constructor
  · intro h u hu hm
    obtain ⟨n, hn, -⟩ := exists_munch hu hm
    rw [h] at hn
    cases hn
  · intro h
    cases hm : r.munch cs with
    | none => rfl
    | some n => exact absurd (matches_of_munch hm).2 (h _ (List.take_prefix n cs))

/-- Expressions with the same words have the same longest match. -/
theorem munch_congr {r s : Regex α} (h : ∀ w, r.Matches w ↔ s.Matches w) (cs : List α) :
    r.munch cs = s.munch cs := by
  cases hm : s.munch cs with
  | none =>
    rw [munch_eq_none_iff] at hm ⊢
    intro u hu hmu
    exact hm u hu ((h u).1 hmu)
  | some n =>
    rw [munch_eq_some_iff] at hm ⊢
    obtain ⟨hle, hmn, hmax⟩ := hm
    exact ⟨hle, (h _).2 hmn, fun u hu hmu => hmax u hu ((h u).1 hmu)⟩

/-- What follows does not matter when no match reaches it. -/
theorem munch_append {w rest : List α} (h : ∀ u, u ≠ [] → u <+: rest → ¬ r.Matches (w ++ u)) :
   r.munch (w ++ rest) = r.munch w := by
  have hinside : ∀ u, u <+: w ++ rest → r.Matches u → u <+: w := by
    intro u hu hm
    obtain ⟨t, ht⟩ := hu
    rcases List.append_eq_append_iff.1 ht with ⟨v, rfl, -⟩ | ⟨v, rfl, rfl⟩
    · exact ⟨v, rfl⟩
    · by_cases hnil : v = []
      · simp [hnil]
      · exact absurd hm (h v hnil ⟨t, rfl⟩)
  cases hw : r.munch w with
  | none =>
    rw [munch_eq_none_iff] at hw ⊢
    intro u hu hm
    exact hw u (hinside u hu hm) hm
  | some n =>
    rw [munch_eq_some_iff] at hw ⊢
    obtain ⟨hle, hmn, hmax⟩ := hw
    refine ⟨by rw [List.length_append]; omega, ?_, fun u hu hm => hmax u (hinside u hu hm) hm⟩
    rw [List.take_append_of_le_length hle]
    exact hmn

/-! ## What a word may hold -/

/-- The characters that a word may start with. -/
def starts : Regex α → α → Bool
  | never, _ | eps, _ => false
  | set p, a => p a
  | seq r s, a => r.starts a || (r.nullable && s.starts a)
  | alt r s, a => r.starts a || s.starts a
  | star r, a => r.starts a

/-- The characters that a word may end with. -/
def ends : Regex α → α → Bool
  | never, _ | eps, _ => false
  | set p, a => p a
  | seq r s, a => s.ends a || (s.nullable && r.ends a)
  | alt r s, a => r.ends a || s.ends a
  | star r, a => r.ends a

/-- The characters that a word may have next to each other. -/
def pairs : Regex α → α → α → Bool
  | never, _, _ | eps, _, _ | set _, _, _ => false
  | seq r s, a, b => r.pairs a b || s.pairs a b || (r.ends a && s.starts b)
  | alt r s, a, b => r.pairs a b || s.pairs a b
  | star r, a, b => r.pairs a b || (r.ends a && r.starts b)

/-- The characters that a word may hold. -/
def uses : Regex α → α → Bool
  | never, _ | eps, _ => false
  | set p, a => p a
  | seq r s, a | alt r s, a => r.uses a || s.uses a
  | star r, a => r.uses a

attribute [local simp] starts ends pairs uses

theorem uses_of_starts (h : r.starts a) : r.uses a := by
  induction r with
  | never => exact h
  | eps => exact h
  | set p => exact h
  | seq r s ihr ihs =>
    rw [starts, Bool.or_eq_true, Bool.and_eq_true] at h
    rw [uses, Bool.or_eq_true]
    exact h.imp ihr fun hs => ihs hs.2
  | alt r s ihr ihs =>
    rw [starts, Bool.or_eq_true] at h
    rw [uses, Bool.or_eq_true]
    exact h.imp ihr ihs
  | star r ih => exact ih h

/-- The second of two characters next to each other is one of the word's. -/
theorem uses_of_pairs {a b : α} (h : r.pairs a b) : r.uses b := by
  induction r with
  | never => exact h
  | eps => exact h
  | set p => exact absurd h Bool.false_ne_true
  | seq r s ihr ihs =>
    rw [pairs, Bool.or_eq_true, Bool.or_eq_true, Bool.and_eq_true] at h
    rw [uses, Bool.or_eq_true]
    rcases h with (h | h) | h
    · exact .inl (ihr h)
    · exact .inr (ihs h)
    · exact .inr (uses_of_starts h.2)
  | alt r s ihr ihs =>
    rw [pairs, Bool.or_eq_true] at h
    rw [uses, Bool.or_eq_true]
    exact h.imp ihr ihs
  | star r ih =>
    rw [pairs, Bool.or_eq_true, Bool.and_eq_true] at h
    rcases h with h | h
    · exact ih h
    · exact uses_of_starts h.2

theorem starts_of_matches (h : r.Matches w) :
    ∀ a ∈ w.head?, r.starts a := by
  induction h with
  | eps => nofun
  | set ha =>
    rintro _ ⟨⟩
    exact ha
  | @seq r s u v hu hv ihu ihv =>
    intro a ha
    rw [starts, Bool.or_eq_true, Bool.and_eq_true]
    cases u with
    | nil => exact .inr ⟨matches_nil_iff.1 hu, ihv a ha⟩
    | cons b u => exact .inl (ihu a ha)
  | left _ ih =>
    intro a ha
    rw [starts, ih a ha, Bool.true_or]
  | right _ ih =>
    intro a ha
    rw [starts, ih a ha, Bool.or_true]
  | nil => nofun
  | @cons r u v hu hv ihu ihv =>
    intro a ha
    cases u with
    | nil => exact ihv a ha
    | cons b u => exact ihu a ha

theorem ends_of_matches (h : r.Matches w) :
    ∀ a ∈ w.getLast?, r.ends a := by
  induction h with
  | eps => nofun
  | set ha =>
    rintro _ ⟨⟩
    exact ha
  | @seq r s u v hu hv ihu ihv =>
    intro a ha
    rw [ends, Bool.or_eq_true, Bool.and_eq_true]
    by_cases hnil : v = []
    · subst hnil
      rw [List.append_nil] at ha
      exact .inr ⟨matches_nil_iff.1 hv, ihu a ha⟩
    · rw [List.getLast?_append_of_ne_nil u hnil] at ha
      exact .inl (ihv a ha)
  | left _ ih =>
    intro a ha
    rw [ends, ih a ha, Bool.true_or]
  | right _ ih =>
    intro a ha
    rw [ends, ih a ha, Bool.or_true]
  | nil => nofun
  | @cons r u v hu hv ihu ihv =>
    intro a ha
    by_cases hnil : v = []
    · subst hnil
      rw [List.append_nil] at ha
      exact ihu a ha
    · rw [List.getLast?_append_of_ne_nil u hnil] at ha
      exact ihv a ha

theorem pairs_of_matches (h : r.Matches w) :
    w.IsChain fun a b => r.pairs a b := by
  induction h with
  | eps => exact .nil
  | set ha => exact .singleton _
  | @seq r s u v hu hv ihu ihv =>
    refine List.isChain_append.2 ⟨ihu.imp ?_, ihv.imp ?_, ?_⟩
    · intro a b hab
      simp only [pairs, hab, Bool.true_or]
    · intro a b hab
      simp only [pairs, hab, Bool.true_or, Bool.or_true]
    · intro a ha b hb
      simp only [pairs, ends_of_matches hu a ha, starts_of_matches hv b hb, Bool.and_self,
        Bool.or_true]
  | left _ ih =>
    refine ih.imp ?_
    intro a b hab
    rw [pairs, hab, Bool.true_or]
  | right _ ih =>
    refine ih.imp ?_
    intro a b hab
    rw [pairs, hab, Bool.or_true]
  | nil => exact .nil
  | @cons r u v hu hv ihu ihv =>
    refine List.isChain_append.2 ⟨ihu.imp ?_, ihv, ?_⟩
    · intro a b hab
      rw [pairs, hab, Bool.true_or]
    · intro a ha b hb
      simp only [pairs, ends_of_matches hu a ha, Bool.true_and, Bool.or_eq_true]
      exact .inr (starts_of_matches hv b hb)

/-- A word holds the characters that its expression uses. -/
theorem uses_of_matches (h : r.Matches w) : ∀ a ∈ w, r.uses a := by
  induction h with
  | eps => nofun
  | set ha =>
    intro b hb
    rw [List.mem_singleton.1 hb]
    exact ha
  | seq hu hv ihu ihv =>
    intro a ha
    rw [uses, Bool.or_eq_true]
    exact (List.mem_append.1 ha).imp (ihu a) (ihv a)
  | left _ ih =>
    intro a ha
    rw [uses, ih a ha, Bool.true_or]
  | right _ ih =>
    intro a ha
    rw [uses, ih a ha, Bool.or_true]
  | nil => nofun
  | cons hu hv ihu ihv =>
    intro a ha
    exact (List.mem_append.1 ha).elim (ihu a) (ihv a)

theorem not_matches_of_not_starts (h : ¬ r.starts a) :
    ¬ r.Matches (a :: w) :=
  fun hm => h (starts_of_matches hm a rfl)

theorem munch_cons_of_not_starts (h : ¬ r.starts a) (hn : r.nullable = false) :
   r.munch (a :: cs) = none := by
  rw [munch_eq_none_iff]
  intro u hu hm
  cases u with
  | nil =>
    rw [matches_nil_iff, hn] at hm
    cases hm
  | cons b u =>
    rw [(List.cons_prefix_cons.1 hu).1] at hm
    exact not_matches_of_not_starts h hm

/-- A match does not go on over a pair that is not allowed. -/
theorem munch_append_of_not_pairs {w rest : List α} (ha : w.getLast? = some a)
    (h : ∀ b ∈ rest.head?, ¬ r.pairs a b) :
    r.munch (w ++ rest) = r.munch w := by
  refine munch_append fun u hnil hu hm => ?_
  obtain ⟨b, u, rfl⟩ := List.exists_cons_of_ne_nil hnil
  have hb : b ∈ rest.head? := by
    obtain ⟨t, rfl⟩ := hu
    rfl
  exact h b hb ((List.isChain_append.1 (pairs_of_matches hm)).2.2 a ha b rfl)

end Regex

end Lib
