import Signoz.Lib.Regex

/-!
# Lexing by the longest match

A lexer is a list of rules. At each place the rule with the longest match makes the next token, the
first such rule where there are several (`next`). Where no rule matches, the characters that some
rule could still go on with are dropped, and the one behind them (`stall`).

`next_append` says that what follows a token does not matter when no rule goes on over it, and
`lex_of_next` takes the first token off a text.
-/

namespace Lib.MaximalMunch

variable {κ α : Type}

/-- The rules of a lexer, in their order. -/
abbrev Rules (κ α : Type) := List (κ × Regex α)

/-- The next token: its kind and its length. -/
def next : Rules κ α → List α → Option (κ × Nat)
  | [], _ => none
  | (kind, r) :: rules, cs =>
    match r.munch cs with
    | some (n + 1) =>
      match next rules cs with
      | some (kind', m) => if n + 1 < m then some (kind', m) else some (kind, n + 1)
      | none => some (kind, n + 1)
    | _ => next rules cs

/-- The number of characters that a failed match takes. -/
def stall : List (Regex α) → List α → Nat
  | _, [] => 0
  | rs, a :: cs =>
    let rs := (rs.map fun r => r.deriv a).filter fun r => !r.isVoid
    if rs.isEmpty then 1 else stall rs cs + 1

/-- The tokens of a text behind its first `skip` characters. -/
def lexFrom (rules : Rules κ α) : Nat → List α → List (κ × List α)
  | _, [] => []
  | skip + 1, _ :: cs => lexFrom rules skip cs
  | 0, a :: cs =>
    match next rules (a :: cs) with
    | some (kind, n) => (kind, (a :: cs).take n) :: lexFrom rules (n - 1) cs
    | none => lexFrom rules (stall (rules.map Prod.snd) (a :: cs) - 1) cs

/-- The tokens of a text. -/
def lex (rules : Rules κ α) (cs : List α) : List (κ × List α) := lexFrom rules 0 cs

variable {rules : Rules κ α}

attribute [local simp] next lexFrom

theorem lexFrom_eq (skip : Nat) (cs : List α) : lexFrom rules skip cs = lex rules (cs.drop skip) := by
  induction skip generalizing cs with
  | zero => rfl
  | succ skip ih =>
    cases cs with
    | nil => rfl
    | cons a cs =>
      rw [lexFrom, ih]
      rfl

@[simp] theorem lex_nil : lex rules [] = [] := rfl

theorem next_eq_none_iff {cs : List α} :
    next rules cs = none ↔ ∀ rule ∈ rules, ∀ n, rule.2.munch cs = some n → n = 0 := by
  induction rules with
  | nil => exact ⟨fun _ => nofun, fun _ => rfl⟩
  | cons rule rules ih =>
    rw [List.forall_mem_cons, ← ih, next]
    split
    · next n hm =>
        refine iff_of_false ?_ fun h => absurd (h.1 _ hm) (Nat.succ_ne_zero n)
        split
        · split <;> nofun
        · nofun
    · next hne =>
        rw [and_iff_right]
        intro n hn
        cases n with
        | zero => rfl
        | succ n => exact absurd hn (hne n)

/-- The next token is the match of a rule of its kind, and no rule matches more. -/
theorem next_spec {cs : List α} {kind : κ} {n : Nat} (h : next rules cs = some (kind, n)) :
    0 < n ∧ (∃ r, (kind, r) ∈ rules ∧ r.munch cs = some n) ∧
      ∀ rule ∈ rules, ∀ m, rule.2.munch cs = some m → m ≤ n := by
  induction rules generalizing kind n with
  | nil => cases h
  | cons rule rules ih =>
    -- The rule's own match, when that is the token.
    have hown : ∀ {l}, rule.2.munch cs = some (l + 1) →
        (∀ rule' ∈ rules, ∀ m, rule'.2.munch cs = some m → m ≤ l + 1) →
        0 < l + 1 ∧ (∃ r, (rule.1, r) ∈ rule :: rules ∧ r.munch cs = some (l + 1)) ∧
          ∀ rule' ∈ rule :: rules, ∀ m, rule'.2.munch cs = some m → m ≤ l + 1 := by
      intro l hl hmax
      refine ⟨Nat.succ_pos l, ⟨rule.2, List.mem_cons_self, hl⟩, ?_⟩
      refine List.forall_mem_cons.2 ⟨fun m hm => ?_, hmax⟩
      rw [hl] at hm
      exact Nat.le_of_eq (Option.some.inj hm).symm
    -- That of a later rule, which is as long.
    have hlater : ∀ {kind n}, next rules cs = some (kind, n) →
        (∀ m, rule.2.munch cs = some m → m ≤ n) →
        0 < n ∧ (∃ r, (kind, r) ∈ rule :: rules ∧ r.munch cs = some n) ∧
          ∀ rule' ∈ rule :: rules, ∀ m, rule'.2.munch cs = some m → m ≤ n := by
      intro kind n hn hle
      obtain ⟨hpos, ⟨r, hr, hm⟩, hmax⟩ := ih hn
      exact ⟨hpos, ⟨r, List.mem_cons_of_mem _ hr, hm⟩, List.forall_mem_cons.2 ⟨hle, hmax⟩⟩
    rw [next] at h
    split at h
    · next l hl =>
        split at h
        · next kind' m hbest =>
            split at h
            · next hlt =>
                cases h
                refine hlater hbest fun k hk => ?_
                rw [hl] at hk
                cases hk
                exact Nat.le_of_lt hlt
            · next hlt =>
                cases h
                exact hown hl fun r hr k hk =>
                  Nat.le_trans ((ih hbest).2.2 r hr k hk) (Nat.le_of_not_lt hlt)
        · next hbest =>
            cases h
            refine hown hl fun r hr k hk => ?_
            rw [next_eq_none_iff.1 hbest r hr k hk]
            exact Nat.zero_le _
    · next hne =>
        refine hlater h fun k hk => ?_
        cases k with
        | zero => exact Nat.zero_le _
        | succ k => exact absurd hk (hne k)

/-- Rules with the same longest matches make the same token. -/
theorem next_congr {cs cs' : List α} (h : ∀ rule ∈ rules, rule.2.munch cs = rule.2.munch cs') :
    next rules cs = next rules cs' := by
  induction rules with
  | nil => rfl
  | cons rule rules ih =>
    obtain ⟨hrule, hrules⟩ := List.forall_mem_cons.1 h
    rw [next, next, hrule, ih hrules]

/-- What follows a word does not matter when no rule goes on over it. -/
theorem next_append {w rest : List α} {a b : α} (hfirst : w.head? = some b)
    (hlast : w.getLast? = some a)
    (h : ∀ rule ∈ rules, rule.2.starts b → ∀ c ∈ rest.head?, ¬ rule.2.pairs a c) :
    next rules (w ++ rest) = next rules w := by
  refine next_congr fun rule hr => ?_
  by_cases hs : rule.2.starts b
  · exact Regex.munch_append_of_not_pairs hlast (h rule hr hs)
  · obtain ⟨w, rfl⟩ := List.head?_eq_some_iff.1 hfirst
    exact Regex.munch_append fun u _ _ => Regex.not_matches_of_not_starts hs

/-- A word of a rule is one token of its kind, unless it is a word of an earlier rule. -/
theorem next_of_matches {before after : Rules κ α} {kind : κ} {r : Regex α} {w : List α}
    (hw : w ≠ []) (hm : r.Matches w) (hbefore : ∀ rule ∈ before, ¬ rule.2.Matches w) :
    next (before ++ (kind, r) :: after) w = some (kind, w.length) := by
  have hwhole : ∀ (r : Regex α) n, r.munch w = some n → n = w.length → r.Matches w := by
    intro r n hn hlen
    have hmatch := (Regex.matches_of_munch hn).2
    rwa [hlen, List.take_length] at hmatch
  induction before with
  | nil =>
    obtain ⟨n, hn, hle⟩ := Regex.exists_munch (List.prefix_refl w) hm
    have hlen : n = w.length := Nat.le_antisymm (Regex.matches_of_munch hn).1 hle
    obtain ⟨l, hl⟩ := Nat.exists_eq_succ_of_ne_zero (List.length_pos_iff.2 hw).ne'
    rw [List.nil_append, next, hn, hlen, hl]
    dsimp only
    split
    · next kind' m hbest =>
        obtain ⟨-, ⟨r', -, hm'⟩, -⟩ := next_spec hbest
        have hmle := (Regex.matches_of_munch hm').1
        rw [if_neg (by omega)]
    · rfl
  | cons rule before ih =>
    obtain ⟨hrule, hbefore⟩ := List.forall_mem_cons.1 hbefore
    rw [List.cons_append, next, ih hbefore]
    split
    · next l hl =>
        have hle := (Regex.matches_of_munch hl).1
        have hne : l + 1 ≠ w.length := fun h => hrule (hwhole _ _ hl h)
        dsimp only
        rw [if_pos (by omega)]
    · rfl

/-- Where one rule only has a match, that is the token. -/
theorem next_of_only {before after : Rules κ α} {kind : κ} {r : Regex α} {cs : List α}
    (h : ∀ rule ∈ before ++ after, rule.2.munch cs = none) :
    next (before ++ (kind, r) :: after) cs =
      ((r.munch cs).filter fun n => 0 < n).map fun n => (kind, n) := by
  have hnone : ∀ rules : Rules κ α, (∀ rule ∈ rules, rule.2.munch cs = none) →
      next rules cs = none := by
    intro rules hrules
    rw [next_eq_none_iff]
    intro rule hr n hn
    rw [hrules rule hr] at hn
    cases hn
  induction before with
  | nil =>
    rw [List.nil_append, next, hnone after h]
    cases r.munch cs with
    | none => rfl
    | some n => cases n <;> rfl
  | cons rule before ih =>
    obtain ⟨hrule, hrest⟩ := List.forall_mem_cons.1 h
    rw [List.cons_append, next, hrule]
    exact ih hrest

/-- The first token of a text, and the rest. -/
theorem lex_of_next {w rest : List α} {kind : κ} (h : next rules (w ++ rest) = some (kind, w.length)) :
    lex rules (w ++ rest) = (kind, w) :: lex rules rest := by
  have hpos := (next_spec h).1
  obtain ⟨a, w, rfl⟩ := List.exists_cons_of_length_pos hpos
  rw [List.cons_append] at h
  rw [lex, List.cons_append, lexFrom, h]
  simp only [lexFrom_eq, List.length_cons, Nat.add_sub_cancel, List.take_succ_cons,
    List.take_left, List.drop_left]

theorem stall_of_matches {rs : List (Regex α)} {r : Regex α} {cs v : List α} (hr : r ∈ rs)
    (hm : r.Matches (cs ++ v)) : stall rs cs = cs.length := by
  induction cs generalizing rs r with
  | nil => rfl
  | cons a cs ih =>
    have hderiv : (r.deriv a).Matches (cs ++ v) := Regex.matches_deriv.2 hm
    have hmem : r.deriv a ∈ (rs.map fun r => r.deriv a).filter fun r => !r.isVoid := by
      refine List.mem_filter.2 ⟨List.mem_map_of_mem hr, ?_⟩
      rw [Regex.isVoid_of_matches hderiv]
      rfl
    rw [stall, ih hmem hderiv, List.length_cons, if_neg]
    intro hnil
    rw [List.isEmpty_iff.1 hnil] at hmem
    cases hmem

/-- A text that a token starts with and does not end in is dropped. -/
theorem lex_of_unfinished {rule : κ × Regex α} {cs v : List α} (hr : rule ∈ rules)
    (hm : rule.2.Matches (cs ++ v)) (hnext : next rules cs = none) : lex rules cs = [] := by
  cases cs with
  | nil => rfl
  | cons a cs =>
    rw [lex, lexFrom, hnext]
    dsimp only
    rw [stall_of_matches (List.mem_map_of_mem hr) hm, List.length_cons, Nat.add_sub_cancel,
      lexFrom_eq, List.drop_length, lex_nil]

end Lib.MaximalMunch
