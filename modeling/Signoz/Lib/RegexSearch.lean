import Signoz.Lib.Regex

/-!
# Searching with regular expressions

Expressions for one word (`word`), for a number of repetitions (`times`) and for one part after
another (`concat`), the length that all words of an expression have (`width`), and the search for a
word somewhere in a text (`search`).
-/

namespace Lib.Regex

variable {α : Type}

/-! ## Expressions -/

/-- One part after another. -/
def concat (rs : List (Regex α)) : Regex α := rs.foldr .seq .eps

/-- So many repetitions. -/
def times (r : Regex α) (n : Nat) : Regex α := concat (List.replicate n r)

/-- One word. -/
def word [DecidableEq α] (w : List α) : Regex α := concat (w.map fun a => .set fun b => b = a)

theorem concat_cons (r : Regex α) (rs : List (Regex α)) : concat (r :: rs) = .seq r (concat rs) :=
  rfl

variable {w : List α}

theorem matches_concat_nil : (concat []).Matches w ↔ w = [] := matches_eps

variable {r : Regex α}

theorem matches_concat_cons {rs : List (Regex α)} :
    (concat (r :: rs)).Matches w ↔ ∃ u v, w = u ++ v ∧ r.Matches u ∧ (concat rs).Matches v := by
  rw [concat_cons, matches_seq]

theorem matches_concat_append {rs ss : List (Regex α)} :
    (concat (rs ++ ss)).Matches w ↔
      ∃ u v, w = u ++ v ∧ (concat rs).Matches u ∧ (concat ss).Matches v := by
  induction rs generalizing w with
  | nil =>
    simp only [List.nil_append, matches_concat_nil]
    constructor
    · exact fun h => ⟨[], w, rfl, rfl, h⟩
    · rintro ⟨u, v, rfl, rfl, h⟩
      exact h
  | cons r rs ih =>
    rw [List.cons_append, matches_concat_cons]
    constructor
    · rintro ⟨u, v, rfl, hu, hv⟩
      obtain ⟨v₁, v₂, rfl, hv₁, hv₂⟩ := ih.mp hv
      refine ⟨u ++ v₁, v₂, (List.append_assoc u v₁ v₂).symm, ?_, hv₂⟩
      exact matches_concat_cons.mpr ⟨u, v₁, rfl, hu, hv₁⟩
    · rintro ⟨u, v, rfl, hu, hv⟩
      obtain ⟨u₁, u₂, rfl, hu₁, hu₂⟩ := matches_concat_cons.mp hu
      refine ⟨u₁, u₂ ++ v, List.append_assoc u₁ u₂ v, hu₁, ih.mpr ⟨u₂, v, rfl, hu₂, hv⟩⟩

theorem matches_concat_singleton :
    (concat [r]).Matches w ↔ r.Matches w := by
  rw [matches_concat_cons]
  constructor
  · rintro ⟨u, v, rfl, hu, hv⟩
    rw [matches_concat_nil.mp hv, List.append_nil]
    exact hu
  · exact fun h => ⟨w, [], (List.append_nil w).symm, h, matches_concat_nil.mpr rfl⟩

/-- Words of the parts, one after another. -/
theorem matches_concat_flatten {rs : List (Regex α)} {ws : List (List α)}
    (h : List.Forall₂ Matches rs ws) : (concat rs).Matches ws.flatten := by
  induction h with
  | nil => exact matches_concat_nil.mpr rfl
  | cons hr _ ih => exact matches_concat_cons.mpr ⟨_, _, rfl, hr, ih⟩

theorem matches_star_set {p : α → Bool} :
    (star (set p)).Matches w ↔ ∀ a ∈ w, p a = true := by
  constructor
  · exact uses_of_matches
  · intro h
    induction w with
    | nil => exact .nil
    | cons a w ih =>
      obtain ⟨ha, hw⟩ := List.forall_mem_cons.mp h
      exact .cons (u := [a]) (.set ha) (ih hw)

theorem matches_times_set {p : α → Bool} {n : Nat} :
    (times (set p) n).Matches w ↔ w.length = n ∧ ∀ a ∈ w, p a = true := by
  induction n generalizing w with
  | zero =>
    rw [times, List.replicate_zero, matches_concat_nil, List.length_eq_zero_iff]
    constructor
    · rintro rfl
      exact ⟨rfl, fun a ha => absurd ha List.not_mem_nil⟩
    · exact fun h => h.1
  | succ n ih =>
    rw [times, List.replicate_succ, matches_concat_cons]
    constructor
    · rintro ⟨u, v, rfl, hu, hv⟩
      obtain ⟨a, ha, rfl⟩ := matches_set.mp hu
      obtain ⟨hlength, hall⟩ := ih.mp hv
      refine ⟨by simp [hlength], ?_⟩
      exact List.forall_mem_cons.mpr ⟨ha, hall⟩
    · rintro ⟨hlength, hall⟩
      obtain ⟨a, v, rfl⟩ := List.exists_cons_of_length_eq_add_one hlength
      obtain ⟨ha, hv⟩ := List.forall_mem_cons.mp hall
      exact ⟨[a], v, rfl, .set ha, ih.mpr ⟨Nat.succ_injective hlength, hv⟩⟩

theorem matches_word [DecidableEq α] {w v : List α} : (word w).Matches v ↔ v = w := by
  induction w generalizing v with
  | nil => exact matches_concat_nil
  | cons a w ih =>
    rw [word, List.map_cons, matches_concat_cons]
    constructor
    · rintro ⟨u, v, rfl, hu, hv⟩
      obtain ⟨b, hb, rfl⟩ := matches_set.mp hu
      rw [ih.mp hv, of_decide_eq_true hb]
      rfl
    · rintro rfl
      exact ⟨[a], w, rfl, .set (decide_eq_true rfl), ih.mpr rfl⟩

/-! ## The length of the words -/

/-- The length that all words have. -/
def width : Regex α → Option Nat
  | never | star _ => none
  | eps => some 0
  | set _ => some 1
  | seq r s => r.width.bind fun n => s.width.map (n + ·)
  | alt r s => r.width.bind fun n => if s.width = some n then some n else none

theorem length_of_matches (h : r.Matches w) :
    ∀ n, r.width = some n → w.length = n := by
  induction h with
  | eps => exact fun n hn => Option.some.inj hn
  | set _ => exact fun n hn => Option.some.inj hn
  | @seq r s u v _ _ ihu ihv =>
    intro n hn
    obtain ⟨m, hm, hrest⟩ := Option.bind_eq_some_iff.mp hn
    obtain ⟨k, hk, rfl⟩ := Option.map_eq_some_iff.mp hrest
    rw [List.length_append, ihu m hm, ihv k hk]
  | left _ ih =>
    intro n hn
    obtain ⟨m, hm, hrest⟩ := Option.bind_eq_some_iff.mp hn
    split_ifs at hrest with hsame
    rw [← Option.some.inj hrest]
    exact ih m hm
  | right _ ih =>
    intro n hn
    obtain ⟨m, hm, hrest⟩ := Option.bind_eq_some_iff.mp hn
    split_ifs at hrest with hsame
    rw [← Option.some.inj hrest]
    exact ih m hsame
  | nil => exact fun n hn => nomatch hn
  | cons _ _ _ _ => exact fun n hn => nomatch hn

/-! ## Searching -/

/-- A word of the expression is somewhere in the text. -/
def search (r : Regex α) : List α → Bool
  | [] => r.nullable
  | a :: rest => (r.munch (a :: rest)).isSome || search r rest

variable {text : List α}

theorem munch_isSome_iff :
    (r.munch text).isSome = true ↔ ∃ u, u <+: text ∧ r.Matches u := by
  rw [← Option.ne_none_iff_isSome, Ne, munch_eq_none_iff]
  push Not
  rfl

theorem search_iff :
    r.search text = true ↔
      ∃ before found after, text = before ++ found ++ after ∧ r.Matches found := by
  induction text with
  | nil =>
    rw [search, ← matches_nil_iff]
    constructor
    · exact fun h => ⟨[], [], [], rfl, h⟩
    · rintro ⟨before, found, after, hnil, h⟩
      obtain ⟨hfirst, -⟩ := List.append_eq_nil_iff.mp hnil.symm
      rw [(List.append_eq_nil_iff.mp hfirst).2] at h
      exact h
  | cons a rest ih =>
    rw [search, Bool.or_eq_true, munch_isSome_iff, ih]
    constructor
    · rintro (⟨u, ⟨v, hv⟩, hu⟩ | ⟨before, found, after, hsplit, h⟩)
      · exact ⟨[], u, v, hv.symm, hu⟩
      · exact ⟨a :: before, found, after, by rw [hsplit]; rfl, h⟩
    · rintro ⟨before, found, after, hsplit, h⟩
      cases before with
      | nil => exact .inl ⟨found, ⟨after, hsplit.symm⟩, h⟩
      | cons b before =>
        obtain ⟨-, hrest⟩ := List.cons.inj hsplit
        exact .inr ⟨before, found, after, hrest, h⟩

theorem search_of_matches (h : r.Matches text) :
    r.search text = true :=
  search_iff.mpr ⟨[], text, [], by simp, h⟩

end Lib.Regex
