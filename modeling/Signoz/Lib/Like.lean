import Mathlib.Data.List.Chain
import Mathlib.Data.List.Forall2
import Mathlib.Data.List.Infix

/-!
# SQL `LIKE` patterns

`%` matches any text, `_` one character, and a backslash takes `%`, `_` or a backslash literally;
before another character a backslash stands for itself. A pattern is parsed into items
(`parse`) and matched from the left (`matchItems`).

A concatenation of item lists matches a text that splits accordingly (`matchItems_append`), and a
pattern `%w%` finds the texts that contain something that `w` matches (`like_around_iff`). Where
`w` has no `%`, that is a text of its length with any characters for its `_` (`Fits`).
-/

namespace Lib.Like

/-- One item of a parsed pattern. -/
inductive Item where
  | many
  | one
  | lit (c : Char)

/-- The characters that a backslash escapes. -/
def isSpecial (c : Char) : Bool := c = '%' || c = '_' || c = '\\'

def itemOf (c : Char) : Item :=
  if c = '%' then .many else if c = '_' then .one else .lit c

/-- Read a pattern. -/
def parse : List Char → List Item
  | [] => []
  | ['\\'] => [.lit '\\']
  | '\\' :: c :: rest =>
    if isSpecial c then .lit c :: parse rest else .lit '\\' :: .lit c :: parse rest
  | c :: rest => itemOf c :: parse rest

def matchItems : List Item → List Char → Bool
  | [], s => s.isEmpty
  | .many :: items, s => s.tails.any fun t => matchItems items t
  | .one :: _, [] => false
  | .one :: items, _ :: s => matchItems items s
  | .lit _ :: _, [] => false
  | .lit c :: items, d :: s => c = d && matchItems items s

/-- `text LIKE pattern`. -/
def like (text pattern : List Char) : Bool := matchItems (parse pattern) text

attribute [local simp] parse matchItems

/-! ## Parsing -/

theorem parse_cons_of_ne {c : Char} (h : c ≠ '\\') (rest : List Char) :
    parse (c :: rest) = itemOf c :: parse rest := by
  rw [parse]
  · rintro rfl
    exact absurd rfl h
  · rintro _ _ rfl
    exact absurd rfl h

/-- A text without backslashes is read character by character. -/
theorem parse_append_of_noBackslash {w : List Char} (h : '\\' ∉ w) (rest : List Char) :
    parse (w ++ rest) = w.map itemOf ++ parse rest := by
  induction w with
  | nil => rfl
  | cons c w ih =>
    rw [List.mem_cons, not_or] at h
    rw [List.cons_append, parse_cons_of_ne (Ne.symm h.1), ih h.2]
    rfl

/-! ## Matching -/

theorem matchItems_many {items : List Item} {s : List Char} :
    matchItems (.many :: items) s ↔ ∃ a b, s = a ++ b ∧ matchItems items b := by
  rw [matchItems, List.any_eq_true]
  constructor
  · rintro ⟨b, hb, hmatch⟩
    obtain ⟨a, rfl⟩ := (List.mem_tails _ _).1 hb
    exact ⟨a, b, rfl, hmatch⟩
  · rintro ⟨a, b, rfl, hmatch⟩
    exact ⟨b, (List.mem_tails _ _).2 (List.suffix_append a b), hmatch⟩

/-- A concatenation matches a text that splits into a match of each part. -/
theorem matchItems_append {items items' : List Item} {s : List Char} :
    matchItems (items ++ items') s ↔
      ∃ a b, s = a ++ b ∧ matchItems items a ∧ matchItems items' b := by
  induction items generalizing s with
  | nil =>
    simp only [List.nil_append, matchItems, List.isEmpty_iff]
    exact ⟨fun h => ⟨[], s, rfl, rfl, h⟩, by rintro ⟨_, b, rfl, rfl, h⟩; exact h⟩
  | cons item items ih =>
    cases item with
    | many =>
      simp only [List.cons_append, matchItems_many, ih]
      constructor
      · rintro ⟨x, _, rfl, a, b, rfl, ha, hb⟩
        exact ⟨x ++ a, b, (List.append_assoc x a b).symm, ⟨x, a, rfl, ha⟩, hb⟩
      · rintro ⟨_, b, rfl, ⟨x, a, rfl, ha⟩, hb⟩
        exact ⟨x, a ++ b, List.append_assoc x a b, a, b, rfl, ha, hb⟩
    | one =>
      cases s with
      | nil =>
        simp only [List.cons_append, matchItems, Bool.false_eq_true, false_iff]
        rintro ⟨a, b, hs, ha, -⟩
        obtain ⟨rfl, rfl⟩ := List.append_eq_nil_iff.1 hs.symm
        exact absurd ha (by simp [matchItems])
      | cons d s =>
        simp only [List.cons_append, matchItems, ih]
        constructor
        · rintro ⟨a, b, rfl, ha, hb⟩
          exact ⟨d :: a, b, rfl, ha, hb⟩
        · rintro ⟨a, b, hs, ha, hb⟩
          cases a with
          | nil => exact absurd ha (by simp [matchItems])
          | cons e a =>
            obtain ⟨rfl, rfl⟩ := List.cons.inj hs
            exact ⟨a, b, rfl, ha, hb⟩
    | lit c =>
      cases s with
      | nil =>
        simp only [List.cons_append, matchItems, Bool.false_eq_true, false_iff]
        rintro ⟨a, b, hs, ha, -⟩
        obtain ⟨rfl, rfl⟩ := List.append_eq_nil_iff.1 hs.symm
        exact absurd ha (by simp [matchItems])
      | cons d s =>
        simp only [List.cons_append, matchItems, Bool.and_eq_true, decide_eq_true_eq, ih]
        constructor
        · rintro ⟨rfl, a, b, rfl, ha, hb⟩
          exact ⟨c :: a, b, rfl, by simpa [matchItems] using ha, hb⟩
        · rintro ⟨a, b, hs, ha, hb⟩
          cases a with
          | nil => exact absurd ha (by simp [matchItems])
          | cons e a =>
            obtain ⟨rfl, rfl⟩ := List.cons.inj hs
            simp only [matchItems, Bool.and_eq_true, decide_eq_true_eq] at ha
            exact ⟨ha.1, a, b, rfl, ha.2, hb⟩

theorem matchItems_itemOf_cons (c : Char) {items : List Item} {s : List Char}
    (h : matchItems items s) : matchItems (itemOf c :: items) (c :: s) := by
  unfold itemOf
  split_ifs with hmany hone
  · exact matchItems_many.2 ⟨[c], s, rfl, h⟩
  · exact h
  · simp [matchItems, h]

theorem matchItems_map_itemOf (w : List Char) : matchItems (w.map itemOf) w := by
  induction w with
  | nil => rfl
  | cons c w ih => exact matchItems_itemOf_cons c ih

/-! ## Patterns without `%` -/

/-- `_` stands for any one character, every other character for itself. -/
def StandsFor (c d : Char) : Prop := c = '_' ∨ c = d

/-- A text that a pattern without `%` and without backslashes matches. -/
def Fits (w s : List Char) : Prop := List.Forall₂ StandsFor w s

theorem matchItems_map_itemOf_iff {w : List Char} (h : '%' ∉ w) {s : List Char} :
    matchItems (w.map itemOf) s ↔ Fits w s := by
  induction w generalizing s with
  | nil => simp [Fits]
  | cons c w ih =>
    rw [List.mem_cons, not_or] at h
    obtain ⟨hc, hw⟩ := h
    cases s with
    | nil =>
      by_cases hone : c = '_'
      · simp [itemOf, hone, Fits]
      · simp [itemOf, Ne.symm hc, hone, Fits]
    | cons d s =>
      rw [Fits, List.forall₂_cons, ← Fits, ← ih hw]
      by_cases hone : c = '_'
      · simp [itemOf, hone, StandsFor]
      · simp [itemOf, Ne.symm hc, hone, StandsFor]

@[refl] theorem Fits.refl (w : List Char) : Fits w w :=
  List.forall₂_same.2 fun _ _ => .inr rfl

/-- Without `_` too, a pattern matches only itself. -/
theorem fits_iff_eq {w s : List Char} (h : '_' ∉ w) : Fits w s ↔ s = w := by
  constructor
  · intro hfits
    induction hfits with
    | nil => rfl
    | cons hcd _ ih =>
      rw [List.mem_cons, not_or] at h
      rw [hcd.resolve_left (Ne.symm h.1), ih h.2]
  · rintro rfl
    exact .refl s

theorem Fits.append {w w' s s' : List Char} (h : Fits w s) (h' : Fits w' s') :
    Fits (w ++ w') (s ++ s') :=
  List.rel_append h h'

/-- What a pattern in two parts matches splits accordingly. -/
theorem fits_append_iff {w w' s : List Char} :
    Fits (w ++ w') s ↔ ∃ a b, s = a ++ b ∧ Fits w a ∧ Fits w' b := by
  constructor
  · intro h
    refine ⟨s.take w.length, s.drop w.length, (List.take_append_drop _ s).symm, ?_, ?_⟩
    · simpa [Fits] using List.forall₂_take w.length h
    · simpa [Fits] using List.forall₂_drop w.length h
  · rintro ⟨a, b, rfl, ha, hb⟩
    exact ha.append hb

/-- What holds between neighbours in a pattern, for neighbours in a text that it matches. -/
theorem Fits.isChain {R R' : Char → Char → Prop} {w s : List Char} (h : Fits w s)
    (hchain : w.IsChain R) (himp : ∀ a ∈ w, ∀ b ∈ w, R a b →
      ∀ a' b', StandsFor a a' → StandsFor b b' → R' a' b') : s.IsChain R' := by
  induction h with
  | nil => exact .nil
  | cons hac hrest ih =>
    cases hrest with
    | nil => exact .singleton _
    | cons hbd hrest =>
      obtain ⟨hab, hchain⟩ := List.isChain_cons_cons.1 hchain
      refine List.isChain_cons_cons.2 ⟨himp _ (by simp) _ (by simp) hab _ _ hac hbd, ih hchain ?_⟩
      exact fun a ha b hb => himp a (List.mem_cons_of_mem _ ha) b (List.mem_cons_of_mem _ hb)

/-! ## Patterns around a text -/

/-- The items of `%w%`. -/
theorem parse_around {w : List Char} (h : '\\' ∉ w) :
    parse ('%' :: w ++ ['%']) = .many :: (w.map itemOf ++ [.many]) := by
  rw [List.cons_append, parse_cons_of_ne (by decide), parse_append_of_noBackslash h]
  rfl

/-- A part that matches `w` makes the whole match `%w%`. -/
theorem like_around_of_match {w x s y : List Char} (h : '\\' ∉ w)
    (hs : matchItems (w.map itemOf) s) : like (x ++ s ++ y) ('%' :: w ++ ['%']) := by
  rw [like, parse_around h, matchItems_many]
  refine ⟨x, s ++ y, List.append_assoc x s y, matchItems_append.2 ⟨s, y, rfl, hs, ?_⟩⟩
  exact matchItems_many.2 ⟨y, [], (List.append_nil y).symm, rfl⟩

/-- `%w%` finds the texts that contain something that `w` matches. -/
theorem like_around_iff {w s : List Char} (h : '\\' ∉ w) :
    like s ('%' :: w ++ ['%']) ↔ ∃ s', matchItems (w.map itemOf) s' ∧ s' <:+: s := by
  constructor
  · intro hlike
    rw [like, parse_around h, matchItems_many] at hlike
    obtain ⟨x, b, rfl, hb⟩ := hlike
    obtain ⟨a, y, rfl, ha, -⟩ := matchItems_append.1 hb
    exact ⟨a, ha, x, y, List.append_assoc x a y⟩
  · rintro ⟨s', hs', x, y, rfl⟩
    exact like_around_of_match h hs'

end Lib.Like
