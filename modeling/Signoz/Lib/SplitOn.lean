import Mathlib.Data.String.Basic

/-!
# Splitting a text at a character

`String.splitOn` with a separator of one character splits the list of characters
(`splitOn_singleton`), so texts without the separator that are joined by it are split into the same
texts (`splitOn_intercalate`). Without that condition two lists of texts are joined to the same text
exactly when they fall into the same pieces (`intercalate_eq_iff`). Pairs that are written with one
separator between their parts and another one behind them can be read back when neither part has the
separator that follows it (`pairs_eq_of_written`), or the one that stands before it
(`pairs_eq_of_written_reverse`).
-/

namespace Lib.SplitOn

open String

/-- The loop of `splitOn` behind `l`, where `m` has been read of the current part and `r` is to
come. -/
theorem splitOnAux_of_valid (c : Char) (l m r : List Char) (acc : List String) :
    splitOnAux (ofList (l ++ m ++ r)) (singleton c) ⟨utf8Len l⟩ ⟨utf8Len l + utf8Len m⟩ 0 acc =
      acc.reverse ++ (List.splitOnPPrepend (· == c) r m.reverse).map ofList := by
  induction r generalizing l m acc with
  | nil =>
    have hend : Pos.Raw.atEnd (ofList (l ++ m ++ [])) ⟨utf8Len l + utf8Len m⟩ = true := by
      rw [atEnd_iff, rawEndPos_ofList, List.append_nil, utf8Len_append]
      exact Nat.le_refl _
    rw [splitOnAux, if_pos hend, extract_of_valid l m []]
    simp
  | cons d r ih =>
    have hget : Pos.Raw.get (ofList (l ++ m ++ d :: r)) ⟨utf8Len l + utf8Len m⟩ = d := by
      simpa using get_of_valid (l ++ m) (d :: r)
    have hsep : Pos.Raw.get (singleton c) 0 = c := by simpa using get_of_valid [] [c]
    have hnext : Pos.Raw.next (ofList (l ++ m ++ d :: r)) ⟨utf8Len l + utf8Len m⟩ =
        ⟨utf8Len l + utf8Len m + d.utf8Size⟩ := by
      simpa using next_of_valid (l ++ m) d r
    have hsepNext : Pos.Raw.next (singleton c) 0 = ⟨c.utf8Size⟩ := by
      simpa using next_of_valid [] c []
    have hend : ¬ Pos.Raw.atEnd (ofList (l ++ m ++ d :: r)) ⟨utf8Len l + utf8Len m⟩ = true := by
      rw [atEnd_iff, rawEndPos_ofList, utf8Len_append, utf8Len_append, utf8Len_cons]
      have hpos := d.utf8Size_pos
      rw [Pos.Raw.mk_le_mk]
      omega
    have hsepEnd : Pos.Raw.atEnd (singleton c) ⟨c.utf8Size⟩ = true := by
      have hlen : (singleton c).rawEndPos = ⟨utf8Len [c]⟩ := rawEndPos_ofList [c]
      rw [atEnd_iff, hlen, Pos.Raw.mk_le_mk]
      simp
    rw [splitOnAux, if_neg hend, hget, hsep]
    by_cases h : d = c
    · -- a part ends before the separator, and the next one starts behind it
      subst h
      have hback : Pos.Raw.unoffsetBy ⟨utf8Len l + utf8Len m + d.utf8Size⟩ ⟨d.utf8Size⟩ =
          ⟨utf8Len l + utf8Len m⟩ := by simp [Pos.Raw.unoffsetBy]
      have hrest := ih (l ++ m ++ [d]) [] (ofList m :: acc)
      simp only [hnext, hsepNext, hsepEnd, hback, beq_self_eq_true, if_true,
        extract_of_valid l m (d :: r)]
      simpa [List.splitOnPPrepend_cons_eq_if, Nat.add_assoc] using hrest
    · have hback : Pos.Raw.unoffsetBy ⟨utf8Len l + utf8Len m⟩ 0 = ⟨utf8Len l + utf8Len m⟩ := by
        simp [Pos.Raw.unoffsetBy]
      have hne : (d == c) = false := beq_eq_false_iff_ne.2 h
      have hrest := ih l (m ++ [d]) acc
      simp only [hne, Bool.false_eq_true, if_false, hback, hnext]
      simpa [List.splitOnPPrepend_cons_eq_if, h, Nat.add_assoc] using hrest

theorem splitOn_singleton (s : String) (c : Char) :
    s.splitOn (singleton c) = (s.toList.splitOn c).map ofList := by
  have hsep : (singleton c == "") = false := by simp
  have haux := splitOnAux_of_valid c [] [] s.toList []
  rw [splitOn, hsep, if_neg Bool.false_ne_true, List.splitOn_eq_splitOnP]
  simpa using haux

/-- Parts without the separator are found again. -/
theorem splitOn_intercalate (c : Char) {parts : List String} (hne : parts ≠ [])
    (hparts : ∀ part ∈ parts, c ∉ part.toList) :
    ((singleton c).intercalate parts).splitOn (singleton c) = parts := by
  have hlists : ∀ l ∈ parts.map String.toList, c ∉ l := by
    rw [List.forall_mem_map]
    exact hparts
  rw [splitOn_singleton, toList_intercalate, toList_singleton,
    List.splitOn_intercalate c hlists fun h => hne (List.map_eq_nil_iff.1 h), List.map_map]
  simp [Function.comp_def]

/-- What a list of parts falls into when each part is split: no parts count as one empty part. -/
def pieces (c : Char) : List String → List (List Char)
  | [] => [[]]
  | parts => parts.flatMap fun part => part.toList.splitOn c

/-- Joining and splitting gives the pieces of the parts. -/
theorem toList_intercalate_splitOn (c : Char) (parts : List String) :
    ((singleton c).intercalate parts).toList.splitOn c = pieces c parts := by
  rw [toList_intercalate, toList_singleton]
  induction parts with
  | nil => simp [pieces]
  | cons part parts ih =>
    cases parts with
    | nil => simp [pieces]
    | cons next parts =>
      rw [List.map_cons, List.map_cons, List.intercalate_cons_cons, List.append_assoc,
        List.singleton_append, List.splitOn_append_cons_self, ← List.map_cons, ih]
      rfl

/-- Two lists of parts are joined to the same text exactly when they have the same pieces. -/
theorem intercalate_eq_iff (c : Char) (parts parts' : List String) :
    (singleton c).intercalate parts = (singleton c).intercalate parts' ↔
      pieces c parts = pieces c parts' := by
  constructor
  · intro h
    rw [← toList_intercalate_splitOn, ← toList_intercalate_splitOn, h]
  · intro h
    rw [← toList_intercalate_splitOn, ← toList_intercalate_splitOn] at h
    have hjoin := congrArg (List.intercalate [c]) h
    rw [List.intercalate_splitOn, List.intercalate_splitOn] at hjoin
    exact String.toList_inj.1 hjoin

/-- A text has one part before its first separator, and one behind it. -/
theorem eq_of_append_cons_eq {c : Char} {before before' after after' : List Char}
    (h : c ∉ before) (h' : c ∉ before') (heq : before ++ c :: after = before' ++ c :: after') :
    before = before' ∧ after = after' := by
  have hsplit := congrArg (List.splitOn c) heq
  rw [List.splitOn_append_cons_self_of_not_mem h, List.splitOn_append_cons_self_of_not_mem h']
    at hsplit
  obtain rfl := (List.cons.inj hsplit).1
  exact ⟨rfl, (List.cons.inj (List.append_cancel_left heq)).2⟩

/-- Pairs written one after the other, with `a` in the middle of each and `b` behind it. -/
def writtenPairs (a b : Char) (pairs : List (List Char × List Char)) : List Char :=
  pairs.flatMap fun p => p.1 ++ a :: (p.2 ++ [b])

/-- Pairs are read back from the left when no part has the separator that follows it. -/
theorem pairs_eq_of_written {a b : Char} {pairs pairs' : List (List Char × List Char)}
    (h : ∀ p ∈ pairs, a ∉ p.1 ∧ b ∉ p.2) (h' : ∀ p ∈ pairs', a ∉ p.1 ∧ b ∉ p.2)
    (heq : writtenPairs a b pairs = writtenPairs a b pairs') : pairs = pairs' := by
  induction pairs generalizing pairs' with
  | nil =>
    cases pairs' with
    | nil => rfl
    | cons p' pairs' => simp [writtenPairs] at heq
  | cons p pairs ih =>
    cases pairs' with
    | nil => simp [writtenPairs] at heq
    | cons p' pairs' =>
      obtain ⟨⟨hfirst, hsecond⟩, hrest⟩ := List.forall_mem_cons.1 h
      obtain ⟨⟨hfirst', hsecond'⟩, hrest'⟩ := List.forall_mem_cons.1 h'
      simp only [writtenPairs, List.flatMap_cons, List.append_assoc, List.cons_append,
        List.nil_append] at heq
      obtain ⟨hone, heq⟩ := eq_of_append_cons_eq hfirst hfirst' heq
      obtain ⟨htwo, heq⟩ := eq_of_append_cons_eq hsecond hsecond' heq
      rw [Prod.ext hone htwo, ih hrest hrest' heq]

/-- Backwards, the pairs are written with their parts swapped. -/
theorem reverse_writtenPairs (a b : Char) (pairs : List (List Char × List Char)) :
    (writtenPairs a b pairs).reverse ++ [b] =
      b :: writtenPairs a b (pairs.reverse.map fun p => (p.2.reverse, p.1.reverse)) := by
  induction pairs with
  | nil => rfl
  | cons p pairs ih =>
    have hcons : writtenPairs a b (p :: pairs) =
        p.1 ++ a :: (p.2 ++ b :: writtenPairs a b pairs) := by
      simp [writtenPairs]
    have hlast : ∀ ps : List (List Char × List Char), ∀ q : List Char × List Char,
        writtenPairs a b (ps ++ [q]) = writtenPairs a b ps ++ (q.1 ++ a :: (q.2 ++ [b])) := by
      intro ps q
      simp [writtenPairs]
    have hback : (p.1 ++ a :: (p.2 ++ b :: writtenPairs a b pairs)).reverse ++ [b] =
        ((writtenPairs a b pairs).reverse ++ [b]) ++ (p.2.reverse ++ a :: (p.1.reverse ++ [b])) := by
      simp
    rw [hcons, hback, ih, List.reverse_cons, List.map_append, List.map_singleton, hlast,
      List.cons_append]

/-- They are read back from the right when no part has the separator before it. -/
theorem pairs_eq_of_written_reverse {a b : Char} {pairs pairs' : List (List Char × List Char)}
    (h : ∀ p ∈ pairs, b ∉ p.1 ∧ a ∉ p.2) (h' : ∀ p ∈ pairs', b ∉ p.1 ∧ a ∉ p.2)
    (heq : writtenPairs a b pairs = writtenPairs a b pairs') : pairs = pairs' := by
  have hswapped : ∀ {pairs : List (List Char × List Char)}, (∀ p ∈ pairs, b ∉ p.1 ∧ a ∉ p.2) →
      ∀ p ∈ pairs.reverse.map fun p => (p.2.reverse, p.1.reverse), a ∉ p.1 ∧ b ∉ p.2 := by
    intro pairs h p hp
    obtain ⟨q, hq, rfl⟩ := List.mem_map.1 hp
    obtain ⟨hfirst, hsecond⟩ := h q (List.mem_reverse.1 hq)
    exact ⟨by simpa using hsecond, by simpa using hfirst⟩
  have hback := congrArg (fun written => written.reverse ++ [b]) heq
  simp only [reverse_writtenPairs, List.cons.injEq, true_and] at hback
  have hmap := pairs_eq_of_written (hswapped h) (hswapped h') hback
  refine List.reverse_injective (List.map_injective_iff.2 (fun p q hpq => ?_) hmap)
  obtain ⟨hsecond, hfirst⟩ := Prod.mk.inj hpq
  exact Prod.ext (List.reverse_injective hfirst) (List.reverse_injective hsecond)

end Lib.SplitOn
