import Signoz.Querier.Formula

/-!
# The keys of a formula's lookup

A series key begins with the variable, a bar and the position of the series (`toList_buildSeriesKey`).
A prefix search for a variable finds the series of that variable, and those of a variable that
differs from it by an extension with a bar (`key_hasPrefix`); keys of one variable tell the positions
apart (`buildSeriesKey_position`).
-/

namespace Signoz.Querier

theorem hasPrefix_iff (s start : String) : hasPrefix s start = true ↔ start.toList <+: s.toList := by
  rw [hasPrefix, List.isPrefixOf_iff_prefix]

/-- The variable, a bar, the position, and the labels behind a further bar. -/
theorem toList_buildSeriesKey (v : String) (i : Nat) (labels : List Label) :
    ∃ rest, (rest = [] ∨ ∃ more, rest = '|' :: more) ∧
      (buildSeriesKey v i labels).toList = v.toList ++ '|' :: ((toString i).toList ++ rest) := by
  have hbar : "|".toList = ['|'] := by decide
  rw [buildSeriesKey, String.toList_intercalate, hbar, List.map_cons, List.map_cons,
    List.intercalate_cons_cons]
  generalize (labels.insertionSort fun a b => a.name ≤ b.name).map
    (fun l => l.name ++ "=" ++ l.value.text) = parts
  cases parts with
  | nil => exact ⟨[], Or.inl rfl, by simp⟩
  | cons part parts =>
    refine ⟨'|' :: List.intercalate ['|'] ((part :: parts).map String.toList),
      Or.inr ⟨_, rfl⟩, ?_⟩
    rw [List.map_cons, List.intercalate_cons_cons]
    simp

/-- Keys of a variable are found by it. -/
theorem key_hasPrefix_self (v : String) (i : Nat) (labels : List Label) :
    hasPrefix (buildSeriesKey v i labels) (v ++ "|") = true := by
  obtain ⟨rest, -, hkey⟩ := toList_buildSeriesKey v i labels
  rw [hasPrefix_iff, hkey, String.toList_append]
  exact ⟨(toString i).toList ++ rest, by simp⟩

/-- Keys that are found by another variable. -/
theorem key_hasPrefix {v w : String} {i : Nat} {labels : List Label}
    (h : hasPrefix (buildSeriesKey v i labels) (w ++ "|") = true) :
    v = w ∨ hasPrefix v (w ++ "|") = true ∨ hasPrefix w (v ++ "|") = true := by
  obtain ⟨rest, -, hkey⟩ := toList_buildSeriesKey v i labels
  rw [hasPrefix_iff, hkey, String.toList_append] at h
  obtain ⟨t, ht⟩ := h
  have hbar : "|".toList = ['|'] := by decide
  rw [hbar, List.append_assoc, List.append_eq_append_iff] at ht
  rcases ht with ⟨more, hv, hmore⟩ | ⟨more, hw, hmore⟩
  · cases more with
    | nil => exact Or.inl (String.toList_inj.1 (by simpa using hv))
    | cons c more =>
      rw [List.singleton_append, List.cons_append, List.cons.injEq] at hmore
      refine Or.inr (Or.inl ?_)
      rw [hasPrefix_iff, String.toList_append, hbar, hv]
      exact ⟨more, by simp [← hmore.1]⟩
  · cases more with
    | nil => exact Or.inl (String.toList_inj.1 (by simpa using hw.symm))
    | cons c more =>
      rw [List.cons_append, List.cons.injEq] at hmore
      refine Or.inr (Or.inr ?_)
      rw [hasPrefix_iff, String.toList_append, hbar, hw]
      exact ⟨more, by simp [← hmore.1]⟩

/-- Keys of one variable are those of one position. -/
theorem buildSeriesKey_position {v : String} {i j : Nat} {labels labels' : List Label}
    (h : buildSeriesKey v i labels = buildSeriesKey v j labels') : i = j := by
  obtain ⟨rest, hrest, hkey⟩ := toList_buildSeriesKey v i labels
  obtain ⟨rest', hrest', hkey'⟩ := toList_buildSeriesKey v j labels'
  rw [h, hkey', List.append_cancel_left_eq, List.cons.injEq] at hkey
  -- the position is what comes before the first character that is no digit
  have htext : ∀ n : Nat, (toString n).toList = Nat.toDigits 10 n := by
    intro n
    change (Nat.repr n).toList = _
    rw [Nat.repr_eq_ofList_toDigits, String.toList_ofList]
  have hdigits : ∀ n : Nat, ∀ c ∈ (toString n).toList, c.isDigit = true := by
    intro n c hc
    rw [htext] at hc
    exact Nat.isDigit_of_mem_toDigits (by decide) (by decide) hc
  have htake : ∀ (n : Nat) (rest : List Char), (rest = [] ∨ ∃ more, rest = '|' :: more) →
      ((toString n).toList ++ rest).takeWhile Char.isDigit = (toString n).toList := by
    intro n rest hrest
    rw [List.takeWhile_append_of_pos (hdigits n)]
    rcases hrest with rfl | ⟨more, rfl⟩
    · simp
    · rw [List.takeWhile_cons_of_neg (by decide), List.append_nil]
  have hsame := congrArg (List.takeWhile Char.isDigit) hkey.2
  rw [htake j rest' hrest', htake i rest hrest, htext, htext] at hsame
  rw [← @Nat.ofDigitChars_ten_toDigits i, ← hsame, Nat.ofDigitChars_ten_toDigits]

end Signoz.Querier
