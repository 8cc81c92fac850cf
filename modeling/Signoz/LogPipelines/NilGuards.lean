import Mathlib.Data.List.TakeWhile
import Signoz.Lib.CharLists
import Signoz.LogPipelines.ReferencedFields

/-!
# The nil check of a field path

`fieldNotNilCheck` cuts a path at its last bracket as a text, checks what stands before it in the
same way, and compares the whole with `nil`. That is exact when a bracket in the text is a bracket
of the path. A `[` in a key cuts the path inside of the key. A `]` in a key cuts the key: its second
part is taken for the members behind the bracket, whose dots are made optional, and those members
are lost.
-/

namespace Signoz.LogPipelines

open scoped Lib.CharLists

variable {F : Type}

/-! ## Paths -/

/-- A key in quotes, as it is written, or an index. -/
inductive Bracket where
  | key (quote : Char) (written : List Char)
  | index (n : Nat)
deriving DecidableEq

def Bracket.access : Bracket → Access
  | .key quote written => .key quote written
  | .index n => .index n

/-- Names joined by dots, and then brackets, each with the names behind it. -/
inductive FieldExpr where
  | names (root : String) (members : List String)
  | bracket (target : FieldExpr) (operand : Bracket) (members : List String)
deriving DecidableEq

namespace FieldExpr

def root : FieldExpr → String
  | names root _ => root
  | bracket target _ _ => target.root

/-- The steps, with optional members or without. -/
def accesses (optional : Bool) : FieldExpr → List Access
  | names _ members => members.map (Access.member optional)
  | bracket target operand members =>
    target.accesses optional ++ operand.access :: members.map (Access.member optional)

/-- The path as it is written. -/
def path (e : FieldExpr) : FieldPath := ⟨e.root, e.accesses false⟩

/-- The path as it is meant: the member of `nil` is `nil`. -/
def meant (e : FieldExpr) : FieldPath := ⟨e.root, e.accesses true⟩

def text (e : FieldExpr) : List Char := e.path.text

/-- The path, and what stands before each bracket. -/
def targets : FieldExpr → List FieldExpr
  | names root members => [names root members]
  | bracket target operand members => bracket target operand members :: target.targets

/-- The keys, each with the names behind it. -/
def keys : FieldExpr → List (List Char × List String)
  | names _ _ => []
  | bracket target (.key _ written) members => (written, members) :: target.keys
  | bracket target (.index _) _ => target.keys

/-- Names are names, and a key is in quotes that it does not have itself. -/
def Valid : FieldExpr → Prop
  | names root members => ∀ name ∈ root :: members, IsName name
  | bracket target operand members =>
    target.Valid ∧ (∀ name ∈ members, IsName name) ∧
      match operand with
      | .key quote written => (quote = '"' ∨ quote = '\'') ∧ quote ∉ written
      | .index _ => True

end FieldExpr

/-! ## Records that fit a path -/

section Fits

variable (literal : List Char → String)

/-- The value is `nil`, or a container of the kind that the step needs. -/
def Access.Suits : Access → LogValue → Prop
  | .index _, value => value = .nil ∨ ∃ items, value = .array items
  | _, value => value = .nil ∨ ∃ fields, value = .map fields

/-- Each value on the way is absent, `nil` or a container of the kind that the next step needs. -/
def WalkFits : List Access → LogValue → Prop
  | [], _ => True
  | access :: rest, value =>
    access.Suits value ∧ ∀ value', access.value literal value = some value' → WalkFits rest value'

/-- The record fits the path. -/
def FieldExpr.Fits (e : FieldExpr) (record : LogRecord) : Prop :=
  WalkFits literal (e.accesses true) (record e.root)

end Fits

/-! ## The check as an expression -/

/-- A key after its part behind a `]` has been taken for members. -/
def cutKey (written : List Char) : List Char :=
  written.takeWhile (· ≠ ']') ++ optionalChainedPath (written.dropWhile (· ≠ ']'))

/-- The comparison of the whole path with `nil`. -/
def FieldExpr.fullCheck (target : FieldExpr) (operand : Bracket) (members : List String) : Guard :=
  match operand with
  | .key quote written =>
    .notNil ⟨target.root, target.accesses false ++ .key quote (cutKey written) ::
      (if ']' ∈ written then [] else members).map (Access.member true)⟩
  | .index n =>
    .both (.longer target.path n)
      (.notNil ⟨target.root, target.accesses false ++ .index n ::
        members.map (Access.member true)⟩)

/-- The path is `attributes` or `resource`. -/
def FieldExpr.IsContainer (e : FieldExpr) : Prop :=
  e = .names "attributes" [] ∨ e = .names "resource" []

instance (e : FieldExpr) : Decidable e.IsContainer := inferInstanceAs (Decidable (_ ∨ _))

/-- The check that is written for a path whose keys have no `[` and at most one `]`. -/
def FieldExpr.check : FieldExpr → Guard
  | .names root members => .notNil ⟨root, members.map (Access.member true)⟩
  | .bracket target operand members =>
    if target.IsContainer then target.fullCheck operand members
    else .both target.check (target.fullCheck operand members)

/-- The key is kept as it is: it has no `]`, or its second part has no dot that would become
optional, and no member is lost. -/
def KeptKey (written : List Char) (members : List String) : Prop :=
  ']' ∉ written ∨ (written.count ']' = 1 ∧ cutKey written = written ∧ members = [])

instance (written : List Char) (members : List String) : Decidable (KeptKey written members) :=
  inferInstanceAs (Decidable (_ ∨ _))

/-! ## The parts of a path as a text -/

/-- The swaps of `reverseString` stay in range: the text has less than two characters, or each is
one byte. -/
def Reversible (s : List Char) : Prop := s.length < 2 ∨ ∀ c ∈ s, c.utf8Size = 1

instance (s : List Char) : Decidable (Reversible s) := inferInstanceAs (Decidable (_ ∨ _))

theorem Reversible.of_sublist {s t : List Char} (h : Reversible t) (hsub : s.Sublist t) :
    Reversible s := by
  rcases h with hshort | hascii
  · exact .inl (Nat.lt_of_le_of_lt hsub.length_le hshort)
  · exact .inr fun c hc => hascii c (hsub.subset hc)

theorem utf8ByteSize_ofList_cons (c : Char) (s : List Char) :
    (String.ofList (c :: s)).utf8ByteSize = c.utf8Size + (String.ofList s).utf8ByteSize := by
  rw [← List.singleton_append, String.ofList_append, String.utf8ByteSize_append]
  congr 1
  exact String.utf8ByteSize_singleton

/-- A text has as many bytes as characters when each character is one byte. -/
theorem length_le_utf8ByteSize (s : List Char) :
    s.length ≤ (String.ofList s).utf8ByteSize ∧
      ((String.ofList s).utf8ByteSize = s.length ↔ ∀ c ∈ s, c.utf8Size = 1) := by
  induction s with
  | nil => simp
  | cons c s ih =>
    obtain ⟨hle, hiff⟩ := ih
    have hpos := c.utf8Size_pos
    rw [utf8ByteSize_ofList_cons, List.length_cons, List.forall_mem_cons, ← hiff]
    omega

theorem reverseString_of_reversible {s : List Char} (h : Reversible s) :
    reverseString s = some s.reverse := by
  rw [reverseString, if_neg]
  rintro ⟨htwo, hlt⟩
  rcases h with hshort | hascii
  · exact absurd htwo (Nat.not_le.mpr hshort)
  · exact absurd hlt (Nat.not_lt.mpr ((length_le_utf8ByteSize s).2.mpr hascii).le)

theorem reverseString_of_not_reversible {s : List Char} (h : ¬Reversible s) :
    reverseString s = none := by
  rw [Reversible, not_or, Nat.not_lt] at h
  obtain ⟨htwo, hwide⟩ := h
  obtain ⟨hle, hiff⟩ := length_le_utf8ByteSize s
  rw [reverseString, if_pos]
  exact ⟨htwo, Nat.lt_of_le_of_ne hle fun heq => hwide (hiff.mp heq.symm)⟩

/-- A text is cut at its last separator. -/
theorem rSplitAfterTwo_append {before after : List Char} {sep : Char} (hsep : sep ∉ after)
    (h : Reversible (before ++ sep :: after)) :
    rSplitAfterTwo (before ++ sep :: after) sep = some [before, sep :: after] := by
  have hbefore : Reversible before := h.of_sublist (List.sublist_append_left _ _)
  have hafter : Reversible (sep :: after) := h.of_sublist (List.sublist_append_right _ _)
  have hreverse : (before ++ sep :: after).reverse = after.reverse ++ sep :: before.reverse := by
    simp
  have hnot : ∀ c ∈ after.reverse, decide (c ≠ sep) = true := by
    intro c hc
    rw [decide_eq_true_eq]
    rintro rfl
    exact hsep (List.mem_reverse.mp hc)
  have hsplit : splitAfterTwo sep (after.reverse ++ sep :: before.reverse) =
      [(sep :: after).reverse, before.reverse] := by
    rw [splitAfterTwo, if_pos (by simp), List.takeWhile_append_of_pos hnot,
      List.dropWhile_append_of_pos hnot]
    simp
  have hback : ∀ s : List Char, Reversible s → reverseString s.reverse = some s := by
    intro s hs
    rw [reverseString_of_reversible, List.reverse_reverse]
    rcases hs with hshort | hascii
    · exact .inl (by rwa [List.length_reverse])
    · exact .inr fun c hc => hascii c (List.mem_reverse.mp hc)
  rw [rSplitAfterTwo, reverseString_of_reversible h, Option.bind_some, hreverse, hsplit]
  change [before.reverse, (sep :: after).reverse].mapM reverseString = _
  rw [List.mapM_cons, List.mapM_cons, List.mapM_nil, hback _ hbefore, hback _ hafter]
  rfl

theorem splitAfter_of_not_mem {s : List Char} {sep : Char} (h : sep ∉ s) :
    splitAfter sep s = [s] := by
  induction s with
  | nil => rfl
  | cons c s ih =>
    rw [List.mem_cons, not_or] at h
    rw [splitAfter, if_neg (Ne.symm h.1), ih h.2]

theorem splitAfter_append {s : List Char} {sep : Char} (h : sep ∉ s) (rest : List Char) :
    splitAfter sep (s ++ sep :: rest) = (s ++ [sep]) :: splitAfter sep rest := by
  induction s with
  | nil =>
    rw [List.nil_append, splitAfter, if_pos rfl]
    rfl
  | cons c s ih =>
    rw [List.mem_cons, not_or] at h
    rw [List.cons_append, splitAfter, if_neg (Ne.symm h.1), ih h.2]
    rfl

/-- What does not begin with a dot does not change what stands before it. -/
theorem optionalChainedPath_append_right {rest : List Char} (h : rest.head? ≠ some '.')
    (s : List Char) :
    optionalChainedPath (s ++ rest) = optionalChainedPath s ++ optionalChainedPath rest := by
  fun_induction optionalChainedPath s with
  | case1 s ih =>
    rw [List.cons_append, List.cons_append, optionalChainedPath, ih]
    rfl
  | case2 s ih =>
    rw [List.cons_append, optionalChainedPath, ih]
    rfl
  | case3 c s hmark hdot ih =>
    rw [List.cons_append, optionalChainedPath.eq_3, ih]
    · rfl
    · intro rest' hc heq
      cases s with
      | nil =>
        rw [List.nil_append] at heq
        rw [heq] at h
        exact h rfl
      | cons c' s =>
        obtain ⟨rfl, -⟩ := List.cons.inj heq
        exact hmark s hc rfl
    · exact hdot
  | case4 => rfl

/-- The names behind a bracket, as they are written. -/
def membersText (optional : Bool) (members : List String) : List Char :=
  members.flatMap fun name => (Access.member optional name).text

theorem flatMap_members (optional : Bool) (members : List String) :
    (members.map (Access.member optional)).flatMap Access.text = membersText optional members := by
  rw [List.flatMap_map, membersText]

theorem not_mem_membersText {members : List String} (h : ∀ name ∈ members, IsName name) {c : Char}
    (hc : c ∈ ['[', ']']) : c ∉ membersText false members := by
  rw [membersText, List.mem_flatMap]
  rintro ⟨name, hname, hmem⟩
  rcases List.mem_cons.mp hmem with rfl | hmem
  · exact absurd hc (by decide)
  · have hnot := (h name hname).2 c hmem
    simp only [List.mem_cons, not_or] at hnot
    rcases List.mem_cons.mp hc with rfl | hc
    · exact hnot.2.2.1 rfl
    · exact hnot.2.2.2.1 (List.mem_singleton.mp hc)

theorem FieldExpr.text_bracket (target : FieldExpr) (operand : Bracket) (members : List String) :
    (FieldExpr.bracket target operand members).text =
      target.text ++ (operand.access.text ++ membersText false members) := by
  rw [FieldExpr.text, FieldExpr.path, FieldPath.text, FieldExpr.accesses, List.flatMap_append,
    List.flatMap_cons, flatMap_members, ← List.append_assoc]
  rfl

/-- The text of a path that ends in a bracket, whose names may be optional. -/
theorem FieldExpr.text_extended (target : FieldExpr) (access : Access) (optional : Bool)
    (members : List String) :
    (FieldPath.mk target.root (target.accesses false ++ access ::
        members.map (Access.member optional))).text =
      target.text ++ access.text ++ membersText optional members := by
  rw [FieldPath.text, List.flatMap_append, List.flatMap_cons, flatMap_members, ← List.append_assoc,
    ← List.append_assoc]
  rfl

theorem isDigit_of_mem_toString {n : Nat} {c : Char} (h : c ∈ (toString n).toList) :
    c.isDigit = true := by
  rw [Nat.toString_eq_ofList_toDigits, String.toList_ofList] at h
  exact Nat.isDigit_of_mem_toDigits (by decide) (by decide) h

/-! ## The comparison of the whole path -/

theorem count_le_one_cases {w : List Char} {c : Char} (h : w.count c ≤ 1) :
    c ∉ w ∨ ∃ before after, w = before ++ c :: after ∧ c ∉ before ∧ c ∉ after := by
  by_cases hmem : c ∈ w
  · obtain ⟨before, after, rfl, hbefore⟩ := List.eq_append_cons_of_mem hmem
    refine .inr ⟨before, after, rfl, hbefore, ?_⟩
    intro hafter
    rw [List.count_append, List.count_cons_self] at h
    have hpos := List.count_pos_iff.mpr hafter
    omega
  · exact .inl hmem

theorem cutKey_of_not_mem {w : List Char} (h : ']' ∉ w) : cutKey w = w := by
  have hne : ∀ c ∈ w, decide (c ≠ ']') = true := by
    intro c hc
    rw [decide_eq_true_eq]
    rintro rfl
    exact h hc
  have htake : w.takeWhile (· ≠ ']') = w := List.takeWhile_eq_self_iff.mpr hne
  have hdrop : w.dropWhile (· ≠ ']') = [] := List.dropWhile_eq_nil_iff.mpr hne
  rw [cutKey, htake, hdrop]
  exact List.append_nil w

theorem cutKey_append {before after : List Char} (h : ']' ∉ before) :
    cutKey (before ++ ']' :: after) = before ++ ']' :: optionalChainedPath after := by
  have hne : ∀ c ∈ before, decide (c ≠ ']') = true := by
    intro c hc
    rw [decide_eq_true_eq]
    rintro rfl
    exact h hc
  rw [cutKey, List.takeWhile_append_of_pos hne, List.dropWhile_append_of_pos hne,
    List.takeWhile_cons_of_neg (by decide), List.dropWhile_cons_of_neg (by decide), List.append_nil]
  congr 1

/-- The check from the first two parts of the suffix. -/
theorem membershipCheck_of_split {target suffix index second : List Char}
    {more : List (List Char)} (h : splitAfter ']' suffix = index :: second :: more) :
    membershipCheck target suffix =
      if '\'' ∈ index ∨ '"' ∈ index then
        some (String.ofList (target ++ index ++ optionalChainedPath second) ++ " != nil")
      else if index.length < 2 then none
      else
        some ("len(" ++ String.ofList target ++ ") > " ++
          String.ofList ((index.drop 1).dropLast) ++ " && " ++
            (String.ofList (target ++ index ++ optionalChainedPath second) ++ " != nil")) := by
  rw [membershipCheck, h]
  rfl

/-- The comparison behind a key that is kept in one part. -/
theorem membershipCheck_key {target : List Char} {quote : Char} {written : List Char}
    {members : List String} (hquote : quote = '"' ∨ quote = '\'') (hkey : ']' ∉ written)
    (hmembers : ∀ name ∈ members, IsName name) :
    membershipCheck target ((Access.key quote written).text ++ membersText false members) =
      some (String.ofList (target ++ (Access.key quote written).text ++ membersText true members) ++
        " != nil") := by
  have hindex : ']' ∉ '[' :: quote :: written ++ [quote] := by
    rcases hquote with rfl | rfl
    · simp [hkey]
    · simp [hkey]
  have hsplit : splitAfter ']' ((Access.key quote written).text ++ membersText false members) =
      [(Access.key quote written).text, membersText false members] := by
    have htext : (Access.key quote written).text ++ membersText false members =
        ('[' :: quote :: written ++ [quote]) ++ ']' :: membersText false members := by
      simp [Access.text]
    rw [htext, splitAfter_append hindex,
      splitAfter_of_not_mem (not_mem_membersText hmembers (by simp))]
    simp [Access.text]
  have hmark : '\'' ∈ (Access.key quote written).text ∨ '"' ∈ (Access.key quote written).text := by
    rcases hquote with rfl | rfl
    · exact .inr (by simp [Access.text])
    · exact .inl (by simp [Access.text])
  rw [membershipCheck_of_split hsplit, if_pos hmark, membersText,
    optionalChainedPath_members hmembers]
  rfl

/-- The comparison behind a key that is cut in two. -/
theorem membershipCheck_cut {target : List Char} {quote : Char} {before after : List Char}
    {members : List String} (hquote : quote = '"' ∨ quote = '\'') (hbefore : ']' ∉ before)
    (hafter : ']' ∉ after) (hmembers : ∀ name ∈ members, IsName name) :
    membershipCheck target
        ((Access.key quote (before ++ ']' :: after)).text ++ membersText false members) =
      some (String.ofList (target ++ (Access.key quote (cutKey (before ++ ']' :: after))).text) ++
        " != nil") := by
  have hfirst : ']' ∉ '[' :: quote :: before := by
    rcases hquote with rfl | rfl
    · simp [hbefore]
    · simp [hbefore]
  have hsecond : ']' ∉ after ++ [quote] := by
    rcases hquote with rfl | rfl
    · simp [hafter]
    · simp [hafter]
  have hsplit : splitAfter ']'
      ((Access.key quote (before ++ ']' :: after)).text ++ membersText false members) =
        [('[' :: quote :: before) ++ [']'], (after ++ [quote]) ++ [']'],
          membersText false members] := by
    have htext : (Access.key quote (before ++ ']' :: after)).text ++ membersText false members =
        ('[' :: quote :: before) ++ ']' :: ((after ++ [quote]) ++ ']' ::
          membersText false members) := by
      simp [Access.text]
    rw [htext, splitAfter_append hfirst, splitAfter_append hsecond,
      splitAfter_of_not_mem (not_mem_membersText hmembers (by simp))]
  have hmark : '\'' ∈ ('[' :: quote :: before) ++ [']'] ∨
      '"' ∈ ('[' :: quote :: before) ++ [']'] := by
    rcases hquote with rfl | rfl
    · exact .inr (by simp)
    · exact .inl (by simp)
  have hrest : optionalChainedPath ((after ++ [quote]) ++ [']']) =
      optionalChainedPath after ++ [quote, ']'] := by
    rw [List.append_assoc, optionalChainedPath_append_right]
    · rcases hquote with rfl | rfl
      · rfl
      · rfl
    · rcases hquote with rfl | rfl
      · decide
      · decide
  rw [membershipCheck_of_split hsplit, if_pos hmark, hrest, cutKey_append hbefore]
  simp [Access.text]

/-- The comparison behind an index, with the length that it needs. -/
theorem membershipCheck_index {target : List Char} {n : Nat} {members : List String}
    (hmembers : ∀ name ∈ members, IsName name) :
    membershipCheck target ((Access.index n).text ++ membersText false members) =
      some ("len(" ++ String.ofList target ++ ") > " ++ toString n ++ " && " ++
        (String.ofList (target ++ (Access.index n).text ++ membersText true members) ++
          " != nil")) := by
  have hdigits : ∀ c ∈ ['[', ']', '\'', '"'], c ∉ (toString n).toList := by
    intro c hc hmem
    have hmarks : ∀ c ∈ ['[', ']', '\'', '"'], c.isDigit = false := by decide
    have hdigit := isDigit_of_mem_toString hmem
    rw [hmarks c hc] at hdigit
    cases hdigit
  have hsplit : splitAfter ']' ((Access.index n).text ++ membersText false members) =
      [(Access.index n).text, membersText false members] := by
    have htext : (Access.index n).text ++ membersText false members =
        ('[' :: (toString n).toList) ++ ']' :: membersText false members := by
      simp [Access.text]
    have hindex : ']' ∉ '[' :: (toString n).toList := by
      rw [List.mem_cons, not_or]
      exact ⟨by decide, hdigits _ (by simp)⟩
    rw [htext, splitAfter_append hindex,
      splitAfter_of_not_mem (not_mem_membersText hmembers (by simp))]
    rfl
  have hmark : ¬('\'' ∈ (Access.index n).text ∨ '"' ∈ (Access.index n).text) := by
    rw [not_or]
    constructor
    · simpa [Access.text] using hdigits '\'' (by simp)
    · simpa [Access.text] using hdigits '"' (by simp)
  have hlength : ¬(Access.index n).text.length < 2 := by
    simp [Access.text]
  have hinner : ((Access.index n).text.drop 1).dropLast = (toString n).toList := by
    rw [Access.text, List.cons_append, List.drop_one, List.tail_cons, List.dropLast_concat]
  rw [membershipCheck_of_split hsplit, if_neg hmark, if_neg hlength, hinner, String.ofList_toList,
    membersText, optionalChainedPath_members hmembers]
  rfl

/-- A key in quotes always has a comparison: its quote is in the first part. -/
theorem exists_membershipCheck_key {target suffix : List Char} {quote : Char}
    (hquote : quote = '"' ∨ quote = '\'') :
    ∃ check, membershipCheck target ('[' :: quote :: suffix) = some check := by
  have hbracket : quote ≠ ']' := by
    rcases hquote with rfl | rfl
    · decide
    · decide
  obtain ⟨index, more, hsplit, hmem⟩ : ∃ index more,
      splitAfter ']' ('[' :: quote :: suffix) = index :: more ∧ quote ∈ index := by
    rw [splitAfter, if_neg (by decide), splitAfter, if_neg hbracket]
    cases splitAfter ']' suffix with
    | nil => exact ⟨_, _, rfl, by simp⟩
    | cons part parts => exact ⟨_, _, rfl, by simp⟩
  have hmark : '\'' ∈ index ∨ '"' ∈ index := by
    rcases hquote with rfl | rfl
    · exact .inr hmem
    · exact .inl hmem
  rw [membershipCheck, hsplit]
  exact ⟨_, if_pos hmark⟩

/-- The comparison of a path whose key has at most one `]`. -/
theorem membershipCheck_text {target : FieldExpr} {operand : Bracket} {members : List String}
    (hvalid : (FieldExpr.bracket target operand members).Valid)
    (hone : ∀ quote written, operand = .key quote written → written.count ']' ≤ 1) :
    membershipCheck target.text (operand.access.text ++ membersText false members) =
      some (target.fullCheck operand members).text := by
  obtain ⟨-, hmembers, hoperand⟩ := hvalid
  cases operand with
  | key quote written =>
    rcases count_le_one_cases (hone quote written rfl) with hkey | ⟨before, after, rfl, hb, ha⟩
    · rw [Bracket.access, membershipCheck_key hoperand.1 hkey hmembers, FieldExpr.fullCheck,
        cutKey_of_not_mem hkey, if_neg hkey, Guard.text, FieldExpr.text_extended]
    · have hmem : ']' ∈ before ++ ']' :: after := by simp
      rw [Bracket.access, membershipCheck_cut hoperand.1 hb ha hmembers, FieldExpr.fullCheck,
        if_pos hmem, Guard.text, FieldExpr.text_extended, membersText, List.flatMap_nil,
        List.append_nil]
  | index n =>
    rw [Bracket.access, membershipCheck_index hmembers, FieldExpr.fullCheck, Guard.text,
      Guard.text, Guard.text, FieldExpr.text_extended]
    rfl

/-! ## The calls -/

section Calls

variable {env : Environment F} {fuel : Nat} {path : List Char} {check : String}

/-- A check is generated when the path compiles and can be reversed. -/
theorem fieldNotNilCheckFuel_ok (h : fieldNotNilCheckFuel env (fuel + 1) path = .ok check) :
    env.compile (String.ofList path) = .ok () ∧ Reversible path := by
  rw [fieldNotNilCheckFuel] at h
  cases hcompile : env.compile (String.ofList path) with
  | error text =>
    rw [hcompile] at h
    cases h
  | ok _ =>
    refine ⟨rfl, ?_⟩
    by_contra hreverse
    rw [hcompile, rSplitAfterTwo, reverseString_of_not_reversible hreverse] at h
    cases h

/-- The check of a path without brackets. -/
theorem fieldNotNilCheckFuel_names (hbracket : '[' ∉ path) :
    fieldNotNilCheckFuel env (fuel + 1) path = .ok check ↔
      env.compile (String.ofList path) = .ok () ∧ Reversible path ∧
        check = String.ofList (optionalChainedPath path) ++ " != nil" := by
  constructor
  · intro h
    obtain ⟨hcompile, hreverse⟩ := fieldNotNilCheckFuel_ok h
    refine ⟨hcompile, hreverse, ?_⟩
    rw [fieldNotNilCheckFuel, hcompile] at h
    obtain hnone | hsome := rSplitAfterTwo_of_not_mem hbracket
    · rw [hnone] at h
      cases h
    · rw [hsome] at h
      exact (Except.ok.inj h).symm
  · rintro ⟨hcompile, hreverse, rfl⟩
    rw [fieldNotNilCheckFuel, hcompile]
    obtain hnone | hsome := rSplitAfterTwo_of_not_mem hbracket
    · -- a text that can be reversed can be split
      rw [rSplitAfterTwo, reverseString_of_reversible hreverse, Option.bind_some, splitAfterTwo,
        if_neg (by rwa [List.mem_reverse])] at hnone
      have hback : reverseString path.reverse = some path := by
        rw [reverseString_of_reversible, List.reverse_reverse]
        rcases hreverse with hshort | hascii
        · exact .inl (by rwa [List.length_reverse])
        · exact .inr fun c hc => hascii c (List.mem_reverse.mp hc)
      rw [List.reverse_singleton, List.mapM_cons, hback] at hnone
      cases hnone
    · rw [hsome]

/-- The check of a path that is cut at a bracket. -/
theorem fieldNotNilCheckFuel_split {target suffix : List Char}
    (hsplit : rSplitAfterTwo path '[' = some [target, suffix]) :
    fieldNotNilCheckFuel env (fuel + 1) path = .ok check ↔
      env.compile (String.ofList path) = .ok () ∧
        ∃ collection full, fieldNotNilCheckFuel env fuel target = .ok collection ∧
          membershipCheck target suffix = some full ∧
            check =
              if String.ofList target = "attributes" ∨ String.ofList target = "resource" then full
              else collection ++ " && " ++ full := by
  rw [fieldNotNilCheckFuel]
  cases env.compile (String.ofList path) with
  | error text => simp
  | ok _ =>
    simp only [hsplit]
    cases fieldNotNilCheckFuel env fuel target with
    | error failure => simp
    | ok collection =>
      cases membershipCheck target suffix with
      | none => simp
      | some full =>
        simp only [true_and, Except.ok.injEq, Option.some.injEq, exists_and_left,
          exists_eq_left']
        split_ifs
        · rw [Except.ok.injEq, eq_comm]
        · rw [Except.ok.injEq, eq_comm]

end Calls

/-! ## Which checks are generated -/

section Generated

variable (env : Environment F)

/-- The path compiles, and so does what stands before each bracket. -/
def FieldExpr.Compiles (e : FieldExpr) : Prop :=
  ∀ target ∈ e.targets, env.compile (String.ofList target.text) = .ok ()

/-- What is cut off inside of a key has an open quote, and does not compile. -/
def FieldExpr.CutsFail (e : FieldExpr) : Prop :=
  ∀ target quote before after members,
    FieldExpr.bracket target (.key quote (before ++ '[' :: after)) members ∈ e.targets →
      env.compile (String.ofList (target.text ++ '[' :: quote :: before)) ≠ .ok ()

/-- The path can be cut at its brackets. -/
structure FieldExpr.Splittable (e : FieldExpr) : Prop where
  compiles : e.Compiles env
  reversible : Reversible e.text
  noBracket : ∀ key ∈ e.keys, '[' ∉ key.1

variable {env}

theorem FieldExpr.mem_targets_self (e : FieldExpr) : e ∈ e.targets := by
  cases e with
  | names root members => exact List.mem_singleton_self _
  | bracket target operand members => exact List.mem_cons_self

theorem FieldExpr.text_names (root : String) (members : List String) :
    (FieldExpr.names root members).text = root.toList ++ membersText false members := by
  rw [FieldExpr.text, FieldExpr.path, FieldPath.text, FieldExpr.accesses, flatMap_members]
  rfl

theorem FieldExpr.bracket_not_mem_names {root : String} {members : List String}
    (hvalid : (FieldExpr.names root members).Valid) :
    '[' ∉ (FieldExpr.names root members).text := by
  obtain ⟨hroot, hmembers⟩ := List.forall_mem_cons.mp hvalid
  rw [FieldExpr.text_names, List.mem_append, not_or]
  exact ⟨fun hmem => hroot.2 _ hmem (by simp), not_mem_membersText hmembers (by simp)⟩

/-- The text of a bracket begins with `[`, and has no other when its key has none. -/
theorem Bracket.text_cases (operand : Bracket)
    (hkey : ∀ quote written, operand = .key quote written →
      (quote = '"' ∨ quote = '\'') ∧ '[' ∉ written) :
    ∃ rest, operand.access.text = '[' :: rest ∧ '[' ∉ rest := by
  cases operand with
  | key quote written =>
    obtain ⟨hquote, hbracket⟩ := hkey quote written rfl
    refine ⟨quote :: written ++ [quote, ']'], rfl, ?_⟩
    rcases hquote with rfl | rfl
    · simp [hbracket]
    · simp [hbracket]
  | index n =>
    refine ⟨(toString n).toList ++ [']'], rfl, ?_⟩
    rw [List.mem_append, not_or]
    refine ⟨fun hmem => ?_, by decide⟩
    exact absurd (isDigit_of_mem_toString hmem) (by decide)

/-- A path whose last key has no `[` is cut at its last bracket. -/
theorem FieldExpr.rSplitAfterTwo_bracket {target : FieldExpr} {operand : Bracket}
    {members : List String} (hvalid : (FieldExpr.bracket target operand members).Valid)
    (hkey : ∀ quote written, operand = .key quote written → '[' ∉ written)
    (hreverse : Reversible (FieldExpr.bracket target operand members).text) :
    rSplitAfterTwo (FieldExpr.bracket target operand members).text '[' =
      some [target.text, operand.access.text ++ membersText false members] := by
  obtain ⟨-, hmembers, hoperand⟩ := hvalid
  have hquoted : ∀ quote written, operand = .key quote written →
      (quote = '"' ∨ quote = '\'') ∧ '[' ∉ written := by
    rintro quote written rfl
    exact ⟨hoperand.1, hkey quote written rfl⟩
  obtain ⟨rest, htext, hbracket⟩ := operand.text_cases hquoted
  rw [FieldExpr.text_bracket, htext, List.cons_append] at hreverse ⊢
  apply rSplitAfterTwo_append _ hreverse
  rw [List.mem_append, not_or]
  exact ⟨hbracket, not_mem_membersText hmembers (by simp)⟩

theorem FieldExpr.text_length_lt (target : FieldExpr) (operand : Bracket) (members : List String) :
    target.text.length < (FieldExpr.bracket target operand members).text.length := by
  rw [FieldExpr.text_bracket, List.length_append, List.length_append]
  have hpos : 0 < operand.access.text.length := by
    cases operand with
    | key quote written => exact Nat.succ_pos _
    | index n => exact Nat.succ_pos _
  omega

theorem exists_membershipCheck (target : List Char) {operand : Bracket} {members : List String}
    (hquote : ∀ quote written, operand = .key quote written → quote = '"' ∨ quote = '\'')
    (hmembers : ∀ name ∈ members, IsName name) :
    ∃ check, membershipCheck target (operand.access.text ++ membersText false members) =
      some check := by
  cases operand with
  | key quote written => exact exists_membershipCheck_key (hquote quote written rfl)
  | index n => exact ⟨_, membershipCheck_index hmembers⟩

/-- A path whose last key has a `[` is cut inside of this key. -/
theorem FieldExpr.cut_inside {target : FieldExpr} {quote : Char} {written : List Char}
    {members : List String}
    (hvalid : (FieldExpr.bracket target (.key quote written) members).Valid)
    (hbracket : '[' ∈ written)
    (hreverse : Reversible (FieldExpr.bracket target (.key quote written) members).text) :
    ∃ before after suffix, written = before ++ '[' :: after ∧
      rSplitAfterTwo (FieldExpr.bracket target (.key quote written) members).text '[' =
        some [target.text ++ '[' :: quote :: before, suffix] := by
  obtain ⟨-, hmembers, hquote, -⟩ := hvalid
  -- the last `[` of the key is the last one of the path
  obtain ⟨after', before', hwritten, hafter⟩ :=
    List.eq_append_cons_of_mem (List.mem_reverse.mpr hbracket)
  have hkey : written = before'.reverse ++ '[' :: after'.reverse := by
    rw [← List.reverse_inj, hwritten]
    simp
  refine ⟨before'.reverse, after'.reverse, '[' :: (after'.reverse ++
    (quote :: ']' :: membersText false members)), hkey, ?_⟩
  have htext : (FieldExpr.bracket target (.key quote written) members).text =
      (target.text ++ '[' :: quote :: before'.reverse) ++
        '[' :: (after'.reverse ++ (quote :: ']' :: membersText false members)) := by
    rw [FieldExpr.text_bracket, hkey]
    simp [Bracket.access, Access.text]
  rw [htext] at hreverse ⊢
  apply rSplitAfterTwo_append _ hreverse
  have hrest := not_mem_membersText hmembers (c := '[') (by simp)
  rcases hquote with rfl | rfl
  · simp [hafter, hrest]
  · simp [hafter, hrest]

/-- A check is generated if and only if the path can be cut at its brackets. -/
theorem FieldExpr.checkFuel_iff {e : FieldExpr} (hvalid : e.Valid) (hcuts : e.CutsFail env) :
    ∀ fuel, e.text.length < fuel →
      ((∃ check, fieldNotNilCheckFuel env fuel e.text = .ok check) ↔ e.Splittable env) := by
  induction e with
  | names root members =>
    intro fuel hfuel
    obtain ⟨fuel, rfl⟩ := Nat.exists_eq_add_one_of_ne_zero (Nat.ne_zero_of_lt hfuel)
    have hnames := FieldExpr.bracket_not_mem_names hvalid
    constructor
    · rintro ⟨check, hcheck⟩
      obtain ⟨hcompile, hreverse, -⟩ := (fieldNotNilCheckFuel_names hnames).mp hcheck
      refine ⟨?_, hreverse, fun key hkey => absurd hkey List.not_mem_nil⟩
      intro target htarget
      rw [List.mem_singleton.mp htarget]
      exact hcompile
    · rintro ⟨hcompiles, hreverse, -⟩
      exact ⟨_, (fieldNotNilCheckFuel_names hnames).mpr
        ⟨hcompiles _ (FieldExpr.mem_targets_self _), hreverse, rfl⟩⟩
  | bracket target operand members ih =>
    intro fuel hfuel
    obtain ⟨fuel, rfl⟩ := Nat.exists_eq_add_one_of_ne_zero (Nat.ne_zero_of_lt hfuel)
    -- The call goes on with the shorter text before the last bracket.
    have hshort := target.text_length_lt operand members
    have ih := ih hvalid.1
      (fun target' quote before after members' hmem =>
        hcuts target' quote before after members' (List.mem_cons_of_mem _ hmem))
      fuel (by omega)
    have hquote : ∀ quote written, operand = .key quote written →
        quote = '"' ∨ quote = '\'' := by
      rintro quote written rfl
      exact hvalid.2.2.1
    have hsublist : target.text.Sublist (FieldExpr.bracket target operand members).text := by
      rw [FieldExpr.text_bracket]
      exact List.sublist_append_left _ _
    constructor
    · rintro ⟨check, hcheck⟩
      obtain ⟨hcompile, hreverse⟩ := fieldNotNilCheckFuel_ok hcheck
      have hkey : ∀ quote written, operand = .key quote written → '[' ∉ written := by
        rintro quote written rfl hbracket
        obtain ⟨before, after, suffix, rfl, hsplit⟩ :=
          FieldExpr.cut_inside hvalid hbracket hreverse
        obtain ⟨-, collection, -, hcollection, -⟩ :=
          (fieldNotNilCheckFuel_split hsplit).mp hcheck
        cases fuel with
        | zero => cases hcollection
        | succ fuel =>
          exact hcuts target quote before after members List.mem_cons_self
            (fieldNotNilCheckFuel_ok hcollection).1
      obtain ⟨-, collection, full, hcollection, -⟩ := (fieldNotNilCheckFuel_split
        (FieldExpr.rSplitAfterTwo_bracket hvalid hkey hreverse)).mp hcheck
      obtain ⟨hcompiles, -, hnone⟩ := ih.mp ⟨collection, hcollection⟩
      refine ⟨List.forall_mem_cons.mpr ⟨hcompile, hcompiles⟩, hreverse, ?_⟩
      cases operand with
      | key quote written => exact List.forall_mem_cons.mpr ⟨hkey quote written rfl, hnone⟩
      | index n => exact hnone
    · rintro ⟨hcompiles, hreverse, hnone⟩
      obtain ⟨hcompile, hbefore⟩ := List.forall_mem_cons.mp hcompiles
      have hkey : ∀ quote written, operand = .key quote written → '[' ∉ written := by
        rintro quote written rfl
        exact hnone _ List.mem_cons_self
      have hrest : ∀ key ∈ target.keys, '[' ∉ key.1 := by
        intro key hmem
        cases operand with
        | key quote written => exact hnone key (List.mem_cons_of_mem _ hmem)
        | index n => exact hnone key hmem
      obtain ⟨collection, hcollection⟩ := ih.mpr ⟨hbefore, hreverse.of_sublist hsublist, hrest⟩
      obtain ⟨full, hfull⟩ := exists_membershipCheck target.text hquote hvalid.2.1
      exact ⟨_, (fieldNotNilCheckFuel_split
        (FieldExpr.rSplitAfterTwo_bracket hvalid hkey hreverse)).mpr
          ⟨hcompile, collection, full, hcollection, hfull, rfl⟩⟩

/-- The text is `attributes` or `resource` when the path is. -/
theorem FieldExpr.text_isContainer {e : FieldExpr} :
    (String.ofList e.text = "attributes" ∨ String.ofList e.text = "resource") ↔
      e.IsContainer := by
  have hnot : ∀ c ∈ ['.', '['], ∀ text ∈ ["attributes", "resource"], c ∉ text.toList := by decide
  have hmem : ∀ c ∈ ['.', '['], c ∈ e.text →
      ¬(String.ofList e.text = "attributes" ∨ String.ofList e.text = "resource") := by
    intro c hc htext hcontainer
    have hlist : String.ofList e.text ∈ ["attributes", "resource"] := by simpa using hcontainer
    exact hnot c hc _ hlist (by rwa [String.toList_ofList])
  cases e with
  | names root members =>
    cases members with
    | nil =>
      have htext : String.ofList (FieldExpr.names root []).text = root := by
        rw [FieldExpr.text_names, membersText, List.flatMap_nil, List.append_nil,
          String.ofList_toList]
      rw [htext, FieldExpr.IsContainer]
      simp
    | cons name members =>
      apply iff_of_false
      · apply hmem '.' (by simp)
        rw [FieldExpr.text_names, membersText, List.flatMap_cons]
        simp [Access.text]
      · rintro (h | h)
        · cases h
        · cases h
  | bracket target operand members =>
    apply iff_of_false
    · apply hmem '[' (by simp)
      rw [FieldExpr.text_bracket]
      cases operand with
      | key quote written => simp [Bracket.access, Access.text]
      | index n => simp [Bracket.access, Access.text]
    · rintro (h | h)
      · cases h
      · cases h

/-- The check that is generated, for keys without `[` and with at most one `]`. -/
theorem FieldExpr.checkFuel_text {e : FieldExpr} (hvalid : e.Valid)
    (hnone : ∀ key ∈ e.keys, '[' ∉ key.1) (hone : ∀ key ∈ e.keys, key.1.count ']' ≤ 1) :
    ∀ {fuel : Nat} {check : String}, fieldNotNilCheckFuel env fuel e.text = .ok check →
      check = e.check.text := by
  induction e with
  | names root members =>
    intro fuel check h
    obtain ⟨hroot, hmembers⟩ := List.forall_mem_cons.mp hvalid
    cases fuel with
    | zero => cases h
    | succ fuel =>
      obtain ⟨-, -, rfl⟩ :=
        (fieldNotNilCheckFuel_names (FieldExpr.bracket_not_mem_names hvalid)).mp h
      rw [FieldExpr.text_names, optionalChainedPath_append hroot.noDots, membersText,
        optionalChainedPath_members hmembers, FieldExpr.check, Guard.text, FieldPath.text,
        flatMap_members]
      rfl
  | bracket target operand members ih =>
    intro fuel check h
    have hsub : ∀ key ∈ target.keys, key ∈ (FieldExpr.bracket target operand members).keys := by
      intro key hmem
      cases operand with
      | key quote written => exact List.mem_cons_of_mem _ hmem
      | index n => exact hmem
    have hkey : ∀ quote written, operand = .key quote written →
        '[' ∉ written ∧ written.count ']' ≤ 1 := by
      rintro quote written rfl
      exact ⟨hnone _ List.mem_cons_self, hone _ List.mem_cons_self⟩
    cases fuel with
    | zero => cases h
    | succ fuel =>
      obtain ⟨-, collection, full, hcollection, hfull, rfl⟩ := (fieldNotNilCheckFuel_split
        (FieldExpr.rSplitAfterTwo_bracket hvalid
          (fun quote written heq => (hkey quote written heq).1)
          (fieldNotNilCheckFuel_ok h).2)).mp h
      rw [membershipCheck_text hvalid fun quote written heq => (hkey quote written heq).2]
        at hfull
      obtain rfl := Option.some.inj hfull
      have hcheck := ih hvalid.1 (fun key hmem => hnone key (hsub key hmem))
        (fun key hmem => hone key (hsub key hmem)) hcollection
      rw [FieldExpr.check]
      by_cases hcontainer : target.IsContainer
      · rw [if_pos (FieldExpr.text_isContainer.mpr hcontainer), if_pos hcontainer]
      · rw [if_neg fun htext => hcontainer (FieldExpr.text_isContainer.mp htext),
          if_neg hcontainer, hcheck]
        rfl

end Generated

end Signoz.LogPipelines
