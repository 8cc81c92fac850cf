import Signoz.Lib.CharLists
import Signoz.ResourceFilter.ConditionBuilder

/-!
# When the resource conditions are exact

A condition should hold exactly for the resources whose value satisfies the operator, and for a
positive operator or `EXISTS` only if the label is there (`Filter.means`). The condition is the
operator's own predicate with the index filters (`holds_conditionFor`), so it is exact when,
wherever the predicate is true, the index filters say whether the label is there
(`exact_iff_indexAgrees`).

The index filters look at the whole column. For ordinary keys and values `%key":"value%` matches
exactly if some written key ends with `key` and its value starts with `value`, up to the characters
that stand for a `_` (`equalIndex_iff_neighbour`), and `%key%` if some key or value has `key` in it
(`mentions_iff`), which gives the condition in terms of the labels.
-/

namespace Signoz.ResourceFilter

open scoped Lib.CharLists

open Lib.JsonText Lib.Like

/-! ## The meaning of a filter -/

/-- The operator's own predicate, on the value of the key; for `EXISTS` and `NOT EXISTS` the
presence of the label. -/
def Filter.predicate (db : Engine) (r : Resource) (key : Text) : Filter → Bool
  | .equal v => r.extract key = v
  | .notEqual v => r.extract key ≠ v
  | .greaterThan v => v < r.extract key
  | .greaterThanOrEq v => v ≤ r.extract key
  | .lessThan v => r.extract key < v
  | .lessThanOrEq v => r.extract key ≤ v
  | .like v => db.iLike (r.extract key) v
  | .notLike v => !db.iLike (r.extract key) v
  | .between low high => low ≤ r.extract key && r.extract key ≤ high
  | .notBetween low high => !(low ≤ r.extract key && r.extract key ≤ high)
  | .inList vs => r.extract key ∈ vs
  | .notInList vs => r.extract key ∉ vs
  | .isPresent => r.has key
  | .isAbsent => !r.has key
  | .regexp v => db.regexMatch (r.extract key) v
  | .notRegexp v => !db.regexMatch (r.extract key) v
  | .contains v => db.iLike (r.extract key) (around v)
  | .notContains v => !db.iLike (r.extract key) (around v)

/-- The operators that ask for the label. -/
def Filter.requiresLabel : Filter → Bool
  | .notEqual _ | .notLike _ | .notBetween _ _ | .notInList _ | .isAbsent | .notRegexp _
  | .notContains _ => false
  | _ => true

/-- What a filter means for a resource. -/
def Filter.means (db : Engine) (r : Resource) (key : Text) (f : Filter) : Bool :=
  f.predicate db r key && (!f.requiresLabel || r.has key)

/-- The condition is true exactly when the filter is. -/
def Exact (db : Engine) (r : Resource) (key : Text) (f : Filter) : Prop :=
  (conditionFor key f).holds db r = f.means db r key

/-- A `LIKE` on the column. -/
def Resource.labelsLike (r : Resource) (db : Engine) (pattern : Text) : Bool :=
  Lib.Like.like (r.labelsText db) pattern

/-- The index filters of a condition. -/
def Filter.index (db : Engine) (r : Resource) (key : Text) : Filter → Bool
  | .equal v => r.labelsLike db (keyIndexFilter key) &&
      r.labelsLike db (equalIndexFilter key v)
  | .notEqual v => !r.labelsLike db (equalIndexFilter key v)
  | .like v | .contains v => r.labelsLike db (keyIndexFilter key) &&
      db.iLike (r.labelsText db) (containsIndexFilter key v)
  | .inList vs => r.labelsLike db (keyIndexFilter key) &&
      vs.any fun v => r.labelsLike db (equalIndexFilter key v)
  | .notInList vs => vs.all fun v => !r.labelsLike db (equalIndexFilter key v)
  | .notLike _ | .notBetween _ _ | .isAbsent | .notRegexp _ | .notContains _ => true
  | _ => r.labelsLike db (keyIndexFilter key)

/-- A condition is the predicate together with the index filters. Only for `IN` with an empty
list the predicate is left out. -/
theorem holds_conditionFor (db : Engine) (r : Resource) (key : Text) {f : Filter}
    (hf : f ≠ .inList []) :
    (conditionFor key f).holds db r = (f.predicate db r key && f.index db r key) := by
  cases f
  case inList vs =>
    have hvs : vs ≠ [] := fun h => hf (h ▸ rfl)
    have hor : ∀ g : Text → SqlCond, (∀ v, g v ≠ .empty) →
        (sbOr (vs.map g)).holds db r = vs.any fun v => (g v).holds db r := by
      intro g hg
      rw [holds_sbOr db r (by simpa using fun v _ => hg v)]
      simp [hvs, List.any_map, Function.comp_def]
    have hmem : (vs.any fun v => r.extract key = v) = decide (r.extract key ∈ vs) := by
      rw [Bool.eq_iff_iff]
      simp
    rw [conditionFor, holds_sbAnd]
    simp only [List.all_cons, List.all_nil, Bool.and_true]
    rw [hor (fun v => .compare .eq key v) (fun _ => nofun),
      hor (fun v => .like .labels (equalIndexFilter key v)) (fun _ => nofun)]
    simp only [SqlCond.holds, CompareOp.holds, hmem, Operand.value, Filter.predicate, Filter.index,
      Resource.labelsLike]
  case notInList vs =>
    have hmem : (vs.all fun v => r.extract key ≠ v) = decide (r.extract key ∉ vs) := by
      rw [Bool.eq_iff_iff]
      simp only [ne_eq, decide_not, List.all_eq_true, Bool.not_eq_eq_eq_not, Bool.not_true,
        decide_eq_false_iff_not]
      exact ⟨fun h hin => h _ hin rfl, fun h v hv heq => h (heq ▸ hv)⟩
    rw [conditionFor, holds_sbAnd]
    simp only [List.all_cons, List.all_nil, Bool.and_true, holds_sbAnd, List.all_map,
      Function.comp_def, SqlCond.holds, CompareOp.holds, hmem, Filter.predicate, Filter.index,
      Operand.value, Resource.labelsLike]
  case between low high =>
    rw [conditionFor, holds_sbAnd]
    simp [SqlCond.holds, Operand.value, Filter.predicate, Filter.index, Resource.labelsLike,
      Bool.and_comm]
  all_goals
    rw [conditionFor, holds_sbAnd]
    simp [SqlCond.holds, CompareOp.holds, Operand.value, Filter.predicate, Filter.index,
      Resource.labelsLike]

theorem holds_conditionFor_inNothing (db : Engine) (r : Resource) (key : Text) :
    (conditionFor key (.inList [])).holds db r =
      r.labelsLike db (keyIndexFilter key) := by
  rw [conditionFor, holds_sbAnd]
  simp [holds_sbOr, SqlCond.holds, Operand.value, Resource.labelsLike]

/-- Wherever the predicate is true, the index filters are true exactly if the label is there or is
not asked for. `IN` with an empty list is left with the index filter on the key, which must be
false. -/
def IndexAgrees (db : Engine) (r : Resource) (key : Text) (f : Filter) : Prop :=
  if f = .inList [] then r.labelsLike db (keyIndexFilter key) = false
  else f.predicate db r key → (f.index db r key = (!f.requiresLabel || r.has key))

theorem exact_iff_indexAgrees (db : Engine) (r : Resource) (key : Text) (f : Filter) :
    Exact db r key f ↔ IndexAgrees db r key f := by
  unfold Exact IndexAgrees Filter.means
  split_ifs with hf
  · subst hf
    rw [holds_conditionFor_inNothing]
    simp [Filter.predicate]
  · rw [holds_conditionFor db r key hf]
    cases f.predicate db r key <;> simp

/-! ## The index filters on ordinary keys and values -/

/-- A key that is written as it is and has no `%` and no character of the JSON syntax. A `_` in it
is neither at an end nor next to another one. -/
structure OrdinaryKey (db : Engine) (key : Text) : Prop where
  unescaped : Unescaped db.json key
  noPercent : '%' ∉ key
  noSyntax : ∀ c ∈ key, isStructural c = false
  lone : ('_' :: key ++ ['_']).IsChain fun a b => a ≠ '_' ∨ b ≠ '_'

/-- A value that is written as it is and has no `%`. A `_` in it is not at the end, nor before
another one, a comma or a closing brace. -/
structure OrdinaryValue (db : Engine) (v : Text) : Prop where
  unescaped : Unescaped db.json v
  noPercent : '%' ∉ v
  inner : (v ++ ['_']).IsChain fun a b => a ≠ '_' ∨ b ∉ ['_', ',', '}']

/-- Some key of the resource, as it is written, ends with `key`, and its value starts with `v`;
a `_` stands for any character. -/
def Resource.HasNeighbour (r : Resource) (db : Engine) (key v : Text) : Prop :=
  ∃ e ∈ r.labels, (∃ k, Fits key k ∧ k <:+ escapeText db.json e.1) ∧
    ∃ w, Fits v w ∧ w <+: escapeText db.json e.2

/-- The key occurs in the column; a `_` stands for any character. -/
def Resource.Mentions (r : Resource) (db : Engine) (key : Text) : Prop :=
  ∃ k, Fits key k ∧ k <:+: r.labelsText db

section Fitting

variable {db : Engine} {key v : Text} {r : Resource}

/-- What a key matches has no two characters of the syntax next to each other either. -/
theorem OrdinaryKey.lone_of_fits (hk : OrdinaryKey db key) {isSyntax : Char → Bool}
    (hnone : ∀ c ∈ key, isSyntax c = false) {k : Text} (h : Fits key k) : Lone isSyntax k := by
  have hplain : ∀ c ∈ '_' :: key ++ ['_'], c ≠ '_' → isSyntax c = false := by
    intro c hc hne
    have hc : c ∈ key := by simpa [hne] using hc
    exact hnone c hc
  have hends : Fits ('_' :: key ++ ['_']) ('"' :: k ++ ['"']) :=
    (Fits.append (.cons (.inl rfl) .nil) h).append (.cons (.inl rfl) .nil)
  refine hends.isChain hk.lone fun a ha b hb hab a' b' haa hbb => ?_
  rcases hab with hne | hne
  · exact .inl ((haa.resolve_left hne) ▸ hplain a ha hne)
  · exact .inr ((hbb.resolve_left hne) ▸ hplain b hb hne)

/-- What a value matches has no quote where a value could end. -/
theorem OrdinaryValue.unclosed_of_fits (hv : OrdinaryValue db v) {w : Text} (h : Fits v w) :
    Unclosed w := by
  have hquote : ∀ c ∈ v ++ ['_'], c ≠ '_' → c ≠ '"' := by
    rintro c hc hne rfl
    have hc : '"' ∈ v := by simpa using hc
    exact hv.unescaped.noQuote hc
  have hends : Fits (v ++ ['_']) (w ++ ['"']) := h.append (.cons (.inl rfl) .nil)
  refine hends.isChain hv.inner fun a ha b hb hab a' b' haa hbb => ?_
  rcases hab with hne | hnot
  · exact .inl ((haa.resolve_left hne) ▸ hquote a ha hne)
  · right
    have hne : b ≠ '_' := fun h => hnot (by simp [h])
    obtain rfl := hbb.resolve_left hne
    simpa [hne, hquote b hb hne] using hnot

theorem keyIndex_iff_mentions (hk : OrdinaryKey db key) :
    r.labelsLike db (keyIndexFilter key) ↔ r.Mentions db key := by
  rw [Resource.labelsLike, keyIndexFilter, like_around_iff hk.unescaped.noBackslash]
  simp only [matchItems_map_itemOf_iff hk.noPercent, Resource.Mentions]

theorem equalIndex_iff_neighbour (hk : OrdinaryKey db key) (hv : OrdinaryValue db v)
    (r : Resource) : r.labelsLike db (equalIndexFilter key v) ↔ r.HasNeighbour db key v := by
  have hback : '\\' ∉ key ++ ['"', ':', '"'] ++ v := by
    simp [hk.unescaped.noBackslash, hv.unescaped.noBackslash]
  have hpercent : '%' ∉ key ++ ['"', ':', '"'] ++ v := by simp [hk.noPercent, hv.noPercent]
  have hpattern : equalIndexFilter key v = '%' :: (key ++ ['"', ':', '"'] ++ v) ++ ['%'] := by
    simp [equalIndexFilter]
  rw [Resource.labelsLike, hpattern, like_around_iff hback]
  simp only [matchItems_map_itemOf_iff hpercent, fits_append_iff]
  constructor
  · rintro ⟨_, ⟨_, w, rfl, ⟨k, sep, rfl, hkey, hsep⟩, hvalue⟩, hin⟩
    rw [fits_iff_eq (by decide)] at hsep
    subst hsep
    have hin : (k ++ '"' :: ':' :: '"' :: w) <:+: objectText db.json r.labels := by
      simpa [Resource.labelsText] using hin
    obtain ⟨e, he, hsuffix, hprefix⟩ := (keyValue_infix_iff (hk.lone_of_fits hk.noSyntax hkey)
      (hv.unclosed_of_fits hvalue)).1 hin
    exact ⟨e, he, ⟨k, hkey, hsuffix⟩, w, hvalue, hprefix⟩
  · rintro ⟨e, he, ⟨k, hkey, hsuffix⟩, w, hvalue, hprefix⟩
    have hin := (keyValue_infix_iff (t := db.json) (hk.lone_of_fits hk.noSyntax hkey)
      (hv.unclosed_of_fits hvalue)).2 ⟨e, he, hsuffix, hprefix⟩
    refine ⟨_, ⟨_, w, rfl, ⟨k, ['"', ':', '"'], rfl, hkey, .refl _⟩, hvalue⟩, ?_⟩
    simpa [Resource.labelsText] using hin

/-- The key occurs in the text if some written key ends with it. -/
theorem keyIndex_of_neighbour (hk : OrdinaryKey db key) (h : r.HasNeighbour db key v) :
    r.labelsLike db (keyIndexFilter key) := by
  obtain ⟨e, he, ⟨k, hkey, ⟨x, hx⟩⟩, -⟩ := h
  refine (keyIndex_iff_mentions hk).2 ⟨k, hkey, List.IsInfix.trans ?_ (entryText_within he)⟩
  rw [entryText, ← hx]
  exact ⟨'"' :: x, '"' :: ':' :: '"' :: (escapeText db.json e.2 ++ ['"']), by simp⟩

/-- It occurs in a key or in a value, as these are written. -/
theorem mentions_iff (hk : OrdinaryKey db key) (hbrace : '}' ∉ key) :
    r.Mentions db key ↔ ∃ e ∈ r.labels, ∃ k, Fits key k ∧
      (k <:+: escapeText db.json e.1 ∨ k <:+: escapeText db.json e.2) := by
  have hnone : ∀ c ∈ key, isSyntax c = false := by
    intro c hc
    obtain ⟨-, hquote, hcolon, hcomma, hopen⟩ := isStructural_false (hk.noSyntax c hc)
    have hclose : c ≠ '}' := fun h => hbrace (h ▸ hc)
    simp [isSyntax, hquote, hcolon, hcomma, hopen, hclose]
  constructor
  · rintro ⟨k, hkey, hin⟩
    obtain ⟨e, he, hin⟩ := (lone_infix_iff (hk.lone_of_fits hnone hkey)).1 hin
    exact ⟨e, he, k, hkey, hin⟩
  · rintro ⟨e, he, k, hkey, hin⟩
    exact ⟨k, hkey, (lone_infix_iff (hk.lone_of_fits hnone hkey)).2 ⟨e, he, hin⟩⟩

/-- Without `_` there is only the key itself. -/
theorem mentions_iff_of_plain (hkey : '_' ∉ key) :
    r.Mentions db key ↔ key <:+: r.labelsText db := by
  simp only [Resource.Mentions, fits_iff_eq hkey, exists_eq_left]

theorem hasNeighbour_iff_of_plain (hkey : '_' ∉ key) (hvalue : '_' ∉ v)
    (hv : Unescaped db.json v) :
    r.HasNeighbour db key v ↔ ∃ e ∈ r.labels, key <:+ escapeText db.json e.1 ∧ v <+: e.2 := by
  simp only [Resource.HasNeighbour, fits_iff_eq hkey, fits_iff_eq hvalue, exists_eq_left,
    prefix_escapeText_iff hv]

end Fitting

variable {r : Resource}

theorem Resource.mem_of_has {key : Text} (h : r.has key) :
    (key, r.extract key) ∈ r.labels := by
  obtain ⟨v, hv⟩ := Option.isSome_iff_exists.1 h
  rw [Resource.extract, hv, Option.getD_some]
  obtain ⟨l₁, l₂, heq, -⟩ := List.lookup_eq_some_iff.1 hv
  rw [heq]
  simp

theorem Resource.extract_of_not_has {key : Text} (h : ¬r.has key) :
    r.extract key = [] := by
  rw [Resource.has, Bool.not_eq_true, Option.isSome_eq_false_iff, Option.isNone_iff_eq_none] at h
  rw [Resource.extract, h, Option.getD_none]

/-- A label that is there is its own neighbour. -/
theorem Resource.neighbour_of_has {db : Engine} {key : Text} (hk : OrdinaryKey db key)
    (h : r.has key) {v : Text} (hv : v <+: escapeText db.json (r.extract key)) :
    r.HasNeighbour db key v :=
  ⟨_, Resource.mem_of_has h, ⟨key, .refl key, by rw [hk.unescaped.escapeText]⟩, v, .refl v, hv⟩

/-! ## Exactness for ordinary keys and values -/

section Ordinary

variable {db : Engine} {key : Text} {v : Text}

theorem index_equal_iff (hk : OrdinaryKey db key) (hv : OrdinaryValue db v) (r : Resource) :
   (Filter.equal v).index db r key ↔ r.HasNeighbour db key v := by
  rw [Filter.index, Bool.and_eq_true, equalIndex_iff_neighbour hk hv]
  exact and_iff_right_of_imp (keyIndex_of_neighbour hk)

variable {vs : List Text}

theorem index_inList_iff (hk : OrdinaryKey db key) (hvs : ∀ v ∈ vs, OrdinaryValue db v)
    (r : Resource) :
    (Filter.inList vs).index db r key ↔ ∃ v ∈ vs, r.HasNeighbour db key v := by
  rw [Filter.index, Bool.and_eq_true, List.any_eq_true]
  constructor
  · rintro ⟨-, v, hv, hlike⟩
    exact ⟨v, hv, (equalIndex_iff_neighbour hk (hvs v hv) r).1 hlike⟩
  · rintro ⟨v, hv, hnear⟩
    exact ⟨keyIndex_of_neighbour hk hnear, v, hv,
      (equalIndex_iff_neighbour hk (hvs v hv) r).2 hnear⟩

variable {r : Resource}

theorem Resource.HasNeighbour.nil (h : r.HasNeighbour db key v) :
    r.HasNeighbour db key [] := by
  obtain ⟨e, he, hsuffix, -⟩ := h
  exact ⟨e, he, hsuffix, [], .refl [], List.nil_prefix⟩

/-- `=` is exact unless the value is empty, the label is missing and another key ends with it. -/
theorem equal_exact_iff (hk : OrdinaryKey db key) (hv : OrdinaryValue db v) (r : Resource) :
    Exact db r key (.equal v) ↔ v ≠ [] ∨ r.has key ∨ ¬r.HasNeighbour db key [] := by
  have hagree : Exact db r key (.equal v) ↔
      (r.extract key = v → (Filter.equal v).index db r key = r.has key) := by
    rw [exact_iff_indexAgrees, IndexAgrees, if_neg nofun]
    simp [Filter.predicate, Filter.requiresLabel]
  rw [hagree]
  by_cases hhas : r.has key
  · refine iff_of_true (fun heq => ?_) (Or.inr (Or.inl hhas))
    rw [hhas, index_equal_iff hk hv]
    exact Resource.neighbour_of_has hk hhas (by rw [heq, hv.unescaped.escapeText])
  · have hfalse : r.has key = false := by simpa using hhas
    rw [Resource.extract_of_not_has hhas, hfalse]
    by_cases hempty : v = []
    · subst hempty
      simp [← index_equal_iff hk hv]
    · exact iff_of_true (fun heq => absurd heq.symm hempty) (Or.inl hempty)

/-- `!=` is exact unless another key that ends with the key has a value that starts with `v`, or
the key itself has such a value other than `v`. -/
theorem notEqual_exact_iff (hk : OrdinaryKey db key) (hv : OrdinaryValue db v) (r : Resource) :
    Exact db r key (.notEqual v) ↔ r.extract key = v ∨ ¬r.HasNeighbour db key v := by
  rw [exact_iff_indexAgrees, IndexAgrees, if_neg nofun]
  simp only [Filter.predicate, Filter.requiresLabel, Filter.index, ne_eq, decide_not,
    Bool.not_eq_eq_eq_not, Bool.not_true, decide_eq_false_iff_not, Bool.not_false, Bool.true_or,
    ← equalIndex_iff_neighbour hk hv, Bool.not_eq_true]
  exact imp_iff_or_not.trans (by rw [not_not, or_comm])

/-- `IN` is exact, unless the list is empty and the key occurs in the labels, or the empty text is
in the list, the label is missing and another key ends with it. -/
theorem inList_exact_iff (hk : OrdinaryKey db key) (hvs : ∀ v ∈ vs, OrdinaryValue db v)
    (r : Resource) :
    Exact db r key (.inList vs) ↔
      if vs = [] then ¬r.Mentions db key
      else [] ∉ vs ∨ r.has key ∨ ¬r.HasNeighbour db key [] := by
  rw [exact_iff_indexAgrees, IndexAgrees]
  by_cases hempty : vs = []
  · subst hempty
    rw [if_pos rfl, if_pos rfl, ← keyIndex_iff_mentions hk, Bool.not_eq_true]
  · rw [if_neg (by simpa using hempty), if_neg hempty]
    have hagree : ((Filter.inList vs).predicate db r key = true →
        (Filter.inList vs).index db r key = (!(Filter.inList vs).requiresLabel || r.has key)) ↔
        (r.extract key ∈ vs → (Filter.inList vs).index db r key = r.has key) := by
      simp [Filter.predicate, Filter.requiresLabel]
    rw [hagree]
    by_cases hhas : r.has key
    · refine iff_of_true (fun hmem => ?_) (Or.inr (Or.inl hhas))
      rw [hhas, index_inList_iff hk hvs]
      refine ⟨_, hmem, Resource.neighbour_of_has hk hhas ?_⟩
      rw [(hvs _ hmem).unescaped.escapeText]
    · have hfalse : r.has key = false := by simpa using hhas
      rw [Resource.extract_of_not_has hhas, hfalse]
      by_cases hmem : [] ∈ vs
      · have hindex : (Filter.inList vs).index db r key ↔ r.HasNeighbour db key [] := by
          rw [index_inList_iff hk hvs]
          exact ⟨fun ⟨_, _, h⟩ => h.nil, fun h => ⟨[], hmem, h⟩⟩
        simp [hmem, ← hindex]
      · exact iff_of_true (fun h => absurd h hmem) (Or.inl hmem)

/-- `NOT IN` is exact unless, for a value outside the list, some key ends with the key and its
value starts with a value of the list. -/
theorem notInList_exact_iff (hk : OrdinaryKey db key) (hvs : ∀ v ∈ vs, OrdinaryValue db v)
    (r : Resource) :
    Exact db r key (.notInList vs) ↔
      r.extract key ∈ vs ∨ ∀ v ∈ vs, ¬r.HasNeighbour db key v := by
  have hindex : (Filter.notInList vs).index db r key ↔ ∀ v ∈ vs, ¬r.HasNeighbour db key v := by
    rw [Filter.index, List.all_eq_true]
    refine forall₂_congr fun v hv => ?_
    rw [Bool.not_eq_true', ← Bool.not_eq_true, equalIndex_iff_neighbour hk (hvs v hv)]
  rw [exact_iff_indexAgrees, IndexAgrees, if_neg nofun, ← hindex]
  simp only [Filter.predicate, Filter.requiresLabel, decide_eq_true_eq, Bool.not_false,
    Bool.true_or]
  exact imp_iff_not_or.trans (by rw [not_not])

/-- `EXISTS` is exact. -/
theorem isPresent_exact (hk : OrdinaryKey db key) (r : Resource) : Exact db r key .isPresent := by
  rw [exact_iff_indexAgrees, IndexAgrees, if_neg nofun]
  intro hhas
  have hhas' : r.has key := hhas
  have hindex : (Filter.isPresent).index db r key :=
    keyIndex_of_neighbour hk (Resource.neighbour_of_has hk hhas' List.nil_prefix)
  rw [hindex]
  simp [Filter.requiresLabel, hhas']

/-- `NOT EXISTS` and `NOT CONTAINS` have no index filter. -/
theorem isAbsent_exact (db : Engine) (r : Resource) (key : Text) : Exact db r key .isAbsent := by
  rw [exact_iff_indexAgrees, IndexAgrees, if_neg nofun]
  exact fun _ => rfl

theorem notContains_exact (db : Engine) (r : Resource) (key v : Text) :
    Exact db r key (.notContains v) := by
  rw [exact_iff_indexAgrees, IndexAgrees, if_neg nofun]
  exact fun _ => rfl

/-! ## `CONTAINS` -/

/-- Folding the case makes no backslash. -/
theorem backslash_notMem_lower {w : Text} (hw : '\\' ∉ w) : '\\' ∉ w.map db.lower := by
  intro hmem
  obtain ⟨c, hc, heq⟩ := List.mem_map.1 hmem
  exact hw (db.lower_backslash c heq ▸ hc)

/-- `ILIKE` with the index filter of `CONTAINS`. -/
theorem iLike_containsIndexFilter (hk : OrdinaryKey db key) (hv : '\\' ∉ v) (text : Text) :
    db.iLike text (containsIndexFilter key v) ↔ ∃ s,
      matchItems ((key.map db.lower ++ '%' :: v.map db.lower).map itemOf) s ∧
        s <:+: text.map db.lower := by
  have hpattern : (containsIndexFilter key v).map db.lower =
      '%' :: (key.map db.lower ++ '%' :: v.map db.lower) ++ ['%'] := by
    simp [containsIndexFilter, db.lower_percent]
  have hback : '\\' ∉ key.map db.lower ++ '%' :: v.map db.lower := by
    simp only [List.mem_append, List.mem_cons, not_or]
    exact ⟨backslash_notMem_lower hk.unescaped.noBackslash, by decide, backslash_notMem_lower hv⟩
  rw [Engine.iLike, hpattern, like_around_iff hback]

/-- `ILIKE` with `%v%`. -/
theorem iLike_around (hv : '\\' ∉ v) (text : Text) :
    db.iLike text (around v) ↔
      ∃ s, matchItems ((v.map db.lower).map itemOf) s ∧ s <:+: text.map db.lower := by
  have hpattern : (around v).map db.lower = '%' :: v.map db.lower ++ ['%'] := by
    simp [around, db.lower_percent]
  rw [Engine.iLike, hpattern, like_around_iff (backslash_notMem_lower hv)]

/-- A value that matches `%v%` makes the column match `%key%v%`, if the value is written as it
is. -/
theorem containsIndex_of_match (hk : OrdinaryKey db key) (hv : '\\' ∉ v) (hhas : r.has key)
    (hstored : Unescaped db.json (r.extract key)) (hmatch : db.iLike (r.extract key) (around v)) :
    db.iLike (r.labelsText db) (containsIndexFilter key v) := by
  -- the part of the value that `v` matches
  obtain ⟨b, hb, a, y, hvalue⟩ := (iLike_around hv _).1 hmatch
  obtain ⟨x, z, htext⟩ := entryText_within (t := db.json) (Resource.mem_of_has hhas)
  have hbetween : matchItems ((key.map db.lower ++ '%' :: v.map db.lower).map itemOf)
      (key.map db.lower ++ (['"', ':', '"'].map db.lower ++ a ++ b)) := by
    rw [List.map_append]
    refine matchItems_append.2 ⟨_, _, rfl, matchItems_map_itemOf _, ?_⟩
    exact matchItems_many.2 ⟨_, _, rfl, hb⟩
  refine (iLike_containsIndexFilter hk hv _).2
    ⟨_, hbetween, (x ++ ['"']).map db.lower, y ++ ('"' :: z).map db.lower, ?_⟩
  rw [Resource.labelsText, ← htext, entryText, hk.unescaped.escapeText, hstored.escapeText]
  simp [← hvalue]

/-- Folding the case of a pattern and of what it matches. -/
theorem matchItems_of_fits_lower {k : Text} (h : Fits key k)
    (hunderscore : '_' ∈ key → db.lower '_' = '_') :
    matchItems ((key.map db.lower).map itemOf) (k.map db.lower) := by
  induction h with
  | nil => rfl
  | @cons c d _ _ hcd _ ih =>
    have ih := ih fun hmem => hunderscore (List.mem_cons_of_mem c hmem)
    rcases hcd with rfl | rfl
    · rw [List.map_cons, List.map_cons, List.map_cons, hunderscore List.mem_cons_self]
      exact ih
    · exact matchItems_itemOf_cons _ ih

/-- Where `%v%` matches the empty text, the column matches `%key%v%` if the key occurs in it. -/
theorem containsIndex_of_mentions (hk : OrdinaryKey db key) (hv : '\\' ∉ v)
    (hunderscore : '_' ∈ key → db.lower '_' = '_') (hempty : db.iLike [] (around v))
    (h : r.Mentions db key) : db.iLike (r.labelsText db) (containsIndexFilter key v) := by
  obtain ⟨s, hs, hnil⟩ := (iLike_around hv _).1 hempty
  obtain rfl : s = [] := List.infix_nil.1 hnil
  obtain ⟨k, hkey, x, y, htext⟩ := h
  refine (iLike_containsIndexFilter hk hv _).2 ⟨k.map db.lower, ?_, ?_⟩
  · rw [List.map_append]
    refine matchItems_append.2 ⟨_, [], (List.append_nil _).symm,
      matchItems_of_fits_lower hkey hunderscore, ?_⟩
    exact matchItems_many.2 ⟨[], [], rfl, hs⟩
  · rw [← htext, List.map_append, List.map_append]
    exact ⟨_, _, rfl⟩

/-- `CONTAINS` is exact unless the label is missing, `%v%` matches the empty text and the key
occurs in the column. -/
theorem contains_exact_iff (hk : OrdinaryKey db key) (hv : '\\' ∉ v)
    (hstored : Unescaped db.json (r.extract key)) (hunderscore : '_' ∈ key → db.lower '_' = '_') :
    Exact db r key (.contains v) ↔
      r.has key ∨ db.iLike [] (around v) = false ∨ ¬r.Mentions db key := by
  have hagree : Exact db r key (.contains v) ↔
      (db.iLike (r.extract key) (around v) → (Filter.contains v).index db r key = r.has key) := by
    rw [exact_iff_indexAgrees, IndexAgrees, if_neg nofun]
    simp [Filter.predicate, Filter.requiresLabel]
  rw [hagree]
  by_cases hhas : r.has key
  · refine iff_of_true (fun hmatch => ?_) (Or.inl hhas)
    have hkey : r.labelsLike db (keyIndexFilter key) :=
      keyIndex_of_neighbour hk (Resource.neighbour_of_has hk hhas List.nil_prefix)
    rw [hhas, Filter.index, hkey, containsIndex_of_match hk hv hhas hstored hmatch]
    rfl
  · have hfalse : r.has key = false := by simpa using hhas
    rw [Resource.extract_of_not_has hhas, hfalse]
    cases hempty : db.iLike [] (around v) with
    | false => simp
    | true =>
      have hindex : (Filter.contains v).index db r key ↔ r.Mentions db key := by
        rw [Filter.index, Bool.and_eq_true, keyIndex_iff_mentions hk]
        exact and_iff_left_of_imp (containsIndex_of_mentions hk hv hunderscore hempty)
      simp [← hindex]

end Ordinary

/-- Exactly when the conditions of a key are exact: in general through the index filters, and for
ordinary keys and values in terms of the labels. `HasNeighbour` and `Mentions` are read off the
labels, with any character for a `_`. -/
theorem conditionFor_exact_iff (db : Engine) (r : Resource) (key : Text) :
    (∀ f, Exact db r key f ↔ IndexAgrees db r key f) ∧
    Exact db r key .isAbsent ∧ (∀ v, Exact db r key (.notContains v)) ∧
    (OrdinaryKey db key →
      Exact db r key .isPresent ∧
      (∀ v, OrdinaryValue db v →
        (Exact db r key (.equal v) ↔ v ≠ [] ∨ r.has key ∨ ¬r.HasNeighbour db key []) ∧
        (Exact db r key (.notEqual v) ↔ r.extract key = v ∨ ¬r.HasNeighbour db key v)) ∧
      (∀ vs : List Text, (∀ v ∈ vs, OrdinaryValue db v) →
        (Exact db r key (.inList vs) ↔
          if vs = [] then ¬r.Mentions db key
          else [] ∉ vs ∨ r.has key ∨ ¬r.HasNeighbour db key []) ∧
        (Exact db r key (.notInList vs) ↔
          r.extract key ∈ vs ∨ ∀ v ∈ vs, ¬r.HasNeighbour db key v)) ∧
      (∀ v, '\\' ∉ v → Unescaped db.json (r.extract key) → ('_' ∈ key → db.lower '_' = '_') →
        (Exact db r key (.contains v) ↔
          r.has key ∨ db.iLike [] (around v) = false ∨ ¬r.Mentions db key)) ∧
      ('}' ∉ key → (r.Mentions db key ↔ ∃ e ∈ r.labels, ∃ k, Fits key k ∧
        (k <:+: escapeText db.json e.1 ∨ k <:+: escapeText db.json e.2))) ∧
      ('_' ∉ key → (r.Mentions db key ↔ key <:+: r.labelsText db) ∧
        ∀ v, '_' ∉ v → Unescaped db.json v → (r.HasNeighbour db key v ↔
          ∃ e ∈ r.labels, key <:+ escapeText db.json e.1 ∧ v <+: e.2))) :=
  ⟨exact_iff_indexAgrees db r key, isAbsent_exact db r key, notContains_exact db r key, fun hk =>
    ⟨isPresent_exact hk r, fun _ hv => ⟨equal_exact_iff hk hv r, notEqual_exact_iff hk hv r⟩,
      fun _ hvs => ⟨inList_exact_iff hk hvs r, notInList_exact_iff hk hvs r⟩,
      fun _ hv hstored hunderscore => contains_exact_iff hk hv hstored hunderscore,
      mentions_iff hk, fun hkey =>
        ⟨mentions_iff_of_plain hkey, fun _ => hasNeighbour_iff_of_plain hkey⟩⟩⟩

/-! ## A value with a common prefix -/

/-- The usual way to write JSON strings. -/
def jsonEscape (c : Char) : List Char :=
  if c = '"' then ['\\', '"']
  else if c = '\\' then ['\\', '\\']
  else if c.toNat < 32 then
    ['\\', 'u', '0', '0', Nat.digitChar (c.toNat / 16), Nat.digitChar (c.toNat % 16)]
  else [c]

theorem digitChar_ne_quote : ∀ n < 16, Nat.digitChar n ≠ '"' := by decide

/-- A database that writes JSON in the usual way and folds the case of ASCII letters. -/
def asciiEngine : Engine where
  json :=
    { escape := jsonEscape
      self_or_backslash := by
        intro c
        unfold jsonEscape
        split_ifs with hquote hback hcontrol
        · exact Or.inr ⟨'"', [], rfl, by simp⟩
        · exact Or.inr ⟨'\\', [], rfl, by simp⟩
        · refine Or.inr ⟨'u', _, rfl, ?_⟩
          have h₁ := digitChar_ne_quote (c.toNat / 16) (by omega)
          have h₂ := digitChar_ne_quote (c.toNat % 16) (by omega)
          simp [Ne.symm h₁, Ne.symm h₂]
        · exact Or.inl rfl
      quote_escaped := by decide
      backslash_escaped := by decide }
  lower := Char.toLower
  regexMatch _ _ := false
  lower_percent := by decide
  lower_backslash := by
    intro c hc
    unfold Char.toLower at hc
    split at hc
    · rename_i hupper
      have hval : c.val + 32 = 92 := congrArg Char.val hc
      obtain ⟨hlow, hhigh⟩ := hupper
      have hlow' : (65 : UInt32) ≤ c.val := hlow
      have hhigh' : c.val ≤ (90 : UInt32) := hhigh
      exfalso
      have hnat := congrArg UInt32.toNat hval
      rw [UInt32.le_iff_toNat_le] at hlow' hhigh'
      rw [UInt32.toNat_add] at hnat
      simp at hnat hlow' hhigh'
      omega
    · exact hc

/-- A resource whose service name starts with the name of another service. -/
def redisCluster : Resource := ⟨[("service".toList, "redis-2".toList)], by simp⟩

/-- `service != redis` leaves out the service `redis-2`. -/
theorem notEqual_drops_longer_value :
    ¬Exact asciiEngine redisCluster "service".toList (.notEqual "redis".toList) := by
  unfold Exact
  decide +kernel

/-- A key and a value with a `_`, beside another label. -/
def redisPod : Resource :=
  ⟨[("app".toList, "web".toList), ("pod_name".toList, "redis_2".toList)], by decide +kernel⟩

/-- `pod_name = redis_2` finds it. -/
theorem equal_finds_value :
    Exact asciiEngine redisPod "pod_name".toList (.equal "redis_2".toList) := by
  have hk : OrdinaryKey asciiEngine "pod_name".toList :=
    ⟨by decide +kernel, by decide +kernel, by decide +kernel, by decide +kernel⟩
  have hv : OrdinaryValue asciiEngine "redis_2".toList :=
    ⟨by decide +kernel, by decide +kernel, by decide +kernel⟩
  have hordinary := (conditionFor_exact_iff asciiEngine redisPod "pod_name".toList).2.2.2 hk
  exact ((hordinary.2.1 _ hv).1).2 (Or.inl (by decide +kernel))

end Signoz.ResourceFilter
