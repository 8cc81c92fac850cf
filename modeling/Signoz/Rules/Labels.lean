import Mathlib.Data.List.Sort
import Mathlib.Data.String.Basic

/-!
# Label sets

`labels.go` of `ruletypes`: a label set is a list of name and value pairs sorted by name, built by a
`Builder` that sets and deletes labels over a base. A set is identified by the hash of its names and
values.
-/

namespace Signoz.Rules

/-- `MetricNameLabel`. -/
def metricNameLabel : String := "__name__"

/-- `TemporalityLabel`. -/
def temporalityLabel : String := "__temporality__"

/-- `AlertNameLabel`. -/
def alertNameLabel : String := "alertname"

/-- `NoDataLabel`. -/
def noDataLabel : String := "nodata"

/-- `AlertRuleIDLabel`. -/
def alertRuleIDLabel : String := "ruleId"

/-- `RuleSourceLabel`. -/
def ruleSourceLabel : String := "ruleSource"

/-- `LabelThresholdName`. -/
def labelThresholdName : String := "threshold.name"

/-- `LabelSeverityName`. -/
def labelSeverityName : String := "severity"

/-- `LabelLastSeen`. -/
def labelLastSeen : String := "lastSeen"

/-- `LabelRuleID`. -/
def labelRuleID : String := "ruleId"

/-- `Label`. -/
structure Label where
  name : String
  value : String

/-- `Labels`. -/
abbrev Labels := List Label

/-- What `Hash` feeds to the hash function: every name and every value. Each of them is closed by
the byte `0xff`, which no text contains, so they are kept apart. -/
def Labels.parts (ls : Labels) : List String := ls.flatMap fun l => [l.name, l.value]

/-- `Hash`, for the 64-bit hash `sum64`. -/
def Labels.hash (sum64 : List String → Nat) (ls : Labels) : Nat := sum64 ls.parts

/-- The entry of a name in `Map`. -/
def Labels.find (ls : Labels) (name : String) : Option String :=
  (ls.reverse.find? fun l => l.name = name).map Label.value

/-- `Builder`. -/
structure Builder where
  base : Labels
  del : List String
  add : Labels

/-- `NewBuilder`. -/
def newBuilder (base : Labels) : Builder := ⟨base, [], []⟩

/-- `Del` of one name. -/
def Builder.delete (b : Builder) (n : String) : Builder :=
  { b with add := b.add.filter fun a => a.name ≠ n, del := b.del ++ [n] }

/-- Give the label of a name a value, in its place or at the end. -/
def setLabel (n v : String) : Labels → Labels
  | [] => [⟨n, v⟩]
  | a :: rest => if a.name = n then ⟨n, v⟩ :: rest else a :: setLabel n v rest

/-- `Set`. -/
def Builder.set (b : Builder) (n v : String) : Builder := { b with add := setLabel n v b.add }

/-- `sort.Sort` on label sets, whose names differ. -/
def sortLabels (ls : Labels) : Labels := ls.insertionSort fun a b => a.name ≤ b.name

/-- `Builder.Labels`. -/
def Builder.labels (b : Builder) : Labels :=
  if b.del = [] ∧ b.add = [] then b.base
  else
    sortLabels
      ((b.base.filter fun l => l.name ∉ b.del ∧ l.name ∉ b.add.map Label.name) ++ b.add)

/-! ## Reading labels -/

section Find

variable {ls ls' : Labels} {n m v w : String}

@[simp] theorem find_nil (n : String) : Labels.find [] n = none := rfl

theorem find_append (ls ls' : Labels) (n : String) :
    Labels.find (ls ++ ls') n = (Labels.find ls' n).or (Labels.find ls n) := by
  rw [Labels.find, List.reverse_append, List.find?_append, Option.map_or]
  rfl

theorem find_singleton (a : Label) (n : String) :
    Labels.find [a] n = if a.name = n then some a.value else none := by
  by_cases h : a.name = n
  · simp only [Labels.find, List.reverse_singleton, List.find?_cons, h, decide_true,
      Option.map_some, if_true]
  · simp only [Labels.find, List.reverse_singleton, List.find?_cons, h, decide_false,
      List.find?_nil, Option.map_none, if_false]

theorem find_cons (a : Label) (ls : Labels) (n : String) :
    Labels.find (a :: ls) n =
      (Labels.find ls n).or (if a.name = n then some a.value else none) := by
  rw [← List.singleton_append, find_append, find_singleton]

theorem find_eq_none_iff : Labels.find ls n = none ↔ n ∉ ls.map Label.name := by
  induction ls with
  | nil => simp
  | cons a rest ih =>
    rw [find_cons, Option.or_eq_none_iff, ih, List.map_cons, List.mem_cons, not_or]
    by_cases h : a.name = n
    · simp [h]
    · simp [h, Ne.symm h]

/-- Where names differ, reading a name finds its label. -/
theorem find_eq_some_iff (h : (ls.map Label.name).Nodup) :
    Labels.find ls n = some v ↔ (⟨n, v⟩ : Label) ∈ ls := by
  induction ls with
  | nil => simp
  | cons a rest ih =>
    rw [List.map_cons, List.nodup_cons] at h
    rw [find_cons, List.mem_cons]
    by_cases hname : a.name = n
    · have hrest : Labels.find rest n = none := by
        rw [find_eq_none_iff, ← hname]
        exact h.1
      have hnot : (⟨n, v⟩ : Label) ∉ rest := by
        intro hmem
        exact find_eq_none_iff.1 hrest (List.mem_map_of_mem hmem)
      obtain ⟨name, value⟩ := a
      obtain rfl : name = n := hname
      simp only [hrest, Option.none_or, if_true, Option.some.injEq, hnot, or_false,
        Label.mk.injEq, true_and, eq_comm]
    · have hne : (⟨n, v⟩ : Label) ≠ a := by
        rintro rfl
        exact hname rfl
      rw [if_neg hname, Option.or_none, ih h.2]
      simp only [hne, false_or]

/-- The order of labels with different names does not count. -/
theorem find_perm (hperm : ls.Perm ls') (h : (ls.map Label.name).Nodup) (n : String) :
    Labels.find ls n = Labels.find ls' n := by
  have h' : (ls'.map Label.name).Nodup := (hperm.map Label.name).nodup_iff.1 h
  apply Option.ext
  intro v
  rw [find_eq_some_iff h, find_eq_some_iff h', hperm.mem_iff]

theorem perm_sortLabels (ls : Labels) : (sortLabels ls).Perm ls :=
  List.perm_insertionSort _ ls

theorem find_filter (p : String → Bool) (ls : Labels) (n : String) :
    Labels.find (ls.filter fun l => p l.name) n = if p n then Labels.find ls n else none := by
  induction ls with
  | nil => simp
  | cons a rest ih =>
    rw [List.filter_cons]
    by_cases hname : a.name = n
    · subst hname
      cases hp : p a.name with
      | true => simp only [if_true, find_cons, ih, hp]
      | false => simp only [Bool.false_eq_true, if_false, ih, hp]
    · cases hp : p a.name with
      | true => simp only [if_true, find_cons, ih, hname, if_false, Option.or_none]
      | false =>
        simp only [Bool.false_eq_true, if_false, ih, find_cons, hname, Option.or_none]

theorem map_name_setLabel (n v : String) (ls : Labels) :
    (setLabel n v ls).map Label.name =
      if n ∈ ls.map Label.name then ls.map Label.name else ls.map Label.name ++ [n] := by
  induction ls with
  | nil => rfl
  | cons a rest ih =>
    rw [setLabel]
    by_cases hname : a.name = n
    · simp [hname]
    · rw [if_neg hname, List.map_cons, ih]
      by_cases hmem : n ∈ rest.map Label.name
      · have hall : n ∈ (a :: rest).map Label.name := List.mem_cons_of_mem _ hmem
        rw [if_pos hmem, if_pos hall]
        rfl
      · have hnot : n ∉ (a :: rest).map Label.name := by
          rw [List.map_cons, List.mem_cons, not_or]
          exact ⟨Ne.symm hname, hmem⟩
        rw [if_neg hmem, if_neg hnot]
        rfl

theorem nodup_setLabel (n v : String) (h : (ls.map Label.name).Nodup) :
    ((setLabel n v ls).map Label.name).Nodup := by
  rw [map_name_setLabel]
  split
  · exact h
  · rename_i hnot
    rw [← List.concat_eq_append]
    exact h.concat hnot

theorem find_setLabel (h : (ls.map Label.name).Nodup) :
    Labels.find (setLabel m w ls) n = if n = m then some w else Labels.find ls n := by
  induction ls with
  | nil =>
    rw [setLabel, find_singleton]
    simp only [eq_comm, find_nil]
  | cons a rest ih =>
    rw [List.map_cons, List.nodup_cons] at h
    rw [setLabel]
    by_cases hname : a.name = m
    · subst hname
      rw [if_pos rfl, find_cons, find_cons]
      by_cases hn : n = a.name
      · have hrest : Labels.find rest n = none := by
          rw [find_eq_none_iff, hn]
          exact h.1
        simp only [hn, if_true, hn ▸ hrest, Option.none_or]
      · simp only [Ne.symm hn, hn, if_false]
    · rw [if_neg hname, find_cons, ih h.2, find_cons]
      by_cases hn : n = m
      · simp only [hn, if_true, Option.some_or]
      · simp only [hn, if_false]

end Find

/-! ## Reading what was built -/

namespace Builder

/-- The names of the base differ, and so do those of the labels that were set. -/
structure NamesDiffer (b : Builder) : Prop where
  base : (b.base.map Label.name).Nodup
  add : (b.add.map Label.name).Nodup

/-- The value of a name: the last one set, or else that of the base unless it was deleted. -/
def find (b : Builder) (n : String) : Option String :=
  (Labels.find b.add n).or (if n ∈ b.del then none else Labels.find b.base n)

variable {b : Builder} {n m v w : String}

theorem namesDiffer_newBuilder {base : Labels} (h : (base.map Label.name).Nodup) :
    (newBuilder base).NamesDiffer :=
  ⟨h, List.nodup_nil⟩

theorem NamesDiffer.set (h : b.NamesDiffer) (n v : String) : (b.set n v).NamesDiffer :=
  ⟨h.base, nodup_setLabel n v h.add⟩

theorem NamesDiffer.delete (h : b.NamesDiffer) (n : String) : (b.delete n).NamesDiffer :=
  ⟨h.base, h.add.sublist (List.filter_sublist.map Label.name)⟩

theorem find_newBuilder (base : Labels) (n : String) :
    (newBuilder base).find n = Labels.find base n := by
  simp [find, newBuilder]

theorem find_set (h : b.NamesDiffer) :
    (b.set m w).find n = if n = m then some w else b.find n := by
  rw [find, Builder.set, find_setLabel h.add]
  split
  · rfl
  · rfl

theorem find_delete (b : Builder) (m n : String) :
    (b.delete m).find n = if n = m then none else b.find n := by
  have hadd := find_filter (fun name => name ≠ m) b.add n
  simp only [ne_eq, decide_not] at hadd
  simp only [find, Builder.delete, ne_eq, decide_not, hadd, List.mem_append, List.mem_singleton]
  by_cases hn : n = m
  · simp [hn]
  · simp [hn]

/-- What is left of the base and what was set have no name in common. -/
theorem NamesDiffer.nodup_kept (h : b.NamesDiffer) :
    (((b.base.filter fun l => l.name ∉ b.del ∧ l.name ∉ b.add.map Label.name) ++ b.add).map
      Label.name).Nodup := by
  rw [List.map_append, List.nodup_append']
  refine ⟨h.base.sublist (List.filter_sublist.map Label.name), h.add, ?_⟩
  intro name hleft hright
  obtain ⟨l, hl, rfl⟩ := List.mem_map.1 hleft
  exact (of_decide_eq_true (List.mem_filter.1 hl).2).2 hright

theorem NamesDiffer.nodup_labels (h : b.NamesDiffer) : (b.labels.map Label.name).Nodup := by
  rw [Builder.labels]
  split
  · exact h.base
  · exact ((perm_sortLabels _).map Label.name).nodup_iff.2 h.nodup_kept

/-- The labels have the values that the builder was told. -/
theorem NamesDiffer.find_labels (h : b.NamesDiffer) (n : String) :
    Labels.find b.labels n = b.find n := by
  have hsorted := h.nodup_labels
  rw [Builder.labels] at hsorted ⊢
  split
  · rename_i hnone
    simp only [find, hnone.1, hnone.2, find_nil, Option.none_or, List.not_mem_nil, if_false]
  · rename_i hsome
    rw [if_neg hsome] at hsorted
    have hbase := find_filter (fun name => name ∉ b.del ∧ name ∉ b.add.map Label.name) b.base n
    rw [find_perm (perm_sortLabels _) hsorted, find_append, hbase, find]
    -- A name that was set is read from what was set, another one from the base.
    cases hadd : Labels.find b.add n with
    | some v => rfl
    | none =>
      have hnot := find_eq_none_iff.1 hadd
      by_cases hdel : n ∈ b.del
      · simp [hdel]
      · simp only [hdel, hnot, not_false_eq_true, and_self, decide_true, if_true, if_false]

end Builder

end Signoz.Rules
