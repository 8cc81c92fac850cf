import Mathlib.Data.List.Perm.Basic
import Signoz.Alertmanager.Dispatcher
import Signoz.Lib.NestedMap
import Signoz.Transition.MigrateCommon

/-!
# The environment of a policy expression

`convertLabelSetToEnv` of `rulebasednotification/provider.go` turns the labels of an alert into
nested maps, since an expression reads `a.b` as the entry `b` of the map `a`. A label set is a Go
map, which is iterated in any order; here it is a list, in the order of the iteration.
-/

namespace Signoz.Alertmanager

open Lib.NestedMap
open Signoz.Transition (trimSpace)

/-- `map[string]interface{}`, with texts as its leaves. -/
abbrev Env := String → Node String String

/-- `strings.TrimSpace`. -/
def trimmed (s : String) : String := String.ofList (trimSpace s.toList)

/-- `strings.Split` at the dots of a key, each part without space around it. -/
def dottedParts (key : String) : List String :=
  (key.toList.splitOn '.').map fun part => trimmed (String.ofList part)

/-- One label of `convertLabelSetToEnv`; `insertAt` is its loop over the parts. -/
def addLabel (env : Env) (label : String × String) : Env :=
  let key := trimmed label.1
  if key.toList.contains '.' then insertAt label.2 (dottedParts key) env
  else
    match env key with
    | .map _ => env
    | _ => Function.update env key (.leaf label.2)

/-- `convertLabelSetToEnv`. -/
def convertLabelSetToEnv (labelSet : LabelSet) : Env :=
  labelSet.foldl addLabel fun _ => .absent

/-- The path of a label. -/
def labelPath (name : String) : List String :=
  let key := trimmed name
  if key.toList.contains '.' then dottedParts key else [key]

/-- The label whose value a label leaves, and where. -/
def labelItem (label : String × String) : List String × String := (labelPath label.1, label.2)

/-- The environment is the same for every order of the labels. A label that is alone at its path,
with no path behind it, is found there, and where a path goes on there is a map. -/
structure WellDefinedEnv (labelSet : LabelSet) : Prop where
  order : ∀ labels : LabelSet, labels.Perm labelSet →
    convertLabelSetToEnv labels = convertLabelSetToEnv labelSet
  value : ∀ labels : LabelSet, labels.Perm labelSet → ∀ label ∈ labelSet,
    (∀ other ∈ labelSet, labelPath other.1 = labelPath label.1 → other = label) →
    (∀ other ∈ labelSet, ¬ OnTheWay (labelPath label.1) (labelPath other.1)) →
    (Node.map (convertLabelSetToEnv labels)).follow (labelPath label.1) = .leaf label.2
  nested : ∀ labels : LabelSet, labels.Perm labelSet → ∀ label ∈ labelSet, ∀ other ∈ labelSet,
    OnTheWay (labelPath label.1) (labelPath other.1) →
    ∃ entries, (Node.map (convertLabelSetToEnv labels)).follow (labelPath label.1) = .map entries

/-- Two labels with one path have one value, unless a path goes on behind theirs. -/
def LabelsAgree (labelSet : LabelSet) : Prop :=
  ∀ a ∈ labelSet, ∀ b ∈ labelSet, labelPath a.1 = labelPath b.1 →
    (∀ c ∈ labelSet, ¬ OnTheWay (labelPath a.1) (labelPath c.1)) → a.2 = b.2

/-! ## Insertions -/

theorem labelPath_ne_nil (name : String) : labelPath name ≠ [] := by
  rw [labelPath]
  split
  · exact fun h => List.splitOn_ne_nil _ _ (List.map_eq_nil_iff.1 h)
  · exact List.cons_ne_nil _ _

theorem addLabel_eq_insertAt (env : Env) (label : String × String) :
    addLabel env label = insertAt label.2 (labelPath label.1) env := by
  rw [addLabel, labelPath]
  split
  · rfl
  · rw [insertAt]
    cases env (trimmed label.1) <;> rfl

theorem labelItem_path (label : String × String) : (labelItem label).1 = labelPath label.1 := by
  rw [labelItem]

theorem labelItem_value (label : String × String) : (labelItem label).2 = label.2 := by
  rw [labelItem]

theorem convertLabelSetToEnv_eq (labelSet : LabelSet) :
    convertLabelSetToEnv labelSet = insertAll (labelSet.map labelItem) := by
  have hstep : addLabel = fun env label => insertAt (labelItem label).2 (labelItem label).1 env := by
    funext env label
    rw [labelItem_path, labelItem_value, addLabel_eq_insertAt]
  rw [convertLabelSetToEnv, insertAll, List.foldl_map, hstep]

theorem labelItem_path_ne_nil (labelSet : LabelSet) :
    ∀ item ∈ labelSet.map labelItem, item.1 ≠ [] := by
  rw [List.forall_mem_map]
  intro label _
  rw [labelItem_path]
  exact labelPath_ne_nil label.1

theorem consistent_iff_labelsAgree (labelSet : LabelSet) :
    Consistent (labelSet.map labelItem) ↔ LabelsAgree labelSet := by
  simp only [Consistent, LabelsAgree, List.forall_mem_map, labelItem_path, labelItem_value]

/-- An order of the images is the image of an order. -/
theorem exists_perm_map {A B : Type} (f : A → B) {l : List A} {images : List B}
    (h : images.Perm (l.map f)) : ∃ l' : List A, l'.Perm l ∧ l'.map f = images := by
  have hsame : List.Forall₂ (fun b a => b = f a) (l.map f) l :=
    List.forall₂_map_left_iff.2 (List.forall₂_same.2 fun a _ => rfl)
  obtain ⟨l', himages, hperm⟩ := List.perm_comp_forall₂ h hsame
  refine ⟨l', hperm, ?_⟩
  have heq : List.Forall₂ Eq images (l'.map f) := List.forall₂_map_right_iff.2 himages
  rw [List.forall₂_eq_eq_eq] at heq
  exact heq.symm

theorem entry_convertLabelSetToEnv (labels : LabelSet) (path : List String) :
    ((Node.map (convertLabelSetToEnv labels)).follow path).entry =
      entryOf (labels.map labelItem) path := by
  rw [convertLabelSetToEnv_eq]
  exact entry_insertAll (labelItem_path_ne_nil labels) path

/-- What is found at the path of a label does not depend on the order. -/
theorem follow_label {labelSet labels : LabelSet} (hperm : labels.Perm labelSet)
    {label : String × String} (hlabel : label ∈ labelSet)
    (halone : ∀ other ∈ labelSet, labelPath other.1 = labelPath label.1 → other = label)
    (hlast : ∀ other ∈ labelSet, ¬ OnTheWay (labelPath label.1) (labelPath other.1)) :
    (Node.map (convertLabelSetToEnv labels)).follow (labelPath label.1) = .leaf label.2 := by
  refine Node.entry_eq_leaf.1 ?_
  have hmem : labelItem label ∈ labels.map labelItem :=
    List.mem_map_of_mem (hperm.mem_iff.2 hlabel)
  rw [entry_convertLabelSetToEnv, ← labelItem_path, ← labelItem_value]
  refine entryOf_eq_leaf_of_alone hmem (labelItem_path_ne_nil labels _ hmem) ?_ ?_
  · simp only [List.forall_mem_map, labelItem_path]
    exact fun other hother => hlast other (hperm.mem_iff.1 hother)
  · simp only [List.forall_mem_map, labelItem_path]
    intro other hother hpath
    rw [halone other (hperm.mem_iff.1 hother) hpath]

theorem follow_nested {labelSet labels : LabelSet} (hperm : labels.Perm labelSet)
    {label other : String × String} (hother : other ∈ labelSet)
    (hway : OnTheWay (labelPath label.1) (labelPath other.1)) :
    ∃ entries,
      (Node.map (convertLabelSetToEnv labels)).follow (labelPath label.1) = .map entries := by
  refine Node.entry_eq_nested.1 ?_
  rw [entry_convertLabelSetToEnv]
  have hmem : labelItem other ∈ labels.map labelItem :=
    List.mem_map_of_mem (hperm.mem_iff.2 hother)
  rw [← labelItem_path other] at hway
  exact entryOf_of_nested (Or.inr ⟨labelItem other, hmem, hway⟩)

/-- The environment of a label set is well defined if and only if labels with one path have one
value, unless a path goes on behind theirs. -/
theorem wellDefinedEnv_iff (labelSet : LabelSet) :
    WellDefinedEnv labelSet ↔ LabelsAgree labelSet := by
  rw [← consistent_iff_labelsAgree, ← insertAll_perm_iff (labelItem_path_ne_nil labelSet)]
  constructor
  · intro h items hitems
    obtain ⟨labels, hperm, rfl⟩ := exists_perm_map labelItem hitems
    rw [← convertLabelSetToEnv_eq, ← convertLabelSetToEnv_eq]
    exact h.order labels hperm
  · intro horder
    refine ⟨fun labels hperm => ?_, ?_, ?_⟩
    · rw [convertLabelSetToEnv_eq, convertLabelSetToEnv_eq]
      exact horder _ (hperm.map labelItem)
    · exact fun labels hperm label hlabel halone hlast => follow_label hperm hlabel halone hlast
    · exact fun labels hperm label _ other hother hway => follow_nested hperm hother hway

/-- Two names that differ in a space at the end: the value is that of the label which comes
last. -/
theorem trimmed_names_collide :
    ¬ WellDefinedEnv [("team", "payments"), ("team ", "platform")] := by
  intro h
  have horder := h.order [("team ", "platform"), ("team", "payments")] (List.Perm.swap _ _ _)
  have hteam : ((convertLabelSetToEnv [("team ", "platform"), ("team", "payments")]) "team").entry =
      ((convertLabelSetToEnv [("team", "payments"), ("team ", "platform")]) "team").entry := by
    rw [horder]
  revert hteam
  decide

end Signoz.Alertmanager
