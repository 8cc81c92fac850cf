import Signoz.Lib.SplitOn
import Signoz.Querier.TimeSeries

/-!
# Label sets with one key

`GetUniqueSeriesKey` writes labels with distinct names one after the other in the order of their
names (`toList_seriesKey`). Nothing is escaped, so an equals sign or a comma of a name or a value
can stand for one that the function writes. The key can be read back from the left when names have
no equals sign and values no comma, and from the right when values have no equals sign and names no
comma. Where the separators may occur in any other way there are two label sets with one key
(`seriesKey_tells_apart_iff`).
-/

namespace Signoz.Querier

open Lib.KeyedFold Lib.SplitOn

/-! ## Labels and their texts -/

/-- The key of labels whose values are strings. -/
def seriesKey (labels : List (String × String)) : String :=
  getUniqueSeriesKey (labels.map fun l => ⟨l.1, .str l.2⟩)

/-- The labels in the order of their names. -/
def byName (labels : List (String × String)) : List (String × String) :=
  labels.insertionSort fun l l' => l.1 ≤ l'.1

/-- Where the two separators of the key may occur. -/
structure Separators where
  nameEquals : Bool
  nameComma : Bool
  valueEquals : Bool
  valueComma : Bool
deriving DecidableEq, Repr

/-- The labels have separators only where they may occur. -/
def Separators.Allows (s : Separators) (labels : List (String × String)) : Prop :=
  ∀ l ∈ labels, ('=' ∈ l.1.toList → s.nameEquals = true) ∧ (',' ∈ l.1.toList → s.nameComma = true) ∧
    ('=' ∈ l.2.toList → s.valueEquals = true) ∧ (',' ∈ l.2.toList → s.valueComma = true)

/-- Names have no equals sign and values no comma, or values have no equals sign and names no
comma. -/
def Separators.Unambiguous (s : Separators) : Prop :=
  (s.nameEquals = false ∧ s.valueComma = false) ∨ (s.valueEquals = false ∧ s.nameComma = false)

instance (s : Separators) : Decidable s.Unambiguous :=
  inferInstanceAs (Decidable (_ ∨ _))

instance (s : Separators) (labels : List (String × String)) : Decidable (s.Allows labels) :=
  inferInstanceAs (Decidable (∀ l ∈ labels, _))

/-! ## The key -/

theorem map_fst_byName (labels : List (String × String)) :
    (byName labels).map Prod.fst = (labels.map Prod.fst).insertionSort (· ≤ ·) := by
  refine List.Perm.eq_of_pairwise' (r := (· ≤ ·)) ?_ (List.pairwise_insertionSort _ _) ?_
  · apply List.Pairwise.map
    · exact fun _ _ h => h
    · exact List.pairwise_insertionSort _ labels
  · exact ((List.perm_insertionSort _ labels).map Prod.fst).trans
      (List.perm_insertionSort _ _).symm

variable {labels labels' : List (String × String)}

theorem perm_iff_byName_eq (hnames : (labels.map Prod.fst).Nodup) :
    labels.Perm labels' ↔ byName labels = byName labels' := by
  have hsorted := List.perm_insertionSort (fun l l' : String × String => l.1 ≤ l'.1)
  constructor
  · intro h
    -- of the labels that both lists have, those with one name are one label
    refine List.Perm.eq_of_pairwise ?_ (List.pairwise_insertionSort _ labels)
      (List.pairwise_insertionSort _ labels')
      ((hsorted labels).trans (h.trans (hsorted labels').symm))
    intro l l' hl hl' hle hge
    apply List.inj_on_of_nodup_map hnames
    · exact (hsorted labels).mem_iff.1 hl
    · exact h.mem_iff.2 ((hsorted labels').mem_iff.1 hl')
    · exact le_antisymm hle hge
  · intro h
    have hperm : (byName labels).Perm labels' := by
      rw [h]
      exact hsorted labels'
    exact (hsorted labels).symm.trans hperm

theorem toList_foldl_append (f : String → String) (keys : List String) :
    ∀ start, (keys.foldl (fun key k => key ++ f k) start).toList =
      start.toList ++ keys.flatMap fun k => (f k).toList := by
  induction keys with
  | nil => exact fun start => (List.append_nil _).symm
  | cons k keys ih =>
    intro start
    rw [List.foldl_cons, ih, String.toList_append, List.append_assoc, List.flatMap_cons]

/-- The key from the labels that were collected by name. -/
def writeLabels (labelMap : List (String × String)) : String :=
  ((labelMap.map Prod.fst).insertionSort (· ≤ ·)).foldl
    (fun key k => key ++ (k ++ "=" ++ (labelMap.lookup k).getD "" ++ ",")) ""

theorem seriesKey_of_nodup {l l' : String × String} {rest : List (String × String)}
    (hnames : ((l :: l' :: rest).map Prod.fst).Nodup) :
    seriesKey (l :: l' :: rest) = writeLabels (l :: l' :: rest) := by
  have hkey : seriesKey (l :: l' :: rest) =
      writeLabels (accumulate id (fun _ v => v) [] (((l :: l' :: rest).map
        fun l => (⟨l.1, .str l.2⟩ : Label)).map fun l => (l.name, l.value.text))) := rfl
  have hread : (((l :: l' :: rest).map fun l => (⟨l.1, .str l.2⟩ : Label)).map
      fun l => (l.name, l.value.text)) = l :: l' :: rest := by
    rw [List.map_map]
    exact List.map_id _
  have hcollect := accumulate_of_nodup id (fun _ v : String => v) (l :: l' :: rest) [] hnames
  rw [hkey, hread, hcollect]
  exact congrArg writeLabels (List.map_id _)

/-- The labels in the order of their names, as the function writes them. -/
def writtenLabels (labels : List (String × String)) : List (List Char × List Char) :=
  (byName labels).map fun l => (l.1.toList, l.2.toList)

theorem toList_seriesKey {labels : List (String × String)} (hnames : (labels.map Prod.fst).Nodup) :
    (seriesKey labels).toList = writtenPairs '=' ',' (writtenLabels labels) := by
  have htext : ∀ name value : String, (name ++ "=" ++ value ++ ",").toList =
      name.toList ++ '=' :: (value.toList ++ [',']) := by
    intro name value
    simp [String.toList_append]
  match labels, hnames with
  | [], _ => rfl
  | [l], _ => exact (htext l.1 l.2).trans (List.append_nil _).symm
  | l :: l' :: rest, hnames =>
    rw [seriesKey_of_nodup hnames, writeLabels, toList_foldl_append, ← map_fst_byName,
      List.flatMap_map, writtenPairs, writtenLabels, List.flatMap_map]
    refine (List.nil_append _).trans (List.flatMap_congr fun label hlabel => ?_)
    have hmem : label ∈ l :: l' :: rest := (List.perm_insertionSort _ _).mem_iff.1 hlabel
    rw [(mem_iff_lookup hnames).1 hmem, Option.getD_some]
    exact htext label.1 label.2

theorem writtenLabels_inj :
    writtenLabels labels = writtenLabels labels' ↔ byName labels = byName labels' := by
  refine (List.map_injective_iff.2 fun l l' h => ?_).eq_iff
  obtain ⟨hname, hvalue⟩ := Prod.mk.inj h
  exact Prod.ext (String.toList_inj.1 hname) (String.toList_inj.1 hvalue)

theorem forall_mem_writtenLabels {labels : List (String × String)}
    {P : List Char × List Char → Prop} (h : ∀ l ∈ labels, P (l.1.toList, l.2.toList)) :
    ∀ p ∈ writtenLabels labels, P p := by
  intro p hp
  obtain ⟨l, hl, rfl⟩ := List.mem_map.1 hp
  exact h l ((List.perm_insertionSort _ labels).mem_iff.1 hl)

/-! ## Reading the key back -/

/-- Labels with separators only where they leave the key unambiguous. -/
theorem Separators.Unambiguous.writtenLabels_eq {s : Separators} (hs : s.Unambiguous)
    (h : s.Allows labels) (h' : s.Allows labels')
    (heq : writtenPairs '=' ',' (writtenLabels labels) =
      writtenPairs '=' ',' (writtenLabels labels')) :
    writtenLabels labels = writtenLabels labels' := by
  obtain ⟨hequals, hcomma⟩ | ⟨hequals, hcomma⟩ := hs
  · -- from the left: the first equals sign ends the name, the first comma behind it the value
    have hplain : ∀ {labels}, s.Allows labels →
        ∀ p ∈ writtenLabels labels, '=' ∉ p.1 ∧ ',' ∉ p.2 := by
      intro labels h
      refine forall_mem_writtenLabels fun l hl => ?_
      obtain ⟨hname, -, -, hvalue⟩ := h l hl
      rw [hequals] at hname
      rw [hcomma] at hvalue
      exact ⟨fun hmem => Bool.false_ne_true (hname hmem),
        fun hmem => Bool.false_ne_true (hvalue hmem)⟩
    exact pairs_eq_of_written (hplain h) (hplain h') heq
  · -- from the right: the last equals sign starts the value, the last comma before it the name
    have hplain : ∀ {labels}, s.Allows labels →
        ∀ p ∈ writtenLabels labels, ',' ∉ p.1 ∧ '=' ∉ p.2 := by
      intro labels h
      refine forall_mem_writtenLabels fun l hl => ?_
      obtain ⟨-, hname, hvalue, -⟩ := h l hl
      rw [hcomma] at hname
      rw [hequals] at hvalue
      exact ⟨fun hmem => Bool.false_ne_true (hname hmem),
        fun hmem => Bool.false_ne_true (hvalue hmem)⟩
    exact pairs_eq_of_written_reverse (hplain h) (hplain h') heq

theorem Separators.Unambiguous.seriesKey_eq_iff {s : Separators} (hs : s.Unambiguous)
    (hnames : (labels.map Prod.fst).Nodup) (hnames' : (labels'.map Prod.fst).Nodup)
    (h : s.Allows labels) (h' : s.Allows labels') :
    seriesKey labels = seriesKey labels' ↔ labels.Perm labels' := by
  rw [perm_iff_byName_eq hnames, ← writtenLabels_inj, ← String.toList_inj,
    toList_seriesKey hnames, toList_seriesKey hnames']
  exact ⟨hs.writtenLabels_eq h h', congrArg (writtenPairs '=' ',')⟩

/-- The key tells all label sets apart whose separators occur only where `s` has them exactly when
`s` is unambiguous. -/
theorem seriesKey_tells_apart_iff (s : Separators) :
    (∀ labels labels' : List (String × String), (labels.map Prod.fst).Nodup →
        (labels'.map Prod.fst).Nodup → s.Allows labels → s.Allows labels' →
          (seriesKey labels = seriesKey labels' ↔ labels.Perm labels')) ↔
      s.Unambiguous := by
  constructor
  · intro h
    obtain ⟨nameEquals, nameComma, valueEquals, valueComma⟩ := s
    -- two label sets with one key are no permutations of each other
    have hcollide : ∀ labels labels' : List (String × String), (labels.map Prod.fst).Nodup →
        (labels'.map Prod.fst).Nodup → seriesKey labels = seriesKey labels' →
        ¬ labels.Perm labels' →
        ¬ (Separators.Allows ⟨nameEquals, nameComma, valueEquals, valueComma⟩ labels ∧
          Separators.Allows ⟨nameEquals, nameComma, valueEquals, valueComma⟩ labels') := by
      intro labels labels' hnames hnames' hkey hperm hallows
      exact hperm ((h labels labels' hnames hnames' hallows.1 hallows.2).1 hkey)
    -- `===,`, `a=,b=,`, `a=,b=,` and `a=x,y,z=w,` have two readings each
    have hequals := hcollide [("=", "=")] [("==", "")] (by decide) (by decide) (by decide) (by decide)
    have hvalue := hcollide [("a", ""), ("b", "")] [("a", ",b=")] (by decide) (by decide) (by decide)
      (by decide)
    have hname := hcollide [("a", ""), ("b", "")] [("a=,b", "")] (by decide) (by decide) (by decide)
      (by decide)
    have hcomma := hcollide [("a", "x,y"), ("z", "w")] [("a", "x"), ("y,z", "w")] (by decide) (by decide)
      (by decide) (by decide)
    revert hequals hvalue hname hcomma
    clear hcollide h
    revert nameEquals nameComma valueEquals valueComma
    decide
  · intro hs labels labels' hnames hnames' h h'
    exact hs.seriesKey_eq_iff hnames hnames' h h'

/-- A label whose value has a comma and an equals sign, and two labels. -/
theorem comma_merges_labels :
    seriesKey [("a", "1,b=2")] = seriesKey [("a", "1"), ("b", "2")] ∧
      ¬ ∀ labels labels' : List (String × String), (labels.map Prod.fst).Nodup →
        (labels'.map Prod.fst).Nodup →
          (seriesKey labels = seriesKey labels' ↔ labels.Perm labels') := by
  have hkey : seriesKey [("a", "1,b=2")] = seriesKey [("a", "1"), ("b", "2")] := by decide
  refine ⟨hkey, fun h => ?_⟩
  have hperm := (h _ _ (by decide) (by decide)).1 hkey
  exact absurd hperm.length_eq (by decide)

/-- Values with an equals sign, as long as no name has one. -/
example : seriesKey [("a", "1=2"), ("b", "2")] ≠ seriesKey [("a", "1"), ("b", "2=2")] := by decide

end Signoz.Querier
